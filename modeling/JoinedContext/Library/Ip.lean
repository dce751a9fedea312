import JoinedContext.Library.Text
import Mathlib.Algebra.Group.Nat.Defs

/-!
# IP addresses

The addresses of the standard library: read from text, written back, and masked to a network.
-/

namespace JoinedContext

inductive IpAddr where
  | v4 (bits : BitVec 32)
  | v6 (bits : BitVec 128)
deriving DecidableEq

namespace IpAddr

/-- A reader takes a value from the front of a text and leaves the rest. -/
abbrev Reader (α : Type) := List Char → Option (α × List Char)

def digitOf (radix : Nat) (c : Char) : Option Nat :=
  let value :=
    if c.isDigit then some (c.toNat - 48)
    else if 'a' ≤ c ∧ c ≤ 'f' then some (c.toNat - 87)
    else if 'A' ≤ c ∧ c ≤ 'F' then some (c.toNat - 55)
    else none
  value.filter (· < radix)

def readNumber (radix maxDigits limit : Nat) (allowZeroPrefix : Bool) : Reader Nat := fun text =>
  let digits := text.takeWhile fun c => (digitOf radix c).isSome
  let value := (digits.filterMap (digitOf radix)).foldl (fun n d => n * radix + d) 0
  if digits = [] ∨ maxDigits < digits.length ∨ limit < value then none
  else if !allowZeroPrefix && digits.head? == some '0' && 1 < digits.length then none
  else some (value, text.drop digits.length)

/-- Every item but the first comes after the separator. -/
def readSeparator {α : Type} (separator : Char) (index : Nat) (inner : Reader α) : Reader α :=
  fun text =>
    if index = 0 then inner text
    else match text with
      | c :: rest => if c = separator then inner rest else none
      | [] => none

def readIpv4 : Reader (BitVec 32) := fun text => do
  let octet := fun i => readSeparator '.' i (readNumber 10 3 255 false)
  let (a, text) ← octet 0 text
  let (b, text) ← octet 1 text
  let (c, text) ← octet 2 text
  let (d, text) ← octet 3 text
  return (BitVec.ofNat 32 (((a * 256 + b) * 256 + c) * 256 + d), text)

/-- At most `left` groups of 16 bits, the last two also as an IPv4 address: the groups, whether
they end in one, and the rest of the text. -/
def readGroups : Nat → Nat → List Char → List Nat × Bool × List Char
  | 0, _, text => ([], false, text)
  | left + 1, i, text =>
    match if left = 0 then none else readSeparator ':' i readIpv4 text with
    | some (ip, rest) => ([ip.toNat / 65536, ip.toNat % 65536], true, rest)
    | none =>
      match readSeparator ':' i (readNumber 16 4 65535 true) text with
      | some (group, rest) =>
        let (groups, ipv4, rest) := readGroups left (i + 1) rest
        (group :: groups, ipv4, rest)
      | none => ([], false, text)

def ofGroups (groups : List Nat) : BitVec 128 :=
  BitVec.ofNat 128 (groups.foldl (fun n g => n * 65536 + g) 0)

def readIpv6 : Reader (BitVec 128) := fun text =>
  let (head, ipv4, rest) := readGroups 8 0 text
  if head.length = 8 then some (ofGroups head, rest)
  else if ipv4 then none
  else match rest with
    | ':' :: ':' :: rest =>
      let (tail, _, rest) := readGroups (7 - head.length) 0 rest
      some (ofGroups (head ++ List.replicate (8 - head.length - tail.length) 0 ++ tail), rest)
    | _ => none

def parse (text : String) : Option IpAddr :=
  match readIpv4 text.toList with
  | some (ip, []) => some (.v4 ip)
  | _ => match readIpv6 text.toList with
    | some (ip, []) => some (.v6 ip)
    | _ => none

def isIpv4 : IpAddr → Bool
  | v4 _ => true
  | v6 _ => false

/-- An IPv4-mapped IPv6 address is the IPv4 address. -/
def toCanonical : IpAddr → IpAddr
  | v4 ip => v4 ip
  | v6 ip => if ip.toNat / 4294967296 = 65535 then v4 (ip.setWidth 32) else v6 ip

/-- The address with every bit past `length` cleared. -/
def mask (address : IpAddr) (length : Nat) : IpAddr :=
  match address with
  | v4 ip => v4 (ip &&& (BitVec.allOnes 32 <<< (32 - length)))
  | v6 ip => v6 (ip &&& (BitVec.allOnes 128 <<< (128 - length)))

/-- Whether two addresses are of one family and their first bits are the same. -/
def Agrees (length : Nat) : IpAddr → IpAddr → Prop
  | v4 a, v4 b => ∀ i < length, a.getMsbD i = b.getMsbD i
  | v6 a, v6 b => ∀ i < length, a.getMsbD i = b.getMsbD i
  | _, _ => False

theorem and_shiftLeft_eq_iff {w length : Nat} (h : length ≤ w) (a b : BitVec w) :
    a &&& (BitVec.allOnes w <<< (w - length)) = b &&& (BitVec.allOnes w <<< (w - length)) ↔
      ∀ i < length, a.getMsbD i = b.getMsbD i := by
  have hkept : ∀ (x : BitVec w) i, (x &&& (BitVec.allOnes w <<< (w - length))).getMsbD i =
      (x.getMsbD i && decide (i < length)) := by
    intro x i
    rw [BitVec.getMsbD_and, BitVec.getMsbD_shiftLeft, BitVec.getMsbD_allOnes]
    congr 1
    exact decide_eq_decide.2 (by omega)
  constructor
  · intro heq i hi
    have hbit := congrArg (fun x => x.getMsbD i) heq
    simpa only [hkept, decide_eq_true hi, Bool.and_true] using hbit
  · intro hall
    refine BitVec.eq_of_getMsbD_eq fun i _ => ?_
    rw [hkept, hkept]
    by_cases hi : i < length
    · rw [hall i hi]
    · simp [hi]

/-- Two addresses of one family have one network where their first bits are the same. -/
theorem mask_eq_iff {a b : IpAddr} {length : Nat} (hlength : length ≤ if b.isIpv4 then 32 else 128) :
    a.isIpv4 = b.isIpv4 ∧ a.mask length = b.mask length ↔ a.Agrees length b := by
  cases a <;> cases b <;> simp [isIpv4, mask, Agrees] at hlength ⊢ <;>
    exact and_shiftLeft_eq_iff hlength _ _

def showIpv4 (ip : BitVec 32) : String :=
  Text.join "." ([3, 2, 1, 0].map fun i => toString (ip.toNat / 256 ^ i % 256))

def groupsOf (ip : BitVec 128) : List Nat :=
  [7, 6, 5, 4, 3, 2, 1, 0].map fun i => ip.toNat / 65536 ^ i % 65536

/-- The first of the longest runs of zero groups, as its start and its length. -/
def longestZeros (groups : List Nat) : Nat × Nat :=
  (groups.zipIdx.foldl (fun (best, current) (g, i) =>
    let current := if g = 0 then (if current.2 = 0 then i else current.1, current.2 + 1) else (0, 0)
    (if best.2 < current.2 then current else best, current)) ((0, 0), (0, 0))).1

def showGroups (groups : List Nat) : String :=
  Text.join ":" (groups.map fun g => String.ofList (Nat.toDigits 16 g))

def display : IpAddr → String
  | v4 ip => showIpv4 ip
  | v6 ip =>
    if ip.toNat / 4294967296 = 65535 then "::ffff:" ++ showIpv4 (ip.setWidth 32)
    else
      let groups := groupsOf ip
      let (start, length) := longestZeros groups
      if 1 < length then
        showGroups (groups.take start) ++ "::" ++ showGroups (groups.drop (start + length))
      else showGroups groups

example : (parse "2001:db8::1").map display = some "2001:db8::1" := by decide +kernel

end IpAddr

end JoinedContext

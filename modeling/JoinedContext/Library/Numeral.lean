import JoinedContext.Library.Text
import Mathlib.Tactic.SplitIfs

/-!
# Numbers and bytes as texts

A number written in decimals is read back (`natOf_toString`, `intOf_toString`), so two numbers have
different texts; bytes written in hexadecimal digits are read back (`unhex_hex`).
-/

namespace JoinedContext.Numeral

/-- The number of a text of digits and nothing else. -/
def digits (cs : List Char) : Option Nat :=
  if cs ≠ [] ∧ cs.all Char.isDigit then some (cs.foldl (fun n c => n * 10 + (c.toNat - 48)) 0)
  else none

/-- The number of a text, which may have a plus before its digits. -/
def natOf (s : String) : Option Nat :=
  match s.toList with
  | '+' :: rest => digits rest
  | cs => digits cs

/-- The number of a text, which may have a sign before its digits. -/
def intOf (s : String) : Option Int :=
  match s.toList with
  | '+' :: rest => (digits rest).map fun n : Nat => (n : Int)
  | '-' :: rest => (digits rest).map fun n : Nat => -(n : Int)
  | cs => (digits cs).map fun n : Nat => (n : Int)

def hexChar (n : Nat) : Char := Char.ofNat (if n < 10 then 48 + n else 87 + n)

def hex (bytes : List UInt8) : String :=
  String.ofList (bytes.flatMap fun b => [hexChar (b.toNat / 16), hexChar (b.toNat % 16)])

/-- The value of a hexadecimal digit in either case. -/
def hexValue (c : Char) : Option Nat :=
  if '0' ≤ c ∧ c ≤ '9' then some (c.toNat - 48)
  else if 'a' ≤ c ∧ c ≤ 'f' then some (c.toNat - 87)
  else if 'A' ≤ c ∧ c ≤ 'F' then some (c.toNat - 55)
  else none

def unhex : List Char → Option (List UInt8)
  | [] => some []
  | [_] => none
  | high :: low :: rest => do
    let byte := UInt8.ofNat ((← hexValue high) * 16 + (← hexValue low))
    return byte :: (← unhex rest)

/-! ## Decimals -/

variable {c : Char} {n : Nat}

theorem isDigit_of_mem_toDigits (hc : c ∈ Nat.toDigits 10 n) : c.isDigit = true :=
  Nat.isDigit_of_mem_toDigits (by omega) (by omega) hc

theorem digits_toDigits (n : Nat) : digits (Nat.toDigits 10 n) = some n := by
  have hall : (Nat.toDigits 10 n).all Char.isDigit = true :=
    List.all_eq_true.2 fun c hc => isDigit_of_mem_toDigits hc
  have hvalue : (Nat.toDigits 10 n).foldl (fun n c => n * 10 + (c.toNat - 48)) 0 = n := by
    conv_rhs => rw [← Nat.ofDigitChars_ten_toDigits (n := n), Nat.ofDigitChars_eq_foldl]
    simp only [Nat.mul_comm 10]
    rfl
  rw [digits, if_pos ⟨Nat.toDigits_ne_nil, hall⟩, hvalue]

theorem toList_toString (n : Nat) : (toString n).toList = Nat.toDigits 10 n := Nat.toList_repr

theorem notMem_toDigits (hc : c.isDigit = false) : c ∉ Nat.toDigits 10 n := fun h => by
  rw [isDigit_of_mem_toDigits h] at hc
  cases hc

/-- A number is read back from its decimals. -/
theorem natOf_toString (n : Nat) : natOf (toString n) = some n := by
  unfold natOf
  rw [toList_toString]
  split
  · next rest heq =>
    have hplus : '+' ∈ Nat.toDigits 10 n := heq ▸ List.mem_cons_self
    exact (notMem_toDigits (by decide) hplus).elim
  · exact digits_toDigits n

theorem toList_toString_int (i : Int) : (toString i).toList =
    if 0 ≤ i then Nat.toDigits 10 i.toNat else '-' :: Nat.toDigits 10 (-i).toNat := by
  rw [Int.toString_eq_repr, Int.repr_eq_if]
  split_ifs
  · exact Nat.toList_repr
  · rw [String.toList_append, Nat.toList_repr]
    rfl

theorem intOf_toString (i : Int) : intOf (toString i) = some i := by
  unfold intOf
  rw [toList_toString_int]
  by_cases hi : 0 ≤ i
  · rw [if_pos hi]
    split
    · next rest heq =>
      have hplus : '+' ∈ Nat.toDigits 10 i.toNat := heq ▸ List.mem_cons_self
      exact (notMem_toDigits (by decide) hplus).elim
    · next rest heq =>
      have hminus : '-' ∈ Nat.toDigits 10 i.toNat := heq ▸ List.mem_cons_self
      exact (notMem_toDigits (by decide) hminus).elim
    · rw [digits_toDigits, Option.map_some, Int.toNat_of_nonneg hi]
  · rw [if_neg hi]
    show (digits (Nat.toDigits 10 (-i).toNat)).map _ = _
    rw [digits_toDigits, Option.map_some, Int.toNat_of_nonneg (by omega), Int.neg_neg]

/-- What a number is written with. -/
theorem plain_of_mem_toString {n : Nat} (hc : c ∈ (toString n).toList) : c.isDigit = true := by
  rw [toList_toString] at hc
  exact isDigit_of_mem_toDigits hc

theorem plain_of_mem_toString_int {i : Int} (hc : c ∈ (toString i).toList) :
    c.isDigit = true ∨ c = '-' := by
  rw [toList_toString_int] at hc
  split_ifs at hc
  · exact Or.inl (isDigit_of_mem_toDigits hc)
  · exact (List.mem_cons.1 hc).symm.imp_left isDigit_of_mem_toDigits

/-! ## Hexadecimal digits -/

theorem hexValue_hexChar : ∀ n < 16, hexValue (hexChar n) = some n := by decide

/-- Bytes are read back from their hexadecimal digits. -/
theorem unhex_hex (bytes : List UInt8) : unhex (hex bytes).toList = some bytes := by
  rw [hex, String.toList_ofList]
  induction bytes with
  | nil => rfl
  | cons b bytes ih =>
    have hb := b.toNat_lt
    rw [List.flatMap_cons, List.cons_append, List.cons_append, List.nil_append, unhex,
      hexValue_hexChar _ (by omega), hexValue_hexChar _ (by omega), ih]
    show some (UInt8.ofNat (b.toNat / 16 * 16 + b.toNat % 16) :: bytes) = _
    rw [Nat.div_add_mod', UInt8.ofNat_toNat]

theorem isAlphanum_hexChar : ∀ n < 16, (hexChar n).isAlphanum = true := by decide

theorem plain_of_mem_hex {bytes : List UInt8} (hc : c ∈ (hex bytes).toList) :
    c.isAlphanum = true := by
  rw [hex, String.toList_ofList] at hc
  obtain ⟨b, -, hc⟩ := List.mem_flatMap.1 hc
  have hb := b.toNat_lt
  simp only [List.mem_cons, List.not_mem_nil, or_false] at hc
  rcases hc with rfl | rfl
  · exact isAlphanum_hexChar _ (by omega)
  · exact isAlphanum_hexChar _ (by omega)

end JoinedContext.Numeral

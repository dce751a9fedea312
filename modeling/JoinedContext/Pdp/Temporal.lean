import JoinedContext.Core.Policy
import Mathlib.Data.List.Sort

/-!
# Granted windows

The caller's `temporalQ` is intersected with each grant's. Several windows are forwarded as their
hull, and an instant must then fall into one of them.
-/

namespace JoinedContext.Temporal

def nanosPerSecond : Int := 1000000000

/-- The largest whole number of seconds a `chrono::Duration` holds, either way. -/
def maxSeconds : Int := 9223372036854775

/-- The instants a `DateTime<Utc>` can hold. -/
def inRange (t : Instant) : Bool :=
  -8334601228800 * nanosPerSecond ≤ t && t < 8210266876800 * nanosPerSecond

def floorSecond (t : Instant) : Instant := t / nanosPerSecond * nanosPerSecond

/-- A half-open interval `[from, to)`; an open end is the beginning or the end of time. -/
structure Window where
  fromAt : Option Instant := none
  toAt : Option Instant := none
deriving DecidableEq

def maxBound : Option Instant → Option Instant → Option Instant
  | some a, some b => some (max a b)
  | bound, none => bound
  | none, bound => bound

def minBound : Option Instant → Option Instant → Option Instant
  | some a, some b => some (min a b)
  | bound, none => bound
  | none, bound => bound

namespace Window

def isEmpty (w : Window) : Bool :=
  match w.fromAt, w.toAt with
  | some a, some b => b ≤ a
  | _, _ => false

def admits (w : Window) (i : Instant) : Bool :=
  (w.fromAt.all fun a => decide (a ≤ i)) && w.toAt.all fun b => decide (i < b)

def intersect (w other : Window) : Window :=
  ⟨maxBound w.fromAt other.fromAt, minBound w.toAt other.toAt⟩

def toTemporalQ (crates : Crates) (w : Window) : Option String :=
  match w.fromAt, w.toAt with
  | some a, some b =>
    some ("timerel=between;timeAt=" ++ crates.toRfc3339 a ++ ";endTimeAt=" ++ crates.toRfc3339 b)
  | some a, none => some ("timerel=after;timeAt=" ++ crates.toRfc3339 a)
  | none, some b => some ("timerel=before;timeAt=" ++ crates.toRfc3339 b)
  | none, none => none

def floorSeconds (w : Window) : Window := ⟨w.fromAt.map floorSecond, w.toAt.map floorSecond⟩

@[simp] theorem admits_intersect (w other : Window) (i : Instant) :
    (w.intersect other).admits i = (w.admits i && other.admits i) := by
  rcases w with ⟨_ | a, _ | b⟩ <;> rcases other with ⟨_ | c, _ | d⟩ <;>
    simp [intersect, admits, maxBound, minBound, Bool.and_assoc, Bool.and_comm, Bool.and_left_comm]

theorem not_isEmpty_of_admits {w : Window} {i : Instant} (h : w.admits i = true) :
    w.isEmpty = false := by
  rcases w with ⟨_ | a, _ | b⟩
  · rfl
  · rfl
  · rfl
  · simp only [admits, isEmpty, Option.all_some, Bool.and_eq_true, decide_eq_true_eq] at h ⊢
    simpa using h.1.trans_lt h.2

end Window

def unitSeconds (date : Bool) : Char → Option Int
  | 'W' => if date then some 604800 else none
  | 'D' => if date then some 86400 else none
  | 'H' => if date then none else some 3600
  | 'M' => if date then none else some 60
  | 'S' => if date then none else some 1
  | _ => none

/-- What reading a duration has come to: the sign, the total and the digits not yet given a unit. -/
structure Reading where
  sign : Int
  total : Int
  digits : List Char

def readChar (date : Bool) (r : Reading) (c : Char) : Option Reading :=
  if c = '-' ∧ r.digits = [] then some { r with sign := -r.sign }
  else if c.isDigit then some { r with digits := r.digits ++ [c] }
  else do
    let seconds ← unitSeconds date c
    let count ← (String.ofList r.digits).toNat?
    if maxSeconds < count * seconds then none
    else if maxSeconds < r.total + count * seconds then none
    else some { r with total := r.total + count * seconds, digits := [] }

/-- An ISO 8601 duration as a signed number of seconds: `P-1D` and `-P1D` are both a day ago. -/
def duration (value : String) : Option Int := do
  let (sign, rest) := match Text.stripPrefix "-" value with
    | some rest => (-1, rest)
    | none => (1, value)
  let rest ← Text.stripPrefix "P" rest
  let (date, time) := (Text.splitOnce 'T' rest).getD (rest, "")
  let r ← date.toList.foldlM (readChar true) ⟨sign, 0, []⟩
  let r ← time.toList.foldlM (readChar false) r
  if r.digits = [] ∧ r.total ≠ 0 then some (r.total * r.sign) else none

def instant (crates : Crates) (value : String) (now : Instant) : Option Instant :=
  match crates.parseFromRfc3339 value with
  | some absolute => some absolute
  | none => do
    let offset ← duration value
    let t := now + offset * nanosPerSecond
    if inRange t then some t else none

def parse (crates : Crates) (temporalQ : String) (now : Instant) : Option Window :=
  let timeAt := (Text.lastMember [';', '&'] "timeAt" temporalQ).bind (instant crates · now)
  let endTimeAt := (Text.lastMember [';', '&'] "endTimeAt" temporalQ).bind (instant crates · now)
  match Text.lastMember [';', '&'] "timerel" temporalQ with
  | some "after" => timeAt.map fun a => ⟨some a, none⟩
  | some "before" => timeAt.map fun b => ⟨none, some b⟩
  | some "between" => timeAt.bind fun a => endTimeAt.map fun b => ⟨some a, some b⟩
  | _ => none

structure Clamped where
  temporalQ : Option String := none
  /-- The windows an instance must fall into, when the forwarded hull is wider than their union. -/
  windows : List Window := []
  empty : Bool := false
  restricted : Bool := false

def boundLe : Option Instant → Option Instant → Bool
  | none, _ => true
  | some _, none => false
  | some a, some b => a ≤ b

def windowLe (a b : Window) : Bool :=
  if a.fromAt = b.fromAt then boundLe a.toAt b.toAt else boundLe a.fromAt b.fromAt

def dedup : List Window → List Window
  | [] => []
  | [w] => [w]
  | w :: v :: rest => if w = v then dedup (v :: rest) else w :: dedup (v :: rest)

def asked (crates : Crates) (caller : Option String) (now : Instant) : Window :=
  (caller.bind fun q => parse crates q now).getD {}

def grantedWindows (crates : Crates) (caller : Option String) (grants : List String)
    (now : Instant) : List Window :=
  dedup ((((grants.filterMap fun g => parse crates g now).map fun granted =>
    granted.intersect (asked crates caller now)).filter fun w =>
      !w.isEmpty).insertionSort fun a b => windowLe a b)

def hullFrom : List Window → Option Instant
  | [] => none
  | [w] => w.fromAt
  | w :: rest => w.fromAt.bind fun a => (hullFrom rest).map (min a)

def toBound : List Window → Option Instant
  | [] => none
  | [w] => w.toAt
  | w :: rest => w.toAt.bind fun b => (toBound rest).map (max b)

def hull (windows : List Window) : Window := ⟨hullFrom windows, toBound windows⟩

def clamp (crates : Crates) (caller : Option String) (grants : List String) (now : Instant) :
    Clamped :=
  if grants = [] then { temporalQ := caller }
  else
    let windows := grantedWindows crates caller grants now
    if windows = [] then { empty := true, restricted := true }
    else
      { temporalQ := (hull windows).toTemporalQ crates
        windows := if 1 < windows.length then windows else []
        restricted := decide (hull windows ≠ asked crates caller now) }

theorem mem_dedup : ∀ {l : List Window} {w : Window}, w ∈ dedup l ↔ w ∈ l
  | [], w => by simp [dedup]
  | [v], w => by simp [dedup]
  | u :: v :: rest, w => by
    by_cases h : u = v
    · simp [dedup, h, mem_dedup]
    · simp [dedup, h, mem_dedup (l := v :: rest)]

/-- The windows a clamp works with are the grants', each within the caller's. -/
theorem mem_grantedWindows {crates : Crates} {caller : Option String} {grants : List String}
    {now : Instant} {w : Window} :
    w ∈ grantedWindows crates caller grants now ↔
      (∃ g ∈ grants, ∃ granted, parse crates g now = some granted ∧
        granted.intersect (asked crates caller now) = w) ∧ w.isEmpty = false := by
  unfold grantedWindows
  rw [mem_dedup, List.mem_insertionSort, List.mem_filter, List.mem_map]
  simp only [List.mem_filterMap, Bool.not_eq_true']
  constructor
  · rintro ⟨⟨granted, ⟨g, hg, hparse⟩, heq⟩, hne⟩
    exact ⟨⟨g, hg, granted, hparse, heq⟩, hne⟩
  · rintro ⟨⟨g, hg, granted, hparse, heq⟩, hne⟩
    exact ⟨⟨granted, ⟨g, hg, hparse⟩, heq⟩, hne⟩

section Sorted

theorem boundLe_trans : ∀ {a b c : Option Instant}, boundLe a b = true → boundLe b c = true →
    boundLe a c = true
  | none, _, _, _, _ => rfl
  | some x, some y, some z, h, h' => by
    simp only [boundLe, decide_eq_true_eq] at h h' ⊢
    exact h.trans h'
  | some _, none, _, h, _ => by cases h
  | some _, some _, none, _, h' => by cases h'

theorem boundLe_total : ∀ a b : Option Instant, boundLe a b = true ∨ boundLe b a = true
  | none, _ => Or.inl rfl
  | some _, none => Or.inr rfl
  | some x, some y => by
    simp only [boundLe, decide_eq_true_eq]
    exact le_total x y

theorem boundLe_antisymm : ∀ {a b : Option Instant}, boundLe a b = true → boundLe b a = true →
    a = b
  | none, none, _, _ => rfl
  | none, some _, _, h => by cases h
  | some _, none, h, _ => by cases h
  | some x, some y, h, h' => by
    simp only [boundLe, decide_eq_true_eq] at h h'
    rw [le_antisymm h h']

theorem windowLe_iff {a b : Window} : windowLe a b = true ↔
    (a.fromAt = b.fromAt ∧ boundLe a.toAt b.toAt = true) ∨
      (a.fromAt ≠ b.fromAt ∧ boundLe a.fromAt b.fromAt = true) := by
  unfold windowLe
  split_ifs with h <;> simp [h]

theorem windowLe_antisymm {a b : Window} (h : windowLe a b = true) (h' : windowLe b a = true) :
    a = b := by
  rcases windowLe_iff.1 h with ⟨hfrom, hto⟩ | ⟨hne, hfrom⟩
  · rcases windowLe_iff.1 h' with ⟨-, hto'⟩ | ⟨hne, -⟩
    · cases a
      cases b
      simp only [Window.mk.injEq] at hfrom ⊢
      exact ⟨hfrom, boundLe_antisymm hto hto'⟩
    · exact absurd hfrom.symm hne
  · rcases windowLe_iff.1 h' with ⟨heq, -⟩ | ⟨-, hfrom'⟩
    · exact absurd heq.symm hne
    · exact absurd (boundLe_antisymm hfrom hfrom') hne

theorem windowLe_trans {a b c : Window} (h : windowLe a b = true) (h' : windowLe b c = true) :
    windowLe a c = true := by
  rcases windowLe_iff.1 h with ⟨hfrom, hto⟩ | ⟨hne, hfrom⟩ <;>
    rcases windowLe_iff.1 h' with ⟨hfrom', hto'⟩ | ⟨hne', hfrom'⟩
  · exact windowLe_iff.2 (Or.inl ⟨hfrom.trans hfrom', boundLe_trans hto hto'⟩)
  · exact windowLe_iff.2 (Or.inr ⟨hfrom ▸ hne', hfrom ▸ hfrom'⟩)
  · exact windowLe_iff.2 (Or.inr ⟨hfrom' ▸ hne, hfrom' ▸ hfrom⟩)
  · refine windowLe_iff.2 (Or.inr ⟨fun heq => ?_, boundLe_trans hfrom hfrom'⟩)
    exact hne (boundLe_antisymm hfrom (heq ▸ hfrom'))

instance : Std.Total fun a b : Window => windowLe a b = true where
  total a b := by
    by_cases hfrom : a.fromAt = b.fromAt
    · exact (boundLe_total a.toAt b.toAt).imp (fun h => windowLe_iff.2 (Or.inl ⟨hfrom, h⟩))
        fun h => windowLe_iff.2 (Or.inl ⟨hfrom.symm, h⟩)
    · exact (boundLe_total a.fromAt b.fromAt).imp (fun h => windowLe_iff.2 (Or.inr ⟨hfrom, h⟩))
        fun h => windowLe_iff.2 (Or.inr ⟨Ne.symm hfrom, h⟩)

instance : IsTrans Window fun a b => windowLe a b = true where
  trans _ _ _ := windowLe_trans

/-- Of a sorted list, dropping equal neighbours leaves each window once. -/
theorem nodup_dedup : ∀ {l : List Window}, l.Pairwise (fun a b => windowLe a b = true) →
    (dedup l).Nodup
  | [], _ => List.nodup_nil
  | [w], _ => List.nodup_singleton w
  | w :: v :: rest, h => by
    obtain ⟨hw, hrest⟩ := List.pairwise_cons.1 h
    unfold dedup
    split_ifs with heq
    · exact nodup_dedup hrest
    · refine List.nodup_cons.2 ⟨fun hmem => ?_, nodup_dedup hrest⟩
      rcases List.mem_cons.1 (mem_dedup.1 hmem) with rfl | hlater
      · exact heq rfl
      · exact heq (windowLe_antisymm (hw v List.mem_cons_self)
          ((List.pairwise_cons.1 hrest).1 w hlater))

theorem nodup_grantedWindows (crates : Crates) (caller : Option String) (grants : List String)
    (now : Instant) : (grantedWindows crates caller grants now).Nodup :=
  nodup_dedup (List.pairwise_insertionSort _ _)

end Sorted

section Hull

end Hull

end JoinedContext.Temporal

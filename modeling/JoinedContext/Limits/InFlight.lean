import JoinedContext.Library.Assoc
import JoinedContext.Library.Machine
import Mathlib.Algebra.Order.BigOperators.Group.List
import Mathlib.Algebra.Order.Ring.Nat
import Mathlib.Data.List.Count
import Mathlib.Tactic.Common

/-!
# The requests in flight

A request takes the total's slot, the class slots it needs besides and a place in its caller's
share, each in a step of its own, and gives them back one by one. A run interleaves the steps of
any number of requests.
-/

namespace JoinedContext.Flight

section Source

def LOADTEST_IN_FLIGHT : ℕ := 512

/-- How many slots a slow read holds, its own included. -/
def SLOW_WEIGHT : ℕ := 4

/-- The slots anonymous requests may hold. -/
def anonymousShare (total : ℕ) : ℕ := max (total / 2) 1

/-- The slots only a token holder's write may take. -/
def writeReserve (total : ℕ) : ℕ := min (max (total / 8) 1) (total - 1)

structure Class where
  anonymous : Bool
  read : Bool
  loadtest : Bool
deriving DecidableEq

inductive Refused where
  | busy
  | anonymousShare
deriving DecidableEq

/-- The semaphores of a gateway. -/
inductive Pool where
  | total
  | slow
  | reads
  | anonymous
  | anonymousSlow
deriving DecidableEq

structure InFlight where
  total : ℕ
  perCaller : ℕ
  loadtestPerCaller : ℕ
  total_pos : 0 < total
  perCaller_pos : 0 < perCaller
  loadtest_pos : 0 < loadtestPerCaller

namespace InFlight

def new (total perCaller : ℕ) : InFlight where
  total := max total 1
  perCaller := max perCaller 1
  loadtestPerCaller := LOADTEST_IN_FLIGHT
  total_pos := by omega
  perCaller_pos := by omega
  loadtest_pos := by decide

def withLoadtest (g : InFlight) (perCaller : ℕ) : InFlight :=
  { g with loadtestPerCaller := max perCaller 1, loadtest_pos := by omega }

/-- The permits a semaphore is made with. -/
def size (g : InFlight) : Pool → ℕ
  | .total => g.total
  | .slow => max (g.total / 2) SLOW_WEIGHT
  | .reads => max (g.total - writeReserve g.total) 1
  | .anonymous => anonymousShare g.total
  | .anonymousSlow => max (max (g.total / 2) SLOW_WEIGHT / 2) SLOW_WEIGHT

/-- The share of its caller a request counts against. -/
def cap (g : InFlight) (cls : Class) : ℕ :=
  if cls.loadtest then g.loadtestPerCaller else g.perCaller

end InFlight

/-- The slots a class takes, in order, and why it is refused when one is not free. -/
def slots (cls : Class) : List (Pool × Refused) :=
  let share := if cls.anonymous then Refused.anonymousShare else .busy
  (.total, .busy) :: ((if cls.anonymous then [(.anonymous, share)] else []) ++
    if cls.read || cls.anonymous then [(.reads, share)] else [])

/-- The semaphores a slow read's weight is taken from, in order. -/
def slowPools (cls : Class) : List Pool :=
  (if cls.anonymous then [.anonymousSlow] else []) ++ [.slow]

/-- Where a request is. A live ticket has its weight; while it is weighed it holds what it took of
the slow budget so far, the last taken first. -/
inductive Phase where
  | taking (rest : List (Pool × Refused))
  | live (weight : ℕ)
  | weighing (weight : ℕ) (rest : List Pool) (extra : List (Pool × ℕ))
  | unweighing (weight : ℕ) (extra : List (Pool × ℕ))
  | leaving (refused : Option Refused)
deriving DecidableEq

structure Request where
  caller : String
  cls : Class
  phase : Phase
  /-- The permits of each semaphore it holds, in the order they are given back. -/
  held : List (Pool × ℕ)
deriving DecidableEq

/-- What the requests share: the permits that are free, and each caller's count. -/
structure Shared where
  free : Pool → ℕ
  callers : List (String × ℕ)

namespace Shared

def take (sh : Shared) (pool : Pool) (n : ℕ) : Shared :=
  { sh with free := fun p => if p = pool then sh.free p - n else sh.free p }

def giveBack (sh : Shared) (pool : Pool) (n : ℕ) : Shared :=
  { sh with free := fun p => if p = pool then sh.free p + n else sh.free p }

/-- Takes a live ticket's weight out of its caller's count. -/
def drop (sh : Shared) (caller : String) (weight : ℕ) : Shared :=
  match sh.callers.lookup caller with
  | some count =>
    if count - weight = 0 then { sh with callers := Assoc.without caller sh.callers }
    else { sh with callers := Assoc.replace caller (count - weight) sh.callers }
  | none => sh

end Shared

/-- What a request may do: its next atomic step, weighing its ticket as a slow read's, or dropping
it. -/
inductive Act where
  | next
  | weigh
  | drop
deriving DecidableEq

namespace Request

/-- The next atomic step of `admit`, of `weigh`, or of giving the slots back. -/
def next (g : InFlight) (sh : Shared) (r : Request) : Shared × Request :=
  match r.phase with
  | .taking ((pool, refused) :: rest) =>
    if 1 ≤ sh.free pool then
      (sh.take pool 1, { r with phase := .taking rest, held := r.held ++ [(pool, 1)] })
    else (sh, { r with phase := .leaving (some refused) })
  | .taking [] =>
    let count := (sh.callers.lookup r.caller).getD 0
    if g.cap r.cls ≤ count then
      ({ sh with callers := Assoc.put r.caller count sh.callers },
        { r with phase := .leaving (some .busy) })
    else
      ({ sh with callers := Assoc.put r.caller (count + 1) sh.callers },
        { r with phase := .live 1 })
  | .live _ => (sh, r)
  | .weighing weight (pool :: rest) extra =>
    if SLOW_WEIGHT ≤ sh.free pool then
      (sh.take pool SLOW_WEIGHT,
        { r with phase := .weighing weight rest ((pool, SLOW_WEIGHT) :: extra) })
    else (sh, { r with phase := .unweighing weight extra })
  | .weighing weight [] extra =>
    match sh.callers.lookup r.caller with
    | none => (sh, { r with phase := .unweighing weight extra })
    | some count =>
      if g.cap r.cls < count + (SLOW_WEIGHT - weight) then
        (sh, { r with phase := .unweighing weight extra })
      else
        ({ sh with callers := Assoc.replace r.caller (count + (SLOW_WEIGHT - weight)) sh.callers },
          { r with phase := .live SLOW_WEIGHT, held := r.held ++ extra })
  | .unweighing weight ((pool, n) :: extra) =>
    (sh.giveBack pool n, { r with phase := .unweighing weight extra })
  | .unweighing weight [] => (sh, { r with phase := .live weight })
  | .leaving refused =>
    match r.held with
    | (pool, n) :: rest => (sh.giveBack pool n, { r with phase := .leaving refused, held := rest })
    | [] => (sh, r)

def act (g : InFlight) (sh : Shared) (r : Request) : Act → Shared × Request
  | .next => r.next g sh
  | .weigh =>
    match r.phase with
    | .live weight =>
      if r.cls.read then (sh, { r with phase := .weighing weight (slowPools r.cls) [] })
      else (sh, r)
    | _ => (sh, r)
  | .drop =>
    match r.phase with
    | .live weight => (sh.drop r.caller weight, { r with phase := .leaving none })
    | _ => (sh, r)

end Request

end Source

section Runs

inductive Op where
  | arrive (caller : String) (cls : Class)
  | act (i : ℕ) (a : Act)

structure State where
  shared : Shared
  requests : List Request

namespace State

def start (g : InFlight) : State := ⟨⟨g.size, []⟩, []⟩

def step (g : InFlight) (s : State) : Op → State
  | .arrive caller cls =>
    { s with requests := s.requests ++ [⟨caller, cls, .taking (slots cls), []⟩] }
  | .act i a =>
    match s.requests[i]? with
    | some r =>
      let done := r.act g s.shared a
      ⟨done.1, s.requests.set i done.2⟩
    | none => s

end State

/-- A token holder's write. -/
def Class.signedWrite (cls : Class) : Bool := !cls.anonymous && !cls.read

def permits (pool : Pool) (held : List (Pool × ℕ)) : ℕ :=
  (held.map fun e => if e.1 = pool then e.2 else 0).sum

namespace Phase

def extra : Phase → List (Pool × ℕ)
  | .weighing _ _ extra | .unweighing _ extra => extra
  | _ => []

def weight : Phase → ℕ
  | .live weight | .weighing weight _ _ | .unweighing weight _ => weight
  | _ => 0

/-- The permits a request in the phase is still to take. -/
def owes (pool : Pool) : Phase → ℕ
  | .taking rest => (rest.map fun e => if e.1 = pool then 1 else 0).sum
  | .weighing _ rest _ => (rest.map fun p => if p = pool then SLOW_WEIGHT else 0).sum
  | _ => 0

end Phase

namespace Request

/-- The permits of a semaphore a request holds. -/
def holds (pool : Pool) (r : Request) : ℕ := permits pool r.held + permits pool r.phase.extra

/-- What a request weighs on a caller's share. -/
def weightOn (caller : String) (r : Request) : ℕ := if r.caller = caller then r.phase.weight else 0

end Request

namespace State

/-- The signed writes that hold a slot of the total. -/
def writes (s : State) : ℕ :=
  s.requests.countP fun r => r.cls.signedWrite ∧ 0 < r.holds .total

/-- The other requests that hold one, with a readers' slot. -/
def readers (s : State) : ℕ :=
  s.requests.countP fun r => ¬ r.cls.signedWrite ∧ 0 < r.holds .total ∧ 0 < r.holds .reads

/-- The other requests that hold one, and no readers' slot: on the way to it, or refused one. -/
def inTransit (s : State) : ℕ :=
  s.requests.countP fun r => ¬ r.cls.signedWrite ∧ 0 < r.holds .total ∧ r.holds .reads = 0

def count (s : State) (caller : String) : ℕ := (s.shared.callers.lookup caller).getD 0

/-- Where a request is after its next step. -/
def after (g : InFlight) (s : State) (i : ℕ) : Option Phase :=
  ((s.step g (.act i .next)).requests[i]?).map Request.phase

end State

end Runs

section Requests

variable {g : InFlight} {sh : Shared} {r : Request} {a : Act} {pool : Pool} {caller : String}

@[simp] theorem permits_nil : permits pool [] = 0 := rfl

@[simp] theorem permits_cons (e : Pool × ℕ) (held : List (Pool × ℕ)) :
    permits pool (e :: held) = (if e.1 = pool then e.2 else 0) + permits pool held := by
  simp [permits]

@[simp] theorem permits_append (held more : List (Pool × ℕ)) :
    permits pool (held ++ more) = permits pool held + permits pool more := by
  simp [permits]

@[simp] theorem free_take (p : Pool) (n : ℕ) :
    (sh.take p n).free pool = if pool = p then sh.free pool - n else sh.free pool := rfl

@[simp] theorem free_giveBack (p : Pool) (n : ℕ) :
    (sh.giveBack p n).free pool = if pool = p then sh.free pool + n else sh.free pool := rfl

@[simp] theorem callers_take (p : Pool) (n : ℕ) : (sh.take p n).callers = sh.callers := rfl

@[simp] theorem callers_giveBack (p : Pool) (n : ℕ) : (sh.giveBack p n).callers = sh.callers := rfl

/-- What an act of a request keeps: a permit is free or held, and a count is of the weights. -/
structure Kept (sh : Shared) (r : Request) (sh' : Shared) (r' : Request) : Prop where
  caller : r'.caller = r.caller
  cls : r'.cls = r.cls
  permits : ∀ pool, sh'.free pool + r'.holds pool = sh.free pool + r.holds pool
  total : r'.holds .total + r'.phase.owes .total ≤ r.holds .total + r.phase.owes .total
  weight : r.phase.weight ≤ SLOW_WEIGHT → r'.phase.weight ≤ SLOW_WEIGHT
  others : ∀ caller, caller ≠ r.caller →
    sh'.callers.lookup caller = sh.callers.lookup caller
  count : r.phase.weight ≤ SLOW_WEIGHT →
    r.phase.weight ≤ (sh.callers.lookup r.caller).getD 0 →
    (sh'.callers.lookup r.caller).getD 0 + r.phase.weight =
      (sh.callers.lookup r.caller).getD 0 + r'.phase.weight
  nonzero : sh.callers.lookup r.caller ≠ some 0 → sh'.callers.lookup r.caller ≠ some 0

namespace Kept

variable {p : Phase} {held : List (Pool × ℕ)} {callers : List (String × ℕ)} {n : ℕ}

theorem refl : Kept sh r sh r where
  caller := rfl
  cls := rfl
  permits _ := rfl
  total := le_rfl
  weight h := h
  others _ _ := rfl
  count _ _ := rfl
  nonzero h := h

theorem phase (hextra : p.extra = r.phase.extra) (hweight : p.weight = r.phase.weight)
    (howes : p.owes .total ≤ r.phase.owes .total) : Kept sh r sh { r with phase := p } where
  caller := rfl
  cls := rfl
  permits pool := by simp [Request.holds, hextra]
  total := by simpa [Request.holds, hextra] using howes
  weight h := hweight.trans_le h
  others _ _ := rfl
  count _ _ := by simp [hweight]
  nonzero h := h

theorem take (hfree : n ≤ sh.free pool)
    (hholds : ∀ q, Flight.permits q held + Flight.permits q p.extra =
      r.holds q + if q = pool then n else 0)
    (hweight : p.weight = r.phase.weight)
    (howes : p.owes .total + (if .total = pool then n else 0) ≤ r.phase.owes .total) :
    Kept sh r (sh.take pool n) { r with phase := p, held := held } where
  caller := rfl
  cls := rfl
  permits q := by
    have := hholds q
    simp only [Request.holds, free_take] at this ⊢
    split_ifs at this ⊢ with hq
    · subst hq
      omega
    · omega
  total := by
    have := hholds .total
    simp only [Request.holds] at this ⊢
    omega
  weight h := hweight.trans_le h
  others _ _ := rfl
  count _ _ := by simp [hweight]
  nonzero h := h

theorem giveBack
    (hholds : ∀ q, Flight.permits q held + Flight.permits q p.extra +
      (if q = pool then n else 0) = r.holds q)
    (hweight : p.weight = r.phase.weight) (howes : p.owes .total = 0) :
    Kept sh r (sh.giveBack pool n) { r with phase := p, held := held } where
  caller := rfl
  cls := rfl
  permits q := by
    have := hholds q
    simp only [Request.holds, free_giveBack] at this ⊢
    split_ifs at this ⊢ <;> omega
  total := by
    have := hholds .total
    simp only [Request.holds, howes] at this ⊢
    omega
  weight h := hweight.trans_le h
  others _ _ := rfl
  count _ _ := by simp [hweight]
  nonzero h := h

theorem counted {free : Pool → ℕ} (hfree : free = sh.free)
    (hholds : ∀ q, Flight.permits q held + Flight.permits q p.extra = r.holds q)
    (howes : p.owes .total = 0) (hweight : p.weight ≤ SLOW_WEIGHT)
    (hothers : ∀ caller, caller ≠ r.caller → callers.lookup caller = sh.callers.lookup caller)
    (hcount : r.phase.weight ≤ SLOW_WEIGHT →
      r.phase.weight ≤ (sh.callers.lookup r.caller).getD 0 →
      (callers.lookup r.caller).getD 0 + r.phase.weight =
        (sh.callers.lookup r.caller).getD 0 + p.weight)
    (hnonzero : sh.callers.lookup r.caller ≠ some 0 → callers.lookup r.caller ≠ some 0) :
    Kept sh r ⟨free, callers⟩ { r with phase := p, held := held } where
  caller := rfl
  cls := rfl
  permits q := by
    have := hholds q
    simp only [Request.holds, hfree] at this ⊢
    omega
  total := by
    have := hholds .total
    simp only [Request.holds, howes] at this ⊢
    omega
  weight _ := hweight
  others := hothers
  count := hcount
  nonzero := hnonzero

end Kept

theorem InFlight.cap_pos (g : InFlight) (cls : Class) : 0 < g.cap cls := by
  unfold InFlight.cap
  split_ifs
  · exact g.loadtest_pos
  · exact g.perCaller_pos

theorem kept_next (g : InFlight) (sh : Shared) (r : Request) :
    Kept sh r (r.next g sh).1 (r.next g sh).2 := by
  obtain ⟨caller, cls, phase, held⟩ := r
  cases phase with
  | taking rest =>
    rcases rest with _ | ⟨⟨pool, refused⟩, rest⟩
    · have hcap := g.cap_pos cls
      simp only [Request.next]
      split_ifs with hshare
      · refine .counted rfl (fun _ => rfl) rfl (Nat.zero_le _) (fun c hc => ?_) (fun _ _ => ?_)
          fun _ => ?_
        · rw [Assoc.lookup_put, if_neg hc]
        · simp [Assoc.lookup_put, Phase.weight]
        · simp only [Assoc.lookup_put, if_true, ne_eq, Option.some.injEq]
          omega
      · refine .counted rfl (fun _ => rfl) rfl (by decide : 1 ≤ SLOW_WEIGHT) (fun c hc => ?_)
          (fun _ _ => ?_) fun _ => ?_
        · rw [Assoc.lookup_put, if_neg hc]
        · simp [Assoc.lookup_put, Phase.weight]
        · simp [Assoc.lookup_put]
    · simp only [Request.next]
      split_ifs with hfree
      · refine .take hfree (fun q => ?_) rfl ?_
        · simp [Request.holds, Phase.extra, eq_comm]
        · simp [Phase.owes, eq_comm, Nat.add_comm]
      · exact .phase rfl rfl (Nat.zero_le _)
  | live weight => exact .refl
  | weighing weight rest extra =>
    rcases rest with _ | ⟨pool, rest⟩
    · simp only [Request.next]
      cases hheld : sh.callers.lookup caller with
      | none => exact .phase rfl rfl le_rfl
      | some count =>
        simp only []
        split_ifs
        · exact .phase rfl rfl le_rfl
        · refine .counted rfl (fun q => ?_) rfl le_rfl (fun c hc => ?_) (fun hweight _ => ?_)
            fun hzero => ?_
          · simp [Request.holds, Phase.extra]
          · rw [Assoc.lookup_replace, if_neg hc]
          · simp only [Assoc.lookup_replace, if_true, hheld, Option.map_some, Option.getD_some,
              Phase.weight] at hweight ⊢
            omega
          · simp only [Assoc.lookup_replace, if_true, hheld, Option.map_some, ne_eq,
              Option.some.injEq] at hzero ⊢
            omega
    · simp only [Request.next]
      split_ifs with hfree
      · refine .take hfree (fun q => ?_) rfl ?_
        · simp [Request.holds, Phase.extra, eq_comm, Nat.add_comm, Nat.add_left_comm]
        · simp [Phase.owes, eq_comm, Nat.add_comm]
      · exact .phase rfl rfl (Nat.zero_le _)
  | unweighing weight extra =>
    rcases extra with _ | ⟨⟨pool, n⟩, extra⟩
    · exact .phase rfl rfl (Nat.zero_le _)
    · refine .giveBack (fun q => ?_) rfl rfl
      simp [Request.holds, Phase.extra, eq_comm, Nat.add_comm, Nat.add_left_comm]
  | leaving refused =>
    rcases held with _ | ⟨⟨pool, n⟩, held⟩
    · exact .refl
    · refine .giveBack (fun q => ?_) rfl rfl
      simp [Request.holds, Phase.extra, eq_comm, Nat.add_comm]

theorem kept_act (g : InFlight) (sh : Shared) (r : Request) (a : Act) :
    Kept sh r (r.act g sh a).1 (r.act g sh a).2 := by
  cases a with
  | next => exact kept_next g sh r
  | weigh =>
    obtain ⟨caller, cls, phase, held⟩ := r
    cases phase with
    | live weight =>
      simp only [Request.act]
      split_ifs
      · refine .phase rfl rfl ?_
        cases hanonymous : cls.anonymous <;> simp [slowPools, Phase.owes, hanonymous]
      · exact .refl
    | _ => exact .refl
  | drop =>
    obtain ⟨caller, cls, phase, held⟩ := r
    cases phase with
    | live weight =>
      simp only [Request.act, Shared.drop]
      cases hheld : sh.callers.lookup caller with
      | none =>
        show Kept sh _ ⟨sh.free, sh.callers⟩ _
        refine .counted rfl (fun _ => rfl) rfl (Nat.zero_le _) (fun _ _ => rfl)
          (fun _ hle => ?_) id
        simp only [hheld, Option.getD_none, Phase.weight] at hle ⊢
        omega
      | some count =>
        simp only []
        split_ifs with hlast
        · refine .counted rfl (fun _ => rfl) rfl (Nat.zero_le _) (fun c hc => ?_)
            (fun _ hle => ?_) fun _ => ?_
          · rw [Assoc.lookup_without, if_neg hc]
          · simp only [Assoc.lookup_without, if_true, hheld, Option.getD_some, Option.getD_none,
              Phase.weight] at hle ⊢
            omega
          · simp [Assoc.lookup_without]
        · refine .counted rfl (fun _ => rfl) rfl (Nat.zero_le _) (fun c hc => ?_)
            (fun _ hle => ?_) fun _ => ?_
          · rw [Assoc.lookup_replace, if_neg hc]
          · simp only [Assoc.lookup_replace, if_true, hheld, Option.map_some, Option.getD_some,
              Phase.weight] at hle ⊢
            omega
          · simpa [Assoc.lookup_replace, hheld] using hlast
    | _ => exact .refl

end Requests

section Invariant

variable {g : InFlight} {s : State} {op : Op} {i : ℕ} {r r' : Request} {caller : String}
  {f : Request → ℕ} {l : List Request}

theorem sum_set (r' : Request) (h : l[i]? = some r) :
    ((l.set i r').map f).sum + f r = (l.map f).sum + f r' := by
  obtain ⟨hi, rfl⟩ := List.getElem?_eq_some_iff.1 h
  rw [List.set_eq_take_append_cons_drop, if_pos hi]
  conv_rhs => rw [← List.take_append_drop i l, List.drop_eq_getElem_cons hi]
  simp only [List.map_append, List.map_cons, List.sum_append, List.sum_cons]
  omega

theorem le_sum (h : l[i]? = some r) : f r ≤ (l.map f).sum :=
  List.single_le_sum (fun _ _ => Nat.zero_le _) _ (List.mem_map_of_mem (List.mem_of_getElem? h))

/-- Every permit is free or held by one request, no request takes the total's slot twice, and a
caller's count is of the weights of its live tickets. -/
structure Sound (g : InFlight) (s : State) : Prop where
  permits : ∀ pool, s.shared.free pool + (s.requests.map (·.holds pool)).sum = g.size pool
  once : ∀ r ∈ s.requests, r.holds .total + r.phase.owes .total ≤ 1
  weight : ∀ r ∈ s.requests, r.phase.weight ≤ SLOW_WEIGHT
  counts : ∀ caller, s.count caller = (s.requests.map (·.weightOn caller)).sum
  nonzero : ∀ caller, s.shared.callers.lookup caller ≠ some 0

namespace Sound

theorem start (g : InFlight) : Sound g (.start g) where
  permits _ := rfl
  once := by simp [State.start]
  weight := by simp [State.start]
  counts _ := rfl
  nonzero := by simp [State.start]

theorem arrive (h : Sound g s) (caller : String) (cls : Class) :
    Sound g (s.step g (.arrive caller cls)) where
  permits pool := by
    simpa [State.step, Request.holds, Phase.extra] using h.permits pool
  once r hr := by
    rcases List.mem_append.1 hr with hr | hr
    · exact h.once r hr
    · obtain rfl := List.mem_singleton.1 hr
      rcases cls with ⟨_ | _, _ | _, _⟩ <;> exact le_rfl
  weight r hr := by
    rcases List.mem_append.1 hr with hr | hr
    · exact h.weight r hr
    · obtain rfl := List.mem_singleton.1 hr
      exact Nat.zero_le _
  counts c := by
    simpa [State.step, State.count, Request.weightOn, Phase.weight] using h.counts c
  nonzero := h.nonzero

theorem kept {sh : Shared} (h : Sound g s) (hr : s.requests[i]? = some r)
    (hkept : Kept s.shared r sh r') : Sound g ⟨sh, s.requests.set i r'⟩ := by
  have hmem := List.mem_of_getElem? hr
  have hle : r.phase.weight ≤ (s.shared.callers.lookup r.caller).getD 0 := by
    have hsum := le_sum (f := (·.weightOn r.caller)) hr
    rw [← h.counts r.caller] at hsum
    simpa [Request.weightOn, State.count] using hsum
  refine ⟨fun pool => ?_, fun q hq => ?_, fun q hq => ?_, fun c => ?_, fun c => ?_⟩
  · have hsum := sum_set (f := (·.holds pool)) r' hr
    have := h.permits pool
    have := hkept.permits pool
    simp only [] at hsum ⊢
    omega
  · rcases List.mem_or_eq_of_mem_set hq with hq | rfl
    · exact h.once q hq
    · exact hkept.total.trans (h.once r hmem)
  · rcases List.mem_or_eq_of_mem_set hq with hq | rfl
    · exact h.weight q hq
    · exact hkept.weight (h.weight r hmem)
  · have hsum := sum_set (f := (·.weightOn c)) r' hr
    have hcounts := h.counts c
    unfold State.count at hcounts ⊢
    by_cases hc : c = r.caller
    · subst hc
      have hcount := hkept.count (h.weight r hmem) hle
      have hold : r.weightOn r.caller = r.phase.weight := if_pos rfl
      have hnew : r'.weightOn r.caller = r'.phase.weight := if_pos hkept.caller
      simp only [] at hcounts ⊢
      omega
    · have hold : r.weightOn c = 0 := if_neg (Ne.symm hc)
      have hnew : r'.weightOn c = 0 := if_neg (hkept.caller ▸ Ne.symm hc)
      rw [hkept.others c hc, hcounts]
      simp only [] at hcounts ⊢
      omega
  · by_cases hc : c = r.caller
    · rw [hc]
      exact hkept.nonzero (h.nonzero _)
    · rw [hkept.others c hc]
      exact h.nonzero c

theorem step (h : Sound g s) (op : Op) : Sound g (s.step g op) := by
  cases op with
  | arrive caller cls => exact h.arrive caller cls
  | act i a =>
    simp only [State.step]
    cases hr : s.requests[i]? with
    | none => exact h
    | some r => exact h.kept hr (kept_act g s.shared r a)

theorem run (g : InFlight) (ops : List Op) : Sound g (Machine.run (State.step g) (.start g) ops) :=
  Machine.run_preserves (fun _ op h => h.step op) (start g) ops

end Sound

end Invariant

section Reserve

variable {g : InFlight} {s : State} {i : ℕ} {r : Request}

/-- A slot of the total is a signed write's, a reader's or one in transit's. -/
theorem sum_total : ∀ {l : List Request}, (∀ r ∈ l, r.holds .total ≤ 1) →
    (l.map (·.holds .total)).sum =
      l.countP (fun r => r.cls.signedWrite ∧ 0 < r.holds .total) +
        l.countP (fun r => ¬ r.cls.signedWrite ∧ 0 < r.holds .total ∧ 0 < r.holds .reads) +
        l.countP (fun r => ¬ r.cls.signedWrite ∧ 0 < r.holds .total ∧ r.holds .reads = 0)
  | [], _ => rfl
  | r :: l, h => by
    have hrest := sum_total fun q hq => h q (List.mem_cons_of_mem _ hq)
    have hone := h r List.mem_cons_self
    simp only [List.map_cons, List.sum_cons, hrest, List.countP_cons, decide_eq_true_eq]
    rcases Nat.eq_zero_or_pos (r.holds .total) with htotal | htotal
    · simp [htotal]
    · obtain htotal' : r.holds .total = 1 := by omega
      by_cases hwrite : r.cls.signedWrite = true
      · simp [hwrite, htotal']
        omega
      · rcases Nat.eq_zero_or_pos (r.holds .reads) with hreads | hreads
        · simp [hwrite, htotal', hreads]
          omega
        · simp [hwrite, htotal', hreads, hreads.ne']
          omega

theorem readers_le : ∀ {l : List Request},
    l.countP (fun r => ¬ r.cls.signedWrite ∧ 0 < r.holds .total ∧ 0 < r.holds .reads) ≤
      (l.map (·.holds .reads)).sum
  | [] => le_rfl
  | r :: l => by
    have hrest := readers_le (l := l)
    rw [List.countP_cons, List.map_cons, List.sum_cons]
    split_ifs with hreader
    · have hreads := (of_decide_eq_true hreader).2.2
      omega
    · omega

theorem slots_signedWrite {cls : Class} (h : cls.signedWrite = true) :
    slots cls = [(.total, .busy)] := by
  rcases cls with ⟨_ | _, _ | _, _⟩ <;> first | rfl | cases h

/-- What a write reserve leaves is the readers' share. -/
theorem size_reads (h : 0 < writeReserve g.total) :
    g.size .reads + writeReserve g.total = g.total := by
  simp only [InFlight.size]
  unfold writeReserve at h ⊢
  omega

/-- Where a step of a request leads it. -/
theorem after_eq (hr : s.requests[i]? = some r) :
    s.after g i = some (r.next g s.shared).2.phase := by
  have hi := (List.getElem?_eq_some_iff.1 hr).1
  simp only [State.after, State.step, hr, Request.act, List.getElem?_set_self hi, Option.map_some]

namespace Sound

/-- A signed write gets its slot when the others leave one. -/
theorem gets_iff (h : Sound g s) (hr : s.requests[i]? = some r) (hwrite : r.cls.signedWrite = true)
    (hphase : r.phase = .taking (slots r.cls)) (hfew : s.writes < writeReserve g.total) :
    s.after g i = some (.taking []) ↔
      s.inTransit < (writeReserve g.total - s.writes) + (g.size .reads - s.readers) := by
  have htotal := h.permits .total
  have hreads := h.permits .reads
  rw [sum_total fun q hq => (Nat.le_add_right _ _).trans (h.once q hq)] at htotal
  have hfree : s.shared.free .total + (s.writes + s.readers + s.inTransit) = g.total := htotal
  have hreaders : s.readers ≤ (s.requests.map (·.holds .reads)).sum := readers_le
  have hsize := size_reads (Nat.zero_lt_of_lt hfew)
  have hgets : s.after g i = some (.taking []) ↔ 1 ≤ s.shared.free .total := by
    rw [after_eq hr]
    simp only [Request.next, hphase, slots_signedWrite hwrite]
    split_ifs with hone <;> simp [hone]
  rw [hgets]
  omega

theorem lookup_callers (h : Sound g s) (caller : String) : s.shared.callers.lookup caller =
    if (s.requests.map (·.weightOn caller)).sum = 0 then none
    else some (s.requests.map (·.weightOn caller)).sum := by
  have hcounts := h.counts caller
  have hnonzero := h.nonzero caller
  unfold State.count at hcounts
  rw [← hcounts]
  cases hheld : s.shared.callers.lookup caller with
  | none => rfl
  | some count =>
    rw [hheld, ne_eq, Option.some.injEq] at hnonzero
    rw [Option.getD_some, if_neg hnonzero]

end Sound

/-- A request that holds its slots is admitted when its caller is below its share. -/
theorem after_of_lt (hr : s.requests[i]? = some r) (hphase : r.phase = .taking [])
    (hcount : s.count r.caller < g.cap r.cls) : s.after g i = some (.live 1) := by
  have hunder : ¬ g.cap r.cls ≤ (s.shared.callers.lookup r.caller).getD 0 := not_le.2 hcount
  rw [after_eq hr]
  simp only [Request.next, hphase, if_neg hunder]

/-- In every state of every interleaving, with fewer signed writes in flight than the reserve: a
signed write gets its slot exactly when the other requests between the total's slot and the
readers' are fewer than what is left of the reserve and of the readers' slots. Then it is admitted
if its caller is below its share. A caller's count is always the sum of the weights of its live
tickets, and a caller without one has no entry. -/
theorem writes_admitted_iff (g : InFlight) (ops : List Op) :
    let s := Machine.run (State.step g) (.start g) ops
    (∀ i r, s.requests[i]? = some r → r.cls.signedWrite = true → r.phase = .taking (slots r.cls) →
      s.writes < writeReserve g.total →
        (s.after g i = some (.taking []) ↔
          s.inTransit < (writeReserve g.total - s.writes) + (g.size .reads - s.readers))) ∧
    (∀ i r, s.requests[i]? = some r → r.phase = .taking [] →
      s.count r.caller < g.cap r.cls → s.after g i = some (.live 1)) ∧
    ∀ caller, s.shared.callers.lookup caller =
      if (s.requests.map (·.weightOn caller)).sum = 0 then none
      else some (s.requests.map (·.weightOn caller)).sum := by
  intro s
  have hsound : Sound g s := Sound.run g ops
  exact ⟨fun _ _ hr hwrite hphase hfew => hsound.gets_iff hr hwrite hphase hfew,
    fun _ _ hr hphase hcount => after_of_lt hr hphase hcount, hsound.lookup_callers⟩

def signedRead : Class := ⟨false, true, false⟩

def signedWrite : Class := ⟨false, false, false⟩

/-- One read in flight, one that has the last slot of the total and no readers' slot to take. -/
def crossing : List Op :=
  [.arrive "reader" signedRead, .act 0 .next, .act 0 .next, .act 0 .next,
    .arrive "other" signedRead, .act 1 .next, .arrive "writer" signedWrite]

/-- A write then finds no slot, with none in flight and its caller below its share. -/
theorem crossing_refuses :
    let s := Machine.run (State.step (.new 2 2)) (.start (.new 2 2)) crossing
    s.writes < writeReserve 2 ∧ s.count "writer" < (InFlight.new 2 2).cap signedWrite ∧
      s.requests[2]? = some ⟨"writer", signedWrite, .taking (slots signedWrite), []⟩ ∧
      s.after (.new 2 2) 2 = some (.leaving (some .busy)) := by
  decide

end Reserve

end JoinedContext.Flight

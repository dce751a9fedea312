import JoinedContext.Library.Assoc
import JoinedContext.Library.Machine
import Mathlib.Algebra.BigOperators.Group.List.Basic
import Mathlib.Algebra.Ring.Nat
import Mathlib.Data.List.Count
import Mathlib.Tactic.Common

/-!
# The creates of a day

What each Endpoint has taken on a day, and each caller's part of it. A create reserves its slot
before the broker is asked, and gives it back when the broker refuses it. Both calls hold the lock
on the callers to their end, so that a run of them is a sequence.
-/

namespace JoinedContext.Creates

section Source

def DAY : ℕ := 86400

/-- The most callers kept for one day before older days are dropped. -/
def maxCallers : ℕ := 100000

/-- Whose part of the day a refused create ran out of. -/
inductive Spent where
  | form
  | caller
deriving DecidableEq

/-- One caller's share of a day's creates: a tenth, rounded up. -/
def share (perDay : ℕ) : ℕ := max ((perDay + 9) / 10) 1

/-- Whose creates a count is of. -/
@[ext] structure Key where
  slug : String
  caller : String
deriving DecidableEq

structure DailyCreates where
  counts : List (String × ℕ × ℕ)
  callers : List (Key × ℕ × ℕ)

section Counts

variable {K : Type} [DecidableEq K]

/-- What a map counts under a key on a day. -/
def countOn (day : ℕ) (k : K) (m : List (K × ℕ × ℕ)) : ℕ :=
  match m.lookup k with
  | some (when_, n) => if when_ = day then n else 0
  | none => 0

def giveBack (day : ℕ) (k : K) (m : List (K × ℕ × ℕ)) : List (K × ℕ × ℕ) :=
  match m.lookup k with
  | some (when_, n) => if when_ = day then Assoc.replace k (when_, n - 1) m else m
  | none => m

end Counts

/-- The callers a reserve on a day finds: of that day alone when there are too many. -/
def retained (day : ℕ) (callers : List (Key × ℕ × ℕ)) : List (Key × ℕ × ℕ) :=
  if maxCallers ≤ callers.length then callers.filter fun e => e.2.1 = day else callers

namespace DailyCreates

/-- Takes one of the day's creates, or answers the seconds until midnight and whose part is
spent. -/
def reserve (c : DailyCreates) (slug caller : String) (perDay now : ℕ) :
    Except (ℕ × Spent) Unit × DailyCreates :=
  let day := now / DAY
  let wait := DAY - now % DAY
  let used := countOn day ⟨slug, caller⟩ c.callers
  if share perDay ≤ used then (.error (wait, .caller), c)
  else
    let callers := retained day c.callers
    if maxCallers ≤ callers.length ∧ callers.lookup ⟨slug, caller⟩ = none then
      (.error (wait, .form), { c with callers := callers })
    else
      let entry := (c.counts.lookup slug).getD (day, 0)
      let entry := if entry.1 ≠ day then (day, 0) else entry
      if perDay ≤ entry.2 then
        (.error (wait, .form), ⟨Assoc.put slug entry c.counts, callers⟩)
      else
        (.ok (), ⟨Assoc.put slug (entry.1, entry.2 + 1) c.counts,
          Assoc.put ⟨slug, caller⟩ (day, used + 1) callers⟩)

/-- Gives back a slot taken at `now`. -/
def release (c : DailyCreates) (slug caller : String) (now : ℕ) : DailyCreates where
  callers := giveBack (now / DAY) ⟨slug, caller⟩ c.callers
  counts := giveBack (now / DAY) slug c.counts

end DailyCreates

end Source

section Runs

/-- A slot a create took at a time. -/
structure Slot where
  slug : String
  caller : String
  now : ℕ
deriving DecidableEq

def Slot.day (slot : Slot) : ℕ := slot.now / DAY

inductive Op where
  | reserve (slot : Slot)
  | release (slot : Slot)

/-- The counts, and the slots accepted and not given back. -/
structure State where
  creates : DailyCreates
  held : List Slot

def start : State := ⟨⟨[], []⟩, []⟩

variable (perDay : String → ℕ)

/-- A reserve with its own reading of the clock, or the release of a slot that is held. -/
def State.step (s : State) : Op → State
  | .reserve slot =>
    match s.creates.reserve slot.slug slot.caller (perDay slot.slug) slot.now with
    | (.ok (), creates) => ⟨creates, slot :: s.held⟩
    | (.error _, creates) => ⟨creates, s.held⟩
  | .release slot =>
    if slot ∈ s.held then
      ⟨s.creates.release slot.slug slot.caller slot.now, s.held.erase slot⟩
    else s

def heldFor (held : List Slot) (slug : String) (day : ℕ) : ℕ :=
  held.countP fun h => h.slug = slug ∧ h.day = day

def heldBy (held : List Slot) (slug caller : String) (day : ℕ) : ℕ :=
  held.countP fun h => h.slug = slug ∧ h.caller = caller ∧ h.day = day

/-- What the callers of a slug are counted for on a day. -/
def sumOn (slug : String) (day : ℕ) (callers : List (Key × ℕ × ℕ)) : ℕ :=
  ((callers.filter fun e => e.1.slug = slug ∧ e.2.1 = day).map fun e => e.2.2).sum

/-- What is never exceeded, and how the counts add up. -/
structure Within (s : State) : Prop where
  form : ∀ slug day, heldFor s.held slug day ≤ perDay slug
  caller : ∀ slug caller day, heldBy s.held slug caller day ≤ share (perDay slug)
  sum : ∀ slug day n, s.creates.counts.lookup slug = some (day, n) →
    n = sumOn slug day s.creates.callers

/-- Whether two states count the same on every day. -/
structure SameCounts (c c' : DailyCreates) : Prop where
  counts : ∀ day slug, countOn day slug c'.counts = countOn day slug c.counts
  callers : ∀ day key, countOn day key c'.callers = countOn day key c.callers

def State.Refuses (s : State) : Op → Prop
  | .reserve slot =>
    (s.creates.reserve slot.slug slot.caller (perDay slot.slug) slot.now).1 ≠ .ok ()
  | .release _ => False

/-- Whether the form has a slot left for the caller, once other days' callers are dropped. -/
def State.HasRoom (s : State) (slot : Slot) : Prop :=
  ¬ (maxCallers ≤ (retained slot.day s.creates.callers).length ∧
      (retained slot.day s.creates.callers).lookup ⟨slot.slug, slot.caller⟩ = none) ∧
    countOn slot.day slot.slug s.creates.counts < perDay slot.slug

/-- Where a reserve, its caller having a share left, neither finds its slug counted on a later day
nor drops a count: one of the day its slug is counted on, or any for a form without room. -/
def State.OnTime (s : State) : Op → Prop
  | .reserve slot =>
    countOn slot.day ⟨slot.slug, slot.caller⟩ s.creates.callers < share (perDay slot.slug) →
    (∀ day n, s.creates.counts.lookup slot.slug = some (day, n) → day ≤ slot.day) ∧
      (maxCallers ≤ s.creates.callers.length → ∀ e ∈ s.creates.callers, e.2.1 ≠ slot.day →
        e.2.2 ≠ 0 → s.HasRoom perDay slot ∧
          ∀ n, s.creates.counts.lookup e.1.slug ≠ some (e.2.1, n))
  | .release _ => True

end Runs

section Counts

variable {K : Type} [DecidableEq K] {k a : K} {m : List (K × ℕ × ℕ)} {day d n : ℕ}

theorem lookup_giveBack : (giveBack day k m).lookup a = some (d, n) ↔
    ∃ n', m.lookup a = some (d, n') ∧ n = if a = k ∧ d = day then n' - 1 else n' := by
  unfold giveBack
  cases hk : m.lookup k with
  | none =>
    by_cases ha : a = k
    · simp [ha, hk]
    · simp [ha, eq_comm]
  | some e =>
    obtain ⟨when_, held⟩ := e
    by_cases hday : when_ = day
    · simp only [if_pos hday, Assoc.lookup_replace]
      by_cases ha : a = k
      · subst ha hday
        grind
      · simp [ha, eq_comm]
    · simp only [if_neg hday]
      by_cases ha : a = k
      · subst ha
        grind
      · simp [ha, eq_comm]

theorem countOn_put : countOn d a (Assoc.put k (day, n) m) =
    if a = k then if day = d then n else 0 else countOn d a m := by
  unfold countOn
  rw [Assoc.lookup_put]
  split_ifs <;> simp [*]

theorem countOn_of_ne (h : countOn day k m ≠ 0) (hne : d ≠ day) : countOn d k m = 0 := by
  unfold countOn at h ⊢
  cases hk : m.lookup k with
  | none => rfl
  | some e =>
    obtain ⟨when_, n⟩ := e
    simp only [hk] at h ⊢
    split_ifs at h ⊢ <;> omega

end Counts

section Held

variable {held : List Slot} {slot : Slot} {slug caller : String} {day : ℕ}

theorem heldFor_cons : heldFor (slot :: held) slug day =
    heldFor held slug day + if slot.slug = slug ∧ slot.day = day then 1 else 0 := by
  simp [heldFor, List.countP_cons]

theorem heldBy_cons : heldBy (slot :: held) slug caller day = heldBy held slug caller day +
    if slot.slug = slug ∧ slot.caller = caller ∧ slot.day = day then 1 else 0 := by
  simp [heldBy, List.countP_cons]

theorem heldFor_erase (h : slot ∈ held) : heldFor held slug day =
    heldFor (held.erase slot) slug day + if slot.slug = slug ∧ slot.day = day then 1 else 0 :=
  ((List.perm_cons_erase h).countP_eq _).trans heldFor_cons

theorem heldBy_erase (h : slot ∈ held) : heldBy held slug caller day =
    heldBy (held.erase slot) slug caller day +
      if slot.slug = slug ∧ slot.caller = caller ∧ slot.day = day then 1 else 0 :=
  ((List.perm_cons_erase h).countP_eq _).trans heldBy_cons

theorem heldFor_eq_zero : heldFor held slug day = 0 ↔
    ∀ h ∈ held, h.slug = slug → h.day ≠ day := by
  simp [heldFor]

theorem heldBy_eq_zero : heldBy held slug caller day = 0 ↔
    ∀ h ∈ held, h.slug = slug → h.caller = caller → h.day ≠ day := by
  simp [heldBy]

theorem sum_isCaller : ∀ {callers : List String},
    (callers.map fun c => if caller = c then 1 else 0).sum = callers.count caller
  | [] => rfl
  | c :: callers => by
    rw [List.map_cons, List.sum_cons, sum_isCaller, List.count_cons, Nat.add_comm]
    simp only [beq_iff_eq, @eq_comm _ c caller]

/-- What the callers listed hold is what the slug does, when all who hold a slot are listed. -/
theorem sum_heldBy {callers : List String} (hnodup : callers.Nodup)
    (hall : ∀ h ∈ held, h.slug = slug → h.day = day → h.caller ∈ callers) :
    (callers.map fun c => heldBy held slug c day).sum = heldFor held slug day := by
  induction held with
  | nil => simp [heldBy, heldFor]
  | cons slot held ih =>
    have hrest := ih fun h hh => hall h (List.mem_cons_of_mem _ hh)
    simp only [heldBy_cons, heldFor_cons, List.sum_map_add, hrest, Nat.add_left_cancel_iff]
    by_cases hslot : slot.slug = slug ∧ slot.day = day
    · have hmem := hall slot List.mem_cons_self hslot.1 hslot.2
      simp only [hslot, true_and, and_true, if_true]
      rw [sum_isCaller, List.count_eq_one_of_mem hnodup hmem]
    · rw [if_neg hslot]
      refine List.sum_eq_zero fun n hn => ?_
      obtain ⟨c, -, rfl⟩ := List.mem_map.1 hn
      exact if_neg fun h => hslot ⟨h.1, h.2.2⟩

end Held

section Sound

/-- What the counts of a run on time say of the slots held: a count of a day is of the slots of that
day, no slot is of a later day than its slug's count, and who holds a slot of that day is listed. -/
structure Sound (s : State) : Prop where
  keys : (s.creates.callers.map Prod.fst).Nodup
  form : ∀ slug day n, s.creates.counts.lookup slug = some (day, n) → n = heldFor s.held slug day
  caller : ∀ key day n, s.creates.callers.lookup key = some (day, n) →
    n = heldBy s.held key.slug key.caller day ∧
      ∃ counted m, s.creates.counts.lookup key.slug = some (counted, m) ∧ day ≤ counted
  held : ∀ h ∈ s.held, ∃ day n, s.creates.counts.lookup h.slug = some (day, n) ∧ h.day ≤ day
  listed : ∀ h ∈ s.held, ∀ n, s.creates.counts.lookup h.slug = some (h.day, n) →
    ∃ m, s.creates.callers.lookup ⟨h.slug, h.caller⟩ = some (h.day, m)

variable {s : State} {slot : Slot} {slug caller : String} {day : ℕ}

namespace Sound

theorem start : Sound start where
  keys := List.nodup_nil
  form := by simp [Creates.start]
  caller := by simp [Creates.start]
  held := by simp [Creates.start]
  listed := by simp [Creates.start]

/-- A slug not counted on a later day is counted for what is held on the day. -/
theorem countOn_counts (h : Sound s)
    (hday : ∀ d n, s.creates.counts.lookup slug = some (d, n) → d ≤ day) :
    countOn day slug s.creates.counts = heldFor s.held slug day := by
  unfold countOn
  cases hheld : s.creates.counts.lookup slug with
  | none =>
    refine (heldFor_eq_zero.2 fun slot hslot hslug => ?_).symm
    obtain ⟨d, n, hn, -⟩ := h.held slot hslot
    rw [hslug, hheld] at hn
    cases hn
  | some e =>
    obtain ⟨d, n⟩ := e
    show (if d = day then n else 0) = _
    split_ifs with hd
    · exact h.form slug day n (hd ▸ hheld)
    · refine (heldFor_eq_zero.2 fun slot hslot hslug hsame => ?_).symm
      obtain ⟨d', n', hn, hle⟩ := h.held slot hslot
      rw [hslug, hheld] at hn
      cases hn
      have := hday d n hheld
      omega

theorem countOn_callers (h : Sound s)
    (hday : ∀ d n, s.creates.counts.lookup slug = some (d, n) → d ≤ day) :
    countOn day ⟨slug, caller⟩ s.creates.callers = heldBy s.held slug caller day := by
  have hlisted : (∀ m, s.creates.callers.lookup ⟨slug, caller⟩ ≠ some (day, m)) →
      heldBy s.held slug caller day = 0 := fun hnot =>
    heldBy_eq_zero.2 fun slot hslot hslug hcaller hsame => by
      obtain ⟨d, n, hn, hle⟩ := h.held slot hslot
      have hd := hday d n (hslug ▸ hn)
      obtain rfl : d = slot.day := by omega
      obtain ⟨m, hm⟩ := h.listed slot hslot n hn
      exact hnot m (by rw [← hslug, ← hcaller, hm, hsame])
  unfold countOn
  cases hheld : s.creates.callers.lookup ⟨slug, caller⟩ with
  | none => exact (hlisted (by simp [hheld])).symm
  | some e =>
    obtain ⟨d, n⟩ := e
    simp only []
    split_ifs with hd
    · exact (h.caller _ _ _ (hd ▸ hheld)).1
    · refine (hlisted fun m hm => hd ?_).symm
      rw [hheld] at hm
      cases hm
      rfl

/-- A slug's count is the sum of its callers' counts. -/
theorem sum (h : Sound s) {n : ℕ} (hn : s.creates.counts.lookup slug = some (day, n)) :
    n = sumOn slug day s.creates.callers := by
  have hof : ∀ {e}, e ∈ s.creates.callers.filter (fun e => e.1.slug = slug ∧ e.2.1 = day) ↔
      e ∈ s.creates.callers ∧ e.1.slug = slug ∧ e.2.1 = day := by simp
  have hcount : ∀ e ∈ s.creates.callers.filter fun e => e.1.slug = slug ∧ e.2.1 = day,
      heldBy s.held slug e.1.caller day = e.2.2 := fun e he => by
    obtain ⟨hmem, rfl, rfl⟩ := hof.1 he
    exact (h.caller _ _ _ ((Assoc.lookup_eq_some_iff h.keys).2 hmem)).1.symm
  have hnodup : ((s.creates.callers.filter fun e => e.1.slug = slug ∧ e.2.1 = day).map
      fun e => e.1.caller).Nodup := by
    refine List.Nodup.map_on (fun a ha b hb heq => ?_) (h.keys.of_map.filter _)
    obtain ⟨ha, haslug, -⟩ := hof.1 ha
    obtain ⟨hb, hbslug, -⟩ := hof.1 hb
    exact List.inj_on_of_nodup_map h.keys ha hb (Key.ext_iff.2 ⟨haslug.trans hbslug.symm, heq⟩)
  have hall : ∀ h ∈ s.held, h.slug = slug → h.day = day → h.caller ∈
      (s.creates.callers.filter fun e => e.1.slug = slug ∧ e.2.1 = day).map fun e => e.1.caller := by
    rintro slot hslot rfl rfl
    obtain ⟨m, hm⟩ := h.listed slot hslot n hn
    exact List.mem_map.2 ⟨_, hof.2 ⟨Assoc.mem_of_lookup hm, rfl, rfl⟩, rfl⟩
  rw [h.form slug day n hn, ← sum_heldBy hnodup hall, List.map_map]
  exact congrArg List.sum (List.map_congr_left hcount)

/-- A count begun anew on a later day is still of a day no earlier than any its slug was. -/
theorem counted_put {counts : List (String × ℕ × ℕ)} {slug' : String} {n d : ℕ}
    (hday : ∀ d n, counts.lookup slug = some (d, n) → d ≤ day)
    (h : ∃ counted m, counts.lookup slug' = some (counted, m) ∧ d ≤ counted) :
    ∃ counted m, (Assoc.put slug (day, n) counts).lookup slug' = some (counted, m) ∧
      d ≤ counted := by
  obtain ⟨counted, m, hm, hle⟩ := h
  rw [Assoc.lookup_put]
  split_ifs with hslug
  · exact ⟨_, _, rfl, hle.trans (hday _ _ (hslug ▸ hm))⟩
  · exact ⟨_, _, hm, hle⟩

/-- What a reserve on a day drops is counted nowhere. -/
theorem retain (h : Sound s)
    (hdrop : maxCallers ≤ s.creates.callers.length → ∀ e ∈ s.creates.callers, e.2.1 ≠ day →
      e.2.2 ≠ 0 → ∀ n, s.creates.counts.lookup e.1.slug ≠ some (e.2.1, n)) :
    Sound ⟨⟨s.creates.counts, retained day s.creates.callers⟩, s.held⟩ := by
  unfold retained
  split_ifs with hfull
  · refine ⟨Assoc.nodup_filter h.keys, h.form, fun key d n hn => ?_, h.held, fun slot hslot n hn => ?_⟩
    · rw [Assoc.lookup_filter h.keys, Option.filter_eq_some_iff] at hn
      exact h.caller key d n hn.1
    · obtain ⟨m, hm⟩ := h.listed slot hslot n hn
      refine ⟨m, ?_⟩
      rw [Assoc.lookup_filter h.keys, Option.filter_eq_some_iff, decide_eq_true_eq]
      refine ⟨hm, by_contra fun hne => ?_⟩
      refine hdrop hfull _ (Assoc.mem_of_lookup hm) hne (fun hzero => ?_) n hn
      rw [(h.caller _ _ _ hm).1, heldBy_eq_zero] at hzero
      exact hzero slot hslot rfl rfl rfl
  · exact h

/-- A count begun anew, of a day no earlier than the one it replaces. -/
theorem settle (h : Sound s)
    (hday : ∀ d n, s.creates.counts.lookup slug = some (d, n) → d ≤ day) :
    Sound ⟨⟨Assoc.put slug (day, countOn day slug s.creates.counts) s.creates.counts,
      s.creates.callers⟩, s.held⟩ where
  keys := h.keys
  form slug' d n hn := by
    rw [Assoc.lookup_put] at hn
    split_ifs at hn with hslug
    · cases hn
      rw [hslug]
      exact h.countOn_counts hday
    · exact h.form slug' d n hn
  caller key d n hn := ⟨(h.caller key d n hn).1, counted_put hday (h.caller key d n hn).2⟩
  held slot hslot := counted_put hday (h.held slot hslot)
  listed slot hslot n hn := by
    simp only [Assoc.lookup_put] at hn
    split_ifs at hn with hslug
    · cases hn
      obtain ⟨d, n, hn, hle⟩ := h.held slot hslot
      have hd := hday d n (hslug ▸ hn)
      obtain rfl : d = slot.day := by omega
      exact h.listed slot hslot n hn
    · exact h.listed slot hslot n hn

theorem take (h : Sound s)
    (hday : ∀ d n, s.creates.counts.lookup slot.slug = some (d, n) → d ≤ slot.day) :
    Sound ⟨⟨Assoc.put slot.slug (slot.day, countOn slot.day slot.slug s.creates.counts + 1)
        s.creates.counts,
      Assoc.put ⟨slot.slug, slot.caller⟩
        (slot.day, countOn slot.day ⟨slot.slug, slot.caller⟩ s.creates.callers + 1)
        s.creates.callers⟩, slot :: s.held⟩ where
  keys := Assoc.nodup_put h.keys
  form slug d n hn := by
    rw [Assoc.lookup_put] at hn
    split_ifs at hn with hslug
    · cases hn
      rw [hslug, h.countOn_counts hday, heldFor_cons, if_pos ⟨rfl, rfl⟩]
    · rw [h.form slug d n hn, heldFor_cons, if_neg fun hof => hslug hof.1.symm, Nat.add_zero]
  caller key d n hn := by
    rw [Assoc.lookup_put] at hn
    split_ifs at hn with hkey
    · cases hn
      rw [hkey, h.countOn_callers hday, heldBy_cons, if_pos ⟨rfl, rfl, rfl⟩]
      exact ⟨rfl, _, _, by rw [Assoc.lookup_put, if_pos rfl], le_rfl⟩
    · obtain ⟨hcount, hcounted⟩ := h.caller key d n hn
      rw [hcount, heldBy_cons, if_neg fun hof => hkey (Key.ext_iff.2 ⟨hof.1.symm, hof.2.1.symm⟩),
        Nat.add_zero]
      exact ⟨rfl, counted_put hday hcounted⟩
  held held hheld := by
    rcases List.mem_cons.1 hheld with rfl | hheld
    · exact ⟨_, _, by rw [Assoc.lookup_put, if_pos rfl], le_rfl⟩
    · exact counted_put hday (h.held held hheld)
  listed held hheld n hn := by
    rcases List.mem_cons.1 hheld with rfl | hheld
    · exact ⟨_, by rw [Assoc.lookup_put, if_pos rfl]⟩
    · rw [Assoc.lookup_put] at hn
      by_cases hslug : held.slug = slot.slug
      · rw [if_pos hslug, Option.some.injEq, Prod.mk.injEq] at hn
        obtain ⟨d, n, hn', hle⟩ := h.held held hheld
        have hd := hday d n (hslug ▸ hn')
        obtain rfl : d = held.day := by omega
        obtain ⟨m, hm⟩ := h.listed held hheld n hn'
        rw [Assoc.lookup_put]
        split_ifs with hkey
        · exact ⟨_, by rw [hn.1]⟩
        · exact ⟨m, hm⟩
      · rw [if_neg hslug] at hn
        rw [Assoc.lookup_put, if_neg fun hkey => hslug (Key.mk.inj hkey).1]
        exact h.listed held hheld n hn

theorem giveBack (h : Sound s) (hslot : slot ∈ s.held) :
    Sound ⟨s.creates.release slot.slug slot.caller slot.now, s.held.erase slot⟩ where
  keys := by
    unfold DailyCreates.release Creates.giveBack
    simp only []
    split
    · split_ifs
      · rw [Assoc.keys_replace]
        exact h.keys
      · exact h.keys
    · exact h.keys
  form slug d n hn := by
    obtain ⟨n', hn', rfl⟩ := lookup_giveBack.1 hn
    rw [h.form slug d n' hn', heldFor_erase hslot]
    split_ifs <;> grind [Slot.day]
  caller key d n hn := by
    obtain ⟨n', hn', rfl⟩ := lookup_giveBack.1 hn
    obtain ⟨hcount, counted, m, hm, hle⟩ := h.caller key d n' hn'
    refine ⟨?_, _, _, lookup_giveBack.2 ⟨m, hm, rfl⟩, hle⟩
    obtain ⟨slug, caller⟩ := key
    rw [hcount, heldBy_erase hslot]
    split_ifs <;> grind [Slot.day]
  held held hheld := by
    obtain ⟨d, n, hn, hle⟩ := h.held held (List.mem_of_mem_erase hheld)
    exact ⟨_, _, lookup_giveBack.2 ⟨n, hn, rfl⟩, hle⟩
  listed held hheld n hn := by
    obtain ⟨n', hn', rfl⟩ := lookup_giveBack.1 hn
    obtain ⟨m, hm⟩ := h.listed held (List.mem_of_mem_erase hheld) n' hn'
    exact ⟨_, lookup_giveBack.2 ⟨m, hm, rfl⟩⟩

end Sound

end Sound

section Steps

variable {perDay : String → ℕ} {s : State} {slot : Slot} {op : Op}

theorem entry_eq (c : DailyCreates) (slug : String) (day : ℕ) :
    (if ((c.counts.lookup slug).getD (day, 0)).1 ≠ day then (day, 0)
      else (c.counts.lookup slug).getD (day, 0)) = (day, countOn day slug c.counts) := by
  unfold countOn
  cases c.counts.lookup slug with
  | none => simp
  | some e =>
    obtain ⟨when_, n⟩ := e
    by_cases hday : when_ = day
    · simp [hday]
    · simp [hday]

/-- What a reserve does: it finds the caller's share spent, the callers full, the form spent, or
takes a slot. -/
theorem step_reserve (perDay : String → ℕ) (s : State) (slot : Slot) :
    (share (perDay slot.slug) ≤
        countOn slot.day ⟨slot.slug, slot.caller⟩ s.creates.callers ∧
      s.Refuses perDay (.reserve slot) ∧ s.step perDay (.reserve slot) = s) ∨
    countOn slot.day ⟨slot.slug, slot.caller⟩ s.creates.callers < share (perDay slot.slug) ∧
      ((¬ s.HasRoom perDay slot ∧ s.Refuses perDay (.reserve slot) ∧
          s.step perDay (.reserve slot) =
            ⟨⟨s.creates.counts, retained slot.day s.creates.callers⟩, s.held⟩) ∨
        (perDay slot.slug ≤ countOn slot.day slot.slug s.creates.counts ∧
          s.Refuses perDay (.reserve slot) ∧ s.step perDay (.reserve slot) =
            ⟨⟨Assoc.put slot.slug (slot.day, countOn slot.day slot.slug s.creates.counts)
              s.creates.counts, retained slot.day s.creates.callers⟩, s.held⟩) ∨
        (countOn slot.day slot.slug s.creates.counts < perDay slot.slug ∧
          ¬ s.Refuses perDay (.reserve slot) ∧ s.step perDay (.reserve slot) =
            ⟨⟨Assoc.put slot.slug (slot.day, countOn slot.day slot.slug s.creates.counts + 1)
                s.creates.counts,
              Assoc.put ⟨slot.slug, slot.caller⟩
                (slot.day, countOn slot.day ⟨slot.slug, slot.caller⟩ s.creates.callers + 1)
                (retained slot.day s.creates.callers)⟩, slot :: s.held⟩)) := by
  unfold State.Refuses State.step DailyCreates.reserve State.HasRoom
  simp only [entry_eq, Slot.day]
  split_ifs with hshare hfull hspent
  · exact Or.inl ⟨hshare, by simp⟩
  · exact Or.inr ⟨by omega, Or.inl ⟨fun h => h.1 hfull, by simp⟩⟩
  · exact Or.inr ⟨by omega, Or.inr (Or.inl ⟨hspent, by simp⟩)⟩
  · exact Or.inr ⟨by omega, Or.inr (Or.inr ⟨by omega, by simp⟩)⟩

theorem Within.of_sound (h : Sound s)
    (hform : ∀ slug day, heldFor s.held slug day ≤ perDay slug)
    (hcaller : ∀ slug caller day, heldBy s.held slug caller day ≤ share (perDay slug)) :
    Within perDay s :=
  ⟨hform, hcaller, fun _ _ _ hn => h.sum hn⟩

theorem countOn_retained {day : ℕ} (h : Sound s)
    (hdrop : maxCallers ≤ s.creates.callers.length →
      ∀ e ∈ s.creates.callers, e.2.1 ≠ day → e.2.2 = 0) (d : ℕ) (key : Key) :
    countOn d key (retained day s.creates.callers) = countOn d key s.creates.callers := by
  unfold retained
  split_ifs with hfull
  · unfold countOn
    rw [Assoc.lookup_filter h.keys]
    cases hheld : s.creates.callers.lookup key with
    | none => rfl
    | some e =>
      by_cases hday : e.1 = day
      · simp [Option.filter_some, hday]
      · have hzero : e.2 = 0 := hdrop hfull _ (Assoc.mem_of_lookup hheld) hday
        simp [Option.filter_some, hday, hzero]
  · rfl

theorem countOn_le (h : Sound s) (hw : Within perDay s) (day : ℕ) (slug : String) :
    countOn day slug s.creates.counts ≤ perDay slug := by
  unfold countOn
  cases hheld : s.creates.counts.lookup slug with
  | none => exact Nat.zero_le _
  | some e =>
    obtain ⟨d, n⟩ := e
    have hn := h.form slug d n hheld
    have := hw.form slug d
    simp only []
    split_ifs <;> omega

theorem step_preserves (h : Sound s ∧ Within perDay s) (hon : s.OnTime perDay op) :
    Sound (s.step perDay op) ∧ Within perDay (s.step perDay op) := by
  obtain ⟨hs, hw⟩ := h
  cases op with
  | release slot =>
    unfold State.step
    simp only []
    split_ifs with hslot
    · have hs' := hs.giveBack hslot
      refine ⟨hs', .of_sound hs' (fun slug day => ?_) fun slug caller day => ?_⟩
      · have herase : heldFor s.held slug day = heldFor (s.held.erase slot) slug day + _ :=
          heldFor_erase hslot
        have := hw.form slug day
        show heldFor (s.held.erase slot) slug day ≤ perDay slug
        omega
      · have herase : heldBy s.held slug caller day =
            heldBy (s.held.erase slot) slug caller day + _ := heldBy_erase hslot
        have := hw.caller slug caller day
        show heldBy (s.held.erase slot) slug caller day ≤ share (perDay slug)
        omega
    · exact ⟨hs, hw⟩
  | reserve slot =>
    rcases step_reserve perDay s slot with
      ⟨-, -, heq⟩ | ⟨hshare, ⟨-, -, heq⟩ | ⟨-, -, heq⟩ | ⟨hform, -, heq⟩⟩
    · rw [heq]
      exact ⟨hs, hw⟩
    all_goals
      obtain ⟨hday, hdrop⟩ := hon hshare
      have hkept := hs.retain fun hfull e he hne hn => (hdrop hfull e he hne hn).2
      rw [heq]
    · exact ⟨hkept, .of_sound hkept hw.form hw.caller⟩
    · have hsettled := hkept.settle hday
      exact ⟨hsettled, .of_sound hsettled hw.form hw.caller⟩
    · have htaken := hkept.take hday
      have hused : countOn slot.day ⟨slot.slug, slot.caller⟩ s.creates.callers = _ :=
        hs.countOn_callers hday
      have hsame : countOn slot.day ⟨slot.slug, slot.caller⟩
        (retained slot.day s.creates.callers) = _ := hkept.countOn_callers hday
      rw [hsame.trans hused.symm] at htaken
      refine ⟨htaken, .of_sound htaken (fun slug day => ?_) fun slug caller day => ?_⟩
      · have := hw.form slug day
        have hcount := hs.countOn_counts hday
        show heldFor (slot :: s.held) slug day ≤ perDay slug
        rw [heldFor_cons]
        split_ifs with hof
        · obtain ⟨rfl, rfl⟩ := hof
          omega
        · omega
      · have := hw.caller slug caller day
        show heldBy (slot :: s.held) slug caller day ≤ share (perDay slug)
        rw [heldBy_cons]
        split_ifs with hof
        · obtain ⟨rfl, rfl, rfl⟩ := hof
          omega
        · omega

theorem sameCounts_of_refuses (h : Sound s ∧ Within perDay s) (hon : s.OnTime perDay op)
    (hrefuses : s.Refuses perDay op) : SameCounts s.creates (s.step perDay op).creates := by
  obtain ⟨hs, hw⟩ := h
  cases op with
  | release slot => exact hrefuses.elim
  | reserve slot =>
    rcases step_reserve perDay s slot with
      ⟨-, -, heq⟩ | ⟨hshare, ⟨hroom, -, heq⟩ | ⟨hspent, -, heq⟩ | ⟨-, htakes, -⟩⟩
    · rw [heq]
      exact ⟨fun _ _ => rfl, fun _ _ => rfl⟩
    · obtain ⟨hday, hdrop⟩ := hon hshare
      rw [heq]
      exact ⟨fun _ _ => rfl, countOn_retained hs fun hfull e he hne =>
        by_contra fun hn => hroom (hdrop hfull e he hne hn).1⟩
    · obtain ⟨hday, hdrop⟩ := hon hshare
      rw [heq]
      refine ⟨fun day slug => ?_, countOn_retained hs fun hfull e he hne =>
        by_contra fun hn => absurd (hdrop hfull e he hne hn).1.2 (by omega)⟩
      rw [countOn_put]
      split_ifs with hslug hsame
      · rw [hslug, hsame]
      · -- A count of an earlier day, begun anew, is of a form that takes none.
        subst hslug
        by_contra hcount
        have hnone := countOn_of_ne (Ne.symm hcount) hsame
        have := countOn_le hs hw day slot.slug
        omega
      · rfl
    · exact absurd hrefuses htakes

end Steps

section Budgets

variable {perDay : String → ℕ} {ops : List Op}

/-- In a run whose every step is on time, no day's budget and no caller's share is exceeded, a
slug's count is the sum of its callers', and a refused reserve changes no count. -/
theorem budgets_hold (h : Machine.Along (State.step perDay) (State.OnTime perDay) start ops) :
    (∀ before, before <+: ops → Within perDay (Machine.run (State.step perDay) start before)) ∧
      Machine.Along (State.step perDay)
        (fun s op => s.Refuses perDay op → SameCounts s.creates (s.step perDay op).creates)
        start ops := by
  have hstart : Sound start ∧ Within perDay start :=
    ⟨Sound.start, .of_sound Sound.start (fun _ _ => Nat.zero_le _) fun _ _ _ => Nat.zero_le _⟩
  have hstep : ∀ s op, Sound s ∧ Within perDay s → s.OnTime perDay op →
      Sound (s.step perDay op) ∧ Within perDay (s.step perDay op) := fun _ _ => step_preserves
  refine ⟨fun before hbefore => ?_, ?_⟩
  · obtain ⟨after, rfl⟩ := hbefore
    exact (Machine.run_preserves_of hstep hstart (Machine.along_append.1 h).1).2
  · exact (Machine.Along.with hstep hstart h).mono fun s op hs => sameCounts_of_refuses hs.1 hs.2

/-- A late create of the day before is accepted once the form counts the next day. -/
def late : List Op :=
  [.reserve ⟨"form", "x", 10 * DAY⟩, .reserve ⟨"form", "y", 11 * DAY⟩,
    .reserve ⟨"form", "z", 10 * DAY⟩]

theorem late_overspends :
    ¬ Within (fun _ => 1) (Machine.run (State.step fun _ => 1) start late) := fun h =>
  absurd (h.form "form" 10) (by decide)

theorem budgets_hold_midnight :
    Within (fun _ => 1) (Machine.run (State.step fun _ => 1) start
      [.reserve ⟨"form", "x", 10 * DAY⟩, .reserve ⟨"form", "y", 11 * DAY⟩]) := by
  have hfirst : start.OnTime (fun _ => 1) (.reserve ⟨"form", "x", 10 * DAY⟩) := fun _ =>
    ⟨by simp [start], by simp [start]⟩
  have hsecond : (start.step (fun _ => 1) (.reserve ⟨"form", "x", 10 * DAY⟩)).OnTime (fun _ => 1)
      (.reserve ⟨"form", "y", 11 * DAY⟩) := fun _ =>
    ⟨fun day n h => by
      have hcounts : [("form", 10, 1)].lookup "form" = some (day, n) := h
      cases hcounts
      decide, fun hfull => absurd hfull (by decide)⟩
  have halong : Machine.Along (State.step fun _ => 1) (State.OnTime fun _ => 1) start
      [.reserve ⟨"form", "x", 10 * DAY⟩, .reserve ⟨"form", "y", 11 * DAY⟩] :=
    ⟨hfirst, hsecond, trivial⟩
  exact (budgets_hold halong).1 _ List.prefix_rfl

end Budgets

end JoinedContext.Creates

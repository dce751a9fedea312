import Mathlib.Algebra.Order.Group.Nat
import Mathlib.Data.List.Basic
import Mathlib.Tactic.Common

/-!
# Times that come again in every period

The shortest time between two of them, read from the sorted list of those in one period: no two
are closer (`add_shortestGap_le`), and two are as close (`exists_shortestGap`).
-/

namespace JoinedContext.Periodic

/-- The shortest time from one of the times to the next, in one period or to the next's first. -/
def shortestGap (period : ℕ) (times : List ℕ) : Option ℕ := do
  let first ← times.head?
  let last ← times.getLast?
  let across := first + period - last
  return match ((times.zip times.tail).map fun pair => pair.2 - pair.1).min? with
    | some within => min within across
    | none => across

variable {period gap t t' : ℕ} {times : List ℕ}

/-- Between two times of a sorted list there is a time that comes next. -/
theorem exists_next (h : times.Pairwise (· < ·)) (ht : t ∈ times) (ht' : t' ∈ times)
    (hlt : t < t') : ∃ pair ∈ times.zip times.tail, pair.2 - pair.1 ≤ t' - t := by
  induction times with
  | nil => cases ht
  | cons first rest ih =>
    obtain ⟨hfirst, hrest⟩ := List.pairwise_cons.1 h
    cases rest with
    | nil =>
      simp only [List.mem_singleton] at ht ht'
      omega
    | cons second rest =>
      rcases List.mem_cons.1 ht with rfl | hrest'
      · refine ⟨(t, second), by simp, ?_⟩
        have hsecond : second ≤ t' := by
          rcases List.mem_cons.1 ht' with rfl | ht'
          · omega
          rcases List.mem_cons.1 ht' with rfl | ht'
          · exact le_rfl
          · exact ((List.pairwise_cons.1 hrest).1 _ ht').le
        dsimp only
        omega
      · have ht' : t' ∈ second :: rest := by
          rcases List.mem_cons.1 ht' with rfl | ht'
          · have := hfirst t hrest'
            omega
          · exact ht'
        obtain ⟨pair, hpair, hle⟩ := ih hrest hrest' ht'
        exact ⟨pair, List.mem_cons_of_mem _ hpair, hle⟩

theorem lt_of_mem_zip_tail (h : times.Pairwise (· < ·)) {pair : ℕ × ℕ}
    (hpair : pair ∈ times.zip times.tail) : pair.1 ∈ times ∧ pair.2 ∈ times ∧ pair.1 < pair.2 := by
  induction times with
  | nil => cases hpair
  | cons first rest ih =>
    obtain ⟨hfirst, hrest⟩ := List.pairwise_cons.1 h
    cases rest with
    | nil => cases hpair
    | cons second rest =>
      rcases List.mem_cons.1 hpair with rfl | hpair
      · exact ⟨by simp, by simp, hfirst _ (by simp)⟩
      · obtain ⟨hmem, hmem', hlt⟩ := ih hrest hpair
        exact ⟨List.mem_cons_of_mem _ hmem, List.mem_cons_of_mem _ hmem', hlt⟩

theorem head?_le (h : times.Pairwise (· < ·)) {first : ℕ} (hfirst : times.head? = some first)
    (ht : t ∈ times) : first ≤ t := by
  cases times with
  | nil => cases hfirst
  | cons first' rest =>
    cases hfirst
    rcases List.mem_cons.1 ht with rfl | ht
    · exact le_rfl
    · exact ((List.pairwise_cons.1 h).1 _ ht).le

theorem le_getLast? (h : times.Pairwise (· < ·)) {last : ℕ} (hlast : times.getLast? = some last)
    (ht : t ∈ times) : t ≤ last := by
  obtain ⟨front, rfl⟩ := List.getLast?_eq_some_iff.1 hlast
  rcases List.mem_append.1 ht with ht | ht
  · exact ((List.pairwise_append.1 h).2.2 t ht last (by simp)).le
  · exact (List.mem_singleton.1 ht).le

theorem shortestGap_isSome (h : times ≠ []) : (shortestGap period times).isSome = true := by
  obtain ⟨first, rest, rfl⟩ := List.exists_cons_of_ne_nil h
  obtain ⟨last, hlast⟩ : ∃ last, (first :: rest).getLast? = some last :=
    ⟨_, List.getLast?_eq_some_getLast (List.cons_ne_nil _ _)⟩
  simp [shortestGap, hlast]

theorem shortestGap_eq_some {first last : ℕ} (hfirst : times.head? = some first)
    (hlast : times.getLast? = some last) (h : shortestGap period times = some gap) :
    gap ≤ first + period - last ∧ (∀ pair ∈ times.zip times.tail, gap ≤ pair.2 - pair.1) ∧
      (gap = first + period - last ∨ ∃ pair ∈ times.zip times.tail, gap = pair.2 - pair.1) := by
  rw [shortestGap, hfirst, hlast] at h
  cases hmin : ((times.zip times.tail).map fun pair => pair.2 - pair.1).min? with
  | none =>
    rw [List.min?_eq_none_iff, List.map_eq_nil_iff] at hmin
    simp only [hmin, List.map_nil, Option.bind_eq_bind, Option.bind_some] at h
    cases h
    exact ⟨le_rfl, by simp [hmin], Or.inl rfl⟩
  | some within =>
    simp only [hmin, Option.bind_eq_bind, Option.bind_some] at h
    cases h
    obtain ⟨hmem, hle⟩ := List.min?_eq_some_iff.1 hmin
    obtain ⟨pair, hpair, rfl⟩ := List.mem_map.1 hmem
    refine ⟨min_le_right _ _, fun pair' hpair' =>
      (min_le_left _ _).trans (hle _ (List.mem_map_of_mem hpair')), ?_⟩
    rcases min_choice (pair.2 - pair.1) (first + period - last) with hchoice | hchoice
    · exact Or.inr ⟨pair, hpair, hchoice⟩
    · exact Or.inl hchoice

theorem exists_ends (h : shortestGap period times = some gap) : ∃ first last,
    times.head? = some first ∧ times.getLast? = some last := by
  cases times with
  | nil => cases h
  | cons first rest => exact ⟨first, _, rfl, List.getLast?_eq_some_getLast (List.cons_ne_nil _ _)⟩

/-- No two times are closer, in one period or in two. -/
theorem add_shortestGap_le (hsorted : times.Pairwise (· < ·)) (hlt : ∀ t ∈ times, t < period)
    (h : shortestGap period times = some gap) (ht : t % period ∈ times) (ht' : t' % period ∈ times)
    (hbefore : t < t') : t + gap ≤ t' := by
  obtain ⟨first, last, hfirst, hlast⟩ := exists_ends h
  obtain ⟨hacross, hwithin, -⟩ := shortestGap_eq_some hfirst hlast h
  have hdiv := Nat.div_add_mod t period
  have hdiv' := Nat.div_add_mod t' period
  rcases Nat.lt_trichotomy (t / period) (t' / period) with hday | hday | hday
  · have hnext : period * (t / period) + period ≤ period * (t' / period) := by
      rw [← Nat.mul_succ]
      exact Nat.mul_le_mul_left _ hday
    have := head?_le hsorted hfirst ht'
    have := le_getLast? hsorted hlast ht
    omega
  · obtain ⟨pair, hpair, hle⟩ := exists_next hsorted ht ht' (by rw [hday] at hdiv; omega)
    have := hwithin pair hpair
    rw [hday] at hdiv
    omega
  · have := Nat.mul_le_mul_left period hday
    rw [Nat.mul_succ] at this
    have := hlt _ ht'
    omega

/-- Two times are as close, in one period or across the end of one. -/
theorem exists_shortestGap (hsorted : times.Pairwise (· < ·)) (hlt : ∀ t ∈ times, t < period)
    (h : shortestGap period times = some gap) : ∃ t ∈ times, ∃ t' ∈ times,
      t + gap = t' ∨ t + gap = period + t' := by
  obtain ⟨first, last, hfirst, hlast⟩ := exists_ends h
  obtain ⟨-, -, rfl | ⟨pair, hpair, rfl⟩⟩ := shortestGap_eq_some hfirst hlast h
  · have hmem := List.mem_of_getLast? hlast
    have := hlt last hmem
    exact ⟨last, hmem, first, List.mem_of_head? hfirst, Or.inr (by omega)⟩
  · obtain ⟨hmem, hmem', hpair⟩ := lt_of_mem_zip_tail hsorted hpair
    exact ⟨pair.1, hmem, pair.2, hmem', Or.inl (by omega)⟩

end JoinedContext.Periodic

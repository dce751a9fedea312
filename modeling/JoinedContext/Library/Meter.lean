import JoinedContext.Library.Machine
import Mathlib.Algebra.Order.Field.Basic
import Mathlib.Tactic.Linarith
import Mathlib.Tactic.Ring

/-!
# Metered charges

A meter holds what may still be charged: it fills at a rate, up to a capacity, and a charge takes
from what it holds. A run then charges, inside any interval of time, no more than the capacity and
what the interval fills.
-/

namespace JoinedContext.Meter

variable {R S I : Type} [Field R]

/-- What the operations of a run are charged, together. -/
def total (step : S → I → S) (charge : S → I → R) : S → List I → R
  | _, [] => 0
  | s, op :: ops => charge s op + total step charge (step s op) ops

section Total

variable {step : S → I → S} {charge charge' : S → I → R} {s : S} {op : I} {ops : List I}

@[simp] theorem total_cons : total step charge s (op :: ops) =
    charge s op + total step charge (step s op) ops := rfl

theorem total_add (ops : List I) (s : S) :
    total step (fun s op => charge s op + charge' s op) s ops =
      total step charge s ops + total step charge' s ops := by
  induction ops generalizing s with
  | nil => simp [total]
  | cons op ops ih =>
    rw [total_cons, total_cons, total_cons, ih]
    ring

theorem total_append (ops more : List I) (s : S) : total step charge s (ops ++ more) =
    total step charge s ops + total step charge (Machine.run step s ops) more := by
  induction ops generalizing s with
  | nil => simp [total]
  | cons op ops ih =>
    rw [List.cons_append, total_cons, total_cons, ih, Machine.run_cons]
    ring

end Total

variable [LinearOrder R]

/-- The charges made inside an interval of time. -/
def within (time : I → R) (t₁ t₂ : R) (charge : S → I → R) (s : S) (op : I) : R :=
  if t₁ ≤ time op ∧ time op ≤ t₂ then charge s op else 0

/-- Whether a level meters the charges of a machine: `good t s` says that the state's last
operation was no later than `t`. -/
structure Metered (step : S → I → S) (time : I → R) (good : R → S → Prop) (level : S → R → R)
    (charge : S → I → R) (capacity rate : R) : Prop where
  rate_nonneg : 0 ≤ rate
  nonneg : ∀ {t s}, good t s → 0 ≤ level s t
  le_capacity : ∀ {t s}, good t s → level s t ≤ capacity
  later : ∀ {t u s}, good t s → t ≤ u → good u s
  fills : ∀ {t u s}, good t s → t ≤ u → level s u ≤ level s t + rate * (u - t)
  moves : ∀ {s op}, good (time op) s → good (time op) (step s op)
  charge_nonneg : ∀ {s op}, 0 ≤ charge s op
  charged : ∀ {s op}, good (time op) s →
    level (step s op) (time op) + charge s op ≤ level s (time op)

variable {step : S → I → S} {time : I → R} {good : R → S → Prop} {level : S → R → R}
  {charge charge' : S → I → R} {capacity rate t t₁ t₂ : R} {s : S} {op : I} {ops : List I}

theorem within_of_lt (h : time op < t₁) : within time t₁ t₂ charge s op = 0 :=
  if_neg fun hin => absurd hin.1 (not_le.2 h)

theorem within_of_gt (h : t₂ < time op) : within time t₁ t₂ charge s op = 0 :=
  if_neg fun hin => absurd hin.2 (not_le.2 h)

theorem within_le (h : 0 ≤ charge s op) : within time t₁ t₂ charge s op ≤ charge s op := by
  unfold within
  split_ifs
  · exact le_rfl
  · exact h

theorem within_add : within time t₁ t₂ (fun s op => charge s op + charge' s op) s op =
    within time t₁ t₂ charge s op + within time t₁ t₂ charge' s op := by
  unfold within
  split_ifs
  · rfl
  · exact (add_zero _).symm

theorem within_mono (h : charge s op ≤ charge' s op) :
    within time t₁ t₂ charge s op ≤ within time t₁ t₂ charge' s op := by
  unfold within
  split_ifs
  · exact h
  · exact le_rfl

theorem total_within_of_lt : ∀ {ops : List I} {s : S}, (∀ op ∈ ops, time op < t₁) →
    total step (within time t₁ t₂ charge) s ops = 0
  | [], _, _ => rfl
  | op :: ops, s, h => by
    rw [total_cons, within_of_lt (h op List.mem_cons_self), zero_add,
      total_within_of_lt fun op hop => h op (List.mem_cons_of_mem _ hop)]

theorem total_within_of_gt : ∀ {ops : List I} {s : S}, (∀ op ∈ ops, t₂ < time op) →
    total step (within time t₁ t₂ charge) s ops = 0
  | [], _, _ => rfl
  | op :: ops, s, h => by
    rw [total_cons, within_of_gt (h op List.mem_cons_self), zero_add,
      total_within_of_gt fun op hop => h op (List.mem_cons_of_mem _ hop)]

section Ordered

variable [IsStrictOrderedRing R]

/-- A charge no greater at any step of a run is no greater over the run. -/
theorem total_le_total : ∀ {ops : List I} {s : S},
    Machine.Along step (fun s op => charge s op ≤ charge' s op) s ops →
      total step charge s ops ≤ total step charge' s ops
  | [], _, _ => le_rfl
  | _ :: _, _, h => add_le_add h.1 (total_le_total h.2)

namespace Metered

variable (h : Metered step time good level charge capacity rate)
include h

/-- From a time on, a run is charged what the meter holds then and what fills it after. -/
theorem total_le_level : ∀ {ops : List I} {s : S} {t : R}, good t s → t ≤ t₂ →
    (∀ op ∈ ops, t ≤ time op) → (ops.map time).Pairwise (· ≤ ·) →
      total step (within time t₁ t₂ charge) s ops ≤ level s t + rate * (t₂ - t)
  | [], s, t, hgood, ht, _, _ => by
    have := h.nonneg hgood
    have := mul_nonneg h.rate_nonneg (sub_nonneg.2 ht)
    show (0 : R) ≤ _
    linarith
  | op :: ops, s, t, hgood, ht, hfrom, hsorted => by
    rw [List.map_cons, List.pairwise_cons] at hsorted
    have hafter : ∀ op' ∈ ops, time op ≤ time op' := fun op' hop' =>
      hsorted.1 _ (List.mem_map_of_mem hop')
    have hop := hfrom op List.mem_cons_self
    rcases lt_or_ge t₂ (time op) with hgt | hle
    · rw [total_cons, within_of_gt hgt, zero_add,
        total_within_of_gt fun op' hop' => hgt.trans_le (hafter op' hop')]
      have := h.nonneg hgood
      have := mul_nonneg h.rate_nonneg (sub_nonneg.2 ht)
      linarith
    · have hnow := h.later hgood hop
      calc total step (within time t₁ t₂ charge) s (op :: ops)
          ≤ charge s op + (level (step s op) (time op) + rate * (t₂ - time op)) :=
            add_le_add (within_le h.charge_nonneg)
              (total_le_level (h.moves hnow) hle hafter hsorted.2)
        _ ≤ level s (time op) + rate * (t₂ - time op) := by
            have := h.charged hnow
            linarith
        _ ≤ level s t + rate * (time op - t) + rate * (t₂ - time op) :=
            add_le_add_left (h.fills hgood hop) _
        _ = level s t + rate * (t₂ - t) := by ring

/-- Inside an interval a run is charged no more than the capacity and what the interval fills. -/
theorem total_le : ∀ {ops : List I} {s : S} {t : R}, good t s → t₁ ≤ t₂ →
    (∀ op ∈ ops, t ≤ time op) → (ops.map time).Pairwise (· ≤ ·) →
      total step (within time t₁ t₂ charge) s ops ≤ capacity + rate * (t₂ - t₁)
  | [], s, t, hgood, h12, _, _ => by
    have := (h.nonneg hgood).trans (h.le_capacity hgood)
    have := mul_nonneg h.rate_nonneg (sub_nonneg.2 h12)
    show (0 : R) ≤ _
    linarith
  | op :: ops, s, t, hgood, h12, hfrom, hsorted => by
    have hnow := h.later hgood (hfrom op List.mem_cons_self)
    have hafter := List.pairwise_cons.1 (List.map_cons ▸ hsorted)
    rcases lt_or_ge (time op) t₁ with hlt | hge
    · rw [total_cons, within_of_lt hlt, zero_add]
      exact total_le (h.moves hnow) h12
        (fun op' hop' => hafter.1 _ (List.mem_map_of_mem hop')) hafter.2
    rcases lt_or_ge t₂ (time op) with hgt | hle
    · rw [total_within_of_gt fun op' hop' => ?_]
      · have := (h.nonneg hgood).trans (h.le_capacity hgood)
        have := mul_nonneg h.rate_nonneg (sub_nonneg.2 h12)
        linarith
      · rcases List.mem_cons.1 hop' with rfl | hop'
        · exact hgt
        · exact hgt.trans_le (hafter.1 _ (List.mem_map_of_mem hop'))
    · calc total step (within time t₁ t₂ charge) s (op :: ops)
          ≤ level s (time op) + rate * (t₂ - time op) := by
            refine h.total_le_level hnow hle (fun op' hop' => ?_) hsorted
            rcases List.mem_cons.1 hop' with rfl | hop'
            · exact le_rfl
            · exact hafter.1 _ (List.mem_map_of_mem hop')
        _ ≤ capacity + rate * (t₂ - t₁) :=
            add_le_add (h.le_capacity hnow)
              (mul_le_mul_of_nonneg_left (sub_le_sub_left hge t₂) h.rate_nonneg)

end Metered

end Ordered

end JoinedContext.Meter

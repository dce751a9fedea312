import Mathlib.Data.List.Basic

/-!
# Maps over lists

When a map leaves a list as it is, when two partial maps leave the same of it, and what a filter
takes of the lists of a list.
-/

namespace JoinedContext

variable {α β : Type}

theorem filterMap_eq_self {f : α → Option α} {l : List α} (h : ∀ a ∈ l, f a = some a) :
    l.filterMap f = l :=
  (List.filterMap_congr h).trans List.filterMap_some

theorem map_eq_self {f : α → α} {l : List α} (h : ∀ a ∈ l, f a = a) : l.map f = l :=
  (List.map_congr_left h).trans (List.map_id l)

/-- Two partial maps that drop the same elements leave the same only where they map alike. -/
theorem filterMap_inj {f g : α → Option β} : ∀ {l : List α},
    (∀ a ∈ l, f a = none ↔ g a = none) → (l.filterMap f = l.filterMap g ↔ ∀ a ∈ l, f a = g a)
  | [], _ => by simp
  | a :: rest, h => by
    rw [List.forall_mem_cons] at h ⊢
    rw [List.filterMap_cons, List.filterMap_cons, ← filterMap_inj h.2]
    rcases hf : f a with _ | v <;> rcases hg : g a with _ | w <;> simp [hf, hg] at h ⊢

theorem flatMap_filter {p : α → Bool} {f g : α → List β} : ∀ {l : List α},
    (∀ a ∈ l, p a = true → g a = f a) → (∀ a ∈ l, p a = false → g a = []) →
      (l.filter p).flatMap f = l.flatMap g
  | [], _, _ => rfl
  | a :: l, hpos, hneg => by
    have ih := flatMap_filter (l := l) (fun b hb => hpos b (List.mem_cons_of_mem _ hb))
      fun b hb => hneg b (List.mem_cons_of_mem _ hb)
    rcases hp : p a with _ | _
    · rw [List.filter_cons_of_neg (by simp [hp]), List.flatMap_cons, hneg a (by simp) hp, ih,
        List.nil_append]
    · rw [List.filter_cons_of_pos hp, List.flatMap_cons, List.flatMap_cons, hpos a (by simp) hp, ih]

end JoinedContext

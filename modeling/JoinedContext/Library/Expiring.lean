import Mathlib.Data.List.DropRight
import Mathlib.Tactic.Common

/-!
# Queues of items that expire

At most `cap` items are held, the oldest first. What is expired goes when an item comes, and then
the oldest makes room. As long as items come in the order they expire in, what is alive of the queue
is what is alive of the last `cap` items that came.
-/

namespace JoinedContext.Expiring

variable {α : Type} (expires : α → ℕ)

section Source

def live (now : ℕ) (items : List α) : List α := items.filter fun x => now < expires x

def push (cap now : ℕ) (items : List α) (x : α) : List α :=
  (if cap ≤ (live expires now items).length then (live expires now items).tail
    else live expires now items) ++ [x]

end Source

variable {expires} {cap now later : ℕ} {items all : List α} {x : α}

theorem live_live (h : now ≤ later) :
    live expires later (live expires now items) = live expires later items := by
  unfold live
  rw [List.filter_filter]
  refine List.filter_congr fun x _ => ?_
  rw [← Bool.decide_and, decide_eq_decide]
  exact ⟨fun hx => hx.1, fun hx => ⟨hx, h.trans_lt hx⟩⟩

theorem length_live_le : (live expires now items).length ≤ items.length := List.length_filter_le ..

theorem live_append {more : List α} :
    live expires now (items ++ more) = live expires now items ++ live expires now more :=
  List.filter_append ..

/-- Items that came in the order they expire in are all alive where the first one is. -/
theorem live_eq_self (hsorted : (x :: items).Pairwise fun a b => expires a ≤ expires b)
    (hx : now < expires x) : live expires now items = items :=
  List.filter_eq_self.2 fun a ha => by
    have hle := (List.pairwise_cons.1 hsorted).1 a ha
    simp only [decide_eq_true_eq]
    omega

/-- All but the oldest of the last `n + 1`. -/
theorem rtake_succ_cases (n : ℕ) (all : List α) :
    (all.rtake (n + 1) = all.rtake n ∧ (all.rtake n).length ≤ n) ∨
      ∃ x, all.rtake (n + 1) = x :: all.rtake n ∧ (all.rtake n).length = n := by
  by_cases hlength : n < all.length
  · refine .inr ⟨all[all.length - (n + 1)], ?_, ?_⟩
    · unfold List.rtake
      rw [List.drop_eq_getElem_cons (by omega), show all.length - (n + 1) + 1 = all.length - n by
        omega]
    · rw [List.rtake, List.length_drop]
      omega
  · refine .inl ⟨?_, ?_⟩
    · rw [List.rtake, List.rtake, Nat.sub_eq_zero_of_le (by omega), Nat.sub_eq_zero_of_le (by omega)]
    · rw [List.rtake, List.length_drop]
      omega

theorem live_push (hcap : 0 < cap) (hsorted : all.Pairwise fun a b => expires a ≤ expires b)
    (h : ∀ t, now ≤ t → live expires t items = live expires t (all.rtake cap)) (t : ℕ)
    (ht : now ≤ t) : live expires t (push expires cap now items x) =
      live expires t ((all ++ [x]).rtake cap) := by
  obtain ⟨n, rfl⟩ := Nat.exists_eq_add_of_lt hcap
  rw [Nat.zero_add] at *
  rw [push, List.rtake_concat_succ, live_append, live_append, h now le_rfl]
  congr 1
  rcases rtake_succ_cases n all with ⟨heq, hlength⟩ | ⟨oldest, heq, hlength⟩
  · have hle : (live expires now (all.rtake n)).length ≤ n := length_live_le.trans hlength
    rw [heq, if_neg (by omega), live_live ht]
  · have hpart : (oldest :: all.rtake n).Pairwise fun a b => expires a ≤ expires b :=
      heq ▸ hsorted.sublist (List.drop_sublist _ _)
    rw [heq]
    by_cases halive : now < expires oldest
    · have hall : live expires now (oldest :: all.rtake n) = oldest :: all.rtake n := by
        rw [live, List.filter_cons_of_pos (by simpa using halive)]
        exact congrArg _ (live_eq_self hpart halive)
      rw [hall, if_pos (by rw [List.length_cons, hlength]), List.tail_cons]
    · have hall : live expires now (oldest :: all.rtake n) = live expires now (all.rtake n) :=
        List.filter_cons_of_neg (by simpa using halive)
      have hle : (live expires now (all.rtake n)).length ≤ n := length_live_le.trans hlength.le
      rw [hall, if_neg (by omega), live_live ht]

end JoinedContext.Expiring

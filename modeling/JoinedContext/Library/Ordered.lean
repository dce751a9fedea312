import Mathlib.Data.List.Destutter
import Mathlib.Data.List.Perm.Subperm
import Mathlib.Order.Lattice
import Mathlib.Tactic.Common

/-!
# The first of a sorted list

A list sorted by a key with one element a key, and its first `n`: an element is one of these exactly where
fewer than `n` are before it.
-/

namespace JoinedContext.Ordered

variable {α β : Type} [LinearOrder α] {key : β → α} {l m : List α} {n : ℕ} {x : α}

/-- A list sorted by a key, the first element of each. -/
def keyed (key : β → α) (l : List β) : List β :=
  (l.mergeSort fun a b => key a ≤ key b).destutter fun a b => key a ≠ key b

theorem mem_of_mem_keyed {l : List β} {b : β} (h : b ∈ keyed key l) : b ∈ l :=
  List.mem_mergeSort.1 ((List.destutter_sublist _ _).subset h)

theorem exists_mem_destutter' (l : List β) (a b : β) (hb : b ∈ a :: l) :
    ∃ c ∈ l.destutter' (fun a b => key a ≠ key b) a, key c = key b := by
  induction l generalizing a b with
  | nil =>
    obtain rfl := List.mem_singleton.1 hb
    exact ⟨b, List.mem_singleton_self b, rfl⟩
  | cons d l ih =>
    by_cases hkey : key a ≠ key d
    · rw [List.destutter'_cons, if_pos hkey]
      rcases List.mem_cons.1 hb with rfl | hb
      · exact ⟨b, List.mem_cons_self, rfl⟩
      · obtain ⟨c, hc, heq⟩ := ih d b hb
        exact ⟨c, List.mem_cons_of_mem _ hc, heq⟩
    · rw [List.destutter'_cons, if_neg hkey]
      rcases List.mem_cons.1 hb with rfl | hb
      · exact ih b b List.mem_cons_self
      · rcases List.mem_cons.1 hb with rfl | hb
        · obtain ⟨c, hc, heq⟩ := ih a a List.mem_cons_self
          exact ⟨c, hc, heq.trans (not_not.1 hkey)⟩
        · exact ih a b (List.mem_cons_of_mem _ hb)

theorem mem_map_keyed {l : List β} : x ∈ (keyed key l).map key ↔ x ∈ l.map key := by
  rw [List.mem_map, List.mem_map]
  constructor
  · rintro ⟨b, hb, rfl⟩
    exact ⟨b, mem_of_mem_keyed hb, rfl⟩
  · rintro ⟨b, hb, rfl⟩
    have hmem : b ∈ l.mergeSort fun a b => key a ≤ key b := List.mem_mergeSort.2 hb
    unfold keyed
    cases hsort : l.mergeSort fun a b => key a ≤ key b with
    | nil =>
      rw [hsort] at hmem
      cases hmem
    | cons a sorted =>
      rw [hsort] at hmem
      exact exists_mem_destutter' sorted a b hmem

theorem isChain_lt : ∀ {l : List β}, (l.Pairwise fun a b => key a ≤ key b) →
    (l.IsChain fun a b => key a ≠ key b) → l.IsChain fun a b => key a < key b
  | [], _, _ => List.isChain_nil
  | [a], _, _ => List.isChain_singleton a
  | a :: b :: l, hle, hne => by
    obtain ⟨hhead, htail⟩ := List.pairwise_cons.1 hle
    obtain ⟨hab, hchain⟩ := List.isChain_cons_cons.1 hne
    exact List.isChain_cons_cons.2 ⟨lt_of_le_of_ne (hhead b List.mem_cons_self) hab, isChain_lt htail hchain⟩

theorem pairwise_map_keyed {l : List β} : ((keyed key l).map key).Pairwise (· < ·) := by
  have hsorted : (l.mergeSort fun a b => key a ≤ key b).Pairwise fun a b => key a ≤ key b := by
    have htrans : ∀ a b c : β, decide (key a ≤ key b) = true → decide (key b ≤ key c) = true →
        decide (key a ≤ key c) = true := fun a b c hab hbc => by
      simp only [decide_eq_true_eq] at *
      exact hab.trans hbc
    exact (List.pairwise_mergeSort htrans (fun a b => by simpa using le_total (key a) (key b)) l).imp
      fun hab => of_decide_eq_true hab
  have hle : (keyed key l).Pairwise fun a b => key a ≤ key b := hsorted.sublist (List.destutter_sublist _ _)
  have hne : (keyed key l).IsChain fun a b => key a ≠ key b := List.isChain_destutter _ _
  rw [← List.isChain_iff_pairwise, List.isChain_map]
  exact isChain_lt hle hne

/-- An element is of the first `n` exactly where fewer than `n` are before it. -/
theorem mem_take_iff (h : l.Pairwise (· < ·)) : x ∈ l.take n ↔ x ∈ l ∧ (l.filter (· < x)).length < n := by
  induction l generalizing n with
  | nil => simp
  | cons a l ih =>
    obtain ⟨ha, hl⟩ := List.pairwise_cons.1 h
    cases n with
    | zero => simp
    | succ n =>
      rw [List.take_succ_cons, List.mem_cons, List.mem_cons, ih hl]
      rcases eq_or_ne x a with rfl | hne
      · have hnone : l.filter (· < x) = [] :=
          List.filter_eq_nil_iff.2 fun b hb => by simpa using (ha b hb).le
        rw [List.filter_cons_of_neg (by simp), hnone]
        simp
      · have hbefore : x ∈ l → a < x := ha x
        constructor
        · rintro (heq | ⟨hx, hlt⟩)
          · exact absurd heq hne
          · rw [List.filter_cons_of_pos (by simpa using hbefore hx), List.length_cons]
            exact ⟨Or.inr hx, Nat.succ_lt_succ hlt⟩
        · rintro ⟨hx, hlt⟩
          have hx := hx.resolve_left hne
          rw [List.filter_cons_of_pos (by simpa using hbefore hx), List.length_cons] at hlt
          exact Or.inr ⟨hx, Nat.lt_of_succ_lt_succ hlt⟩

/-- What is of both lists and before an element. -/
def common (l m : List α) (x : α) : List α := l.filter fun y => y ∈ m ∧ y < x

theorem mem_common {y : α} : y ∈ common l m x ↔ y ∈ l ∧ y ∈ m ∧ y < x := by
  unfold common
  rw [List.mem_filter, decide_eq_true_eq]

theorem length_le_of_subset (hl : l.Pairwise (· < ·)) (h : ∀ y ∈ l, y ∈ m) : l.length ≤ m.length :=
  (List.subperm_of_subset (hl.imp ne_of_lt) h).length_le

theorem common_sorted (hl : l.Pairwise (· < ·)) : (common l m x).Pairwise (· < ·) := hl.filter _

theorem length_common_comm (hl : l.Pairwise (· < ·)) (hm : m.Pairwise (· < ·)) :
    (common l m x).length = (common m l x).length := by
  refine le_antisymm (length_le_of_subset (common_sorted hl) fun y hy => ?_)
    (length_le_of_subset (common_sorted hm) fun y hy => ?_)
  · obtain ⟨hyl, hym, hlt⟩ := mem_common.1 hy
    exact mem_common.2 ⟨hym, hyl, hlt⟩
  · obtain ⟨hym, hyl, hlt⟩ := mem_common.1 hy
    exact mem_common.2 ⟨hyl, hym, hlt⟩

/-- With the first `n` the same, an element of the one list only comes after them. -/
theorem le_length_common (hl : l.Pairwise (· < ·)) (h : ∀ y, y ∈ l.take n → y ∈ m.take n) (hx : x ∈ l)
    (hxm : x ∉ m) : n ≤ (common l m x).length := by
  have hout : x ∉ l.take n := fun htake => hxm (List.mem_of_mem_take (h x htake))
  have hbefore : n ≤ (l.filter (· < x)).length := by
    by_contra hlt
    exact hout ((mem_take_iff hl).2 ⟨hx, not_le.1 hlt⟩)
  have hlength : (l.take n).length = n :=
    List.length_take_of_le (hbefore.trans (List.length_filter_le _ _))
  rw [← hlength]
  refine length_le_of_subset (hl.sublist (List.take_sublist n l)) fun y hy => ?_
  refine mem_common.2 ⟨List.mem_of_mem_take hy, List.mem_of_mem_take (h y hy), ?_⟩
  by_contra hle
  have hsub : (l.filter (· < x)).length ≤ (l.filter (· < y)).length :=
    length_le_of_subset (hl.filter _) fun z hz => by
      obtain ⟨hz, hlt⟩ := List.mem_filter.1 hz
      exact List.mem_filter.2 ⟨hz, decide_eq_true ((of_decide_eq_true hlt).trans_le (not_lt.1 hle))⟩
  exact absurd (hbefore.trans hsub) (not_le.2 ((mem_take_iff hl).1 hy).2)

theorem mem_take_of_agree (hl : l.Pairwise (· < ·)) (hm : m.Pairwise (· < ·))
    (h : ∀ x, (x ∈ l ↔ x ∈ m) ∨ n ≤ (common l m x).length) (hx : x ∈ l.take n) : x ∈ m.take n := by
  obtain ⟨hxl, hfew⟩ := (mem_take_iff hl).1 hx
  have hless : (common l m x).length < n := by
    refine lt_of_le_of_lt (length_le_of_subset (common_sorted hl) fun y hy => ?_) hfew
    obtain ⟨hyl, -, hlt⟩ := mem_common.1 hy
    exact List.mem_filter.2 ⟨hyl, decide_eq_true hlt⟩
  have hxm : x ∈ m := ((h x).resolve_right (not_le.2 hless)).1 hxl
  refine (mem_take_iff hm).2 ⟨hxm, lt_of_le_of_lt (length_le_of_subset (hm.filter _) fun y hy => ?_) hfew⟩
  obtain ⟨hym, hlt⟩ := List.mem_filter.1 hy
  have hsub : (common l m y).length ≤ (common l m x).length :=
    length_le_of_subset (common_sorted hl) fun z hz => by
      obtain ⟨hzl, hzm, hzy⟩ := mem_common.1 hz
      exact mem_common.2 ⟨hzl, hzm, hzy.trans (of_decide_eq_true hlt)⟩
  have hyl : y ∈ l := ((h y).resolve_right (not_le.2 (hsub.trans_lt hless))).2 hym
  exact List.mem_filter.2 ⟨hyl, hlt⟩

/-- The first `n` of two sorted lists are the same exactly where what is of one list only comes after `n`
that are of both. -/
theorem mem_take_congr_iff (hl : l.Pairwise (· < ·)) (hm : m.Pairwise (· < ·)) :
    (∀ x, x ∈ l.take n ↔ x ∈ m.take n) ↔ ∀ x, (x ∈ l ↔ x ∈ m) ∨ n ≤ (common l m x).length := by
  constructor
  · intro h x
    by_cases hxl : x ∈ l
    · by_cases hxm : x ∈ m
      · exact Or.inl ⟨fun _ => hxm, fun _ => hxl⟩
      · exact Or.inr (le_length_common hl (fun y => (h y).1) hxl hxm)
    · by_cases hxm : x ∈ m
      · rw [length_common_comm hl hm]
        exact Or.inr (le_length_common hm (fun y => (h y).2) hxm hxl)
      · exact Or.inl ⟨fun h => (hxl h).elim, fun h => (hxm h).elim⟩
  · intro h x
    refine ⟨mem_take_of_agree hl hm h, mem_take_of_agree hm hl fun y => ?_⟩
    rw [length_common_comm hm hl]
    exact (h y).imp_left Iff.symm

end JoinedContext.Ordered

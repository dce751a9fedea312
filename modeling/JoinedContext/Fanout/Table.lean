import JoinedContext.Fanout.Run
import Mathlib.Algebra.Order.BigOperators.Group.List

/-!
# The table and the closed connections

The table holds one entry per id under its own tick, within the bound; what a change evicts is older
than everything that stays. The closed connections are trimmed from the one that closed first.
-/

namespace JoinedContext.Fanout

section Eviction

variable {table : List (String × ℕ × Value)} {bound : ℕ} {a b e k : String × ℕ × Value}

instance : Std.Total (Hub.Earlier) where
  total a b := by
    unfold Hub.Earlier
    rcases lt_trichotomy a.2.1 b.2.1 with hlt | heq | hgt
    · exact Or.inl (Or.inl hlt)
    · rcases String.le_total a.1 b.1 with hle | hle
      · exact Or.inl (Or.inr ⟨heq, hle⟩)
      · exact Or.inr (Or.inr ⟨heq.symm, hle⟩)
    · exact Or.inr (Or.inl hgt)

instance : IsTrans _ Hub.Earlier where
  trans a b c hab hbc := by
    unfold Hub.Earlier at *
    rcases hab with hab | ⟨hab, hids⟩ <;> rcases hbc with hbc | ⟨hbc, hids'⟩
    · exact Or.inl (hab.trans hbc)
    · exact Or.inl (hbc ▸ hab)
    · exact Or.inl (hab ▸ hbc)
    · exact Or.inr ⟨hab.trans hbc, String.le_trans hids hids'⟩

/-- How many entries a table over its bound gives up at once. -/
def batch (bound : ℕ) : ℕ := max (bound / 100) 1

theorem evicted_of_le (h : table.length ≤ bound) : Hub.evicted table bound = [] :=
  if_neg (by omega)

theorem evicted_of_lt (h : bound < table.length) : Hub.evicted table bound =
    ((table.insertionSort Hub.Earlier).take (batch bound)).map Prod.fst := if_pos h

/-- The entries a table keeps are among those after the evicted ones in the order of the changes. -/
theorem mem_drop_of_kept (hlt : bound < table.length) (hmem : e ∈ table)
    (hkept : e.1 ∉ Hub.evicted table bound) :
    e ∈ (table.insertionSort Hub.Earlier).drop (batch bound) := by
  rw [evicted_of_lt hlt] at hkept
  have hsorted : e ∈ table.insertionSort Hub.Earlier :=
    (List.perm_insertionSort _ _).mem_iff.2 hmem
  rw [← List.take_append_drop (batch bound) (table.insertionSort Hub.Earlier),
    List.mem_append] at hsorted
  exact hsorted.resolve_left fun htake => hkept (List.mem_map_of_mem htake)

theorem mem_take_of_evicted (hids : (table.map Prod.fst).Nodup) (hmem : e ∈ table)
    (hgone : e.1 ∈ Hub.evicted table bound) :
    bound < table.length ∧ e ∈ (table.insertionSort Hub.Earlier).take (batch bound) := by
  by_cases hlt : bound < table.length
  · refine ⟨hlt, ?_⟩
    rw [evicted_of_lt hlt] at hgone
    obtain ⟨e', he', hid⟩ := List.mem_map.1 hgone
    have hmem' : e' ∈ table :=
      (List.perm_insertionSort _ _).mem_iff.1 (List.mem_of_mem_take he')
    exact List.inj_on_of_nodup_map hids hmem' hmem hid ▸ he'
  · rw [evicted_of_le (by omega)] at hgone
    cases hgone

theorem earlier_of_evicted (hids : (table.map Prod.fst).Nodup) (he : e ∈ table) (hk : k ∈ table)
    (hgone : e.1 ∈ Hub.evicted table bound) (hkept : k.1 ∉ Hub.evicted table bound) :
    Hub.Earlier e k := by
  obtain ⟨hlt, htake⟩ := mem_take_of_evicted hids he hgone
  have hsorted := List.pairwise_insertionSort Hub.Earlier table
  rw [← List.take_append_drop (batch bound) (table.insertionSort Hub.Earlier)] at hsorted
  exact (List.pairwise_append.1 hsorted).2.2 e htake k (mem_drop_of_kept hlt hk hkept)

theorem length_kept (hle : table.length ≤ bound + 1) :
    (table.filter fun e => e.1 ∉ Hub.evicted table bound).length ≤ bound := by
  by_cases hlt : bound < table.length
  · have hperm := (List.perm_insertionSort Hub.Earlier table).filter
      fun e => e.1 ∉ Hub.evicted table bound
    rw [← hperm.length_eq, ← List.take_append_drop (batch bound) (List.insertionSort _ table),
      List.filter_append, List.length_append]
    have htake : ((table.insertionSort Hub.Earlier).take (batch bound)).filter
        (fun e => e.1 ∉ Hub.evicted table bound) = [] := by
      refine List.filter_eq_nil_iff.2 fun e he => ?_
      rw [evicted_of_lt hlt, decide_eq_true_eq, not_not]
      exact List.mem_map_of_mem he
    have hdrop := List.length_filter_le (fun e => decide (e.1 ∉ Hub.evicted table bound))
      ((table.insertionSort Hub.Earlier).drop (batch bound))
    have hbatch : 1 ≤ batch bound := Nat.le_max_right _ _
    rw [List.length_drop, List.length_insertionSort] at hdrop
    rw [htake, List.length_nil]
    omega
  · exact (List.length_filter_le _ _).trans (by omega)

end Eviction

section Table

variable {F : Type} {hub hub' : Hub F} {id : String} {entity : Value}

/-- The table holds one entry per id, each under its own tick, within the bound, and none while no
filter is held. -/
structure Tabled (hub : Hub F) : Prop where
  bound : 1 ≤ hub.bound
  ids : (hub.table.map Prod.fst).Nodup
  ticks : (hub.table.map fun e => e.2.1).Nodup
  below : ∀ e ∈ hub.table, e.2.1 ≤ hub.tick
  fits : hub.table.length ≤ hub.bound
  watched : hub.index.isEmpty = true → hub.table = []

namespace Tabled

/-- A step that gives up entries and adds none. -/
theorem sublist (h : Tabled hub) (hbound : hub'.bound = hub.bound) (htick : hub'.tick = hub.tick)
    (htable : hub'.table.Sublist hub.table)
    (hwatched : hub'.index.isEmpty = true → hub'.table = []) : Tabled hub' where
  bound := hbound ▸ h.bound
  ids := h.ids.sublist (htable.map _)
  ticks := h.ticks.sublist (htable.map _)
  below e he := htick ▸ h.below e (htable.subset he)
  fits := hbound ▸ htable.length_le.trans h.fits
  watched := hwatched

end Tabled

/-- The table with an entity as the latest of its id, before the eviction. -/
def Hub.grown (hub : Hub F) (id : String) (entity : Value) : List (String × ℕ × Value) :=
  Assoc.without id hub.table ++ [(id, hub.tick + 1, entity)]

namespace Hub

theorem table_keep : (hub.keep id entity).table =
    (hub.grown id entity).filter fun e => e.1 ∉ evicted (hub.grown id entity) hub.bound := rfl

theorem mem_grown {e : String × ℕ × Value} : e ∈ hub.grown id entity ↔
    e ∈ hub.table ∧ e.1 ≠ id ∨ e = (id, hub.tick + 1, entity) := by
  simp [grown, Assoc.without]

theorem ids_grown (h : Tabled hub) : ((hub.grown id entity).map Prod.fst).Nodup := by
  rw [grown, List.map_append, List.nodup_append]
  refine ⟨h.ids.sublist (List.filter_sublist.map _), by simp, ?_⟩
  intro a ha b hb
  obtain ⟨e, he, rfl⟩ := List.mem_map.1 ha
  have hid : e.1 ≠ id := by simpa using List.of_mem_filter he
  simpa [List.mem_singleton.1 hb] using hid

theorem ticks_grown (h : Tabled hub) : ((hub.grown id entity).map fun e => e.2.1).Nodup := by
  rw [grown, List.map_append, List.nodup_append]
  refine ⟨h.ticks.sublist (List.filter_sublist.map _), by simp, ?_⟩
  intro a ha b hb
  obtain ⟨e, he, rfl⟩ := List.mem_map.1 ha
  have hbelow := h.below e (List.mem_of_mem_filter he)
  have hb : b = hub.tick + 1 := by simpa using hb
  omega

theorem length_grown (h : Tabled hub) : (hub.grown id entity).length ≤ hub.bound + 1 := by
  have hle := (List.filter_sublist (p := fun c : String × ℕ × Value => decide (c.1 ≠ id))
    (l := hub.table)).length_le
  have hfits := h.fits
  rw [grown, List.length_append, List.length_singleton, Assoc.without]
  omega

theorem tabled_keep (h : Tabled hub) (hheld : hub.index.isEmpty = false) :
    Tabled (hub.keep id entity) where
  bound := h.bound
  ids := (ids_grown h).sublist (List.filter_sublist.map _)
  ticks := (ticks_grown h).sublist (List.filter_sublist.map _)
  below e he := by
    show e.2.1 ≤ hub.tick + 1
    rcases mem_grown.1 (List.mem_of_mem_filter he) with ⟨he, -⟩ | rfl
    · exact (h.below e he).trans (Nat.le_succ _)
    · exact le_rfl
  fits := length_kept (length_grown h)
  watched hempty := by
    rw [show (hub.keep id entity).index = hub.index from rfl, hheld] at hempty
    cases hempty

/-- The newest entry is never among the evicted. -/
theorem newest_kept (h : Tabled hub) : (id, hub.tick + 1, entity) ∈ (hub.keep id entity).table := by
  have hmem : (id, hub.tick + 1, entity) ∈ hub.grown id entity := mem_grown.2 (Or.inr rfl)
  rw [table_keep, List.mem_filter]
  refine ⟨hmem, decide_eq_true fun hgone => ?_⟩
  obtain ⟨hlt, htake⟩ := mem_take_of_evicted (ids_grown h) hmem hgone
  have hlen : (hub.grown id entity).length ≤ hub.bound + 1 := length_grown h
  -- Something comes after the evicted ones, and nothing is newer than the newest.
  have hbatch : batch hub.bound ≤ hub.bound := by
    have hbound := h.bound
    unfold batch
    omega
  obtain ⟨k, hk⟩ : ∃ k, k ∈ (List.insertionSort Earlier (hub.grown id entity)).drop
      (batch hub.bound) := by
    refine List.exists_mem_of_ne_nil _ fun hnil => ?_
    have := List.drop_eq_nil_iff.1 hnil
    rw [List.length_insertionSort] at this
    omega
  have hsorted := List.pairwise_insertionSort Earlier (hub.grown id entity)
  have hperm := List.perm_insertionSort Earlier (hub.grown id entity)
  have hnodup := (hperm.map fun e => e.2.1).nodup_iff.2 (ticks_grown h)
  rw [← List.take_append_drop (batch hub.bound) (List.insertionSort _ _)] at hsorted hnodup
  have hearlier := (List.pairwise_append.1 hsorted).2.2 _ htake k hk
  rw [List.map_append] at hnodup
  have hne := (List.nodup_append.1 hnodup).2.2 _ (List.mem_map_of_mem htake) _
    (List.mem_map_of_mem hk)
  have hbelow : k.2.1 ≤ hub.tick + 1 := by
    rcases mem_grown.1 (hperm.mem_iff.1 (List.mem_of_mem_drop hk)) with ⟨hold, -⟩ | rfl
    · exact (h.below k hold).trans (Nat.le_succ _)
    · exact le_rfl
  rcases hearlier with hlt | ⟨heq, -⟩
  · simp only at hlt
    omega
  · exact hne heq

end Hub

end Table

section Closed

/-- The bounds of the closed connections. -/
structure ClosedFit (closed : List (String × Closed)) : Prop where
  count : closed.length ≤ maxClosed
  bytes : (closed.map fun c => Hub.keptBytes c.2).sum ≤ maxClosedBytes

variable {closed closed' : List (String × Closed)}

theorem ClosedFit.sublist (h : ClosedFit closed) (hsub : closed'.Sublist closed) :
    ClosedFit closed' where
  count := hsub.length_le.trans h.count
  bytes := ((hsub.map _).sum_le_sum fun _ _ => Nat.zero_le _).trans h.bytes

theorem mem_oldest {c : String × Closed} : ∀ {closed : List (String × Closed)},
    Hub.oldest closed = some c → c ∈ closed
  | [], h => by cases h
  | d :: rest, h => by
    unfold Hub.oldest at h
    rcases hrest : Hub.oldest rest with _ | o <;> simp only [hrest] at h
    · exact Option.some.inj h ▸ List.mem_cons_self
    · split_ifs at h
      · exact Option.some.inj h ▸ List.mem_cons_of_mem _ (mem_oldest hrest)
      · exact Option.some.inj h ▸ List.mem_cons_self

theorem oldest_eq_none : ∀ {closed : List (String × Closed)},
    Hub.oldest closed = none → closed = []
  | [], _ => rfl
  | d :: rest, h => by
    unfold Hub.oldest at h
    rcases hrest : Hub.oldest rest with _ | o <;> simp only [hrest] at h
    · cases h
    · split_ifs at h

/-- Enough rounds to empty the list leave one within the bounds. -/
theorem closedFit_trim : ∀ {fuel : ℕ} {closed : List (String × Closed)}, closed.length ≤ fuel →
    ClosedFit (Hub.trimClosed fuel closed)
  | 0, closed, hlen => by
    rw [List.length_eq_zero_iff.1 (Nat.le_zero.1 hlen)]
    exact ⟨Nat.zero_le _, Nat.zero_le _⟩
  | fuel + 1, closed, hlen => by
    unfold Hub.trimClosed
    split_ifs with hover
    · rcases hold : Hub.oldest closed with _ | gone
      · rw [oldest_eq_none hold]
        exact ⟨Nat.zero_le _, Nat.zero_le _⟩
      · refine closedFit_trim ?_
        have hlt := Assoc.length_without_lt (List.mem_map_of_mem (f := Prod.fst) (mem_oldest hold))
        omega
    · rw [not_or, not_lt, not_lt] at hover
      exact ⟨hover.1, hover.2⟩

end Closed

end JoinedContext.Fanout

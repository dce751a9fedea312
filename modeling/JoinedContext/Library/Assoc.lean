import Mathlib.Data.List.Nodup

/-!
# Association lists

A finite map as the list of its entries, read by its first entry for a key.
-/

namespace JoinedContext.Assoc

variable {α β : Type} [DecidableEq α]

/-- The entries with the value of one key replaced. -/
def replace (k : α) (v : β) (l : List (α × β)) : List (α × β) :=
  l.map fun c => if c.1 = k then (k, v) else c

/-- The entries with one under the key, in the place of the one held there if there is one. -/
def put (k : α) (v : β) (l : List (α × β)) : List (α × β) :=
  if (l.lookup k).isSome then replace k v l else l ++ [(k, v)]

/-- The entries with one under the key unless there is one. -/
def orPut (k : α) (v : β) (l : List (α × β)) : List (α × β) :=
  if (l.lookup k).isSome then l else put k v l

/-- The entries without those of one key. -/
def without (k : α) (l : List (α × β)) : List (α × β) := l.filter fun c => c.1 ≠ k

variable {k a : α} {v b : β} {l : List (α × β)}

theorem lookup_cons (k : α) (v : β) (l : List (α × β)) (a : α) :
    List.lookup a ((k, v) :: l) = if a = k then some v else l.lookup a := by
  rw [List.lookup_cons]
  by_cases h : a = k
  · rw [if_pos h, beq_iff_eq.2 h]
  · rw [if_neg h, beq_eq_false_iff_ne.2 h]

theorem lookup_eq_some_iff : ∀ {l : List (α × β)}, (l.map Prod.fst).Nodup →
    (l.lookup a = some b ↔ (a, b) ∈ l)
  | [], _ => by simp
  | (k, v) :: rest, hnodup => by
    rw [List.map_cons, List.nodup_cons] at hnodup
    rw [lookup_cons, List.mem_cons, Prod.mk.injEq]
    split_ifs with hk
    · have hnot : (a, b) ∉ rest := fun hmem =>
        hnodup.1 (List.mem_map.2 ⟨(a, b), hmem, hk⟩)
      rw [or_iff_left hnot, and_iff_right hk, Option.some_inj, eq_comm]
    · rw [lookup_eq_some_iff hnodup.2, or_iff_right fun h => hk h.1]

theorem mem_of_lookup : ∀ {l : List (α × β)}, l.lookup a = some b → (a, b) ∈ l
  | (k, v) :: rest, h => by
    rw [lookup_cons] at h
    split_ifs at h with hk
    · cases h
      exact hk ▸ List.mem_cons_self
    · exact List.mem_cons_of_mem _ (mem_of_lookup h)

theorem lookup_replace : ∀ {l : List (α × β)}, (replace k v l).lookup a =
    if a = k then (l.lookup k).map fun _ => v else l.lookup a
  | [] => by simp [replace]
  | (c, w) :: rest => by
    unfold replace
    rw [List.map_cons]
    by_cases hc : c = k
    · rw [if_pos hc, lookup_cons, lookup_cons, lookup_cons, if_pos hc.symm, hc]
      split_ifs with ha
      · rfl
      · rw [← replace, lookup_replace, if_neg ha]
    · rw [if_neg hc, lookup_cons, lookup_cons, lookup_cons, if_neg (Ne.symm hc), ← replace,
        lookup_replace]
      by_cases ha : a = k
      · rw [if_pos ha, if_pos ha, if_neg (ha ▸ Ne.symm hc)]
      · rw [if_neg ha, if_neg ha]

theorem lookup_without : ∀ {l : List (α × β)},
    (without k l).lookup a = if a = k then none else l.lookup a
  | [] => by simp [without]
  | (c, w) :: rest => by
    unfold without
    by_cases hc : c = k
    · rw [List.filter_cons_of_neg (by simpa using hc), ← without, lookup_without, lookup_cons, hc]
      split_ifs <;> rfl
    · rw [List.filter_cons_of_pos (by simpa using hc), lookup_cons, lookup_cons, ← without,
        lookup_without]
      by_cases ha : a = k
      · rw [if_pos ha, if_pos ha, if_neg (ha ▸ Ne.symm hc)]
      · rw [if_neg ha, if_neg ha]

theorem lookup_of_without (h : (without k l).lookup a = some b) : l.lookup a = some b := by
  rw [lookup_without] at h
  split_ifs at h
  exact h

theorem lookup_append_singleton : ∀ {l : List (α × β)}, (l ++ [(k, v)]).lookup a =
    (l.lookup a <|> if a = k then some v else none)
  | [] => by
    rw [List.nil_append, lookup_cons]
    rfl
  | (c, w) :: rest => by
    rw [List.cons_append, lookup_cons, lookup_cons, lookup_append_singleton]
    split_ifs <;> rfl

theorem lookup_append_cons (m : List (α × β)) : ∀ {l : List (α × β)}, k ∉ l.map Prod.fst →
    (l ++ (k, v) :: m).lookup k = some v
  | [], _ => by rw [List.nil_append, lookup_cons, if_pos rfl]
  | (c, w) :: rest, h => by
    rw [List.map_cons, List.mem_cons, not_or] at h
    rw [List.cons_append, lookup_cons, if_neg h.1, lookup_append_cons m h.2]

theorem keys_replace : (replace k v l).map Prod.fst = l.map Prod.fst := by
  unfold replace
  rw [List.map_map]
  refine List.map_congr_left fun c _ => ?_
  by_cases h : c.1 = k
  · simp [h]
  · simp [h]

theorem lookup_isSome_iff : (l.lookup a).isSome = true ↔ a ∈ l.map Prod.fst := by
  induction l with
  | nil => simp
  | cons c rest ih =>
    obtain ⟨k, v⟩ := c
    rw [lookup_cons, List.map_cons, List.mem_cons, ← ih]
    split_ifs with hk
    · simp [hk]
    · simp [hk]

theorem mem_replace_iff {c : α × β} (hk : k ∈ l.map Prod.fst) :
    c ∈ replace k v l ↔ c = (k, v) ∨ c ∈ l ∧ c.1 ≠ k := by
  constructor
  · intro h
    obtain ⟨c', hc', rfl⟩ := List.mem_map.1 h
    split_ifs with hid
    · exact Or.inl rfl
    · exact Or.inr ⟨hc', hid⟩
  · rintro (rfl | ⟨hc, hid⟩)
    · obtain ⟨c', hc', hid⟩ := List.mem_map.1 hk
      exact List.mem_map.2 ⟨c', hc', if_pos hid⟩
    · exact List.mem_map.2 ⟨c, hc, if_neg hid⟩

theorem mem_put {c : α × β} : c ∈ put k v l ↔ c = (k, v) ∨ c ∈ l ∧ c.1 ≠ k := by
  unfold put
  split_ifs with hk
  · exact mem_replace_iff (lookup_isSome_iff.1 hk)
  · rw [List.mem_append, List.mem_singleton, or_comm]
    refine or_congr_right (iff_self_and.2 fun hc hid => hk ?_)
    exact lookup_isSome_iff.2 (hid ▸ List.mem_map_of_mem hc)

theorem nodup_put (hnodup : (l.map Prod.fst).Nodup) : ((put k v l).map Prod.fst).Nodup := by
  unfold put
  split_ifs with hk
  · rwa [keys_replace]
  · rw [List.map_append, List.nodup_append]
    refine ⟨hnodup, by simp, fun a ha b hb hab => hk ?_⟩
    obtain rfl : b = k := by simpa using hb
    exact lookup_isSome_iff.2 (hab ▸ ha)

theorem lookup_put : (put k v l).lookup a = if a = k then some v else l.lookup a := by
  unfold put
  split_ifs with hheld ha ha
  · rw [lookup_replace, if_pos ha]
    obtain ⟨w, hw⟩ := Option.isSome_iff_exists.1 hheld
    rw [hw, Option.map_some]
  · rw [lookup_replace, if_neg ha]
  · rw [lookup_append_singleton, if_pos ha, ha, Option.not_isSome_iff_eq_none.1 hheld]
    rfl
  · rw [lookup_append_singleton, if_neg ha]
    cases l.lookup a <;> rfl

theorem lookup_orPut : (orPut k v l).lookup a = (l.lookup a <|> if a = k then some v else none) := by
  unfold orPut
  split_ifs with hheld ha ha
  · obtain ⟨w, hw⟩ := Option.isSome_iff_exists.1 (ha ▸ hheld)
    rw [hw]
    rfl
  · cases l.lookup a <;> rfl
  · rw [lookup_put, if_pos ha, ha, Option.not_isSome_iff_eq_none.1 hheld]
    rfl
  · rw [lookup_put, if_neg ha]
    cases l.lookup a <;> rfl

theorem lookup_map_snd {γ : Type} {f : α → β → γ} : ∀ {l : List (α × β)},
    (l.map fun c => (c.1, f c.1 c.2)).lookup a = (l.lookup a).map (f a)
  | [] => rfl
  | (k, v) :: rest => by
    rw [List.map_cons, lookup_cons, lookup_cons, lookup_map_snd]
    split_ifs with ha
    · rw [ha, Option.map_some]
    · rfl

omit [DecidableEq α] in
theorem nodup_filter {p : α × β → Bool} (hnodup : (l.map Prod.fst).Nodup) :
    ((l.filter p).map Prod.fst).Nodup :=
  hnodup.sublist (List.filter_sublist.map _)

theorem lookup_filter {p : α × β → Bool} (hnodup : (l.map Prod.fst).Nodup) :
    (l.filter p).lookup a = (l.lookup a).filter fun b => p (a, b) := by
  ext b
  rw [lookup_eq_some_iff (nodup_filter hnodup), List.mem_filter, Option.filter_eq_some_iff,
    lookup_eq_some_iff hnodup]

/-- Entries chosen by their keys alone. -/
theorem lookup_filter_key {p : α → Bool} : ∀ {l : List (α × β)},
    (l.filter fun c => p c.1).lookup a = if p a then l.lookup a else none
  | [] => by simp
  | (k, v) :: rest => by
    by_cases hk : p k = true
    · rw [List.filter_cons_of_pos (by exact hk), lookup_cons, lookup_cons, lookup_filter_key]
      by_cases ha : a = k
      · rw [if_pos ha, if_pos ha, if_pos (ha ▸ hk)]
      · rw [if_neg ha, if_neg ha]
    · rw [List.filter_cons_of_neg (by exact hk), lookup_filter_key, lookup_cons]
      by_cases ha : a = k
      · rw [if_neg (ha ▸ hk), if_neg (ha ▸ hk)]
      · rw [if_neg ha]

/-- What was put last under a key is what it holds. -/
theorem lookup_foldl_put {γ : Type} {key : γ → α} {value : γ → β} (entries : List γ)
    (l : List (α × β)) :
    (entries.foldl (fun l c => put (key c) (value c) l) l).lookup a =
      (((entries.filter fun c => key c = a).getLast?.map value) <|> l.lookup a) := by
  induction entries generalizing l with
  | nil => simp
  | cons c entries ih =>
    rw [List.foldl_cons, ih, lookup_put]
    by_cases h : key c = a
    · rw [List.filter_cons_of_pos (by simpa using h), if_pos h.symm, List.getLast?_cons]
      cases (entries.filter fun c => key c = a).getLast? <;> simp
    · rw [List.filter_cons_of_neg (by simpa using h), if_neg fun heq => h heq.symm]

theorem length_put : (put k v l).length = if (l.lookup k).isSome then l.length else l.length + 1 := by
  unfold put
  split_ifs <;> simp [replace]

theorem length_without_lt (hk : k ∈ l.map Prod.fst) : (without k l).length < l.length := by
  obtain ⟨c, hc, rfl⟩ := List.mem_map.1 hk
  exact List.length_filter_lt_length_iff_exists.2 ⟨c, hc, by simp⟩

section FilterMapValues

variable {f g : α × β → Option β}

/-- The entries with their values mapped, without those whose value is gone. -/
def filterMapValues (f : α × β → Option β) (l : List (α × β)) : List (α × β) :=
  l.filterMap fun c => (f c).map (c.1, ·)

omit [DecidableEq α] in
theorem filterMapValues_cons (c : α × β) : filterMapValues f (c :: l) =
    ((f c).map (c.1, ·)).toList ++ filterMapValues f l := by
  rw [filterMapValues, filterMapValues, List.filterMap_cons]
  cases f c <;> rfl

omit [DecidableEq α] in
theorem filterMapValues_congr (h : ∀ c ∈ l, f c = g c) :
    filterMapValues f l = filterMapValues g l :=
  List.filterMap_congr fun c hc => by rw [h c hc]

omit [DecidableEq α] in
theorem filterMapValues_eq_self (h : ∀ c ∈ l, f c = some c.2) : filterMapValues f l = l :=
  (List.filterMap_congr fun c hc => by rw [h c hc]; rfl).trans List.filterMap_some

omit [DecidableEq α] in
theorem key_of_mem_filterMapValues {c : α × β} (h : c ∈ filterMapValues f l) :
    c.1 ∈ l.map Prod.fst := by
  obtain ⟨d, hd, hmap⟩ := List.mem_filterMap.1 h
  obtain ⟨w, -, rfl⟩ := Option.map_eq_some_iff.1 hmap
  exact List.mem_map.2 ⟨d, hd, rfl⟩

omit [DecidableEq α] in
/-- Of entries with one key each, two maps leave the same only where they map each value alike. -/
theorem filterMapValues_inj : ∀ {l : List (α × β)}, (l.map Prod.fst).Nodup →
    (filterMapValues f l = filterMapValues g l ↔ ∀ c ∈ l, f c = g c)
  | [], _ => by simp [filterMapValues]
  | c :: rest, hnodup => by
    obtain ⟨hc, hrest⟩ := List.nodup_cons.1 hnodup
    have ih := filterMapValues_inj hrest
    have hfirst : ∀ {e : α × β} {es : List (α × β)} {h : α × β → Option β}, e.1 = c.1 →
        e :: es ≠ filterMapValues h rest := fun hkey heq =>
      hc (hkey ▸ key_of_mem_filterMapValues (heq ▸ List.mem_cons_self))
    rw [filterMapValues_cons, filterMapValues_cons, List.forall_mem_cons, ← ih]
    rcases f c with _ | v <;> rcases g c with _ | w
    · simp
    · exact iff_of_false (fun heq => hfirst (e := (c.1, w)) rfl heq.symm) (by simp)
    · exact iff_of_false (fun heq => hfirst (e := (c.1, v)) rfl heq) (by simp)
    · simp

theorem lookup_filterMapValues : ∀ {l : List (α × β)}, (l.map Prod.fst).Nodup →
    (filterMapValues f l).lookup a = (l.lookup a).bind fun v => f (a, v)
  | [], _ => rfl
  | (k, v) :: rest, hnodup => by
    obtain ⟨hk, hrest⟩ := List.nodup_cons.1 hnodup
    have ih := lookup_filterMapValues hrest
    rw [filterMapValues_cons, lookup_cons]
    by_cases ha : a = k
    · subst ha
      have hnone : rest.lookup a = none := by
        rw [← Option.not_isSome_iff_eq_none, lookup_isSome_iff]
        exact hk
      rw [hnone, Option.bind_none] at ih
      rw [if_pos rfl, Option.bind_some]
      cases f (a, v) with
      | none => exact ih
      | some w => exact (lookup_cons a w _ a).trans (if_pos rfl)
    · rw [if_neg ha, ← ih]
      cases f (k, v) with
      | none => rfl
      | some w => exact (lookup_cons k w _ a).trans (if_neg ha)

end FilterMapValues

end JoinedContext.Assoc

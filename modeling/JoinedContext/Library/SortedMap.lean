import JoinedContext.Library.Assoc
import Mathlib.Data.List.Pairwise
import Mathlib.Order.Lattice

/-!
# Sorted maps

A finite map as its entries in ascending order of their keys, each key once. What an operation
holds under a key is read off by `get?`, and the entries are in the map's own order whatever the
order they were put in.
-/

namespace JoinedContext

structure SortedMap (κ β : Type) [LinearOrder κ] where
  entries : List (κ × β)
  sorted : entries.Pairwise fun a b => a.1 < b.1

namespace SortedMap

variable {κ β γ : Type} [LinearOrder κ]

def empty : SortedMap κ β := ⟨[], List.Pairwise.nil⟩

def get? (m : SortedMap κ β) (k : κ) : Option β := m.entries.lookup k

def keys (m : SortedMap κ β) : List κ := m.entries.map Prod.fst

def insertEntry (k : κ) (v : β) : List (κ × β) → List (κ × β)
  | [] => [(k, v)]
  | e :: rest =>
    if k < e.1 then (k, v) :: e :: rest
    else if k = e.1 then (k, v) :: rest
    else e :: insertEntry k v rest

theorem mem_insertEntry {k : κ} {v : β} {c : κ × β} : ∀ {l : List (κ × β)},
    c ∈ insertEntry k v l → c = (k, v) ∨ c ∈ l
  | [], h => Or.inl (List.mem_singleton.1 h)
  | e :: rest, h => by
    unfold insertEntry at h
    split_ifs at h
    · exact List.mem_cons.1 h
    · exact (List.mem_cons.1 h).imp_right (List.mem_cons_of_mem _)
    · rcases List.mem_cons.1 h with rfl | h
      · exact Or.inr List.mem_cons_self
      · exact (mem_insertEntry h).imp_right (List.mem_cons_of_mem _)

theorem sorted_insertEntry {k : κ} {v : β} : ∀ {l : List (κ × β)},
    l.Pairwise (fun a b => a.1 < b.1) → (insertEntry k v l).Pairwise fun a b => a.1 < b.1
  | [], _ => List.pairwise_singleton _ _
  | e :: rest, h => by
    obtain ⟨he, hrest⟩ := List.pairwise_cons.1 h
    unfold insertEntry
    split_ifs with hlt heq
    · refine List.pairwise_cons.2 ⟨fun c hc => ?_, h⟩
      rcases List.mem_cons.1 hc with rfl | hc
      · exact hlt
      · exact lt_trans hlt (he c hc)
    · exact List.pairwise_cons.2 ⟨fun c hc => heq ▸ he c hc, hrest⟩
    · refine List.pairwise_cons.2 ⟨fun c hc => ?_, sorted_insertEntry hrest⟩
      rcases mem_insertEntry hc with rfl | hc
      · exact lt_of_le_of_ne (not_lt.1 hlt) (Ne.symm heq)
      · exact he c hc

def insert (m : SortedMap κ β) (k : κ) (v : β) : SortedMap κ β :=
  ⟨insertEntry k v m.entries, sorted_insertEntry m.sorted⟩

/-- The map with a value under the key unless it holds one. -/
def orInsert (m : SortedMap κ β) (k : κ) (v : β) : SortedMap κ β :=
  if (m.get? k).isSome then m else m.insert k v

def erase (m : SortedMap κ β) (k : κ) : SortedMap κ β :=
  ⟨Assoc.without k m.entries, m.sorted.filter _⟩

def mapValues (f : β → γ) (m : SortedMap κ β) : SortedMap κ γ :=
  ⟨m.entries.map fun c => (c.1, f c.2), List.pairwise_map.2 m.sorted⟩

/-- The map with each value replaced by what its entry gives. -/
def mapEntries (f : κ → β → γ) (m : SortedMap κ β) : SortedMap κ γ :=
  ⟨m.entries.map fun c => (c.1, f c.1 c.2), List.pairwise_map.2 m.sorted⟩

/-- The map with each value replaced by what is left of it, if anything is. -/
def retain (f : β → Option β) (m : SortedMap κ β) : SortedMap κ β :=
  ⟨Assoc.filterMapValues (fun c => f c.2) m.entries, by
    refine List.pairwise_filterMap.2 (m.sorted.imp fun {a b} hab c hc d hd => ?_)
    obtain ⟨_, -, rfl⟩ := Option.map_eq_some_iff.1 hc
    obtain ⟨_, -, rfl⟩ := Option.map_eq_some_iff.1 hd
    exact hab⟩

/-- The map with a value under the key where there is one. -/
def insertSome (m : SortedMap κ β) (k : κ) : Option β → SortedMap κ β
  | some v => m.insert k v
  | none => m

/-- The map with every entry of a patch in it, in place of what it held under that key. -/
def merge (m patch : SortedMap κ β) : SortedMap κ β :=
  patch.entries.foldl (fun m c => m.insert c.1 c.2) m

/-- The map with an item at the end of those held under the key. -/
def push (m : SortedMap κ (List β)) (k : κ) (v : β) : SortedMap κ (List β) :=
  m.insert k ((m.get? k).getD [] ++ [v])

variable {m : SortedMap κ β} {k a : κ} {v b : β} {c : κ × β}

theorem nodup_keys (m : SortedMap κ β) : (m.entries.map Prod.fst).Nodup :=
  (List.pairwise_map.2 m.sorted).imp ne_of_lt

theorem get?_eq_some : m.get? a = some b ↔ (a, b) ∈ m.entries :=
  Assoc.lookup_eq_some_iff m.nodup_keys

theorem mem_keys : a ∈ m.keys ↔ (m.get? a).isSome := Assoc.lookup_isSome_iff.symm

@[simp] theorem get?_empty : (empty : SortedMap κ β).get? a = none := rfl

theorem lookup_insertEntry : ∀ {l : List (κ × β)},
    (insertEntry k v l).lookup a = if a = k then some v else l.lookup a
  | [] => Assoc.lookup_cons k v [] a
  | (e, w) :: rest => by
    unfold insertEntry
    rcases lt_trichotomy k e with hlt | rfl | hlt
    · rw [if_pos hlt, Assoc.lookup_cons]
    · rw [if_neg (lt_irrefl _), if_pos rfl, Assoc.lookup_cons, Assoc.lookup_cons]
      split_ifs <;> rfl
    · rw [if_neg (not_lt_of_gt hlt), if_neg (ne_of_gt hlt), Assoc.lookup_cons, Assoc.lookup_cons,
        lookup_insertEntry]
      by_cases ha : a = k
      · rw [if_pos ha, if_pos ha, if_neg (ha ▸ ne_of_gt hlt)]
      · rw [if_neg ha, if_neg ha]

theorem get?_insert : (m.insert k v).get? a = if a = k then some v else m.get? a :=
  lookup_insertEntry

theorem get?_mapValues {f : β → γ} : (m.mapValues f).get? a = (m.get? a).map f :=
  Assoc.lookup_map_snd (f := fun _ => f)

theorem get?_mapEntries {f : κ → β → γ} : (m.mapEntries f).get? a = (m.get? a).map (f a) :=
  Assoc.lookup_map_snd

theorem get?_erase : (m.erase k).get? a = if a = k then none else m.get? a :=
  Assoc.lookup_without

theorem get?_retain {f : β → Option β} : (m.retain f).get? a = (m.get? a).bind f :=
  Assoc.lookup_filterMapValues m.nodup_keys

theorem get?_orInsert : (m.orInsert k v).get? a = (m.get? a <|> if a = k then some v else none) := by
  unfold orInsert
  split_ifs with hheld ha ha
  · obtain ⟨w, hw⟩ := Option.isSome_iff_exists.1 (ha ▸ hheld)
    rw [hw]
    rfl
  · cases m.get? a <;> rfl
  · rw [get?_insert, if_pos ha, ha, Option.not_isSome_iff_eq_none.1 hheld]
    rfl
  · rw [get?_insert, if_neg ha]
    cases m.get? a <;> rfl

theorem get?_insertSome {o : Option β} :
    (m.insertSome k o).get? a = ((if a = k then o else none) <|> m.get? a) := by
  rcases o with _ | w
  · split_ifs <;> rfl
  · rw [insertSome, get?_insert]
    split_ifs <;> rfl

theorem isSome_insert : ((m.insert k v).get? a).isSome ↔ a = k ∨ (m.get? a).isSome := by
  rw [get?_insert]
  split_ifs with h <;> simp [h]

theorem isSome_insertSome {o : Option β} :
    ((m.insertSome k o).get? a).isSome ↔ a = k ∧ o.isSome ∨ (m.get? a).isSome := by
  rw [get?_insertSome]
  split_ifs with h <;> simp [h]

theorem get?_foldl_insert : ∀ {l : List (κ × β)} {m : SortedMap κ β}, (l.map Prod.fst).Nodup →
    (l.foldl (fun m c => m.insert c.1 c.2) m).get? a = (l.lookup a <|> m.get? a)
  | [], m, _ => by simp
  | (e, w) :: l, m, h => by
    obtain ⟨he, hl⟩ := List.nodup_cons.1 h
    rw [List.foldl_cons, get?_foldl_insert hl, get?_insert, Assoc.lookup_cons]
    split_ifs with ha
    · rw [List.lookup_eq_none_iff.2 fun c hc => by
        simpa using fun hac => he (List.mem_map.2 ⟨c, hc, hac.symm.trans ha⟩)]
      rfl
    · rfl

theorem get?_foldl_insert_empty {l : List (κ × β)} (h : (l.map Prod.fst).Nodup) :
    (l.foldl (fun m c => m.insert c.1 c.2) empty).get? a = some b ↔ (a, b) ∈ l := by
  rw [get?_foldl_insert h, get?_empty, Option.orElse_eq_orElse, Option.orElse_eq_or, Option.or_none]
  exact Assoc.lookup_eq_some_iff h

/-- A table of what each value is mapped to. -/
theorem get?_foldl_insert_map {δ : Type} {f : β → γ} {key : δ → κ} {value : δ → β} : ∀ (items : List δ)
    {m : SortedMap κ β} {n : SortedMap κ γ}, (∀ a, n.get? a = (m.get? a).map f) → ∀ a,
      (items.foldl (fun n x => n.insert (key x) (f (value x))) n).get? a =
        ((items.foldl (fun m x => m.insert (key x) (value x)) m).get? a).map f
  | [], _, _, h, a => h a
  | x :: items, _, _, h, a => by
    rw [List.foldl_cons, List.foldl_cons]
    refine get?_foldl_insert_map items (fun b => ?_) a
    rw [get?_insert, get?_insert, h b]
    split_ifs <;> rfl

theorem get?_merge {patch : SortedMap κ β} :
    (m.merge patch).get? a = (patch.get? a <|> m.get? a) :=
  get?_foldl_insert patch.nodup_keys

/-- The entries of some keys of a map, put into another. -/
theorem get?_foldl_insert_filter {n : SortedMap κ β} {p : κ → Bool} :
    ((m.entries.filter fun c => p c.1).foldl (fun n c => n.insert c.1 c.2) n).get? a =
      ((if p a then m.get? a else none) <|> n.get? a) := by
  rw [get?_foldl_insert (Assoc.nodup_filter m.nodup_keys), Assoc.lookup_filter_key]
  rfl

theorem get?_push {m : SortedMap κ (List β)} : (m.push k v).get? a =
    if a = k then some ((m.get? k).getD [] ++ [v]) else m.get? a :=
  get?_insert

/-- The items of a list, in its order, under the key of each. -/
def group (key : γ → κ) (items : List γ) : SortedMap κ (List γ) :=
  items.foldl (fun m x => m.push (key x) x) empty

theorem getD_foldl_push (key : γ → κ) : ∀ (items : List γ) (m : SortedMap κ (List γ)),
    ((items.foldl (fun m x => m.push (key x) x) m).get? a).getD [] =
      (m.get? a).getD [] ++ items.filter fun x => key x = a
  | [], m => by simp
  | x :: items, m => by
    rw [List.foldl_cons, getD_foldl_push key items, get?_push]
    by_cases h : key x = a
    · rw [if_pos h.symm, List.filter_cons_of_pos (by simpa using h), h]
      simp
    · rw [if_neg (Ne.symm h), List.filter_cons_of_neg (by simpa using h)]

theorem getD_group {key : γ → κ} {items : List γ} :
    ((group key items).get? a).getD [] = items.filter fun x => key x = a := by
  unfold group
  rw [getD_foldl_push, get?_empty]
  rfl

theorem group_eq_some {key : γ → κ} {items xs : List γ} (h : (group key items).get? a = some xs) :
    xs = items.filter fun x => key x = a := by
  rw [← getD_group, h]
  rfl

/-- The groups hold the items, each under its own key. -/
theorem mem_group {key : γ → κ} {items : List γ} {x : γ} :
    x ∈ (group key items).entries.flatMap Prod.snd ↔ x ∈ items := by
  rw [List.mem_flatMap]
  constructor
  · rintro ⟨⟨a, xs⟩, hmem, hx⟩
    rw [show xs = _ from group_eq_some (get?_eq_some.2 hmem)] at hx
    exact (List.mem_filter.1 hx).1
  · intro hx
    have hfilter : x ∈ ((group key items).get? (key x)).getD [] := by
      rw [getD_group]
      exact List.mem_filter.2 ⟨hx, by simp⟩
    obtain ⟨xs, hxs⟩ : ∃ xs, (group key items).get? (key x) = some xs := by
      rcases hget : (group key items).get? (key x) with _ | xs
      · rw [hget] at hfilter
        simp at hfilter
      · exact ⟨xs, rfl⟩
    rw [hxs] at hfilter
    exact ⟨_, get?_eq_some.1 hxs, hfilter⟩

end SortedMap

end JoinedContext

import JoinedContext.Fanout.Keys

/-!
# The index against a scan

After any insertions and removals, the candidates of a document are the filters whose key it meets,
and a filter taken out leaves no trace. The candidates a matcher accepts are all the filters it
accepts, unless it accepts one through the other zero or outside the cells of its area.
-/

namespace JoinedContext.Fanout

section Runs

variable {F : Type} [GridFloat F] (A : Antares F)

/-- What is done to an index: a body compiled and put under an id, a filter taken out, a
notification recorded as sent. -/
inductive IndexOp where
  | insert (id : FilterId) (body : Value)
  | remove (id : FilterId)
  | sent (id : FilterId) (now : Instant)

def IndexOp.about : IndexOp → FilterId
  | .insert id _ | .remove id | .sent id _ => id

namespace Index

def step (ix : Index F) : IndexOp → Index F
  | .insert id body =>
    match compile A body with
    | .ok filter => ix.insert id filter
    | .error _ => ix
  | .remove id => ix.remove id
  | .sent id now => ix.sent A id now

/-- Whether every held filter's key is read from its subscription. -/
def KeyedAll (ix : Index F) : Prop := ∀ id f, ix.filters.lookup id = some f → f.Keyed A

variable {A} {ix : Index F} {id : FilterId}

theorem KeyedAll.step (h : ix.KeyedAll A) (op : IndexOp) : (ix.step A op).KeyedAll A := by
  intro id f hf
  cases op with
  | insert id' body =>
    rcases hcompiled : compile A body with e | filter <;> simp only [Index.step, hcompiled] at hf
    · exact h id f hf
    · rw [filters_insert, Assoc.lookup_append_singleton, Assoc.lookup_without] at hf
      split_ifs at hf with hid
      · cases hf
        exact keyed_compile body _ hcompiled
      · exact h id f (by simpa using hf)
  | remove id' =>
    rw [Index.step, filters_remove, Assoc.lookup_without] at hf
    split_ifs at hf
    exact h id f hf
  | sent id' now =>
    rw [Index.step, lookup_sent, Option.map_eq_some_iff] at hf
    obtain ⟨g, hg, rfl⟩ := hf
    split_ifs
    · exact (h id g hg).sent now
    · exact h id g hg

variable (A) in
/-- What an operation makes of the held filters alone. -/
def heldStep (held : List (FilterId × Filter F)) : IndexOp → List (FilterId × Filter F)
  | .insert id body =>
    match compile A body with
    | .ok filter => Assoc.without id held ++ [(id, filter)]
    | .error _ => held
  | .remove id => Assoc.without id held
  | .sent id now => held.map fun f => if f.1 = id then (f.1, f.2.sent A now) else f

theorem filters_step (op : IndexOp) : (ix.step A op).filters = heldStep A ix.filters op := by
  cases op with
  | insert id body =>
    rcases hcompiled : compile A body with e | filter <;> simp only [Index.step, heldStep, hcompiled]
    exact filters_insert id filter
  | remove id => exact filters_remove id
  | sent id now => rfl

theorem filters_run (ops : List IndexOp) : (Machine.run (Index.step A) ix ops).filters =
    Machine.run (heldStep A) ix.filters ops :=
  Machine.map_run (f := Index.filters) (fun _ op => filters_step op) ops ix

/-- What an operation leaves under the other ids. -/
theorem without_heldStep (held : List (FilterId × Filter F)) (op : IndexOp) :
    Assoc.without id (heldStep A held op) =
      if op.about = id then Assoc.without id held else heldStep A (Assoc.without id held) op := by
  have hcomm : ∀ k, Assoc.without id (Assoc.without k held) =
      Assoc.without k (Assoc.without id held) := fun k => List.filter_comm _ _ _
  cases op with
  | insert k body =>
    rcases hcompiled : compile A body with e | filter <;> simp only [heldStep, hcompiled]
    · exact (ite_self _).symm
    · by_cases hk : k = id
      · subst hk
        simp [IndexOp.about, Assoc.without]
      · rw [if_neg (show (IndexOp.insert k body).about ≠ id from hk), ← hcomm]
        simp [Assoc.without, hk]
  | remove k =>
    by_cases hk : k = id
    · subst hk
      simp [IndexOp.about, heldStep, Assoc.without]
    · rw [if_neg (show (IndexOp.remove k).about ≠ id from hk)]
      exact hcomm k
  | sent k now =>
    have hids : ∀ f : FilterId × Filter F,
        (if f.1 = k then (f.1, f.2.sent A now) else f).1 = f.1 := fun f => by split_ifs <;> rfl
    simp only [heldStep, Assoc.without, List.filter_map, Function.comp_def, hids]
    split_ifs with hk
    · refine (List.map_congr_left fun f hf => if_neg ?_).trans (List.map_id _)
      have hne : f.1 ≠ id := by simpa using List.of_mem_filter hf
      exact fun heq => hne (heq.trans hk)
    · rfl

/-- The filters under the other ids are those of the run without the operations on this one. -/
theorem without_run : ∀ (ops : List IndexOp) (held : List (FilterId × Filter F)),
    Assoc.without id (Machine.run (heldStep A) held ops) =
      Machine.run (heldStep A) (Assoc.without id held) (ops.filter fun op => op.about ≠ id)
  | [], _ => rfl
  | op :: ops, held => by
    rw [Machine.run_cons, without_run ops, without_heldStep]
    by_cases hid : op.about = id
    · rw [if_pos hid, List.filter_cons_of_neg (by simpa using hid)]
    · rw [if_neg hid, List.filter_cons_of_pos (by simpa using hid), Machine.run_cons]

variable [LawfulGrid F]

theorem Canonical.step (h : Canonical ix) (op : IndexOp) : Canonical (ix.step A op) := by
  cases op with
  | insert id body =>
    rcases hcompiled : compile A body with e | filter <;> simp only [Index.step, hcompiled]
    · exact h
    · exact h.insert id filter
  | remove id => exact h.remove id
  | sent id now => exact h.sent A id now

theorem canonical_run (ops : List IndexOp) : Canonical (Machine.run (Index.step A) .empty ops) :=
  Machine.run_preserves (fun _ op h => h.step op) .empty ops

/-- After a filter is taken out, the index is the one it never entered. -/
theorem remove_run (ops : List IndexOp) (id : FilterId) :
    Machine.run (Index.step A) .empty (ops ++ [.remove id]) =
      Machine.run (Index.step A) .empty (ops.filter fun op => op.about ≠ id) := by
  refine (canonical_run _).ext (canonical_run _) ?_
  rw [filters_run, filters_run, Machine.run_append]
  exact without_run ops []

end Index

end Runs

section Candidates

variable {F : Type} [GridFloat F] (A : Antares F)

/-- Whether the matcher reads this value under an attribute of the document. -/
def HasValue (doc : Value) (attr : String) (v : Value) : Prop :=
  ∃ members instances, doc.asObject = some members ∧ (attr, instances) ∈ members ∧
    v ∈ Index.targets A instances

def docTypes (doc : Value) : List String :=
  (((doc.get "type").bind Value.asArray).getD []).filterMap Value.asStr

/-- Whether a document reaches what is posted under a term. -/
def Term.Reached (doc : Value) : Term F → Prop
  | .any => True
  | .type ty => ty ∈ docTypes doc
  | .eq attr canon => ∃ v, HasValue A doc attr v ∧ canonical F v = some canon
  | .lower attr n => ∃ v x, HasValue A doc attr v ∧ Geo.asF64 v = some x ∧
      GridFloat.totalLe n x = true
  | .upper attr n => ∃ v x, HasValue A doc attr v ∧ Geo.asF64 v = some x ∧
      GridFloat.totalLe x n = true
  | .cell c => ∃ cs, Index.entityCells A doc = some cs ∧ c ∈ cs
  | .grid => Index.entityCells A doc = none

/-- Whether a document meets a key. -/
def Key.Meets (doc : Value) (key : Key F) : Prop := ∃ t, key.Has t ∧ t.Reached A doc

variable {A} {ix : Index F} {id : FilterId} {doc : Value}

theorem mem_foldl_union {α : Type} {f : α → Finset FilterId} : ∀ {l : List α} {out : Finset FilterId},
    id ∈ l.foldl (fun out a => out ∪ f a) out ↔ id ∈ out ∨ ∃ a ∈ l, id ∈ f a
  | [], out => by simp
  | a :: l, out => by
    rw [List.foldl_cons, mem_foldl_union, Finset.mem_union]
    simp [or_assoc]

theorem mem_foldl_nested {α β : Type} {f : α → List β} {g : α → β → Finset FilterId} :
    ∀ {l : List α} {out : Finset FilterId},
      id ∈ l.foldl (fun out a => (f a).foldl (fun out b => out ∪ g a b) out) out ↔
        id ∈ out ∨ ∃ a ∈ l, ∃ b ∈ f a, id ∈ g a b
  | [], out => by simp
  | a :: l, out => by
    rw [List.foldl_cons, mem_foldl_nested, mem_foldl_union]
    simp [or_assoc]

namespace Index

omit [GridFloat F] in
theorem mem_byTypes : id ∈ (docTypes doc).foldl (fun out ty => out ∪ ix.byType.bucket ty) ix.any ↔
    ix.Posts id .any ∨ ∃ ty ∈ docTypes doc, ix.Posts id (.type ty) := mem_foldl_union

theorem mem_underValue {attr : String} {v : Value} : id ∈ ix.underValue attr v ↔
    (∃ canon, canonical F v = some canon ∧ ix.Posts id (.eq attr canon)) ∨
      ∃ x, Geo.asF64 v = some x ∧
        ((∃ n, GridFloat.totalLe n x = true ∧ ix.Posts id (.lower attr n)) ∨
          ∃ n, GridFloat.totalLe x n = true ∧ ix.Posts id (.upper attr n)) := by
  rw [underValue, Finset.mem_union]
  refine or_congr ?_ ?_
  · rcases canonical F v with _ | canon
    · simp
    · simp [Posts]
  · rcases (Geo.asF64 v : Option F) with _ | x
    · simp
    · simp [Bounds.mem_upTo, Bounds.mem_downTo, Posts, BoundsOf.At]

theorem entityCells_of_not_object (h : doc.asObject = none) :
    (entityCells A doc : Option (List Cell)) = some [] := by
  have hget : ∀ key, doc.get key = none := by
    intro key
    cases doc with
    | obj members => cases h
    | _ => rfl
  simp [entityCells, hget]

theorem posts_grid (h : Canonical ix) {c : Cell} (hc : ix.Posts id (.cell c)) :
    ix.Posts id .grid := by
  obtain ⟨f, hf, hhas⟩ := (h.posts id _).1 hc
  refine (h.posts id _).2 ⟨f, hf, ?_⟩
  rcases hkey : f.key with _ | _ | _ | _ | _ | _ <;> simp_all [Key.Has]

/-- What the area of the document adds. -/
theorem mem_onArea (h : Canonical ix) {found : Finset FilterId} :
    (id ∈ if ix.onGrid = ∅ then found
      else match entityCells A doc with
        | some cells => cells.foldl (fun out c => out ∪ ix.grid.bucket c) found
        | none => found ∪ ix.onGrid) ↔
      id ∈ found ∨ (∃ c, (Term.cell c : Term F).Reached A doc ∧ ix.Posts id (.cell c)) ∨
        (Term.grid : Term F).Reached A doc ∧ ix.Posts id .grid := by
  simp only [Term.Reached]
  split_ifs with hnone
  · have hgrid : ¬ ix.Posts id .grid := fun hid => by simp [Posts, hnone] at hid
    simp only [hgrid, and_false, or_false, iff_self_or]
    rintro ⟨c, -, hc⟩
    exact absurd (posts_grid h hc) hgrid
  · rcases hcells : (entityCells A doc : Option (List Cell)) with _ | cells
    · simp [Posts]
    · simp [mem_foldl_union, Posts]

/-- What the values of the document add. -/
theorem mem_byValues {members : List (String × Value)} (hobj : doc.asObject = some members)
    {found : Finset FilterId} :
    id ∈ members.foldl (fun out m => (targets A m.2).foldl
      (fun out v => out ∪ ix.underValue m.1 v) out) found ↔
        id ∈ found ∨ ∃ attr v, HasValue A doc attr v ∧ id ∈ ix.underValue attr v := by
  rw [mem_foldl_nested]
  refine or_congr_right ⟨?_, ?_⟩
  · rintro ⟨m, hm, v, hv, hid⟩
    exact ⟨m.1, v, ⟨members, m.2, hobj, hm, hv⟩, hid⟩
  · rintro ⟨attr, v, ⟨members', instances, hobj', hm, hv⟩, hid⟩
    obtain rfl := Option.some.inj (hobj.symm.trans hobj')
    exact ⟨(attr, instances), hm, v, hv, hid⟩

/-- The candidates are what is posted under the terms the document reaches. -/
theorem mem_candidates (h : Canonical ix) :
    id ∈ ix.candidates A doc ↔ ∃ t : Term F, t.Reached A doc ∧ ix.Posts id t := by
  have hshape : id ∈ ix.candidates A doc ↔
      (ix.Posts id .any ∨ ∃ ty ∈ docTypes doc, ix.Posts id (.type ty)) ∨
        (∃ attr v, HasValue A doc attr v ∧ id ∈ ix.underValue attr v) ∨
          (∃ c, (Term.cell c : Term F).Reached A doc ∧ ix.Posts id (.cell c)) ∨
            (Term.grid : Term F).Reached A doc ∧ ix.Posts id .grid := by
    unfold candidates
    rcases hobj : doc.asObject with _ | members <;> dsimp only
    · have hvalue : ∀ attr v, ¬ HasValue A doc attr v := by
        rintro attr v ⟨members, -, hobj', -⟩
        rw [hobj] at hobj'
        cases hobj'
      refine mem_byTypes.trans ?_
      simp [hvalue, Term.Reached, entityCells_of_not_object hobj]
    · refine (mem_onArea h).trans ?_
      rw [mem_byValues hobj, or_assoc]
      exact or_congr_left mem_byTypes
  rw [hshape]
  constructor
  · rintro ((hany | ⟨ty, hty, hpost⟩) | ⟨attr, v, hv, hid⟩ | ⟨c, hc, hpost⟩ | ⟨hgrid, hpost⟩)
    · exact ⟨.any, trivial, hany⟩
    · exact ⟨.type ty, hty, hpost⟩
    · rcases mem_underValue.1 hid with ⟨canon, hcanon, hpost⟩ | ⟨x, hx, hbound⟩
      · exact ⟨.eq attr canon, ⟨v, hv, hcanon⟩, hpost⟩
      · rcases hbound with ⟨n, hle, hpost⟩ | ⟨n, hle, hpost⟩
        · exact ⟨.lower attr n, ⟨v, x, hv, hx, hle⟩, hpost⟩
        · exact ⟨.upper attr n, ⟨v, x, hv, hx, hle⟩, hpost⟩
    · exact ⟨.cell c, hc, hpost⟩
    · exact ⟨.grid, hgrid, hpost⟩
  · rintro ⟨t, hreached, hpost⟩
    cases t with
    | any => exact Or.inl (Or.inl hpost)
    | type ty => exact Or.inl (Or.inr ⟨ty, hreached, hpost⟩)
    | eq attr canon =>
      obtain ⟨v, hv, hcanon⟩ := hreached
      exact Or.inr (Or.inl ⟨attr, v, hv, mem_underValue.2 (Or.inl ⟨canon, hcanon, hpost⟩)⟩)
    | lower attr n =>
      obtain ⟨v, x, hv, hx, hle⟩ := hreached
      exact Or.inr (Or.inl ⟨attr, v, hv,
        mem_underValue.2 (Or.inr ⟨x, hx, Or.inl ⟨n, hle, hpost⟩⟩)⟩)
    | upper attr n =>
      obtain ⟨v, x, hv, hx, hle⟩ := hreached
      exact Or.inr (Or.inl ⟨attr, v, hv,
        mem_underValue.2 (Or.inr ⟨x, hx, Or.inr ⟨n, hle, hpost⟩⟩)⟩)
    | cell c => exact Or.inr (Or.inr (Or.inl ⟨c, hreached, hpost⟩))
    | grid => exact Or.inr (Or.inr (Or.inr ⟨hreached, hpost⟩))

/-- A held filter is a candidate exactly if the document meets its key. -/
theorem candidate_iff (h : Canonical ix) {f : Filter F} (hf : ix.filters.lookup id = some f) :
    id ∈ ix.candidates A doc ↔ f.key.Meets A doc := by
  rw [mem_candidates h, Key.Meets]
  refine exists_congr fun t => ?_
  rw [h.posts, and_comm]
  refine and_congr_left fun _ => ⟨?_, fun hhas => ⟨f, hf, hhas⟩⟩
  rintro ⟨g, hg, hhas⟩
  obtain rfl := Option.some.inj (hf.symm.trans hg)
  exact hhas

theorem held_of_candidate (h : Canonical ix) (hid : id ∈ ix.candidates A doc) :
    id ∈ ix.filters.map Prod.fst := by
  obtain ⟨t, -, hpost⟩ := (mem_candidates h).1 hid
  obtain ⟨f, hf, -⟩ := (h.posts id t).1 hpost
  exact List.mem_map_of_mem (Assoc.mem_of_lookup hf)

end Index

end Candidates

section Matching

variable {F : Type} [GridFloat F] (A : Antares F)

/-- Whether a value compares with the value of a `q` term as the term asks. -/
def Compares (v : Value) : CmpOp → QValue F → Prop
  | .eq, .num n => ∃ x, Geo.asF64 v = some x ∧ Float64.le n x = true ∧ Float64.le x n = true
  | .eq, .str s => v = .str s
  | .eq, .bool b => v = .bool b
  | .gt, .num n => ∃ x, Geo.asF64 v = some x ∧ Float64.lt n x = true
  | .ge, .num n => ∃ x, Geo.asF64 v = some x ∧ Float64.le n x = true
  | .lt, .num n => ∃ x, Geo.asF64 v = some x ∧ Float64.lt x n = true
  | .le, .num n => ∃ x, Geo.asF64 v = some x ∧ Float64.le x n = true
  | _, _ => True

/-- Whether the matcher accepts a document only if a selector's type and every plain term of the
`q` accept it. -/
structure Selective : Prop where
  types {now : Instant} {sub : List (String × Value)} {doc : Value} {es : List Value} :
    A.wouldNotify now (.obj sub) doc = true → sub.lookup "entities" = some (.arr es) →
      ∃ selector ∈ es, ∀ ty, (selector.get "type").bind Value.asStr = some ty →
        isExpression ty = false → ty ∈ docTypes doc
  terms {now : Instant} {sub : List (String × Value)} {doc : Value} {q : String} {node : QNode F} :
    A.wouldNotify now (.obj sub) doc = true → sub.lookup "q" = some (.str q) →
      A.parseQ (A.percentDecode q) = .ok node → sub.lookup "expandValues" = none →
        sub.lookup "jsonKeys" = none → ∀ t ∈ plainTerms A node.conjuncts,
          ∃ v, HasValue A doc t.1 v ∧ Compares v t.2.1 t.2.2

/-- Whether a key is a zero the document has no value at or beyond but, at most, the other zero. -/
def Key.OtherZero (doc : Value) : Key F → Prop
  | .eq attr canon => (∃ z : F, IsZero z ∧ canon = "n:" ++ GridFloat.display z) ∧
      ∀ v, HasValue A doc attr v → canonical F v ≠ some canon
  | .lower attr n => IsZero n ∧ ∀ v x, HasValue A doc attr v → Geo.asF64 v = some x →
      GridFloat.totalLe n x = false
  | .upper attr n => IsZero n ∧ ∀ v x, HasValue A doc attr v → Geo.asF64 v = some x →
      GridFloat.totalLe x n = false
  | _ => False

/-- Whether a key is the cells of an area, none of them a cell of the document's location. -/
def Key.OffCells (doc : Value) : Key F → Prop
  | .cells cs => ∃ ds, Index.entityCells A doc = some ds ∧ ∀ c ∈ cs, c ∉ ds
  | _ => False

variable {A} {doc : Value} {key : Key F} {f : Filter F} {now : Instant}

theorem Key.Meets.not_otherZero (h : key.Meets A doc) : ¬ key.OtherZero A doc := by
  obtain ⟨t, hhas, hreached⟩ := h
  cases key <;> cases t <;> simp only [Key.Has, Key.OtherZero, not_false_eq_true] at hhas ⊢
  · cases hhas
    obtain ⟨v, hv, hcanon⟩ := hreached
    exact fun hzero => hzero.2 v hv hcanon
  · obtain ⟨rfl, rfl⟩ := hhas
    obtain ⟨v, x, hv, hx, hle⟩ := hreached
    exact fun hzero => by simp [hzero.2 v x hv hx] at hle
  · obtain ⟨rfl, rfl⟩ := hhas
    obtain ⟨v, x, hv, hx, hle⟩ := hreached
    exact fun hzero => by simp [hzero.2 v x hv hx] at hle

theorem Key.Meets.not_offCells (h : key.Meets A doc) : ¬ key.OffCells A doc := by
  obtain ⟨t, hhas, hreached⟩ := h
  cases key <;> cases t <;> simp only [Key.Has, Key.OffCells, not_false_eq_true] at hhas ⊢
  · obtain ⟨ds, hds, hc⟩ := hreached
    rintro ⟨ds', hds', hnone⟩
    obtain rfl := Option.some.inj (hds.symm.trans hds')
    exact hnone _ hhas hc
  · rintro ⟨ds, hds, -⟩
    rw [Term.Reached, hds] at hreached
    cases hreached

omit [GridFloat F] in
theorem mem_types_of_typesKey {es : List Value} {tys : List String} {selector : Value}
    (h : (typesKey (some es) : Key F) = .types tys) (hmem : selector ∈ es) :
    ∃ ty ∈ tys, (selector.get "type").bind Value.asStr = some ty ∧ isExpression ty = false := by
  unfold typesKey at h
  dsimp only at h
  split_ifs at h with hall
  cases h
  have hsome := List.all_eq_true.1 hall _ (List.mem_map_of_mem hmem)
  obtain ⟨ty, hty⟩ := Option.isSome_iff_exists.1 hsome
  obtain ⟨hbind, hplain⟩ := Option.filter_eq_some_iff.1 hty
  refine ⟨ty, List.mem_filterMap.2 ⟨some ty, ?_, rfl⟩, hbind, by simpa using hplain⟩
  exact hty ▸ List.mem_map_of_mem hmem

variable [LawfulGrid F]

theorem isZero_of_le {a b : F} (hab : Float64.le a b = true) (hba : Float64.le b a = true) :
    a = b ∨ IsZero a := by
  rcases LawfulGrid.of_le hab with hle | hzero
  · rcases LawfulGrid.of_le hba with hle' | hzero
    · exact Or.inl (LawfulGrid.antisymm hle hle')
    · exact Or.inr hzero.2
  · exact Or.inr hzero.1

/-- A key read from a term the document meets is met, but for the other zero. -/
theorem meets_of_fromTerm {terms : List (String × CmpOp × QValue F)} (h : FromTerm terms key)
    (hterms : ∀ t ∈ terms, ∃ v, HasValue A doc t.1 v ∧ Compares v t.2.1 t.2.2) :
    key.Meets A doc ∨ key.OtherZero A doc := by
  rw [or_iff_not_imp_left]
  intro hmiss
  cases h with
  | @eq attr value canon hmem hcanon =>
    obtain ⟨v, hv, hcompares⟩ := hterms _ hmem
    have hnot : ∀ v, HasValue A doc attr v → canonical F v ≠ some canon := fun v hv hcanon =>
      hmiss ⟨.eq attr canon, rfl, v, hv, hcanon⟩
    refine ⟨?_, hnot⟩
    cases value with
    | num n =>
      obtain ⟨x, hx, hnx, hxn⟩ := hcompares
      cases hcanon
      rcases isZero_of_le hnx hxn with rfl | hzero
      · refine absurd ?_ (hnot v hv)
        cases v with
        | num m e =>
          cases hx
          rfl
        | _ => cases hx
      · exact ⟨n, hzero, rfl⟩
    | str s =>
      cases hcanon
      cases (hcompares : v = .str s)
      exact absurd rfl (hnot _ hv)
    | bool b =>
      cases hcanon
      cases (hcompares : v = .bool b)
      exact absurd rfl (hnot _ hv)
    | other => cases hcanon
  | @lower attr op n hmem hop =>
    obtain ⟨v, hv, hcompares⟩ := hterms _ hmem
    have hnot : ∀ v x, HasValue A doc attr v → Geo.asF64 v = some x →
        GridFloat.totalLe n x = false := fun v x hv hx => by
      by_contra hle
      exact hmiss ⟨.lower attr n, ⟨rfl, rfl⟩, v, x, hv, hx, by simpa using hle⟩
    rcases hop with rfl | rfl
    · obtain ⟨x, hx, hlt⟩ := hcompares
      have := hnot v x hv hx
      rw [LawfulGrid.of_lt hlt] at this
      cases this
    · obtain ⟨x, hx, hle⟩ := hcompares
      rcases LawfulGrid.of_le hle with hle | hzero
      · rw [hnot v x hv hx] at hle
        cases hle
      · exact ⟨hzero.1, hnot⟩
  | @upper attr op n hmem hop =>
    obtain ⟨v, hv, hcompares⟩ := hterms _ hmem
    have hnot : ∀ v x, HasValue A doc attr v → Geo.asF64 v = some x →
        GridFloat.totalLe x n = false := fun v x hv hx => by
      by_contra hle
      exact hmiss ⟨.upper attr n, ⟨rfl, rfl⟩, v, x, hv, hx, by simpa using hle⟩
    rcases hop with rfl | rfl
    · obtain ⟨x, hx, hlt⟩ := hcompares
      have := hnot v x hv hx
      rw [LawfulGrid.of_lt hlt] at this
      cases this
    · obtain ⟨x, hx, hle⟩ := hcompares
      rcases LawfulGrid.of_le hle with hle | hzero
      · rw [hnot v x hv hx] at hle
        cases hle
      · exact ⟨hzero.2, hnot⟩

/-- An accepted document meets the filter's key, but for the other zero and the cells. -/
theorem meets_of_accepted (hA : Selective A) (hkeyed : f.Keyed A)
    (haccepted : A.wouldNotify now f.sub doc = true) :
    f.key.Meets A doc ∨ f.key.OtherZero A doc ∨ f.key.OffCells A doc := by
  obtain ⟨sub, hsub, hfrom⟩ := hkeyed
  rw [hsub] at haccepted
  have hterm : (∃ q node, sub.lookup "q" = some (.str q) ∧
      A.parseQ (A.percentDecode q) = .ok node ∧ sub.lookup "expandValues" = none ∧
        sub.lookup "jsonKeys" = none ∧ qKey A node = some f.key) →
      f.key.Meets A doc ∨ f.key.OtherZero A doc ∨ f.key.OffCells A doc := by
    rintro ⟨q, node, hq, hnode, hvalues, hjson, hkey⟩
    exact (meets_of_fromTerm (fromTerm_of_qKey hkey)
      (hA.terms haccepted hq hnode hvalues hjson)).imp_right Or.inl
  rcases hkey : f.key with _ | tys | _ | _ | _ | cs <;> rw [hkey] at hfrom hterm
  · exact Or.inl ⟨.any, trivial, trivial⟩
  · obtain ⟨es, hes, htypes⟩ := hfrom
    obtain ⟨selector, hmem, hselects⟩ := hA.types haccepted hes
    obtain ⟨ty, hty, hbind, hplain⟩ := mem_types_of_typesKey htypes hmem
    exact Or.inl ⟨.type ty, hty, hselects ty hbind hplain⟩
  · exact hterm hfrom
  · exact hterm hfrom
  · exact hterm hfrom
  · rcases hcells : (Index.entityCells A doc : Option (List Cell)) with _ | ds
    · exact Or.inl ⟨.grid, trivial, hcells⟩
    · by_cases hshared : ∃ c ∈ cs, c ∈ ds
      · obtain ⟨c, hc, hd⟩ := hshared
        exact Or.inl ⟨.cell c, hc, ds, hcells, hd⟩
      · exact Or.inr (Or.inr ⟨ds, hcells, fun c hc hd => hshared ⟨c, hc, hd⟩⟩)

/-- After any operations on an index, the candidates it decides for are all the filters it decides
for, exactly unless a filter that fires is accepted through the other zero or outside its cells; and
a filter taken out leaves no trace. -/
theorem candidates_agree_iff (hA : Selective A) (ops : List IndexOp) (doc : Value) (now : Instant)
    (changed : Finset String) :
    let ix := Machine.run (Index.step A) Index.empty ops
    ((ix.candidates A doc).filter (fun id => ix.decides A now id doc changed = true) =
        (ix.filters.map Prod.fst).toFinset.filter (fun id => ix.decides A now id doc changed = true) ∧
      ∀ id, Machine.run (Index.step A) .empty (ops ++ [.remove id]) =
        Machine.run (Index.step A) .empty (ops.filter fun op => op.about ≠ id)) ↔
    ∀ c ∈ ix.filters, c.2.firesOn changed → A.wouldNotify now c.2.sub doc = true →
      ¬ c.2.key.OtherZero A doc ∧ ¬ c.2.key.OffCells A doc := by
  intro ix
  have hcanonical : Index.Canonical ix := Index.canonical_run ops
  have hkeyed : ix.KeyedAll A :=
    Machine.run_preserves (P := Index.KeyedAll A) (fun _ op h => h.step op)
      (fun _ _ h => by cases h) ops
  rw [and_iff_left (Index.remove_run ops)]
  constructor
  · intro hagree c hc hfires haccepted
    have hlookup : ix.filters.lookup c.1 = some c.2 :=
      (Assoc.lookup_eq_some_iff hcanonical.ids).2 hc
    have hdecides : ix.decides A now c.1 doc changed = true := by
      simp [Index.decides, hlookup, hfires, haccepted]
    have hmem : c.1 ∈ (ix.filters.map Prod.fst).toFinset.filter
        fun id => ix.decides A now id doc changed = true :=
      Finset.mem_filter.2 ⟨List.mem_toFinset.2 (List.mem_map_of_mem hc), hdecides⟩
    rw [← hagree, Finset.mem_filter, Index.candidate_iff hcanonical hlookup] at hmem
    exact ⟨hmem.1.not_otherZero, hmem.1.not_offCells⟩
  · intro hnone
    refine Finset.ext fun id => ?_
    rw [Finset.mem_filter, Finset.mem_filter, List.mem_toFinset]
    refine and_congr_left fun hdecides => ⟨Index.held_of_candidate hcanonical, fun hheld => ?_⟩
    obtain ⟨f, hlookup⟩ := Option.isSome_iff_exists.1 (Assoc.lookup_isSome_iff.2 hheld)
    rw [Index.decides, hlookup] at hdecides
    simp only [Option.any_some, Bool.and_eq_true, decide_eq_true_eq] at hdecides
    obtain ⟨hzero, hcells⟩ := hnone _ (Assoc.mem_of_lookup hlookup) hdecides.1 hdecides.2
    rw [Index.candidate_iff hcanonical hlookup]
    exact (meets_of_accepted hA (hkeyed id f hlookup) hdecides.2).resolve_right
      fun hmiss => hmiss.elim hzero hcells

end Matching

section DateLine

/-- A point on the equator, by its longitude in ten-thousandths of a degree. -/
def onEquator (lon : Int) : Value := .arr [.num lon (-4), .num 0 0]

def nearDateLine : Value :=
  .obj [("georel", .str "near;maxDistance==2000"), ("geometry", .str "Point"),
    ("coordinates", onEquator (-1799995))]

def buoyBody : Value :=
  .obj [("type", .str "Subscription"), ("geoQ", nearDateLine),
    ("entities", .arr [.obj [("type", .str "Buoy")]])]

/-- A buoy 111 metres away, across the date line. -/
def buoy : Value :=
  .obj [("id", .str "urn:ngsi-ld:Buoy:b1"), ("type", .arr [.str "Buoy"]),
    ("location", .arr [.obj [("value", .obj [("type", .str "Point"),
      ("coordinates", onEquator 1799995)])]])]

/-- A matcher that measures the distance on the globe. -/
def dateLineAntares : Antares ℚ :=
  { bareAntares ℚ with
    geoQuery := fun geo => .ok (some ⟨.near (some 2000), "location",
      (geo.lookup "coordinates").getD .null⟩)
    wouldNotify := fun _ sub doc => decide (sub = buoyBody ∧ doc = buoy) }

theorem selective_dateLineAntares : Selective dateLineAntares where
  types haccepted hes := by
    obtain ⟨hsub, rfl⟩ := of_decide_eq_true haccepted
    cases hsub
    cases hes
    refine ⟨_, List.mem_singleton_self _, fun ty hty _ => ?_⟩
    cases hty
    show "Buoy" ∈ ["Buoy"]
    exact List.mem_singleton_self _
  terms haccepted hq := by
    obtain ⟨hsub, -⟩ := of_decide_eq_true haccepted
    cases hsub
    cases hq

theorem compile_buoyBody : ∃ f, compile dateLineAntares buoyBody = .ok f ∧ f.sub = buoyBody ∧
    f.watched = ∅ ∧ ∃ cs, f.key = .cells cs ∧ (17999, 0) ∉ cs := by
  have h : (match compile dateLineAntares buoyBody with
    | .ok f => decide (f.sub = buoyBody ∧ f.watched = ∅) &&
        match f.key with
        | .cells cs => decide ((17999, 0) ∉ cs)
        | _ => false
    | .error _ => false) = true := by decide +kernel
  rcases hcompiled : compile dateLineAntares buoyBody with e | f <;> simp only [hcompiled] at h
  · cases h
  · rw [Bool.and_eq_true, decide_eq_true_eq] at h
    refine ⟨f, rfl, h.1.1, h.1.2, ?_⟩
    rcases hkey : f.key with _ | _ | _ | _ | _ | cs <;> simp only [hkey] at h
    case cells => exact ⟨cs, rfl, of_decide_eq_true h.2⟩
    all_goals cases h.2

def dateLineIndex : Index ℚ :=
  Machine.run (Index.step dateLineAntares) .empty [.insert 1 buoyBody]

/-- The buoy's change is the filter's, and the index does not find it. -/
theorem dateLine_missed :
    ¬ (dateLineIndex.candidates dateLineAntares buoy).filter
        (fun id => dateLineIndex.decides dateLineAntares 0 id buoy {"location"} = true) =
      (dateLineIndex.filters.map Prod.fst).toFinset.filter
        fun id => dateLineIndex.decides dateLineAntares 0 id buoy {"location"} = true := by
  obtain ⟨f, hcompiled, hsub, hwatched, cs, hkey, hcs⟩ := compile_buoyBody
  have hcanonical : Index.Canonical dateLineIndex := Index.canonical_run _
  have hlookup : dateLineIndex.filters.lookup 1 = some f := by
    simp [dateLineIndex, Index.step, hcompiled, Index.filters_insert, Index.empty, Assoc.without]
  have hdecides : dateLineIndex.decides dateLineAntares 0 1 buoy {"location"} = true := by
    simp [Index.decides, hlookup, hsub, Filter.firesOn, hwatched, dateLineAntares]
  have hcells : Index.entityCells dateLineAntares buoy = some [(17999, 0)] := by decide +kernel
  intro hagree
  have hmem : 1 ∈ (dateLineIndex.filters.map Prod.fst).toFinset.filter
      fun id => dateLineIndex.decides dateLineAntares 0 id buoy {"location"} = true :=
    Finset.mem_filter.2 ⟨List.mem_toFinset.2
      (List.mem_map_of_mem (Assoc.mem_of_lookup hlookup)), hdecides⟩
  rw [← hagree, Finset.mem_filter, Index.candidate_iff hcanonical hlookup, hkey] at hmem
  refine hmem.1.not_offCells ⟨_, hcells, fun c hc hd => hcs ?_⟩
  exact List.mem_singleton.1 hd ▸ hc

theorem candidates_agree_dateLine :
    (((dateLineIndex.candidates dateLineAntares buoy).filter
        (fun id => dateLineIndex.decides dateLineAntares 0 id buoy {"location"} = true) =
      (dateLineIndex.filters.map Prod.fst).toFinset.filter
        fun id => dateLineIndex.decides dateLineAntares 0 id buoy {"location"} = true) ∧
      ∀ id, Machine.run (Index.step dateLineAntares) .empty
          ([.insert 1 buoyBody] ++ [.remove id]) =
        Machine.run (Index.step dateLineAntares) .empty
          ([IndexOp.insert 1 buoyBody].filter fun op => op.about ≠ id)) ↔
    ∀ c ∈ dateLineIndex.filters, c.2.firesOn {"location"} →
      dateLineAntares.wouldNotify 0 c.2.sub buoy = true →
        ¬ c.2.key.OtherZero dateLineAntares buoy ∧ ¬ c.2.key.OffCells dateLineAntares buoy :=
  candidates_agree_iff selective_dateLineAntares [.insert 1 buoyBody] buoy 0 {"location"}

end DateLine

end JoinedContext.Fanout

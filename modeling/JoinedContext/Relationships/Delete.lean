import JoinedContext.Relationships.Cascade

/-!
# What a delete leaves

The steps of a plan are worked out from the store as it was read, and two of them may change one
instance of an attribute. The instance keeps what the last rewrite of it says, so a delete leaves no
reference behind exactly where each instance names at most one of the entities that go.
-/

namespace JoinedContext.Relationships

section Closure

variable (rules : RelationshipRules) (s : Store)

/-- Whether an entity that points at `x` goes with it. -/
def Cascades (x y : String) : Prop :=
  ∃ at_ ∈ rules.referencingId x, at_.storedEnd.cascades = true ∧
    ∃ e ∈ s.naming at_.className at_.slot x, e.id = y

/-- What a delete of the root takes along, the root included. -/
def GoesWith (root : String) : String → Prop := Relation.ReflTransGen (Cascades rules s) root

end Closure

section Steps

variable {e : Entity} {at_ : Referencing} {x slot : String} {dataset : Option String}

theorem mem_names : x ∈ e.names slot ↔ ∃ i ∈ e.attrs slot, x ∈ i.named := List.mem_flatMap

/-- A read of an attribute the entity has answers its instances. -/
theorem instancesOf_answer (h : x ∈ e.names slot) :
    instancesOf (e.answer slot) slot = (e.attrs slot).map Value.obj := by
  unfold instancesOf Entity.answer
  rcases hattrs : e.attrs slot with _ | ⟨i, _ | ⟨j, rest⟩⟩
  · obtain ⟨i, hi, -⟩ := mem_names.1 h
    rw [hattrs] at hi
    cases hi
  · simp
  · simp

/-- Whether the rule of an end changes the entity for `x`: the end neither keeps the target nor takes
the entity along, and a required end has another target to keep. -/
def Unlinks (e : Entity) (at_ : Referencing) (x : String) : Prop :=
  at_.storedEnd.onDelete ≠ .restrict ∧ at_.storedEnd.cascades = false ∧
    (at_.storedEnd.required = true → at_.storedEnd.many = true ∧ ∃ z ∈ e.names at_.slot, z ≠ x)

/-- Whether the end then takes the instance of the dataset away: a single end its default one, and a
many end one that names `x` alone. -/
def TakesAway (e : Entity) (at_ : Referencing) (x : String) (dataset : Option String) : Prop :=
  (at_.storedEnd.many = false ∧ dataset = none) ∨
    at_.storedEnd.many = true ∧
      ∃ i ∈ e.attrs at_.slot, i.dataset = dataset ∧ x ∈ i.named ∧ ∀ z ∈ i.named, z = x

/-- Whether the end then leaves the instance its other targets. -/
def Relinks (e : Entity) (at_ : Referencing) (x : String) (dataset : Option String)
    (objects : List String) : Prop :=
  at_.storedEnd.many = true ∧ ∃ i ∈ e.attrs at_.slot, i.dataset = dataset ∧ x ∈ i.named ∧
    objects = i.named.filter (· ≠ x) ∧ objects ≠ []

theorem left_eq_zero_iff :
    (((e.attrs at_.slot).map Value.obj).map fun v => (othersOf x v).length).sum = 0 ↔
      ∀ z ∈ e.names at_.slot, z = x := by
  simp only [List.sum_eq_zero_iff_forall_eq_nat, List.mem_map, forall_exists_index, and_imp,
    forall_apply_eq_imp_iff₂, List.length_eq_zero_iff, othersOf, List.filter_eq_nil_iff, mem_names]
  constructor
  · intro h z i hi hz
    simpa using h i hi z hz
  · intro h i hi z hz
    simpa using h z i hi hz

theorem changes_of_mem_names (hx : x ∈ e.names at_.slot) :
    ¬ (removedFrom x ((e.attrs at_.slot).map Value.obj) = [] ∧
      rewrittenFrom x ((e.attrs at_.slot).map Value.obj) = []) := by
  rintro ⟨hremoved, hrewritten⟩
  obtain ⟨i, hi, hxi⟩ := mem_names.1 hx
  have hv : Value.obj i ∈ (e.attrs at_.slot).map Value.obj := List.mem_map_of_mem hi
  by_cases hothers : othersOf x (.obj i) = []
  · exact List.eq_nil_iff_forall_not_mem.1 hremoved _ (mem_removedFrom.2 ⟨_, hv, hxi, hothers, rfl⟩)
  · exact List.eq_nil_iff_forall_not_mem.1 hrewritten _
      (mem_rewrittenFrom.2 ⟨_, hv, hxi, hothers, rfl, rfl⟩)

theorem mem_removed {dataset : Option String} :
    dataset ∈ removedFrom x ((e.attrs at_.slot).map Value.obj) ↔
      ∃ i ∈ e.attrs at_.slot, i.dataset = dataset ∧ x ∈ i.named ∧ ∀ z ∈ i.named, z = x := by
  rw [mem_removedFrom]
  constructor
  · rintro ⟨v, hv, hnamed, hothers, hdataset⟩
    obtain ⟨i, hi, rfl⟩ := List.mem_map.1 hv
    refine ⟨i, hi, hdataset, hnamed, fun z hz => ?_⟩
    simpa using List.filter_eq_nil_iff.1 hothers z hz
  · rintro ⟨i, hi, hdataset, hnamed, halone⟩
    refine ⟨_, List.mem_map_of_mem hi, hnamed, List.filter_eq_nil_iff.2 fun z hz => ?_, hdataset⟩
    simpa using halone z hz

theorem mem_rewritten {dataset : Option String} {objects : List String} :
    (dataset, objects) ∈ rewrittenFrom x ((e.attrs at_.slot).map Value.obj) ↔
      ∃ i ∈ e.attrs at_.slot, i.dataset = dataset ∧ x ∈ i.named ∧
        objects = i.named.filter (· ≠ x) ∧ objects ≠ [] := by
  rw [mem_rewrittenFrom]
  constructor
  · rintro ⟨v, hv, hnamed, hne, hdataset, hothers⟩
    obtain ⟨i, hi, rfl⟩ := List.mem_map.1 hv
    exact ⟨i, hi, hdataset, hnamed, hothers.symm, hothers ▸ hne⟩
  · rintro ⟨i, hi, hdataset, hnamed, hothers, hne⟩
    have hne' : othersOf x (.obj i) ≠ [] := fun hnil => hne (hothers.trans hnil)
    exact ⟨_, List.mem_map_of_mem hi, hnamed, hne', hdataset, hothers.symm⟩

/-- The steps an end asks for on an entity that names the target there. -/
theorem mem_unlinkSteps {step : Unlinking} (hx : x ∈ e.names at_.slot) :
    step ∈ unlinkSteps e at_ x ↔ Unlinks e at_ x ∧
      ((at_.storedEnd.many = false ∧ step = .deleteAttribute e.id at_.slot) ∨
        (at_.storedEnd.many = true ∧
          ∃ dataset, TakesAway e at_ x dataset ∧ step = .deleteInstance e.id at_.slot dataset) ∨
        ∃ dataset objects, Relinks e at_ x dataset objects ∧
          step = .rewrite e.id at_.slot dataset objects) := by
  unfold unlinkSteps unlink Unlinks TakesAway Relinks StoredEnd.cascades
  simp only [instancesOf_answer hx, left_eq_zero_iff, changes_of_mem_names hx, not_false_iff,
    and_true]
  by_cases hrestrict : at_.storedEnd.onDelete = .restrict
  · simp [hrestrict, stepsOf]
  rcases hmany : at_.storedEnd.many with _ | _
  · rcases hon : at_.storedEnd.onDelete with _ | _ | _
    · exact absurd hon hrestrict
    · simp [stepsOf]
    · rcases hrequired : at_.storedEnd.required with _ | _ <;> simp [stepsOf]
  · simp only [hrestrict, if_false, Bool.not_true, Bool.false_eq_true]
    split_ifs with hempty
    · have hnone : ¬ ∃ z ∈ e.names at_.slot, z ≠ x := by
        rintro ⟨z, hz, hne⟩
        exact hne (hempty.2 z hz)
      simp only [stepsOf, List.not_mem_nil, false_iff]
      exact fun h => hnone (h.1.2.2 hempty.1).2
    · have hkeeps : at_.storedEnd.required = true → ∃ z ∈ e.names at_.slot, z ≠ x := by
        intro hrequired
        by_contra hnone
        push Not at hnone
        exact hempty ⟨hrequired, hnone⟩
      simp only [stepsOf, List.mem_append, List.mem_map, mem_removed, Prod.exists, mem_rewritten]
      simp only [ne_eq, hrestrict, not_false_iff, Bool.and_false, true_and, false_and, false_or]
      constructor
      · rintro (⟨dataset, hi, rfl⟩ | ⟨dataset, objects, hi, rfl⟩)
        · exact ⟨hkeeps, Or.inl ⟨dataset, hi, rfl⟩⟩
        · exact ⟨hkeeps, Or.inr ⟨dataset, objects, hi, rfl⟩⟩
      · rintro ⟨-, ⟨dataset, hi, rfl⟩ | ⟨dataset, objects, hi, rfl⟩⟩
        · exact Or.inl ⟨dataset, hi, rfl⟩
        · exact Or.inr ⟨dataset, objects, hi, rfl⟩

/-- The instances taken away are those of the entity's end that name the target alone. -/
theorem removes_unlinkSteps (hx : x ∈ e.names at_.slot) {id : String} :
    (∃ step ∈ unlinkSteps e at_ x, step.Removes id slot dataset) ↔
      id = e.id ∧ slot = at_.slot ∧ Unlinks e at_ x ∧ TakesAway e at_ x dataset := by
  simp only [mem_unlinkSteps hx]
  constructor
  · rintro ⟨step, ⟨hunlinks, hstep⟩, hremoves⟩
    rcases hstep with ⟨hmany, rfl⟩ | ⟨-, d, htakes, rfl⟩ | ⟨d, objects, -, rfl⟩ <;>
      rcases hremoves with heq | ⟨hnone, heq⟩ <;> cases heq
    · exact ⟨rfl, rfl, hunlinks, Or.inl ⟨hmany, hnone⟩⟩
    · exact ⟨rfl, rfl, hunlinks, htakes⟩
  · rintro ⟨rfl, rfl, hunlinks, htakes⟩
    rcases hmany : at_.storedEnd.many with _ | _
    · have hnone : dataset = none := by
        rcases htakes with ⟨-, hnone⟩ | ⟨htrue, -⟩
        · exact hnone
        · rw [hmany] at htrue
          cases htrue
      exact ⟨_, ⟨hunlinks, Or.inl ⟨rfl, rfl⟩⟩, Or.inr ⟨hnone, rfl⟩⟩
    · exact ⟨_, ⟨hunlinks, Or.inr (Or.inl ⟨rfl, dataset, htakes, rfl⟩)⟩, Or.inl rfl⟩

/-- A rewrite is of an instance that names the target beside others, and keeps the others. -/
theorem rewrite_unlinkSteps (hx : x ∈ e.names at_.slot) {id : String} {objects : List String} :
    .rewrite id slot dataset objects ∈ unlinkSteps e at_ x ↔
      id = e.id ∧ slot = at_.slot ∧ Unlinks e at_ x ∧ Relinks e at_ x dataset objects := by
  rw [mem_unlinkSteps hx]
  constructor
  · rintro ⟨hunlinks, ⟨-, heq⟩ | ⟨-, d, -, heq⟩ | ⟨d, objects', hrelinks, heq⟩⟩ <;> cases heq
    exact ⟨rfl, rfl, hunlinks, hrelinks⟩
  · rintro ⟨rfl, rfl, hunlinks, hrelinks⟩
    exact ⟨hunlinks, Or.inr (Or.inr ⟨dataset, objects, hrelinks, rfl⟩)⟩

end Steps

section Sets

variable (rules : RelationshipRules) (s : Store) (D V G : String → Prop)

/-- Whether an end of the entity points at `x`, so that a delete of `x` reaches it there. -/
def PointsAt (e : Entity) (at_ : Referencing) (x : String) : Prop :=
  at_ ∈ rules.referencingId x ∧ at_.className ∈ e.types ∧ x ∈ e.names at_.slot

/-- Whether the rule of an end takes the instance away, for one of the ids visited. -/
def Takes (e : Entity) (slot : String) (dataset : Option String) : Prop :=
  ∃ x, V x ∧ ∃ at_, PointsAt rules e at_ x ∧
    slot = at_.slot ∧ Unlinks e at_ x ∧ TakesAway e at_ x dataset

/-- Whether the rule of an end rewrites the instance for `x`, keeping the other targets. -/
def Rewrites (e : Entity) (slot : String) (dataset : Option String) (x : String) : Prop :=
  ∃ at_, PointsAt rules e at_ x ∧
    slot = at_.slot ∧ Unlinks e at_ x ∧ ∃ objects, Relinks e at_ x dataset objects

/-- What holds of the steps of a plan: each is one an end asks for at an id visited, and of an entity
that does not go every one is there. -/
structure Covers (steps : List Unlinking) : Prop where
  sound : ∀ step ∈ steps, step.isDelete = false → ∃ x, V x ∧ ∃ e ∈ s.entities, ∃ at_,
    PointsAt rules e at_ x ∧ step ∈ unlinkSteps e at_ x
  complete : ∀ e ∈ s.entities, ¬ D e.id → ∀ x, V x → ∀ at_, PointsAt rules e at_ x →
    ∀ step ∈ unlinkSteps e at_ x, step ∈ steps

/-- Whether each instance is taken away, names none of the entities gone, or names one of them
alone, for which its end's rule rewrites it. -/
def NamesAtMostOne (e : Entity) (slot : String) : Prop :=
  ∀ i ∈ e.attrs slot, Takes rules V e slot i.dataset ∨ (∀ x ∈ i.named, ¬ G x) ∨
    ∃ x, G x ∧ (∀ z ∈ i.named, G z → z = x) ∧ Rewrites rules e slot i.dataset x

/-- Where a delete leaves nothing behind: on an entity that stays, each instance names at most one of
those that go, and a required end keeps an instance. -/
def LeavesNoReference : Prop :=
  ∀ e ∈ s.entities, ¬ D e.id → ∀ at_ ∈ rules.ends, at_.className ∈ e.types →
    NamesAtMostOne rules D D e at_.slot ∧ (at_.storedEnd.required = true → e.names at_.slot ≠ [] →
      ∃ i ∈ e.attrs at_.slot, ¬ Takes rules D e at_.slot i.dataset ∧ i.named ≠ [])

/-- No entity left names one that is gone on a stored end of its class, and no required end is
emptied. -/
structure Consistent (left : Store) : Prop where
  noDangling : ∀ e ∈ left.entities, ∀ at_ ∈ rules.ends, at_.className ∈ e.types →
    ∀ x ∈ e.names at_.slot, ¬ D x
  noEmptied : ∀ e ∈ s.entities, ∀ e' ∈ left.entities, e'.id = e.id → ∀ at_ ∈ rules.ends,
    at_.className ∈ e.types → at_.storedEnd.required = true → e.names at_.slot ≠ [] →
      e'.names at_.slot ≠ []

end Sets

section Kept

variable {rules : RelationshipRules} {s : Store} {D V G : String → Prop}
  {steps first rest : List Unlinking} {e : Entity} {slot : String}

theorem eq_of_dataset {i j : Instance} (hi : i ∈ e.attrs slot) (hj : j ∈ e.attrs slot)
    (h : i.dataset = j.dataset) : i = j :=
  List.inj_on_of_nodup_map (e.nodup slot) hi hj h

theorem isDelete_of_removes {step : Unlinking} {id : String} {dataset : Option String}
    (h : step.Removes id slot dataset) : step.isDelete = false := by
  rcases h with rfl | ⟨-, rfl⟩ <;> rfl

theorem takes_of_removes (hc : Covers rules s D V steps) (he : e ∈ s.entities)
    {dataset : Option String} {step : Unlinking} (hstep : step ∈ steps)
    (hremoves : step.Removes e.id slot dataset) : Takes rules V e slot dataset := by
  obtain ⟨x, hx, e', he', at_, hpoints, hmem⟩ :=
    hc.sound step hstep (isDelete_of_removes hremoves)
  obtain ⟨hid, htakes⟩ := (removes_unlinkSteps hpoints.2.2).1 ⟨step, hmem, hremoves⟩
  obtain rfl := eq_of_id he he' hid.symm
  exact ⟨x, hx, at_, hpoints, htakes⟩

theorem removes_iff_takes (hc : Covers rules s D V steps) (he : e ∈ s.entities) (hstay : ¬ D e.id)
    {dataset : Option String} :
    (∃ step ∈ steps, step.Removes e.id slot dataset) ↔ Takes rules V e slot dataset := by
  constructor
  · rintro ⟨step, hstep, hremoves⟩
    exact takes_of_removes hc he hstep hremoves
  · rintro ⟨x, hx, at_, hpoints, htakes⟩
    obtain ⟨step, hmem, hremoves⟩ := (removes_unlinkSteps hpoints.2.2).2 ⟨rfl, htakes⟩
    exact ⟨step, hc.complete e he hstay x hx at_ hpoints step hmem, hremoves⟩

/-- A rewrite among the steps is of an instance that names the target, and keeps the others. -/
theorem rewrite_of_mem_steps (hc : Covers rules s D V steps) (he : e ∈ s.entities) {i : Instance}
    (hi : i ∈ e.attrs slot) {objects : List String}
    (h : .rewrite e.id slot i.dataset objects ∈ steps) :
    ∃ x, V x ∧ x ∈ i.named ∧ objects = i.named.filter (· ≠ x) ∧ objects ≠ [] ∧
      Rewrites rules e slot i.dataset x := by
  obtain ⟨x, hx, e', he', at_, hpoints, hmem⟩ := hc.sound _ h rfl
  obtain ⟨hid, rfl, hunlinks, hrelinks⟩ := (rewrite_unlinkSteps hpoints.2.2).1 hmem
  obtain rfl := eq_of_id he he' hid.symm
  have ⟨_, j, hj, hdataset, hnamed, hobjects, hne⟩ := hrelinks
  obtain rfl := eq_of_dataset hj hi hdataset
  exact ⟨x, hx, hnamed, hobjects, hne, at_, hpoints, rfl, hunlinks, objects, hrelinks⟩

theorem mem_names_run {x : String} :
    x ∈ (e.run steps).names slot ↔
      ∃ i ∈ e.attrs slot, ∃ j, after e.id slot steps i = some j ∧ x ∈ j.named := by
  rw [mem_names]
  simp only [Entity.run, List.mem_filterMap]
  constructor
  · rintro ⟨j, ⟨i, hi, hj⟩, hx⟩
    exact ⟨i, hi, j, hj, hx⟩
  · rintro ⟨i, hi, j, hj, hx⟩
    exact ⟨j, ⟨i, hi, hj⟩, hx⟩

theorem mem_named_of_after (hc : Covers rules s D V steps) (he : e ∈ s.entities) {i j : Instance}
    (hi : i ∈ e.attrs slot) (hafter : after e.id slot steps i = some j) {x : String}
    (hx : x ∈ j.named) : x ∈ i.named := by
  rcases named_after hafter with ⟨objects, hmem, hobjects⟩ | ⟨-, rfl⟩
  · obtain ⟨_, -, -, hkeeps, -⟩ := rewrite_of_mem_steps hc he hi hmem
    rw [hobjects, hkeeps] at hx
    exact (List.mem_filter.1 hx).1
  · exact hx

/-- What an entity that stays names after the steps holds none of those gone, exactly when each of
its instances is taken away, names none of them, or names one alone and is rewritten for it. The
steps may begin with some for ids that are not gone. -/
theorem names_run_iff (hc : Covers rules s D V (first ++ rest)) (hrest : Covers rules s D G rest)
    (he : e ∈ s.entities) (hstay : ¬ D e.id) :
    (∀ x ∈ (e.run (first ++ rest)).names slot, ¬ G x) ↔ NamesAtMostOne rules V G e slot := by
  constructor
  · intro hclean i hi
    by_cases htakes : Takes rules V e slot i.dataset
    · exact Or.inl htakes
    · rcases hafter : after e.id slot (first ++ rest) i with _ | j
      · exact absurd ((removes_iff_takes hc he hstay).1 (after_eq_none.1 hafter)) htakes
      · have hnames : ∀ x ∈ j.named, ¬ G x := fun x hx =>
          hclean x (mem_names_run.2 ⟨i, hi, j, hafter, hx⟩)
        rcases named_after hafter with ⟨objects, hmem, hobjects⟩ | ⟨-, rfl⟩
        · obtain ⟨x, -, -, hkeeps, -, hrewrites⟩ := rewrite_of_mem_steps hc he hi hmem
          have honly : ∀ z ∈ i.named, G z → z = x := by
            intro z hz hG
            by_contra hne
            refine hnames z ?_ hG
            rw [hobjects, hkeeps, List.mem_filter]
            exact ⟨hz, by simpa using hne⟩
          by_cases hx : G x
          · exact Or.inr (Or.inr ⟨x, hx, honly, hrewrites⟩)
          · exact Or.inr (Or.inl fun z hz hG => hx (honly z hz hG ▸ hG))
        · exact Or.inr (Or.inl hnames)
  · intro hclean x hx hG
    obtain ⟨i, hi, j, hafter, hxj⟩ := mem_names_run.1 hx
    have hxi := mem_named_of_after hc he hi hafter hxj
    rcases hclean i hi with htakes | hnone | ⟨y, hy, honly, hrewrites⟩
    · have hgone := after_eq_none.2 ((removes_iff_takes hc he hstay).2 htakes)
      rw [hgone] at hafter
      cases hafter
    · exact hnone x hxi hG
    · obtain ⟨k, hk, hj⟩ := after_append hafter
      have hdataset := dataset_after hk
      rcases named_after hj with ⟨objects, hmem, hobjects⟩ | ⟨hno, -⟩
      · rw [hdataset] at hmem
        obtain ⟨z, hz, hzi, hkeeps, -⟩ := rewrite_of_mem_steps hrest he hi hmem
        rw [hobjects, hkeeps, List.mem_filter] at hxj
        have hne : x ≠ z := by simpa using hxj.2
        exact hne ((honly x hxi hG).trans (honly z hzi hz).symm)
      · rw [hdataset] at hno
        obtain ⟨at_, hpoints, hslot, hunlinks, objects, hrelinks⟩ := hrewrites
        exact hno objects (hrest.complete e he hstay y hy at_ hpoints _
          ((rewrite_unlinkSteps hpoints.2.2).2 ⟨rfl, hslot, hunlinks, hrelinks⟩))

/-- An end keeps a target exactly when it keeps an instance that names one. -/
theorem names_run_ne_nil_iff (hc : Covers rules s D V steps) (he : e ∈ s.entities)
    (hstay : ¬ D e.id) :
    (e.run steps).names slot ≠ [] ↔
      ∃ i ∈ e.attrs slot, ¬ Takes rules V e slot i.dataset ∧ i.named ≠ [] := by
  constructor
  · intro hne
    obtain ⟨x, hx⟩ := List.exists_mem_of_ne_nil _ hne
    obtain ⟨i, hi, j, hafter, hxj⟩ := mem_names_run.1 hx
    refine ⟨i, hi, fun htakes => ?_, ?_⟩
    · rw [after_eq_none.2 ((removes_iff_takes hc he hstay).2 htakes)] at hafter
      cases hafter
    · rcases named_after hafter with ⟨objects, hmem, -⟩ | ⟨-, rfl⟩
      · obtain ⟨z, -, hzi, -⟩ := rewrite_of_mem_steps hc he hi hmem
        exact List.ne_nil_of_mem hzi
      · exact List.ne_nil_of_mem hxj
  · rintro ⟨i, hi, hkept, hne⟩
    rcases hafter : after e.id slot steps i with _ | j
    · exact absurd ((removes_iff_takes hc he hstay).1 (after_eq_none.1 hafter)) hkept
    · have hj : j.named ≠ [] := by
        rcases named_after hafter with ⟨objects, hmem, hobjects⟩ | ⟨-, rfl⟩
        · obtain ⟨_, -, -, -, hne, -⟩ := rewrite_of_mem_steps hc he hi hmem
          rw [hobjects]
          exact hne
        · exact hne
      obtain ⟨x, hx⟩ := List.exists_mem_of_ne_nil _ hj
      exact List.ne_nil_of_mem (mem_names_run.2 ⟨i, hi, j, hafter, hx⟩)

end Kept

section Left

/-- The store once the broker has deleted the entities sent to it. -/
def Store.without (s : Store) (ids : List String) : Store where
  entities := s.entities.filter fun e => e.id ∉ ids
  nodup := s.nodup.sublist (List.filter_sublist.map Entity.id)

variable {rules : RelationshipRules} {s s' : Store} {D : String → Prop} {steps : List Unlinking}
  {ids : List String} {done : ℕ}

theorem mem_without (hdelete : ∀ id, .delete id ∈ steps → D id) (hids : ∀ id ∈ ids, D id)
    (hall : ∀ id, D id → .delete id ∈ steps ∨ id ∈ ids) (happly : s.apply done steps = .ok s')
    {left : Entity} :
    left ∈ (s'.without ids).entities ↔ ∃ e ∈ s.entities, ¬ D e.id ∧ e.run steps = left := by
  simp only [Store.without, entities_of_apply happly, List.mem_filter, List.mem_map,
    decide_eq_true_eq]
  constructor
  · rintro ⟨⟨e, ⟨he, hkept⟩, rfl⟩, hnot⟩
    exact ⟨e, he, fun hD => (hall e.id hD).elim hkept hnot, rfl⟩
  · rintro ⟨e, he, hstay, rfl⟩
    exact ⟨⟨e, ⟨he, fun hmem => hstay (hdelete _ hmem)⟩, rfl⟩, fun hmem => hstay (hids _ hmem)⟩

/-- A completed run is consistent exactly when the store it was planned on leaves no reference. -/
theorem consistent_iff (hc : Covers rules s D D steps) (hdelete : ∀ id, .delete id ∈ steps → D id)
    (hids : ∀ id ∈ ids, D id) (hall : ∀ id, D id → .delete id ∈ steps ∨ id ∈ ids)
    (happly : s.apply done steps = .ok s') :
    Consistent rules s D (s'.without ids) ↔ LeavesNoReference rules s D := by
  have hleft : ∀ {left : Entity}, left ∈ (s'.without ids).entities ↔
      ∃ e ∈ s.entities, ¬ D e.id ∧ e.run steps = left := mem_without hdelete hids hall happly
  have hnames : ∀ {e slot}, e ∈ s.entities → ¬ D e.id →
      ((∀ x ∈ (e.run steps).names slot, ¬ D x) ↔ NamesAtMostOne rules D D e slot) := by
    intro e slot he hstay
    exact @names_run_iff _ _ _ _ _ [] steps e slot hc hc he hstay
  constructor
  · rintro ⟨hdangling, hemptied⟩ e he hstay at_ hat htype
    have hmem := hleft.2 ⟨e, he, hstay, rfl⟩
    refine ⟨(hnames he hstay).1 (hdangling _ hmem at_ hat htype),
      fun hrequired hne => (names_run_ne_nil_iff hc he hstay).1 ?_⟩
    exact hemptied e he _ hmem rfl at_ hat htype hrequired hne
  · intro hleaves
    refine ⟨fun left hmem at_ hat htype => ?_,
      fun e he left hmem hid at_ hat htype hrequired hne => ?_⟩
    · obtain ⟨e, he, hstay, rfl⟩ := hleft.1 hmem
      exact (hnames he hstay).2 (hleaves e he hstay at_ hat htype).1
    · obtain ⟨e', he', hstay, rfl⟩ := hleft.1 hmem
      obtain rfl := eq_of_id he he' hid
      exact (names_run_ne_nil_iff hc he' hstay).2
        ((hleaves e' he' hstay at_ hat htype).2 hrequired hne)

end Left

section Main

variable {h : HeldDelete} {s s' : Store} {answers : Answers s} {root : String}
  {steps : List Unlinking}

theorem mem_reaches {x : String} {r : Referencing × Entity} :
    r ∈ h.reaches answers x ↔ r.2 ∈ s.entities ∧ PointsAt h.rules r.2 r.1 x := by
  simp only [HeldDelete.reaches, pointers, List.mem_flatMap, List.mem_map,
    (answers.perm _ _ _).mem_iff, Store.naming, List.mem_filter, decide_eq_true_eq, PointsAt]
  constructor
  · rintro ⟨at_, hat, e, ⟨he, htype, hx⟩, rfl⟩
    exact ⟨he, hat, htype, hx⟩
  · rintro ⟨he, hat, htype, hx⟩
    exact ⟨r.1, hat, r.2, ⟨he, htype, hx⟩, rfl⟩

theorem mem_next {x y : String} : y ∈ h.next answers x ↔ Cascades h.rules s x y := by
  simp only [HeldDelete.next, goes, List.mem_map, List.mem_filter, mem_reaches, PointsAt, Cascades,
    Store.naming, decide_eq_true_eq]
  constructor
  · rintro ⟨r, ⟨⟨he, hat, htype, hx⟩, hcascades⟩, rfl⟩
    exact ⟨r.1, hat, hcascades, r.2, ⟨he, htype, hx⟩, rfl⟩
  · rintro ⟨at_, hat, hcascades, e, ⟨he, htype, hx⟩, rfl⟩
    exact ⟨(at_, e), ⟨⟨he, hat, htype, hx⟩, hcascades⟩, rfl⟩

theorem mem_order_iff {fuel : ℕ} {order : List String} {x : String}
    (horder : Search.visit (h.next answers) fuel [] [root] = some order) :
    x ∈ order ↔ GoesWith h.rules s root x := by
  have hrel : (fun x y => y ∈ h.next answers x) = Cascades h.rules s := by
    funext x y
    exact propext mem_next
  rw [Search.mem_order horder, hrel]
  rfl

theorem delete_notMem_unlinkSteps {e : Entity} {at_ : Referencing} {x id : String}
    (hx : x ∈ e.names at_.slot) : .delete id ∉ unlinkSteps e at_ x := by
  rw [mem_unlinkSteps hx]
  rintro ⟨-, ⟨-, heq⟩ | ⟨-, _, -, heq⟩ | ⟨_, _, -, heq⟩⟩ <;> cases heq

theorem delete_notMem_edits {order seen visited : List String} {edits : List Unlinking}
    (hasked : Asked h answers order seen visited edits) (id : String) : .delete id ∉ edits := by
  intro hdelete
  obtain ⟨x, -, r, hr, -, hfrom⟩ := hasked.sound _ hdelete
  exact delete_notMem_unlinkSteps (mem_reaches.1 hr).2.2.2 hfrom

/-- The edits of the visits cover the ids visited, whichever deletes follow them. -/
theorem covers_of_asked {fuel : ℕ} {order seen visited : List String} {edits : List Unlinking}
    (horder : Search.visit (h.next answers) fuel [] [root] = some order)
    (hasked : Asked h answers order seen visited edits) (ids : List String) :
    Covers h.rules s (GoesWith h.rules s root) (· ∈ visited)
      (edits ++ ids.map Unlinking.delete) := by
  refine ⟨fun step hstep hedit => ?_, fun e he hstay x hx at_ hpoints step hstep => ?_⟩
  · rcases List.mem_append.1 hstep with hstep | hstep
    · obtain ⟨x, hx, r, hr, -, hfrom⟩ := hasked.sound step hstep
      obtain ⟨he, hpoints⟩ := mem_reaches.1 hr
      exact ⟨x, hx, r.2, he, r.1, hpoints, hfrom⟩
    · obtain ⟨id, -, rfl⟩ := List.mem_map.1 hstep
      cases hedit
  · have hreaches : (at_, e) ∈ h.reaches answers x := mem_reaches.2 ⟨he, hpoints⟩
    have hasks := hasked.complete x hx _ hreaches fun hgoes =>
      hstay ((mem_order_iff horder).1 hgoes)
    exact List.mem_append_left _ (hasks hstep)

theorem asked_of_parts {order : List String} {edits : List Unlinking}
    (hparts : ∀ before after, order = before ++ after → ∃ first rest, edits = first ++ rest ∧
      Asked h answers order [] before first ∧ Asked h answers order before after rest) :
    Asked h answers order [] order edits := by
  obtain ⟨first, rest, rfl, hfirst, hrest⟩ := hparts order [] (List.append_nil _).symm
  simpa using hfirst.append hrest (List.nil_subset _)

/-- A plan covers what goes with its root, and deletes all of it but the root. -/
theorem covers_of_plan (hplan : h.plan answers root = .ok steps) :
    Covers h.rules s (GoesWith h.rules s root) (GoesWith h.rules s root) steps ∧
      ∀ id, .delete id ∈ steps ↔ GoesWith h.rules s root id ∧ id ≠ root := by
  obtain ⟨order, edits, horder, rfl, hparts⟩ := plan_eq_ok hplan
  have hasked := asked_of_parts hparts
  have hedits := delete_notMem_edits hasked
  have hvisited : (· ∈ order) = GoesWith h.rules s root :=
    funext fun x => propext (mem_order_iff horder)
  refine ⟨hvisited ▸ covers_of_asked horder hasked _, fun id => ?_⟩
  obtain ⟨rest, hrest⟩ := Search.order_eq_cons horder
  have hnodup := Search.nodup_order horder
  rw [← mem_order_iff horder, hrest, List.mem_append, List.mem_map]
  rw [hrest, List.nodup_cons] at hnodup
  simp only [hedits, false_or, List.tail_cons, List.mem_reverse, Unlinking.delete.injEq,
    exists_eq_right, List.mem_cons]
  constructor
  · intro hin
    exact ⟨Or.inr hin, fun heq => hnodup.1 (heq ▸ hin)⟩
  · rintro ⟨hin, hne⟩
    exact hin.resolve_left hne

/-- A delete that runs to its end leaves no dangling reference and no emptied end exactly when no
instance that stays names two of the entities that go, each that names one is rewritten for it, and
each required end keeps an instance. -/
theorem delete_consistent_iff (hplan : h.plan answers root = .ok steps)
    (happly : s.apply 0 steps = .ok s') :
    Consistent h.rules s (GoesWith h.rules s root) (s'.without [root]) ↔
      LeavesNoReference h.rules s (GoesWith h.rules s root) := by
  obtain ⟨hcovers, hdeletes⟩ := covers_of_plan hplan
  refine consistent_iff hcovers (fun id hid => ((hdeletes id).1 hid).1) (fun id hid => ?_)
    (fun id hid => ?_) happly
  · rw [List.mem_singleton.1 hid]
    exact Relation.ReflTransGen.refl
  · by_cases hroot : id = root
    · exact Or.inr (List.mem_singleton.2 hroot)
    · exact Or.inl ((hdeletes id).2 ⟨hid, hroot⟩)

end Main

section Lamps

/-- An entity of one class with one instance of each end listed. -/
def linked (id className : String) (links : List (String × List String)) : Entity where
  id := id
  types := [className]
  attrs slot := ((links.lookup slot).map (Instance.linkTo none)).toList
  nodup slot := by
    rcases links.lookup slot with _ | targets
    · exact List.nodup_nil
    · exact List.nodup_singleton _

def Store.answers (s : Store) : Answers s := ⟨s.naming, fun _ _ _ => .refl _⟩

def unlimited : Constraints where
  tenant := "city"
  types := ∅
  typeIris := ∅
  idPatterns := ∅
  attrs := ∅
  attrsByType := ∅
  served := ∅
  hidden := ∅
  q := none
  grantedScopes := none
  geoQ := none
  geoGrants := []
  geoAreas := []
  geoCaller := none
  temporalQ := none
  temporalWindows := []
  empty := false
  restricted := false
  dropped := ∅
  grants := []
  referenced := ∅
  attrsAsked := ∅

def groupEnd : StoredEnd :=
  { target := "Lamp", many := true, required := false, onDelete := .setNull }

def feederEnd : StoredEnd :=
  { target := "Lamp", many := false, required := false, onDelete := .cascade }

def lampRules : RelationshipRules where
  byClass := [("Group", [("lamps", groupEnd)]), ("Lamp", [("feeder", feederEnd)])]

def lampDelete : HeldDelete where
  crates := bareCrates
  rules := lampRules
  decide _ _ := .rewrite unlimited

def l1 : String := "urn:ngsi-ld:Lamp:l1"

def l2 : String := "urn:ngsi-ld:Lamp:l2"

def l3 : String := "urn:ngsi-ld:Lamp:l3"

def g1 : String := "urn:ngsi-ld:Group:g1"

theorem nodup_lampsAndGroup : [l1, l2, g1].Nodup := by decide

/-- A lamp, a lamp fed by it, and a group over the lamps listed. -/
def lamps (grouped : List String) : Store where
  entities := [linked l1 "Lamp" [], linked l2 "Lamp" [("feeder", [l1])],
    linked g1 "Group" [("lamps", grouped)]]
  nodup := nodup_lampsAndGroup

/-- A group that names both lamps in one instance is rewritten for each, and keeps the first. -/
theorem lamps_dangling :
    ∃ steps s', lampDelete.plan (lamps [l1, l2]).answers l1 = .ok steps ∧
      (lamps [l1, l2]).apply 0 steps = .ok s' ∧
      ¬ Consistent lampRules (lamps [l1, l2]) (GoesWith lampRules (lamps [l1, l2]) l1)
        (s'.without [l1]) := by
  have hplan : lampDelete.plan (lamps [l1, l2]).answers l1 = .ok
      [.rewrite g1 "lamps" none [l2], .rewrite g1 "lamps" none [l1], .delete l2] := by decide
  obtain ⟨s', happly⟩ := isOk_iff.1 (by decide : ((lamps [l1, l2]).apply 0
    [.rewrite g1 "lamps" none [l2], .rewrite g1 "lamps" none [l1], .delete l2]).isOk = true)
  refine ⟨_, s', hplan, happly, fun hconsistent => ?_⟩
  have hgroup : (linked g1 "Group" [("lamps", [l1, l2])]).run
      [.rewrite g1 "lamps" none [l2], .rewrite g1 "lamps" none [l1], .delete l2] ∈
        (s'.without [l1]).entities := by
    simp only [Store.without, entities_of_apply happly, List.mem_filter, List.mem_map]
    exact ⟨⟨_, ⟨List.mem_cons_of_mem _ (List.mem_cons_of_mem _ (List.mem_singleton_self _)),
      by decide⟩, rfl⟩, by decide⟩
  exact hconsistent.noDangling _ hgroup ⟨"Group", "lamps", groupEnd⟩ (by decide) (by decide) l1
    (by decide) Relation.ReflTransGen.refl

theorem goesWith_lamps {x : String} :
    GoesWith lampRules (lamps [l1, l3]) l1 x ↔ x ∈ [l1, l2] := by
  have horder : Search.visit (lampDelete.next (lamps [l1, l3]).answers) 2 [] [l1] =
      some [l1, l2] := by decide
  exact (mem_order_iff horder).symm

/-- The group names one of the lamps that go, beside one that does not. -/
theorem leavesNoReference_lamps {D : String → Prop} (hD : ∀ x, D x ↔ x ∈ [l1, l2]) :
    LeavesNoReference lampRules (lamps [l1, l3]) D := by
  intro e he hstay at_ hat htype
  simp only [lamps, List.mem_cons, List.not_mem_nil, or_false] at he
  rcases he with rfl | rfl | rfl
  · exact absurd ((hD _).2 (by decide)) hstay
  · exact absurd ((hD _).2 (by decide)) hstay
  · have hends : at_ = ⟨"Group", "lamps", groupEnd⟩ ∨ at_ = ⟨"Lamp", "feeder", feederEnd⟩ := by
      simpa [RelationshipRules.ends, lampRules] using hat
    rcases hends with rfl | rfl
    · refine ⟨fun i hi => ?_, fun hrequired => absurd hrequired (by decide)⟩
      obtain rfl := List.mem_singleton.1 hi
      have honly : ∀ z ∈ [l1, l3], z ∈ [l1, l2] → z = l1 := by decide
      have hunlinks : Unlinks (linked g1 "Group" [("lamps", [l1, l3])])
          ⟨"Group", "lamps", groupEnd⟩ l1 :=
        ⟨by decide, by decide, fun hrequired => absurd hrequired (by decide)⟩
      have hrelinks : Relinks (linked g1 "Group" [("lamps", [l1, l3])])
          ⟨"Group", "lamps", groupEnd⟩ l1 none [l3] :=
        ⟨rfl, Instance.linkTo none [l1, l3], List.mem_singleton_self _, by decide⟩
      exact Or.inr (Or.inr ⟨l1, (hD _).2 (by decide), fun z hz hz' => honly z hz ((hD z).1 hz'),
        ⟨"Group", "lamps", groupEnd⟩, ⟨by decide, by decide, by decide⟩, rfl, hunlinks, [l3],
        hrelinks⟩)
    · exact absurd htype (by decide)

theorem delete_consistent_lamps :
    ∃ steps s', lampDelete.plan (lamps [l1, l3]).answers l1 = .ok steps ∧
      (lamps [l1, l3]).apply 0 steps = .ok s' ∧
      Consistent lampRules (lamps [l1, l3]) (GoesWith lampRules (lamps [l1, l3]) l1)
        (s'.without [l1]) := by
  have hplan : lampDelete.plan (lamps [l1, l3]).answers l1 = .ok
      [.rewrite g1 "lamps" none [l3], .delete l2] := by decide
  obtain ⟨s', happly⟩ := isOk_iff.1 (by decide : ((lamps [l1, l3]).apply 0
    [.rewrite g1 "lamps" none [l3], .delete l2]).isOk = true)
  exact ⟨_, s', hplan, happly, (delete_consistent_iff hplan happly).2
    (leavesNoReference_lamps fun _ => goesWith_lamps)⟩

end Lamps

end JoinedContext.Relationships

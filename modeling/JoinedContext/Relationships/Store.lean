import JoinedContext.Relationships.Rules
import Mathlib.Data.List.Nodup

/-!
# The entities a broker stores, and its attribute operations

An attribute is a list of instances told apart by their dataset. A call of the broker changes each
instance on its own, so a run of calls is read instance by instance: one is gone when a call removes
it, and otherwise names what the last rewrite of it says.
-/

namespace JoinedContext.Relationships

section Instances

/-- The members of one instance of an attribute. -/
abbrev Instance := List (String × Value)

namespace Instance

def dataset (i : Instance) : Option String := datasetOf (.obj i)

def named (i : Instance) : List String := namedBy (.obj i)

/-- A fragment laid over the members of an instance. -/
def merge (fragment i : Instance) : Instance :=
  fragment ++ i.filter fun m => m.1 ∉ fragment.map Prod.fst

/-- The fragment a rewrite sends. -/
def linkTo (dataset : Option String) (objects : List String) : Instance :=
  [("type", .str "Relationship"), ("object", .arr (objects.map .str))] ++
    dataset.toList.map fun d => ("datasetId", .str d)

theorem lookup_filter {key : String} {names : List String} (h : key ∉ names) :
    ∀ i : Instance, (i.filter fun m => m.1 ∉ names).lookup key = i.lookup key
  | [] => rfl
  | (k, v) :: rest => by
    by_cases hk : k ∈ names
    · have hne : (key == k) = false := beq_eq_false_iff_ne.2 fun heq => h (heq ▸ hk)
      rw [List.filter_cons_of_neg (by simpa using hk), List.lookup_cons, hne, lookup_filter h rest]
    · rw [List.filter_cons_of_pos (by simpa using hk), List.lookup_cons, List.lookup_cons,
        lookup_filter h rest]

@[simp] theorem dataset_linkTo (dataset : Option String) (objects : List String) :
    (linkTo dataset objects).dataset = dataset := by
  rcases dataset with _ | d <;> rfl

@[simp] theorem named_merge_linkTo (dataset : Option String) (objects : List String)
    (i : Instance) : (merge (linkTo dataset objects) i).named = objects := by
  change (objectOf (some (.arr (objects.map .str)))).getD [] = objects
  simp only [objectOf, filterMap_listed_str, Option.getD_some]

theorem dataset_merge_linkTo {dataset : Option String} {objects : List String} {i : Instance}
    (h : i.dataset = dataset) : (merge (linkTo dataset objects) i).dataset = dataset := by
  rcases dataset with _ | d
  · have hkeep := lookup_filter (by decide : "datasetId" ∉ ["type", "object"]) i
    exact (congrArg (fun v : Option Value => v.bind Value.asStr) hkeep).trans h
  · rfl

end Instance

end Instances

section Entities

@[ext] structure Entity where
  id : String
  types : List String
  attrs : String → List Instance
  /-- One instance for each dataset, and one default instance. -/
  nodup : ∀ slot, ((attrs slot).map Instance.dataset).Nodup

structure Store where
  entities : List Entity
  nodup : (entities.map Entity.id).Nodup

theorem eq_of_id {s : Store} {e e' : Entity} (he : e ∈ s.entities) (he' : e' ∈ s.entities)
    (h : e'.id = e.id) : e' = e :=
  List.inj_on_of_nodup_map s.nodup he' he h

namespace Entity

def names (e : Entity) (slot : String) : List String := (e.attrs slot).flatMap Instance.named

/-- The entity as a read of one attribute answers it: a single instance stands alone. -/
def answer (e : Entity) (slot : String) : Value :=
  .obj ((match e.attrs slot with
    | [] => []
    | [i] => [(slot, .obj i)]
    | instances => [(slot, .arr (instances.map .obj))]) ++
    [("id", .str e.id), ("type", .arr (e.types.map .str))])

end Entity

end Entities

section Calls

/-- The operations of the broker a delete's rules use. -/
inductive Call where
  | deleteEntity (id : String)
  | deleteAttr (id slot : String) (dataset : Option String)
  | patchAttr (id slot : String) (fragment : Instance)

namespace Call

/-- What a call does to one instance of an attribute of an entity. Without a dataset the default
instance is meant. -/
def onInstance (id slot : String) (i : Instance) : Call → Option Instance
  | .deleteEntity _ => some i
  | .deleteAttr id' slot' dataset =>
    if id' = id ∧ slot' = slot ∧ i.dataset = dataset then none else some i
  | .patchAttr id' slot' fragment =>
    if id' = id ∧ slot' = slot ∧ i.dataset = fragment.dataset then
      some (Instance.merge fragment i)
    else some i

def deletes (id : String) : Call → Bool
  | .deleteEntity id' => id' == id
  | _ => false

/-- Whether the call finds what it is about. -/
def finds (s : Store) : Call → Bool
  | .deleteEntity id => s.entities.any fun e => e.id == id
  | .deleteAttr id slot dataset =>
    s.entities.any fun e => e.id == id && (e.attrs slot).any fun i => i.dataset == dataset
  | .patchAttr id slot fragment =>
    s.entities.any fun e => e.id == id && (e.attrs slot).any fun i => i.dataset == fragment.dataset

end Call

inductive Unlinking where
  | delete (id : String)
  | deleteAttribute (id slot : String)
  | deleteInstance (id slot : String) (dataset : Option String)
  | rewrite (id slot : String) (dataset : Option String) (objects : List String)
deriving DecidableEq

namespace Unlinking

def call : Unlinking → Call
  | .delete id => .deleteEntity id
  | .deleteAttribute id slot => .deleteAttr id slot none
  | .deleteInstance id slot dataset => .deleteAttr id slot dataset
  | .rewrite id slot dataset objects => .patchAttr id slot (Instance.linkTo dataset objects)

def isDelete : Unlinking → Bool
  | .delete _ => true
  | _ => false

/-- Whether the step takes the instance of the dataset away. -/
def Removes (id slot : String) (dataset : Option String) (step : Unlinking) : Prop :=
  step = .deleteInstance id slot dataset ∨ dataset = none ∧ step = .deleteAttribute id slot

theorem onInstance_eq_none {step : Unlinking} {id slot : String} {i : Instance} :
    step.call.onInstance id slot i = none ↔ step.Removes id slot i.dataset := by
  rcases step with id' | ⟨id', slot'⟩ | ⟨id', slot', dataset⟩ | ⟨id', slot', dataset, objects⟩ <;>
    simp only [call, Call.onInstance, Removes]
  · simp
  · constructor
    · intro h
      split_ifs at h with hmatch
      obtain ⟨rfl, rfl, hnone⟩ := hmatch
      exact Or.inr ⟨hnone, rfl⟩
    · rintro (h | ⟨hnone, h⟩)
      · cases h
      · cases h
        exact if_pos ⟨rfl, rfl, hnone⟩
  · constructor
    · intro h
      split_ifs at h with hmatch
      obtain ⟨rfl, rfl, rfl⟩ := hmatch
      exact Or.inl rfl
    · rintro (h | ⟨-, h⟩)
      · cases h
        exact if_pos ⟨rfl, rfl, rfl⟩
      · cases h
  · constructor
    · intro h
      split_ifs at h
    · rintro (h | ⟨-, h⟩) <;> cases h

theorem onInstance_eq_some {step : Unlinking} {id slot : String} {i j : Instance}
    (h : step.call.onInstance id slot i = some j) :
    j.dataset = i.dataset ∧
      ((∃ objects, step = .rewrite id slot i.dataset objects ∧ j.named = objects) ∨
        ((∀ objects, step ≠ .rewrite id slot i.dataset objects) ∧ j = i)) := by
  rcases step with id' | ⟨id', slot'⟩ | ⟨id', slot', dataset⟩ | ⟨id', slot', dataset, objects⟩ <;>
    simp only [call, Call.onInstance] at h
  · cases h
    exact ⟨rfl, Or.inr ⟨fun _ => by simp, rfl⟩⟩
  · split_ifs at h
    cases h
    exact ⟨rfl, Or.inr ⟨fun _ => by simp, rfl⟩⟩
  · split_ifs at h
    cases h
    exact ⟨rfl, Or.inr ⟨fun _ => by simp, rfl⟩⟩
  · rw [Instance.dataset_linkTo] at h
    split_ifs at h with hmatch
    · obtain ⟨rfl, rfl, rfl⟩ := hmatch
      cases h
      exact ⟨Instance.dataset_merge_linkTo rfl,
        Or.inl ⟨objects, rfl, Instance.named_merge_linkTo _ _ _⟩⟩
    · cases h
      refine ⟨rfl, Or.inr ⟨fun _ heq => hmatch ?_, rfl⟩⟩
      cases heq
      exact ⟨rfl, rfl, rfl⟩

end Unlinking

end Calls

section Runs

/-- What is left of an instance after the steps. -/
def after (id slot : String) : List Unlinking → Instance → Option Instance
  | [], i => some i
  | step :: rest, i => (step.call.onInstance id slot i).bind (after id slot rest)

variable {id slot : String}

theorem after_append : ∀ {first rest : List Unlinking} {i j : Instance},
    after id slot (first ++ rest) i = some j →
      ∃ k, after id slot first i = some k ∧ after id slot rest k = some j
  | [], rest, i, j, h => ⟨i, rfl, h⟩
  | step :: first, rest, i, j, h => by
    obtain ⟨k, hk, hj⟩ := Option.bind_eq_some_iff.1 h
    obtain ⟨l, hl, hrest⟩ := after_append hj
    exact ⟨l, Option.bind_eq_some_iff.2 ⟨k, hk, hl⟩, hrest⟩

theorem dataset_after : ∀ {steps : List Unlinking} {i j : Instance},
    after id slot steps i = some j → j.dataset = i.dataset
  | [], i, j, h => by
    cases h
    rfl
  | step :: rest, i, j, h => by
    obtain ⟨k, hk, hj⟩ := Option.bind_eq_some_iff.1 h
    exact (dataset_after hj).trans (Unlinking.onInstance_eq_some hk).1

theorem after_eq_none : ∀ {steps : List Unlinking} {i : Instance},
    after id slot steps i = none ↔ ∃ step ∈ steps, step.Removes id slot i.dataset
  | [], i => by simp [after]
  | step :: rest, i => by
    unfold after
    rcases hk : step.call.onInstance id slot i with _ | k
    · simp only [Option.bind_none, true_iff]
      exact ⟨step, List.mem_cons_self, Unlinking.onInstance_eq_none.1 hk⟩
    · have hkeeps : ¬ step.Removes id slot i.dataset := fun h => by
        rw [Unlinking.onInstance_eq_none.2 h] at hk
        cases hk
      rw [Option.bind_some, after_eq_none, (Unlinking.onInstance_eq_some hk).1,
        List.exists_mem_cons_iff]
      simp [hkeeps]

/-- What is left names what the last rewrite of it says, and what it named before when there is
none. -/
theorem named_after : ∀ {steps : List Unlinking} {i j : Instance}, after id slot steps i = some j →
    (∃ objects, .rewrite id slot i.dataset objects ∈ steps ∧ j.named = objects) ∨
      ((∀ objects, .rewrite id slot i.dataset objects ∉ steps) ∧ j = i)
  | [], i, j, h => by
    cases h
    exact Or.inr ⟨by simp, rfl⟩
  | step :: rest, i, j, h => by
    obtain ⟨k, hk, hj⟩ := Option.bind_eq_some_iff.1 h
    obtain ⟨hdataset, hnamed⟩ := Unlinking.onInstance_eq_some hk
    have hrest := named_after hj
    rw [hdataset] at hrest
    rcases hrest with ⟨objects, hmem, hobjects⟩ | ⟨hnone, rfl⟩
    · exact Or.inl ⟨objects, List.mem_cons_of_mem _ hmem, hobjects⟩
    · rcases hnamed with ⟨objects, rfl, hobjects⟩ | ⟨hstep, rfl⟩
      · exact Or.inl ⟨objects, List.mem_cons_self, hobjects⟩
      · refine Or.inr ⟨fun objects hmem => ?_, rfl⟩
        rcases List.mem_cons.1 hmem with heq | hmem
        · exact hstep objects heq.symm
        · exact hnone objects hmem

theorem nodup_filterMap {f : Instance → Option Instance}
    (hf : ∀ i j, f i = some j → j.dataset = i.dataset) {instances : List Instance}
    (h : (instances.map Instance.dataset).Nodup) :
    ((instances.filterMap f).map Instance.dataset).Nodup := by
  refine h.sublist ?_
  induction instances with
  | nil => exact List.Sublist.refl _
  | cons i rest ih =>
    have hrest := ih (List.nodup_cons.1 h).2
    rcases hi : f i with _ | j
    · rw [List.filterMap_cons_none hi]
      exact hrest.cons _
    · rw [List.filterMap_cons_some hi, List.map_cons, List.map_cons, hf i j hi]
      exact hrest.cons_cons _

/-- The entity with the steps made on its instances. -/
def Entity.run (steps : List Unlinking) (e : Entity) : Entity where
  id := e.id
  types := e.types
  attrs slot := (e.attrs slot).filterMap (after e.id slot steps)
  nodup slot := nodup_filterMap (fun _ _ => dataset_after) (e.nodup slot)

@[simp] theorem Entity.id_run (steps : List Unlinking) (e : Entity) : (e.run steps).id = e.id := rfl

theorem Entity.run_nil (e : Entity) : e.run [] = e := by
  ext1
  · rfl
  · rfl
  · funext slot
    exact List.filterMap_some

theorem Entity.run_cons (step : Unlinking) (rest : List Unlinking) (e : Entity) :
    e.run (step :: rest) = (e.run [step]).run rest := by
  ext1
  · rfl
  · rfl
  · funext slot
    simp only [Entity.run, List.filterMap_filterMap]
    congr 1
    funext i
    simp [after]

theorem nodup_remaining {s : Store} (keep : Entity → Bool) (steps : List Unlinking) :
    (((s.entities.filter keep).map (Entity.run steps)).map Entity.id).Nodup := by
  rw [List.map_map]
  exact s.nodup.sublist (List.filter_sublist.map Entity.id)

namespace Store

/-- The store after a call that found what it is about. -/
def made (s : Store) (step : Unlinking) : Store where
  entities := (s.entities.filter fun e => !step.call.deletes e.id).map (Entity.run [step])
  nodup := nodup_remaining _ _

/-- The broker's answer to a step: `none` is its 404. -/
def send (s : Store) (step : Unlinking) : Option Store :=
  if step.call.finds s then some (s.made step) else none

/-- Applies the planned changes in order. A step the broker refuses stops the delete, with how many
changes were made; an entity that is already gone is no refusal. -/
def apply (s : Store) (done : ℕ) : List Unlinking → Except (ℕ × Store) Store
  | [] => .ok s
  | step :: rest =>
    match s.send step with
    | some s' => apply s' (done + 1) rest
    | none => if step.isDelete then apply s (done + 1) rest else .error (done, s)

end Store

theorem deletes_call {step : Unlinking} {id : String} :
    step.call.deletes id = true ↔ step = .delete id := by
  rcases step with id' | _ | _ | _ <;> simp [Unlinking.call, Call.deletes]

theorem made_of_not_finds {s : Store} {id : String}
    (h : (Unlinking.delete id).call.finds s = false) :
    (s.made (.delete id)).entities = s.entities := by
  have hkeep : (s.entities.filter fun e => !(Unlinking.delete id).call.deletes e.id) =
      s.entities := by
    refine List.filter_eq_self.2 fun e he => ?_
    simp only [Unlinking.call, Call.finds, List.any_eq_false, beq_iff_eq] at h
    simpa [Unlinking.call, Call.deletes] using fun heq => h e he heq.symm
  have hrun : ∀ e : Entity, e.run [.delete id] = e := Entity.run_nil
  unfold Store.made
  simp only [hkeep]
  rw [List.map_congr_left fun e _ => hrun e, List.map_id']

/-- A completed run leaves the entities no step deletes, each with the steps made on it. -/
theorem entities_of_apply : ∀ {steps : List Unlinking} {s s' : Store} {done : ℕ},
    s.apply done steps = .ok s' →
      s'.entities = (s.entities.filter fun e => .delete e.id ∉ steps).map (Entity.run steps)
  | [], s, s', done, h => by
    cases h
    simp [List.map_congr_left fun e _ => Entity.run_nil e]
  | step :: rest, s, s', done, h => by
    have hmade : s'.entities =
        ((s.made step).entities.filter fun e => .delete e.id ∉ rest).map (Entity.run rest) := by
      unfold Store.apply Store.send at h
      by_cases hfinds : step.call.finds s = true
      · rw [if_pos hfinds] at h
        exact entities_of_apply h
      · rw [if_neg hfinds] at h
        rcases step with id | _ | _ | _ <;> simp only [Unlinking.isDelete] at h
        · rw [made_of_not_finds (by simpa using hfinds)]
          exact entities_of_apply h
        all_goals cases h
    rw [hmade, Store.made, List.filter_map, List.filter_filter, List.map_map]
    congr 1
    · funext e
      exact (Entity.run_cons step rest e).symm
    · refine List.filter_congr fun e _ => ?_
      have hdeletes : (!step.call.deletes e.id) = decide (.delete e.id ≠ step) := by
        rw [Bool.eq_iff_iff, Bool.not_eq_true', ← Bool.not_eq_true, deletes_call, decide_eq_true_eq]
        exact not_congr eq_comm
      simp only [Function.comp_apply, Entity.id_run, hdeletes, List.mem_cons, not_or,
        Bool.decide_and]
      exact Bool.and_comm _ _

end Runs

end JoinedContext.Relationships

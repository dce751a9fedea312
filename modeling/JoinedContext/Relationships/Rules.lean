import JoinedContext.Core.Json
import JoinedContext.Core.Urn
import JoinedContext.Library.Outcome
import Mathlib.Algebra.GroupWithZero.Nat

/-!
# The relationship rules of a model

The stored ends of a space's model, the targets one attribute value names, and what a delete of a
target does to one entity that stores it.
-/

namespace JoinedContext.Relationships

inductive OnDelete where
  | restrict
  | cascade
  | setNull
deriving DecidableEq

structure StoredEnd where
  target : String
  many : Bool
  required : Bool
  unique : Bool := false
  onDelete : OnDelete
deriving DecidableEq

/-- The stored ends of each class, both maps as their entries in the order of the keys. -/
structure RelationshipRules where
  byClass : List (String × List (String × StoredEnd))

structure Referencing where
  className : String
  slot : String
  storedEnd : StoredEnd
deriving DecidableEq

/-- The local name of a type written as an IRI, a CURIE or a plain name. -/
def localName (name : String) : String := ((Text.splitAny ['/', '#', ':'] name).getLast?).getD name

namespace RelationshipRules

def ends (rules : RelationshipRules) : List Referencing :=
  rules.byClass.flatMap fun c => c.2.map fun s => ⟨c.1, s.1, s.2⟩

/-- Every stored end that points at the type. -/
def referencing (rules : RelationshipRules) (entityType : String) : List Referencing :=
  rules.ends.filter fun at_ => localName at_.storedEnd.target == localName entityType

def referencingId (rules : RelationshipRules) (id : String) : List Referencing :=
  ((Urn.typeOfId id).map rules.referencing).getD []

theorem mem_ends_of_referencingId {rules : RelationshipRules} {id : String} {at_ : Referencing}
    (h : at_ ∈ rules.referencingId id) : at_ ∈ rules.ends := by
  unfold referencingId at h
  rcases hkind : Urn.typeOfId id with _ | kind <;> rw [hkind] at h
  · cases h
  · exact List.mem_of_mem_filter h

end RelationshipRules

section Objects

def ngsiLdNull : String := "urn:ngsi-ld:null"

/-- An entry of an `object` list: a string, or an object that names one. -/
def listed : Value → Option String
  | .str one => some one
  | .obj inner => (inner.lookup "object" <|> inner.lookup "@id").bind Value.asStr
  | _ => none

def objectOf : Option Value → Option (List String)
  | some (.str one) => if one = ngsiLdNull then none else some [one]
  | some (.arr many) => some (many.filterMap listed)
  | _ => some []

mutual

/-- The targets one attribute value names, `none` when it is NGSI-LD's null. -/
def objects : Value → Option (List String)
  | .null => none
  | .str text => if text = ngsiLdNull then none else some []
  | .arr instances => some (objectsOfAll instances)
  | .obj members => objectOf (members.lookup "object")
  | _ => some []

def objectsOfAll : List Value → List String
  | [] => []
  | v :: rest => (objects v).getD [] ++ objectsOfAll rest

end

theorem filterMap_listed_str (urns : List String) : (urns.map Value.str).filterMap listed = urns := by
  induction urns with
  | nil => rfl
  | cons urn rest ih => simp only [List.map_cons, List.filterMap_cons, listed, ih]

end Objects

section Unlink

/-- What a delete of a target does to one entity that stores it. A many end loses the instances
whose only target it is, and keeps the others of an instance that names it beside them. -/
inductive Unlink where
  | refused
  | deleteEntity
  | deleteAttribute
  | instances (removed : List (Option String)) (rewritten : List (Option String × List String))
deriving DecidableEq

def datasetOf (v : Value) : Option String := (v.get "datasetId").bind Value.asStr

def namedBy (v : Value) : List String := (objects v).getD []

def instancesOf (entity : Value) (slot : String) : List Value :=
  match entity.get slot with
  | some (.arr instances) => instances
  | some v => [v]
  | none => []

def othersOf (deleted : String) (v : Value) : List String := (namedBy v).filter (· ≠ deleted)

/-- The instances whose only target is the deleted one, by dataset. -/
def removedFrom (deleted : String) (instances : List Value) : List (Option String) :=
  (instances.filter fun v =>
    (othersOf deleted v).length ≠ (namedBy v).length ∧ othersOf deleted v = []).map datasetOf

/-- The instances that name the deleted target beside others, with the others. -/
def rewrittenFrom (deleted : String) (instances : List Value) :
    List (Option String × List String) :=
  (instances.filter fun v =>
    (othersOf deleted v).length ≠ (namedBy v).length ∧ othersOf deleted v ≠ []).map fun v =>
      (datasetOf v, othersOf deleted v)

def unlink (entity : Value) (slot : String) (storedEnd : StoredEnd) (deleted : String) : Unlink :=
  if storedEnd.onDelete = .restrict then .refused
  else if !storedEnd.many then
    match storedEnd.onDelete with
    | .cascade => .deleteEntity
    | _ => if storedEnd.required then .refused else .deleteAttribute
  else
    let instances := instancesOf entity slot
    let removed := removedFrom deleted instances
    let rewritten := rewrittenFrom deleted instances
    let left := (instances.map fun v => (othersOf deleted v).length).sum
    if storedEnd.required ∧ left = 0 ∧ ¬ (removed = [] ∧ rewritten = []) then .refused
    else .instances removed rewritten

/-- The others are fewer exactly when the deleted target is named. -/
theorem length_othersOf_ne {deleted : String} {v : Value} :
    (othersOf deleted v).length ≠ (namedBy v).length ↔ deleted ∈ namedBy v := by
  unfold othersOf
  rw [ne_eq, List.length_filter_eq_length_iff]
  simp

theorem mem_removedFrom {deleted : String} {instances : List Value} {dataset : Option String} :
    dataset ∈ removedFrom deleted instances ↔ ∃ v ∈ instances, deleted ∈ namedBy v ∧
      othersOf deleted v = [] ∧ datasetOf v = dataset := by
  simp only [removedFrom, length_othersOf_ne, List.mem_map, List.mem_filter, decide_eq_true_eq,
    and_assoc]

theorem mem_rewrittenFrom {deleted : String} {instances : List Value} {dataset : Option String}
    {objects : List String} :
    (dataset, objects) ∈ rewrittenFrom deleted instances ↔ ∃ v ∈ instances, deleted ∈ namedBy v ∧
      othersOf deleted v ≠ [] ∧ datasetOf v = dataset ∧ othersOf deleted v = objects := by
  simp only [rewrittenFrom, length_othersOf_ne, List.mem_map, List.mem_filter, decide_eq_true_eq,
    and_assoc, Prod.mk.injEq]

/-- A single end with a cascade takes the entity with it, and no other end does. -/
theorem unlink_eq_deleteEntity {entity : Value} {slot : String} {storedEnd : StoredEnd}
    {deleted : String} :
    unlink entity slot storedEnd deleted = .deleteEntity ↔
      storedEnd.onDelete = .cascade ∧ storedEnd.many = false := by
  unfold unlink
  simp only []
  rcases storedEnd with ⟨target, _ | _, required, unique, _ | _ | _⟩ <;> cases required <;>
    simp <;> split_ifs <;> simp

/-- What is left of a many end: every instance that names the deleted target is in one of the
lists. -/
theorem unlink_eq_instances {entity : Value} {slot : String} {storedEnd : StoredEnd}
    {deleted : String} {removed : List (Option String)}
    {rewritten : List (Option String × List String)}
    (h : unlink entity slot storedEnd deleted = .instances removed rewritten) :
    removed = removedFrom deleted (instancesOf entity slot) ∧
      rewritten = rewrittenFrom deleted (instancesOf entity slot) := by
  unfold unlink at h
  simp only [] at h
  rcases storedEnd with ⟨target, _ | _, required, unique, onDelete⟩
  · cases onDelete <;> cases required <;> simp at h
  · simp only [Bool.not_true, Bool.false_eq_true, if_false] at h
    split_ifs at h
    cases h
    exact ⟨rfl, rfl⟩

end Unlink

end JoinedContext.Relationships

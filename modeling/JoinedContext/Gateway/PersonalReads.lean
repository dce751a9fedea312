import JoinedContext.Core.Json
import JoinedContext.Library.Assoc
import Mathlib.Tactic.Common

/-!
# The entities of a read

The log of a read of personal attributes names the entities of the answer. The walk that collects
them goes from an entity to those a join put in its attributes, and from these on. It does not look
into an attribute of an attribute, nor at an entity that stands in the place of a value.
-/

namespace JoinedContext.Gateway.PersonalReads

section Walk

def idOf : List (String × Value) → List String := fun members =>
  ((members.lookup "id").bind Value.asStr).toList

mutual

/-- Collects the id of an entity and of every entity inlined in its attributes. -/
def inlined : Value → List String
  | .obj members => idOf members ++ attributeIds members ++ featureIds members
  | _ => []

def attributeIds : List (String × Value) → List String
  | [] => []
  | (_, held) :: rest => instanceIds held ++ itemIds held ++ attributeIds rest

/-- A GeoJSON Feature carries the attributes under `properties`. -/
def featureIds : List (String × Value) → List String
  | [] => []
  | (name, value) :: rest => if name = "properties" then propertyIds value else featureIds rest

def propertyIds : Value → List String
  | .obj members => attributeIds members
  | _ => []

def itemIds : Value → List String
  | .arr items => instancesIds items
  | _ => []

def instancesIds : List Value → List String
  | [] => []
  | item :: rest => instanceIds item ++ instancesIds rest

def instanceIds : Value → List String
  | .obj members => entityIds members ++ entityListIds members
  | _ => []

def entityIds : List (String × Value) → List String
  | [] => []
  | (name, value) :: rest => if name = "entity" then inlined value else entityIds rest

def entityListIds : List (String × Value) → List String
  | [] => []
  | (name, value) :: rest => if name = "entityList" then listIds value else entityListIds rest

def listIds : Value → List String
  | .arr items => inlinedAll items
  | _ => []

def inlinedAll : List Value → List String
  | [] => []
  | item :: rest => inlined item ++ inlinedAll rest

end

/-- The ids of the entities an answer holds: one entity, a list of them or a FeatureCollection. -/
def readEntities (answer : Value) : List String :=
  match answer with
  | .arr items => inlinedAll items
  | .obj members =>
    match (members.lookup "features").bind Value.asArray with
    | some features => inlinedAll features
    | none => inlined (.obj members)
  | _ => []

end Walk

section Answers

mutual

/-- An entity of an answer, with what a join put in its relationships. -/
inductive Entity where
  | mk (id type : String) (attributes : List (String × Bool × List Instance))

/-- An instance of an attribute, with the attributes it has itself. An attribute has its instances,
and whether one alone is written as a list too, as in a temporal answer. -/
inductive Instance where
  | property (value : Value) (attributes : List (String × Bool × List Instance))
  | relationship (object : String) (entity : Option Entity)
      (attributes : List (String × Bool × List Instance))
  | listRelationship (objects : List String) (entities : List Entity)
      (attributes : List (String × Bool × List Instance))

end

inductive Representation where
  | normalised
  | concise
  | simplified
deriving DecidableEq

inductive Answer where
  | one (entity : Entity)
  | list (entities : List Entity)
  | feature (geometry : Value) (entity : Entity)
  | featureCollection (features : List (Value × Entity))

namespace Representation

/-- What an instance is written as: its own members and those of its attributes, or its value. -/
def written (r : Representation) (type : String) (own attributes : List (String × Value))
    (value : Value) : Value :=
  match r with
  | normalised => .obj (("type", .str type) :: own ++ attributes)
  | concise => .obj (own ++ attributes)
  | simplified => value

end Representation

/-- An attribute with several instances is a list of them. -/
def several : Bool → List Value → Value
  | false, [value] => value
  | _, instances => .arr instances

mutual

def Entity.json (r : Representation) : Entity → Value
  | .mk id type attributes =>
    .obj (("id", .str id) :: ("type", .str type) :: attributesJson r attributes)

def attributesJson (r : Representation) :
    List (String × Bool × List Instance) → List (String × Value)
  | [] => []
  | (name, listed, instances) :: rest =>
    (name, several listed (instancesJson r instances)) :: attributesJson r rest

def instancesJson (r : Representation) : List Instance → List Value
  | [] => []
  | i :: rest => i.json r :: instancesJson r rest

def Instance.json (r : Representation) : Instance → Value
  | .property value attributes =>
    r.written "Property" [("value", value)] (attributesJson r attributes) value
  | .relationship object none attributes =>
    r.written "Relationship" [("object", .str object)] (attributesJson r attributes) (.str object)
  | .relationship object (some entity) attributes =>
    r.written "Relationship" [("object", .str object), ("entity", entity.json r)]
      (attributesJson r attributes) (entity.json r)
  | .listRelationship objects entities attributes =>
    r.written "ListRelationship"
      [("objectList", .arr (objects.map .str)), ("entityList", .arr (entitiesJson r entities))]
      (attributesJson r attributes)
      (.arr (if entities.isEmpty then objects.map .str else entitiesJson r entities))

def entitiesJson (r : Representation) : List Entity → List Value
  | [] => []
  | entity :: rest => entity.json r :: entitiesJson r rest

end

def featureJson (r : Representation) (geometry : Value) : Entity → Value
  | .mk id type attributes =>
    .obj [("id", .str id), ("type", .str "Feature"), ("geometry", geometry),
      ("properties", .obj (("type", .str type) :: attributesJson r attributes))]

def Answer.json (r : Representation) : Answer → Value
  | one entity => entity.json r
  | list entities => .arr (entitiesJson r entities)
  | feature geometry entity => featureJson r geometry entity
  | featureCollection features =>
    .obj [("type", .str "FeatureCollection"),
      ("features", .arr (features.map fun feature => featureJson r feature.1 feature.2))]

mutual

/-- The ids of an entity and of those in it; the simplified representation has no attributes of
attributes. -/
def Entity.ids (r : Representation) : Entity → List String
  | .mk id _ attributes => id :: attributesIds r attributes

def attributesIds (r : Representation) : List (String × Bool × List Instance) → List String
  | [] => []
  | (_, _, instances) :: rest => instancesIdsOf r instances ++ attributesIds r rest

def instancesIdsOf (r : Representation) : List Instance → List String
  | [] => []
  | i :: rest => i.ids r ++ instancesIdsOf r rest

def Instance.ids (r : Representation) : Instance → List String
  | .property _ attributes => if r = .simplified then [] else attributesIds r attributes
  | .relationship _ none attributes => if r = .simplified then [] else attributesIds r attributes
  | .relationship _ (some entity) attributes =>
    entity.ids r ++ if r = .simplified then [] else attributesIds r attributes
  | .listRelationship _ entities attributes =>
    entitiesIds r entities ++ if r = .simplified then [] else attributesIds r attributes

def entitiesIds (r : Representation) : List Entity → List String
  | [] => []
  | entity :: rest => entity.ids r ++ entitiesIds r rest

end

def Answer.ids (r : Representation) : Answer → List String
  | one entity => entity.ids r
  | list entities => entitiesIds r entities
  | feature _ entity => entity.ids r
  | featureCollection features => features.flatMap fun feature => feature.2.ids r

end Answers

section Places

/-- The instances of an attribute. -/
def InstanceOf (held i : Value) : Prop := i = held ∨ ∃ items, held = .arr items ∧ i ∈ items

/-- An instance of an attribute of an entity, or of a Feature's under its `properties`. -/
def IsInstance (entity i : Value) : Prop :=
  ∃ members name held, entity = .obj members ∧
    ((name, held) ∈ members ∨
      ∃ properties, members.lookup "properties" = some (.obj properties) ∧
        (name, held) ∈ properties) ∧
    InstanceOf held i

/-- An entity a join put in an instance. -/
def Joined (i entity : Value) : Prop :=
  i.get "entity" = some entity ∨
    ∃ entities, i.get "entityList" = some (.arr entities) ∧ entity ∈ entities

/-- An entity joined to an attribute of an entity, or to one of that entity, and so on. -/
inductive Within (entity : Value) : Value → Prop
  | self : Within entity entity
  | joined {e i e' : Value} : Within entity e → IsInstance e i → Joined i e' → Within entity e'

/-- An entity an answer has at its top, or one within it. -/
inductive Visited : Value → Value → Prop
  | list {items item e} : item ∈ items → Within item e → Visited (.arr items) e
  | features {members features item e} : members.lookup "features" = some (.arr features) →
      item ∈ features → Within item e → Visited (.obj members) e
  | one {members e} : (∀ features, members.lookup "features" ≠ some (.arr features)) →
      Within (.obj members) e → Visited (.obj members) e

variable {id : String}

theorem mem_idOf {members : List (String × Value)} :
    id ∈ idOf members ↔ (Value.obj members).get "id" = some (.str id) := by
  unfold idOf
  rw [Option.mem_toList, Option.bind_eq_some_iff, Value.get_obj]
  constructor
  · rintro ⟨v, hv, hid⟩
    cases v <;> cases hid
    exact hv
  · exact fun h => ⟨_, h, rfl⟩

theorem mem_inlinedAll : ∀ {items : List Value},
    id ∈ inlinedAll items ↔ ∃ item ∈ items, id ∈ inlined item
  | [] => by simp [inlinedAll]
  | item :: rest => by
    rw [inlinedAll, List.mem_append, mem_inlinedAll]
    simp

theorem mem_entityIds : ∀ {members : List (String × Value)},
    id ∈ entityIds members ↔ ∃ e, members.lookup "entity" = some e ∧ id ∈ inlined e
  | [] => by simp [entityIds]
  | (name, value) :: rest => by
    rw [entityIds, List.lookup_cons]
    by_cases hname : name = "entity"
    · simp [hname]
    · have hne : ("entity" == name) = false := beq_eq_false_iff_ne.2 (Ne.symm hname)
      rw [if_neg hname, hne, mem_entityIds]

theorem mem_entityListIds : ∀ {members : List (String × Value)},
    id ∈ entityListIds members ↔ ∃ es, members.lookup "entityList" = some (.arr es) ∧
      id ∈ inlinedAll es
  | [] => by simp [entityListIds]
  | (name, value) :: rest => by
    rw [entityListIds, List.lookup_cons]
    by_cases hname : name = "entityList"
    · cases value <;> simp [hname, listIds]
    · have hne : ("entityList" == name) = false := beq_eq_false_iff_ne.2 (Ne.symm hname)
      rw [if_neg hname, hne, mem_entityListIds]

theorem mem_instanceIds {i : Value} : id ∈ instanceIds i ↔ ∃ e, Joined i e ∧ id ∈ inlined e := by
  cases i with
  | obj members =>
    rw [instanceIds, List.mem_append, mem_entityIds, mem_entityListIds]
    simp only [Joined, Value.get_obj, mem_inlinedAll]
    constructor
    · rintro (⟨e, he, hid⟩ | ⟨es, hes, e, he, hid⟩)
      · exact ⟨e, Or.inl he, hid⟩
      · exact ⟨e, Or.inr ⟨es, hes, he⟩, hid⟩
    · rintro ⟨e, he | ⟨es, hes, he⟩, hid⟩
      · exact Or.inl ⟨e, he, hid⟩
      · exact Or.inr ⟨es, hes, e, he, hid⟩
  | _ => simp [instanceIds, Joined, Value.get]

theorem mem_instancesIds : ∀ {items : List Value},
    id ∈ instancesIds items ↔ ∃ i ∈ items, id ∈ instanceIds i
  | [] => by simp [instancesIds]
  | item :: rest => by
    rw [instancesIds, List.mem_append, mem_instancesIds]
    simp

theorem mem_itemIds {held : Value} :
    id ∈ itemIds held ↔ ∃ items, held = .arr items ∧ ∃ i ∈ items, id ∈ instanceIds i := by
  cases held <;> simp [itemIds, mem_instancesIds]

theorem mem_heldIds {held : Value} : id ∈ instanceIds held ++ itemIds held ↔
    ∃ i, InstanceOf held i ∧ id ∈ instanceIds i := by
  rw [List.mem_append, mem_itemIds]
  constructor
  · rintro (hid | ⟨items, hitems, i, hi, hid⟩)
    · exact ⟨held, Or.inl rfl, hid⟩
    · exact ⟨i, Or.inr ⟨items, hitems, hi⟩, hid⟩
  · rintro ⟨i, rfl | ⟨items, hitems, hi⟩, hid⟩
    · exact Or.inl hid
    · exact Or.inr ⟨items, hitems, i, hi, hid⟩

theorem mem_attributeIds : ∀ {members : List (String × Value)},
    id ∈ attributeIds members ↔ ∃ member ∈ members, ∃ i, InstanceOf member.2 i ∧ id ∈ instanceIds i
  | [] => by simp [attributeIds]
  | (name, held) :: rest => by
    rw [attributeIds, List.mem_append, mem_heldIds, mem_attributeIds]
    simp

theorem mem_featureIds : ∀ {members : List (String × Value)},
    id ∈ featureIds members ↔ ∃ properties, members.lookup "properties" = some (.obj properties) ∧
      id ∈ attributeIds properties
  | [] => by simp [featureIds]
  | (name, value) :: rest => by
    rw [featureIds, List.lookup_cons]
    by_cases hname : name = "properties"
    · cases value <;> simp [hname, propertyIds]
    · have hne : ("properties" == name) = false := beq_eq_false_iff_ne.2 (Ne.symm hname)
      rw [if_neg hname, hne, mem_featureIds]

/-- One step of the walk: an entity's own id, and what is collected from those joined to it. -/
theorem mem_inlined {entity : Value} : id ∈ inlined entity ↔ entity.get "id" = some (.str id) ∨
    ∃ i e, IsInstance entity i ∧ Joined i e ∧ id ∈ inlined e := by
  cases entity with
  | obj members =>
    rw [inlined, List.mem_append, List.mem_append, mem_idOf, or_assoc, mem_attributeIds,
      mem_featureIds]
    refine or_congr_right ?_
    simp only [mem_attributeIds, mem_instanceIds]
    constructor
    · rintro (⟨member, hmember, i, hi, e, hjoined, hid⟩ |
        ⟨properties, hproperties, member, hmember, i, hi, e, hjoined, hid⟩)
      · exact ⟨i, e, ⟨members, member.1, member.2, rfl, Or.inl hmember, hi⟩, hjoined, hid⟩
      · exact ⟨i, e, ⟨members, member.1, member.2, rfl,
          Or.inr ⟨properties, hproperties, hmember⟩, hi⟩, hjoined, hid⟩
    · rintro ⟨i, e, ⟨members', name, held, heq, hheld, hi⟩, hjoined, hid⟩
      cases heq
      rcases hheld with hheld | ⟨properties, hproperties, hheld⟩
      · exact Or.inl ⟨(name, held), hheld, i, hi, e, hjoined, hid⟩
      · exact Or.inr ⟨properties, hproperties, (name, held), hheld, i, hi, e, hjoined, hid⟩
  | _ => simp [inlined, Value.get, IsInstance]

theorem sizeOf_lt_of_get {i value : Value} {name : String} (h : i.get name = some value) :
    sizeOf value < sizeOf i := by
  cases i with
  | obj members => exact Value.sizeOf_lt_obj (Assoc.mem_of_lookup h)
  | _ => cases h

theorem sizeOf_lt_of_joined {i e : Value} (h : Joined i e) : sizeOf e < sizeOf i := by
  rcases h with h | ⟨es, hes, he⟩
  · exact sizeOf_lt_of_get h
  · exact Nat.lt_trans (Value.sizeOf_lt_arr he) (sizeOf_lt_of_get hes)

theorem sizeOf_lt_of_isInstance {entity i : Value} (h : IsInstance entity i) :
    sizeOf i < sizeOf entity := by
  obtain ⟨members, name, held, rfl, hheld, hi⟩ := h
  have hle : sizeOf i ≤ sizeOf held := by
    rcases hi with rfl | ⟨items, rfl, hi⟩
    · exact Nat.le_refl _
    · exact Nat.le_of_lt (Value.sizeOf_lt_arr hi)
  refine Nat.lt_of_le_of_lt hle ?_
  rcases hheld with hheld | ⟨properties, hproperties, hheld⟩
  · exact Value.sizeOf_lt_obj hheld
  · exact Nat.lt_trans (Value.sizeOf_lt_obj hheld)
      (Value.sizeOf_lt_obj (Assoc.mem_of_lookup hproperties))

theorem Within.of_joined {entity i e e' : Value} (hi : IsInstance entity i) (hjoined : Joined i e)
    (h : Within e e') : Within entity e' := by
  induction h with
  | self => exact .joined .self hi hjoined
  | joined _ hi' hjoined' ih => exact .joined ih hi' hjoined'

theorem inlined_subset {entity e : Value} (h : Within entity e) :
    id ∈ inlined e → id ∈ inlined entity := by
  induction h with
  | self => exact fun h => h
  | joined _ hi hjoined ih => exact fun h => ih (mem_inlined.2 (Or.inr ⟨_, _, hi, hjoined, h⟩))

/-- What is collected from an entity: the ids of the entities within it. -/
theorem mem_inlined_iff {entity : Value} :
    id ∈ inlined entity ↔ ∃ e, Within entity e ∧ e.get "id" = some (.str id) := by
  constructor
  · intro h
    induction hn : sizeOf entity using Nat.strongRecOn generalizing entity with
    | _ n ih =>
      rcases mem_inlined.1 h with hid | ⟨i, e, hi, hjoined, hid⟩
      · exact ⟨entity, .self, hid⟩
      · have hlt := Nat.lt_trans (sizeOf_lt_of_joined hjoined) (sizeOf_lt_of_isInstance hi)
        obtain ⟨e', hwithin, hid'⟩ := ih (sizeOf e) (hn ▸ hlt) hid rfl
        exact ⟨e', .of_joined hi hjoined hwithin, hid'⟩
  · rintro ⟨e, hwithin, hid⟩
    exact inlined_subset hwithin (mem_inlined.2 (Or.inl hid))

/-- What is read of an answer: the ids of the entities visited. -/
theorem mem_readEntities {answer : Value} :
    id ∈ readEntities answer ↔ ∃ e, Visited answer e ∧ e.get "id" = some (.str id) := by
  cases answer with
  | arr items =>
    simp only [readEntities, mem_inlinedAll, mem_inlined_iff]
    constructor
    · rintro ⟨item, hitem, e, hwithin, hid⟩
      exact ⟨e, .list hitem hwithin, hid⟩
    · rintro ⟨e, hvisited, hid⟩
      cases hvisited with
      | list hitem hwithin => exact ⟨_, hitem, e, hwithin, hid⟩
  | obj members =>
    unfold readEntities
    dsimp only
    cases hfeatures : (members.lookup "features").bind Value.asArray with
    | some features =>
      have hlookup : members.lookup "features" = some (.arr features) := by
        obtain ⟨v, hv, harr⟩ := Option.bind_eq_some_iff.1 hfeatures
        cases v <;> cases harr
        exact hv
      simp only [mem_inlinedAll, mem_inlined_iff]
      constructor
      · rintro ⟨item, hitem, e, hwithin, hid⟩
        exact ⟨e, .features hlookup hitem hwithin, hid⟩
      · rintro ⟨e, hvisited, hid⟩
        cases hvisited with
        | features hlookup' hitem hwithin =>
          rw [hlookup] at hlookup'
          cases hlookup'
          exact ⟨_, hitem, e, hwithin, hid⟩
        | one hnone => exact (hnone features hlookup).elim
    | none =>
      have hnone : ∀ features, members.lookup "features" ≠ some (.arr features) := by
        intro features hlookup
        rw [hlookup] at hfeatures
        cases hfeatures
      simp only [mem_inlined_iff]
      constructor
      · rintro ⟨e, hwithin, hid⟩
        exact ⟨e, .one hnone hwithin, hid⟩
      · rintro ⟨e, hvisited, hid⟩
        cases hvisited with
        | features hlookup => exact (hnone _ hlookup).elim
        | one _ hwithin => exact ⟨e, hwithin, hid⟩
  | _ =>
    simp only [readEntities, List.not_mem_nil, false_iff, not_exists, not_and]
    rintro e ⟨⟩

end Places

section Missed

mutual

/-- The ids the walk does not come to from an entity: those joined to the attributes of its
attributes, and in the simplified representation those joined to its attributes. -/
def Entity.missed (r : Representation) : Entity → List String
  | .mk _ _ attributes =>
    if r = .simplified then attributesIds r attributes else attributesMissed r attributes

def attributesMissed (r : Representation) : List (String × Bool × List Instance) → List String
  | [] => []
  | (_, _, instances) :: rest => instancesMissed r instances ++ attributesMissed r rest

def instancesMissed (r : Representation) : List Instance → List String
  | [] => []
  | i :: rest => i.missed r ++ instancesMissed r rest

def Instance.missed (r : Representation) : Instance → List String
  | .property _ attributes => attributesIds r attributes
  | .relationship _ none attributes => attributesIds r attributes
  | .relationship _ (some entity) attributes => entity.missed r ++ attributesIds r attributes
  | .listRelationship _ entities attributes =>
    entitiesMissed r entities ++ attributesIds r attributes

def entitiesMissed (r : Representation) : List Entity → List String
  | [] => []
  | entity :: rest => entity.missed r ++ entitiesMissed r rest

end

/-- Whether the walk takes an entity for a collection: it has an attribute `features` that is
written as a list. -/
def Entity.isCollection (r : Representation) : Entity → Bool
  | .mk _ _ attributes =>
    (((attributesJson r attributes).lookup "features").bind Value.asArray).isSome

/-- The ids an answer holds where the walk does not come. -/
def Answer.missed (r : Representation) : Answer → List String
  | one entity => if entity.isCollection r then entity.ids r else entity.missed r
  | list entities => entitiesMissed r entities
  | feature _ entity => entity.missed r
  | featureCollection features => features.flatMap fun feature => feature.2.missed r

variable {r : Representation} {id : String}

theorem instanceOf_several {listed : Bool} {values : List Value} {i : Value} (h : i ∈ values) :
    InstanceOf (several listed values) i := by
  unfold several
  split
  · exact Or.inl (List.mem_singleton.1 h)
  · exact Or.inr ⟨_, rfl, h⟩

theorem mem_instanceIds_relationship (hr : r ≠ .simplified) {entity value : Value} {object : String}
    {attributes : List (String × Value)} (h : id ∈ inlined entity) :
    id ∈ instanceIds (r.written "Relationship" [("object", .str object), ("entity", entity)]
      attributes value) := by
  refine mem_instanceIds.2 ⟨entity, Or.inl ?_, h⟩
  cases r with
  | simplified => exact (hr rfl).elim
  | _ => rfl

theorem mem_instanceIds_listRelationship (hr : r ≠ .simplified) {entities : List Value}
    {objects value : Value} {attributes : List (String × Value)} (h : id ∈ inlinedAll entities) :
    id ∈ instanceIds (r.written "ListRelationship"
      [("objectList", objects), ("entityList", .arr entities)] attributes value) := by
  obtain ⟨entity, hentity, hid⟩ := mem_inlinedAll.1 h
  refine mem_instanceIds.2 ⟨entity, Or.inr ⟨entities, ?_, hentity⟩, hid⟩
  cases r with
  | simplified => exact (hr rfl).elim
  | _ => rfl

mutual

/-- The walk comes to every id that is not among the missed ones. -/
theorem Entity.missed_or_inlined : ∀ {entity : Entity}, id ∈ entity.ids r →
    id ∈ entity.missed r ∨ id ∈ inlined (entity.json r)
  | .mk own type attributes, h => by
    rw [Entity.ids, List.mem_cons] at h
    rw [Entity.missed, Entity.json]
    rcases h with rfl | h
    · exact Or.inr (mem_inlined.2 (Or.inl rfl))
    · by_cases hr : r = .simplified
      · rw [if_pos hr]
        exact Or.inl h
      · rw [if_neg hr]
        refine (attributesMissed_or_attributeIds hr h).imp_right fun hid => ?_
        rw [inlined, List.mem_append, List.mem_append, attributeIds, attributeIds]
        exact Or.inl (Or.inr (List.mem_append_right _ (List.mem_append_right _ hid)))

theorem attributesMissed_or_attributeIds (hr : r ≠ .simplified) :
    ∀ {attributes : List (String × Bool × List Instance)}, id ∈ attributesIds r attributes →
      id ∈ attributesMissed r attributes ∨ id ∈ attributeIds (attributesJson r attributes)
  | (name, listed, instances) :: rest, h => by
    rw [attributesIds, List.mem_append] at h
    rw [attributesMissed, List.mem_append, attributesJson, attributeIds, List.mem_append]
    rcases h with h | h
    · refine (instancesMissed_or_instanceIds hr h).imp Or.inl fun ⟨i, hi, hid⟩ => Or.inl ?_
      exact mem_heldIds.2 ⟨i, instanceOf_several hi, hid⟩
    · exact (attributesMissed_or_attributeIds hr h).imp Or.inr Or.inr

theorem instancesMissed_or_instanceIds (hr : r ≠ .simplified) : ∀ {instances : List Instance},
    id ∈ instancesIdsOf r instances →
      id ∈ instancesMissed r instances ∨ ∃ i ∈ instancesJson r instances, id ∈ instanceIds i
  | i :: rest, h => by
    rw [instancesIdsOf, List.mem_append] at h
    rw [instancesMissed, List.mem_append, instancesJson]
    rcases h with h | h
    · exact (Instance.missed_or_instanceIds hr h).imp Or.inl fun hid => ⟨_, List.mem_cons_self, hid⟩
    · exact (instancesMissed_or_instanceIds hr h).imp Or.inr fun ⟨i, hi, hid⟩ =>
        ⟨i, List.mem_cons_of_mem _ hi, hid⟩

theorem Instance.missed_or_instanceIds (hr : r ≠ .simplified) : ∀ {i : Instance}, id ∈ i.ids r →
    id ∈ i.missed r ∨ id ∈ instanceIds (i.json r)
  | .property _ attributes, h => by
    rw [Instance.ids, if_neg hr] at h
    exact Or.inl h
  | .relationship _ none attributes, h => by
    rw [Instance.ids, if_neg hr] at h
    exact Or.inl h
  | .relationship object (some entity) attributes, h => by
    rw [Instance.ids, if_neg hr, List.mem_append] at h
    rw [Instance.missed, List.mem_append, Instance.json]
    rcases h with h | h
    · exact (Entity.missed_or_inlined h).imp Or.inl (mem_instanceIds_relationship hr)
    · exact Or.inl (Or.inr h)
  | .listRelationship objects entities attributes, h => by
    rw [Instance.ids, if_neg hr, List.mem_append] at h
    rw [Instance.missed, List.mem_append, Instance.json]
    rcases h with h | h
    · exact (entitiesMissed_or_inlinedAll h).imp Or.inl (mem_instanceIds_listRelationship hr)
    · exact Or.inl (Or.inr h)

theorem entitiesMissed_or_inlinedAll : ∀ {entities : List Entity}, id ∈ entitiesIds r entities →
    id ∈ entitiesMissed r entities ∨ id ∈ inlinedAll (entitiesJson r entities)
  | entity :: rest, h => by
    rw [entitiesIds, List.mem_append] at h
    rw [entitiesMissed, List.mem_append, entitiesJson, inlinedAll, List.mem_append]
    rcases h with h | h
    · exact (Entity.missed_or_inlined h).imp Or.inl Or.inl
    · exact (entitiesMissed_or_inlinedAll h).imp Or.inr Or.inr

end

mutual

theorem Entity.missed_subset : ∀ {entity : Entity}, id ∈ entity.missed r → id ∈ entity.ids r
  | .mk own type attributes, h => by
    rw [Entity.missed] at h
    rw [Entity.ids]
    split_ifs at h
    · exact List.mem_cons_of_mem _ h
    · exact List.mem_cons_of_mem _ (attributesMissed_subset ‹_› h)

theorem attributesMissed_subset (hr : r ≠ .simplified) :
    ∀ {attributes : List (String × Bool × List Instance)}, id ∈ attributesMissed r attributes →
      id ∈ attributesIds r attributes
  | (name, listed, instances) :: rest, h => by
    rw [attributesMissed, List.mem_append] at h
    rw [attributesIds, List.mem_append]
    exact h.imp (instancesMissed_subset hr) (attributesMissed_subset hr)

theorem instancesMissed_subset (hr : r ≠ .simplified) : ∀ {instances : List Instance},
    id ∈ instancesMissed r instances → id ∈ instancesIdsOf r instances
  | i :: rest, h => by
    rw [instancesMissed, List.mem_append] at h
    rw [instancesIdsOf, List.mem_append]
    exact h.imp (Instance.missed_subset hr) (instancesMissed_subset hr)

theorem Instance.missed_subset (hr : r ≠ .simplified) : ∀ {i : Instance}, id ∈ i.missed r →
    id ∈ i.ids r
  | .property _ attributes, h => by
    rw [Instance.ids, if_neg hr]
    exact h
  | .relationship _ none attributes, h => by
    rw [Instance.ids, if_neg hr]
    exact h
  | .relationship _ (some entity) attributes, h => by
    rw [Instance.missed, List.mem_append] at h
    rw [Instance.ids, if_neg hr, List.mem_append]
    exact h.imp_left Entity.missed_subset
  | .listRelationship _ entities attributes, h => by
    rw [Instance.missed, List.mem_append] at h
    rw [Instance.ids, if_neg hr, List.mem_append]
    exact h.imp_left entitiesMissed_subset

theorem entitiesMissed_subset : ∀ {entities : List Entity}, id ∈ entitiesMissed r entities →
    id ∈ entitiesIds r entities
  | entity :: rest, h => by
    rw [entitiesMissed, List.mem_append] at h
    rw [entitiesIds, List.mem_append]
    exact h.imp Entity.missed_subset entitiesMissed_subset

end

end Missed

section Named

variable {r : Representation} {id : String}

/-- Whether the log names every entity of an answer. -/
def Named (r : Representation) (answer : Answer) : Prop :=
  ∀ id ∈ answer.ids r, id ∈ readEntities (answer.json r)

theorem Answer.missed_subset : ∀ {answer : Answer}, id ∈ answer.missed r → id ∈ answer.ids r
  | .one entity, h => by
    unfold Answer.missed at h
    dsimp only at h
    split_ifs at h
    · exact h
    · exact Entity.missed_subset h
  | .list entities, h => entitiesMissed_subset h
  | .feature _ (.mk _ _ _), h => Entity.missed_subset h
  | .featureCollection features, h => by
    obtain ⟨feature, hfeature, hid⟩ := List.mem_flatMap.1 h
    exact List.mem_flatMap.2 ⟨feature, hfeature, Entity.missed_subset hid⟩

/-- The walk comes to a Feature's entity as it does to the entity itself. -/
theorem missed_or_inlined_feature (geometry : Value) : ∀ {entity : Entity}, id ∈ entity.ids r →
    id ∈ entity.missed r ∨ id ∈ inlined (featureJson r geometry entity)
  | .mk own type attributes, h => by
    rw [Entity.ids, List.mem_cons] at h
    rw [Entity.missed, featureJson]
    rcases h with rfl | h
    · exact Or.inr (mem_inlined.2 (Or.inl rfl))
    · by_cases hr : r = .simplified
      · rw [if_pos hr]
        exact Or.inl h
      · rw [if_neg hr]
        refine (attributesMissed_or_attributeIds hr h).imp_right fun hid => ?_
        rw [inlined, List.mem_append]
        refine Or.inr (mem_featureIds.2 ⟨_, rfl, ?_⟩)
        rw [attributeIds]
        exact List.mem_append_right _ hid

theorem readEntities_json {entity : Entity} (h : entity.isCollection r = false) :
    readEntities (entity.json r) = inlined (entity.json r) := by
  obtain ⟨own, type, attributes⟩ := entity
  have hnone : ((("id", Value.str own) :: ("type", .str type) :: attributesJson r attributes).lookup
      "features").bind Value.asArray = none :=
    Option.isNone_iff_eq_none.1 (Option.isSome_eq_false_iff.1 h)
  rw [Entity.json, readEntities, hnone]

theorem Answer.missed_or_read : ∀ {answer : Answer}, id ∈ answer.ids r →
    id ∈ answer.missed r ∨ id ∈ readEntities (answer.json r)
  | .one entity, h => by
    unfold Answer.missed
    dsimp only
    by_cases hcollection : entity.isCollection r = true
    · rw [if_pos hcollection]
      exact Or.inl h
    · rw [if_neg hcollection]
      refine (Entity.missed_or_inlined h).imp_right fun hid => ?_
      rwa [Answer.json, readEntities_json (Bool.not_eq_true _ ▸ hcollection)]
  | .list entities, h => entitiesMissed_or_inlinedAll h
  | .feature geometry entity, h => by
    obtain ⟨own, type, attributes⟩ := entity
    exact missed_or_inlined_feature geometry h
  | .featureCollection features, h => by
    obtain ⟨feature, hfeature, hid⟩ := List.mem_flatMap.1 h
    refine (missed_or_inlined_feature feature.1 hid).imp (fun hid => List.mem_flatMap.2
      ⟨feature, hfeature, hid⟩) fun hid => ?_
    exact mem_inlinedAll.2 ⟨_, List.mem_map_of_mem hfeature, hid⟩

/-- The log names every entity of an answer exactly when each entity the walk does not come to has
the id of one it does. -/
theorem named_iff (r : Representation) (answer : Answer) : Named r answer ↔
    ∀ id ∈ answer.missed r, ∃ e, Visited (answer.json r) e ∧ e.get "id" = some (.str id) := by
  constructor
  · exact fun h id hid => mem_readEntities.1 (h id (Answer.missed_subset hid))
  · intro h id hid
    rcases Answer.missed_or_read hid with hmissed | hread
    · exact mem_readEntities.2 (h id hmissed)
    · exact hread

/-- A person joined to an attribute of an attribute is not named. -/
theorem joined_unnamed : ¬ ∀ r answer, Named r answer := by
  intro h
  have hread := h .normalised (.list [.mk "urn:a:1" "T" [("speed", false, [.property (.num 7 0)
    [("measuredBy", false, [.relationship "urn:p:1" (some (.mk "urn:p:1" "Person" [])) []])]])]])
    "urn:p:1" (by decide)
  revert hread
  decide

end Named

end JoinedContext.Gateway.PersonalReads

import JoinedContext.Core.Json
import JoinedContext.Library.Assoc
import JoinedContext.Library.Text
import Mathlib

/-!
# The leaves of an entity

An entity of an answer is flattened to its leaf values, each named by the dot-joined path to it.
What a document has for leaves is stated apart from the walk, and the walk gives exactly these.
-/

namespace JoinedContext.Tabular

abbrev Cells := List (String × Value)

def ATTRIBUTE_TYPES : List String :=
  ["Property", "GeoProperty", "Relationship", "LanguageProperty", "VocabProperty", "JsonProperty",
    "ListProperty", "ListRelationship"]

def ATTRIBUTE_MEMBERS : List String :=
  ["value", "object", "languageMap", "vocab", "json", "valueList", "objectList"]

/-- Whether an object is an attribute, whose `type` says what shape it has. -/
def isAttribute (members : List (String × Value)) : Bool :=
  match (members.lookup "type").bind Value.asStr with
  | some kind => ATTRIBUTE_TYPES.contains kind ||
      ATTRIBUTE_MEMBERS.any fun member => (members.lookup member).isSome
  | none => false

/-- The `datasetId` of an instance that is not the default one. -/
def datasetOf (members : List (String × Value)) : Option String :=
  (members.lookup "datasetId").bind Value.asStr

def isInstance : Value → Bool
  | .obj members => isAttribute members
  | _ => false

def isContainer : Value → Bool
  | .obj _ => true
  | .arr _ => true
  | _ => false

/-- Several instances of one attribute. -/
def instances (items : List Value) : Bool :=
  !items.isEmpty && items.all isInstance

def scalars (items : List Value) : Bool :=
  !items.isEmpty && !items.any isContainer

mutual

def walk (path : String) : Value → Cells
  | .obj members =>
    if (members.lookup "@value").isSome then walkLiteral path members
    else if members.isEmpty then [(path, .obj members)]
    else walkMembers path (isAttribute members) false members
  | .arr items =>
    if instances items then walkInstances path items
    else if scalars items then walkItems path 0 items
    else [(path, .arr items)]
  | leaf => [(path, leaf)]

/-- The walk of `members["@value"]`. -/
def walkLiteral (path : String) : List (String × Value) → Cells
  | [] => []
  | (name, value) :: rest =>
    if name = "@value" then walk path value else walkLiteral path rest

/-- `walk_members`, of an instance whose `datasetId` was taken out where `dataset` says so. -/
def walkMembers (path : String) (structural dataset : Bool) : List (String × Value) → Cells
  | [] => []
  | (name, value) :: rest =>
    if dataset && name == "datasetId" || (Text.startsWith '@' name || structural && name == "type") then
      walkMembers path structural dataset rest
    else walk (path ++ "." ++ name) value ++ walkMembers path structural dataset rest

def walkInstances (path : String) : List Value → Cells
  | [] => []
  | .obj members :: rest =>
    (match datasetOf members with
      | some dataset => walkMembers (path ++ "[datasetId=" ++ dataset ++ "]")
          (isAttribute (Assoc.without "datasetId" members)) true members
      | none => walkMembers path (isAttribute members) false members) ++ walkInstances path rest
  | _ :: rest => walkInstances path rest

def walkItems (path : String) (index : ℕ) : List Value → Cells
  | [] => []
  | item :: rest =>
    walk (path ++ "[" ++ toString index ++ "]") item ++ walkItems path (index + 1) rest

end

/-- `id` and `type` come first. -/
def ownCells (members : List (String × Value)) : Cells :=
  ["id", "type"].flatMap fun key =>
    match members.lookup key with
    | some (.obj _) => []
    | some value => [(key, value)]
    | none => []

def flatten : Value → Cells
  | .obj members => ownCells members ++ members.flatMap fun (name, value) =>
      if name = "id" || (name = "type" || Text.startsWith '@' name) then [] else walk name value
  | _ => []

section Spec

/-- A step of the path to a leaf. -/
inductive Step where
  | member (name : String)
  | index (i : ℕ)
  | dataset (id : String)
deriving DecidableEq

def Step.render (path : String) : Step → String
  | .member name => path ++ "." ++ name
  | .index i => path ++ "[" ++ toString i ++ "]"
  | .dataset id => path ++ "[datasetId=" ++ id ++ "]"

/-- The name a column has for a path. -/
def render (path : String) (steps : List Step) : String := steps.foldl Step.render path

/-- The members of an object that hold data: not a keyword's, and not the shape of an attribute. -/
def Carries (members : List (String × Value)) (name : String) (value : Value) : Prop :=
  (name, value) ∈ members ∧ Text.startsWith '@' name = false ∧
    (isAttribute members = true → name ≠ "type")

/-- A leaf of a value, under the steps to it. -/
inductive LeafAt : Value → List Step → Value → Prop
  | literal {members v steps leaf} : members.lookup "@value" = some v → LeafAt v steps leaf →
      LeafAt (.obj members) steps leaf
  | member {members name v steps leaf} : members.lookup "@value" = none →
      Carries members name v → LeafAt v steps leaf →
      LeafAt (.obj members) (.member name :: steps) leaf
  | default {items members name v steps leaf} : instances items = true →
      .obj members ∈ items → datasetOf members = none → Carries members name v →
      LeafAt v steps leaf → LeafAt (.arr items) (.member name :: steps) leaf
  | dataset {items members id name v steps leaf} : instances items = true →
      .obj members ∈ items → datasetOf members = some id → Carries members name v →
      name ≠ "datasetId" → LeafAt v steps leaf →
      LeafAt (.arr items) (.dataset id :: .member name :: steps) leaf
  | index {items i v} : instances items = false → scalars items = true → items[i]? = some v →
      LeafAt (.arr items) [.index i] v
  | whole {items} : instances items = false → scalars items = false →
      LeafAt (.arr items) [] (.arr items)
  | empty : LeafAt (.obj []) [] (.obj [])
  | scalar {v : Value} : isContainer v = false → LeafAt v [] v

/-- A leaf of an entity: its `id`, its `type`, and what its attributes have. -/
inductive LeafOf : Value → String → List Step → Value → Prop
  | own {members key v} : key ∈ ["id", "type"] → members.lookup key = some v →
      (∀ inner, v ≠ .obj inner) → LeafOf (.obj members) key [] v
  | data {members name v steps leaf} : (name, v) ∈ members → name ∉ ["id", "type"] →
      Text.startsWith '@' name = false → LeafAt v steps leaf → LeafOf (.obj members) name steps leaf

variable {path name : String} {leaf : Value} {members : List (String × Value)} {items : List Value}

theorem walkLiteral_eq {value : Value} : ∀ {members : List (String × Value)},
    members.lookup "@value" = some value → walkLiteral path members = walk path value
  | (name, v) :: rest, h => by
    rw [Assoc.lookup_cons] at h
    rw [walkLiteral]
    by_cases hname : name = "@value"
    · rw [if_pos hname.symm] at h
      cases h
      rw [if_pos hname]
    · rw [if_neg (Ne.symm hname)] at h
      rw [if_neg hname, walkLiteral_eq h]

theorem mem_walkMembers {structural dataset : Bool} {c : String × Value} :
    ∀ {members : List (String × Value)}, c ∈ walkMembers path structural dataset members ↔
      ∃ name value, ((name, value) ∈ members ∧ Text.startsWith '@' name = false ∧
        (structural = true → name ≠ "type") ∧ (dataset = true → name ≠ "datasetId")) ∧
        c ∈ walk (path ++ "." ++ name) value := by
  intro members
  induction members with
  | nil => simp [walkMembers]
  | cons member rest ih =>
    obtain ⟨name, value⟩ := member
    have hskip : (dataset && name == "datasetId" ||
        (Text.startsWith '@' name || structural && name == "type")) = true ↔
        ¬ (Text.startsWith '@' name = false ∧ (structural = true → name ≠ "type") ∧
          (dataset = true → name ≠ "datasetId")) := by
      cases dataset <;> cases structural <;> cases Text.startsWith '@' name <;> simp
      exact ⟨fun h ht => h.resolve_right ht, fun h => (em _).symm.imp_left h⟩
    rw [walkMembers]
    split_ifs with h
    · rw [ih]
      constructor
      · rintro ⟨n, v, ⟨hmem, hkeep⟩, hc⟩
        exact ⟨n, v, ⟨List.mem_cons_of_mem _ hmem, hkeep⟩, hc⟩
      · rintro ⟨n, v, ⟨hmem, hkeep⟩, hc⟩
        rcases List.mem_cons.1 hmem with heq | hmem
        · cases heq
          exact absurd hkeep (hskip.1 h)
        · exact ⟨n, v, ⟨hmem, hkeep⟩, hc⟩
    · have hkeep := not_not.1 (mt hskip.2 h)
      rw [List.mem_append, ih]
      constructor
      · rintro (hc | ⟨n, v, ⟨hmem, hk⟩, hc⟩)
        · exact ⟨name, value, ⟨List.mem_cons_self, hkeep⟩, hc⟩
        · exact ⟨n, v, ⟨List.mem_cons_of_mem _ hmem, hk⟩, hc⟩
      · rintro ⟨n, v, ⟨hmem, hk⟩, hc⟩
        rcases List.mem_cons.1 hmem with heq | hmem
        · cases heq
          exact Or.inl hc
        · exact Or.inr ⟨n, v, ⟨hmem, hk⟩, hc⟩

/-- What one instance of an attribute adds. -/
def instanceCells (path : String) (members : List (String × Value)) : Cells :=
  match datasetOf members with
  | some dataset => walkMembers (path ++ "[datasetId=" ++ dataset ++ "]")
      (isAttribute (Assoc.without "datasetId" members)) true members
  | none => walkMembers path (isAttribute members) false members

theorem mem_walkInstances {c : String × Value} : ∀ {items : List Value},
    c ∈ walkInstances path items ↔ ∃ members, .obj members ∈ items ∧
      c ∈ instanceCells path members := by
  intro items
  induction items with
  | nil => simp [walkInstances]
  | cons item rest ih =>
    cases item with
    | obj members =>
      rw [walkInstances, ← instanceCells, List.mem_append, ih]
      simp
    | _ =>
      rw [walkInstances, ih]
      · simp
      · intro members hnot
        cases hnot

theorem mem_walkItems {c : String × Value} : ∀ {items : List Value} {index : ℕ},
    c ∈ walkItems path index items ↔ ∃ i v, items[i]? = some v ∧
      c ∈ walk (path ++ "[" ++ toString (index + i) ++ "]") v
  | [], index => by simp [walkItems]
  | item :: rest, index => by
    rw [walkItems, List.mem_append, mem_walkItems]
    constructor
    · rintro (hc | ⟨i, v, hi, hc⟩)
      · exact ⟨0, item, rfl, hc⟩
      · rw [Nat.add_right_comm, Nat.add_assoc] at hc
        exact ⟨i + 1, v, hi, hc⟩
    · rintro ⟨_ | i, v, hi, hc⟩
      · cases hi
        exact Or.inl hc
      · rw [← Nat.add_assoc, Nat.add_right_comm] at hc
        exact Or.inr ⟨i, v, hi, hc⟩

theorem lookup_without_datasetId (h : name ≠ "datasetId") :
    (Assoc.without "datasetId" members).lookup name = members.lookup name := by
  rw [Assoc.lookup_without, if_neg h]

/-- The member taken out is none that makes an object an attribute. -/
theorem isAttribute_without :
    isAttribute (Assoc.without "datasetId" members) = isAttribute members := by
  have hmember : ∀ m ∈ ATTRIBUTE_MEMBERS,
      ((Assoc.without "datasetId" members).lookup m).isSome = (members.lookup m).isSome := by
    intro m hm
    have hne : m ≠ "datasetId" := by
      rintro rfl
      exact absurd hm (by decide)
    rw [lookup_without_datasetId hne]
  have hany : (ATTRIBUTE_MEMBERS.any fun m =>
      ((Assoc.without "datasetId" members).lookup m).isSome) =
      ATTRIBUTE_MEMBERS.any fun m => (members.lookup m).isSome := by
    rw [Bool.eq_iff_iff, List.any_eq_true, List.any_eq_true]
    exact exists_congr fun m => and_congr_right fun hm => by rw [hmember m hm]
  unfold isAttribute
  rw [lookup_without_datasetId (by decide), hany]

theorem mem_walkMembers_carries {dataset : Bool} {c : String × Value} :
    c ∈ walkMembers path (isAttribute members) dataset members ↔
      ∃ name value, Carries members name value ∧ (dataset = true → name ≠ "datasetId") ∧
        c ∈ walk (path ++ "." ++ name) value := by
  rw [mem_walkMembers]
  refine exists_congr fun name => exists_congr fun value => ?_
  unfold Carries
  tauto

theorem walk_scalar {v : Value} (h : isContainer v = false) : walk path v = [(path, v)] := by
  cases v <;> first | rfl | cases h

theorem isContainer_of_scalars {v : Value} (h : scalars items = true) (hv : v ∈ items) :
    isContainer v = false := by
  unfold scalars at h
  rw [Bool.and_eq_true, Bool.not_eq_true', Bool.not_eq_true', List.any_eq_false] at h
  simpa using h.2 v hv

theorem mem_walk_of_leafAt {v : Value} {steps : List Step} (h : LeafAt v steps leaf) :
    (render path steps, leaf) ∈ walk path v := by
  induction h generalizing path with
  | literal hvalue _ ih =>
    rw [walk, if_pos (by simp [hvalue]), walkLiteral_eq hvalue]
    exact ih
  | @member members name v steps leaf hvalue hcarries _ ih =>
    have hne : members.isEmpty ≠ true := by
      intro hempty
      rw [List.isEmpty_iff.1 hempty] at hcarries
      exact absurd hcarries.1 List.not_mem_nil
    rw [walk, if_neg (by simp [hvalue]), if_neg hne, mem_walkMembers_carries]
    exact ⟨name, v, hcarries, nofun, ih⟩
  | @default items members name v steps leaf hitems hmem hdataset hcarries _ ih =>
    rw [walk, if_pos hitems, mem_walkInstances]
    refine ⟨members, hmem, ?_⟩
    unfold instanceCells
    rw [hdataset, mem_walkMembers_carries]
    exact ⟨name, v, hcarries, nofun, ih⟩
  | @dataset items members id name v steps leaf hitems hmem hdataset hcarries hname _ ih =>
    rw [walk, if_pos hitems, mem_walkInstances]
    refine ⟨members, hmem, ?_⟩
    unfold instanceCells
    rw [hdataset, isAttribute_without, mem_walkMembers_carries]
    exact ⟨name, v, hcarries, fun _ => hname, ih⟩
  | @index items i v hitems hscalars hi =>
    rw [walk, if_neg (by simp [hitems]), if_pos hscalars, mem_walkItems]
    refine ⟨i, v, hi, ?_⟩
    rw [walk_scalar (isContainer_of_scalars hscalars (List.mem_of_getElem? hi)), Nat.zero_add]
    exact List.mem_singleton_self _
  | whole hitems hscalars =>
    rw [walk, if_neg (by simp [hitems]), if_neg (by simp [hscalars])]
    exact List.mem_singleton_self _
  | empty => exact List.mem_singleton_self _
  | scalar hv =>
    rw [walk_scalar hv]
    exact List.mem_singleton_self _

theorem leafAt_of_mem_scalar {v : Value} {c : String × Value} (hv : isContainer v = false)
    (h : c ∈ walk path v) : ∃ steps, LeafAt v steps c.2 ∧ c.1 = render path steps := by
  rw [walk_scalar hv, List.mem_singleton] at h
  cases h
  exact ⟨[], .scalar hv, rfl⟩

theorem leafAt_of_mem_walk : ∀ (v : Value) {path : String} {c : String × Value}, c ∈ walk path v →
    ∃ steps, LeafAt v steps c.2 ∧ c.1 = render path steps
  | .obj members, path, c, h => by
    rw [walk] at h
    cases hvalue : members.lookup "@value" with
    | some value =>
      rw [if_pos (by simp [hvalue]), walkLiteral_eq hvalue] at h
      have hmem := Assoc.mem_of_lookup hvalue
      obtain ⟨steps, hleaf, hname⟩ := leafAt_of_mem_walk value h
      exact ⟨steps, .literal hvalue hleaf, hname⟩
    | none =>
      rw [if_neg (by simp [hvalue])] at h
      split_ifs at h with hempty
      · obtain rfl := List.mem_singleton.1 h
        rw [List.isEmpty_iff.1 hempty]
        exact ⟨[], .empty, rfl⟩
      · obtain ⟨name, value, hcarries, -, hc⟩ := mem_walkMembers_carries.1 h
        have hmem := hcarries.1
        obtain ⟨steps, hleaf, hname⟩ := leafAt_of_mem_walk value hc
        exact ⟨.member name :: steps, .member hvalue hcarries hleaf, hname⟩
  | .arr items, path, c, h => by
    rw [walk] at h
    cases hitems : instances items with
    | true =>
      rw [if_pos hitems] at h
      obtain ⟨members, hmembers, hc⟩ := mem_walkInstances.1 h
      unfold instanceCells at hc
      cases hdataset : datasetOf members with
      | none =>
        rw [hdataset] at hc
        obtain ⟨name, value, hcarries, -, hc⟩ := mem_walkMembers_carries.1 hc
        have hmem := hcarries.1
        obtain ⟨steps, hleaf, hname⟩ := leafAt_of_mem_walk value hc
        exact ⟨.member name :: steps, .default hitems hmembers hdataset hcarries hleaf, hname⟩
      | some id =>
        rw [hdataset, isAttribute_without] at hc
        obtain ⟨name, value, hcarries, hne, hc⟩ := mem_walkMembers_carries.1 hc
        have hmem := hcarries.1
        obtain ⟨steps, hleaf, hname⟩ := leafAt_of_mem_walk value hc
        exact ⟨.dataset id :: .member name :: steps,
          .dataset hitems hmembers hdataset hcarries (hne rfl) hleaf, hname⟩
    | false =>
      rw [if_neg (by simp [hitems])] at h
      cases hscalars : scalars items with
      | true =>
        rw [if_pos hscalars] at h
        obtain ⟨i, v, hi, hc⟩ := mem_walkItems.1 h
        have hv := isContainer_of_scalars hscalars (List.mem_of_getElem? hi)
        rw [walk_scalar hv, Nat.zero_add] at hc
        obtain rfl := List.mem_singleton.1 hc
        exact ⟨[.index i], .index hitems hscalars hi, rfl⟩
      | false =>
        rw [if_neg (by simp [hscalars])] at h
        obtain rfl := List.mem_singleton.1 h
        exact ⟨[], .whole hitems hscalars, rfl⟩
  | .null, _, _, h => leafAt_of_mem_scalar rfl h
  | .bool _, _, _, h => leafAt_of_mem_scalar rfl h
  | .num _ _, _, _, h => leafAt_of_mem_scalar rfl h
  | .str _, _, _, h => leafAt_of_mem_scalar rfl h
termination_by v => sizeOf v
decreasing_by
  · exact Value.sizeOf_lt_obj hmem
  · exact Value.sizeOf_lt_obj hmem
  · exact Nat.lt_trans (Value.sizeOf_lt_obj hmem) (Value.sizeOf_lt_arr hmembers)
  · exact Nat.lt_trans (Value.sizeOf_lt_obj hmem) (Value.sizeOf_lt_arr hmembers)

theorem mem_ownCells {c : String × Value} : c ∈ ownCells members ↔
    c.1 ∈ ["id", "type"] ∧ members.lookup c.1 = some c.2 ∧ ∀ inner, c.2 ≠ .obj inner := by
  unfold ownCells
  rw [List.mem_flatMap]
  constructor
  · rintro ⟨key, hkey, hc⟩
    split at hc
    · cases hc
    · next value hne hvalue =>
      cases List.mem_singleton.1 hc
      exact ⟨hkey, hvalue, hne⟩
    · cases hc
  · rintro ⟨hkey, hvalue, hne⟩
    refine ⟨c.1, hkey, ?_⟩
    rw [hvalue]
    split
    · next inner heq => exact absurd (Option.some.inj heq) (hne inner)
    · next value _ heq =>
      rw [← Option.some.inj heq]
      exact List.mem_singleton_self _
    · next heq => cases heq

/-- The cells of an entity are exactly its leaves, each under the name of its path. -/
theorem mem_flatten {entity : Value} {c : String × Value} : c ∈ flatten entity ↔
    ∃ path steps, LeafOf entity path steps c.2 ∧ c.1 = render path steps := by
  cases entity with
  | obj members =>
    rw [flatten, List.mem_append, mem_ownCells, List.mem_flatMap]
    constructor
    · rintro (⟨hkey, hvalue, hne⟩ | ⟨⟨name, value⟩, hmem, hc⟩)
      · exact ⟨c.1, [], .own hkey hvalue hne, rfl⟩
      · dsimp only at hc
        split_ifs at hc with hskip
        · cases hc
        · have hname : name ∉ ["id", "type"] ∧ Text.startsWith '@' name = false := by
            simpa [not_or, and_assoc] using hskip
          obtain ⟨steps, hleaf, heq⟩ := leafAt_of_mem_walk value hc
          exact ⟨name, steps, .data hmem hname.1 hname.2 hleaf, heq⟩
    · rintro ⟨path, steps, hleaf, hname⟩
      cases hleaf with
      | own hkey hvalue hne =>
        rw [show c.1 = path from hname]
        exact Or.inl ⟨hkey, hvalue, hne⟩
      | @data _ _ v _ _ hmem hout hat hleaf =>
        refine Or.inr ⟨(path, v), hmem, ?_⟩
        have hskip : ¬ (path = "id" || (path = "type" || Text.startsWith '@' path)) = true := by
          simpa [not_or, and_assoc, hat] using hout
        dsimp only
        rw [if_neg hskip, ← Prod.eta c, hname]
        exact mem_walk_of_leafAt hleaf
  | _ =>
    refine ⟨fun h => absurd h List.not_mem_nil, ?_⟩
    rintro ⟨path, steps, hleaf, -⟩
    cases hleaf

end Spec

end JoinedContext.Tabular

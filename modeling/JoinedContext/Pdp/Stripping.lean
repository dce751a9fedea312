import JoinedContext.Pdp.Skipping

/-!
# What stripping leaves in an answer

An attribute instance has members of its own and sub-attributes, which are attributes with instances
again, and a relationship may carry the entity it points at. Stripping takes the members of the
instances it visits; an answer cleaned of every member not passed has none left at any depth.
-/

namespace JoinedContext.Metadata

/-- The members of an Attribute that are no sub-Attribute of it. -/
def ATTRIBUTE_SYSTEM_MEMBERS : List String :=
  ["type", "value", "object", "objectType", "languageMap", "vocab", "json", "valueList",
    "objectList", "observedAt", "unitCode", "datasetId", "expiresAt", "createdAt", "modifiedAt",
    "instanceId"]

/-- The members of an instance in an answer that are no sub-attribute either: who changed it, where
it comes from, its temporal list, and the entities inlined in it. -/
def ANSWER_MEMBERS : List String := ["modifiedBy", "provenance", "values", "entity", "entityList"]

def isSubAttribute (key : String) : Bool :=
  !(ATTRIBUTE_SYSTEM_MEMBERS ++ ANSWER_MEMBERS).contains key

/-- Whether an instance is a temporal list of times the caller may not read. -/
def timesWithheld (members : Members) (parts : List (String × Value)) : Bool :=
  (parts.any fun m => m.1 == "values") && decide (.observedAt ∉ members)

/-- A member of an instance that is no attribute, without what is not passed of it. -/
def cleanOwn (members : Members) (key : String) (value : Value) : Option Value :=
  if withheld PLAIN members key then none
  else if key = "modifiedBy" then
    match value with
    | .obj changed =>
      if !changed.isEmpty && (strippedModifiedBy members changed).isEmpty then none
      else some (.obj (strippedModifiedBy members changed))
    | value => some value
  else if key = "provenance" ∧ .provenance ∉ members then
    match value with
    | .obj provenance => some (.obj (strippedProvenance members provenance))
    | value => some value
  else some value

namespace Passed

variable (p : Passed)

mutual

/-- An attribute without what is not passed of it, its sub-attributes and the entities inlined. -/
def cleanAttribute (name : String) : Value → Option Value
  | .obj parts =>
    if timesWithheld (p.members name) parts then none
    else some (.obj (cleanParts (p.members name) parts))
  | .arr items => some (.arr (cleanItems name items))
  | value => some value

def cleanItem (name : String) : Value → Option Value
  | .obj parts =>
    if timesWithheld (p.members name) parts then none
    else some (.obj (cleanParts (p.members name) parts))
  | value => some value

def cleanItems (name : String) : List Value → List Value
  | [] => []
  | item :: rest => (cleanItem name item).toList ++ cleanItems name rest

def cleanParts (members : Members) : List (String × Value) → List (String × Value)
  | [] => []
  | (key, value) :: rest =>
    ((if isSubAttribute key then cleanAttribute key value
      else if key = "entity" then some (cleanInlined value)
      else if key = "entityList" then some (cleanInlinedList value)
      else cleanOwn members key value).map (key, ·)).toList ++ cleanParts members rest

def cleanInlined : Value → Value
  | .obj entity => .obj (cleanEntity entity)
  | value => value

def cleanInlinedList : Value → Value
  | .arr entities => .arr (cleanInlinedAll entities)
  | value => value

def cleanInlinedAll : List Value → List Value
  | [] => []
  | entity :: rest => cleanInlined entity :: cleanInlinedAll rest

def cleanEntity : List (String × Value) → List (String × Value)
  | [] => []
  | (name, value) :: rest =>
    ((if name ∈ NOT_ATTRIBUTES then some value else cleanAttribute name value).map
      (name, ·)).toList ++ cleanEntity rest

end

def cleanFeatureMember : String × Value → String × Value
  | ("properties", .obj properties) => ("properties", .obj (p.cleanEntity properties))
  | other => other

def cleanFeature : Value → Value
  | .obj feature => .obj (feature.map p.cleanFeatureMember)
  | value => value

def cleanCollectionMember : String × Value → String × Value
  | ("features", .arr features) => ("features", .arr (features.map p.cleanFeature))
  | other => other

end Passed

section GeoJson

variable (object : List (String × Value))

def hasFeatures : Bool := ((object.lookup "features").bind Value.asArray).isSome

def isFeatureCollection : Bool :=
  object.lookup "type" == some (.str "FeatureCollection") && hasFeatures object

/-- A GeoJSON Feature carries the attributes under `properties`. -/
def isFeature : Bool :=
  object.lookup "type" == some (.str "Feature") && (object.lookup "geometry").isSome

/-- Whether stripping takes the answer for another: an entity with an array under `features` for a
collection, a single feature for an entity. -/
def isMistaken : Bool :=
  !isFeatureCollection object && (isFeature object || hasFeatures object)

end GeoJson

namespace Passed

variable (p : Passed)

mutual

/-- An answer without any member not passed: one entity, a list of them, a GeoJSON feature or a
collection of features. -/
def clean : Value → Value
  | .arr items => .arr (cleanAll items)
  | .obj object =>
    if isFeatureCollection object then .obj (object.map p.cleanCollectionMember)
    else if isFeature object then .obj (object.map p.cleanFeatureMember)
    else .obj (p.cleanEntity object)
  | value => value

def cleanAll : List Value → List Value
  | [] => []
  | item :: rest => clean item :: cleanAll rest

end

end Passed

mutual

/-- No object names a member twice. -/
def Keyed : Value → Prop
  | .arr items => KeyedAll items
  | .obj members => (members.map Prod.fst).Nodup ∧ KeyedMembers members
  | _ => True

def KeyedAll : List Value → Prop
  | [] => True
  | item :: rest => Keyed item ∧ KeyedAll rest

def KeyedMembers : List (String × Value) → Prop
  | [] => True
  | (_, value) :: rest => Keyed value ∧ KeyedMembers rest

end

section Agreeing

variable (p : Passed)

/-- A member of an instance that needs no more than stripping does to it: nothing is to be taken of
a sub-attribute or of an entity inlined, and a `modifiedBy` is not empty. -/
def AgreesPart (key : String) (value : Value) : Prop :=
  if isSubAttribute key then p.cleanAttribute key value = some value
  else if key = "entity" then p.cleanInlined value = value
  else if key = "entityList" then p.cleanInlinedList value = value
  else key = "modifiedBy" → value ≠ .obj []

def AgreesInstance (name : String) (parts : List (String × Value)) : Prop :=
  timesWithheld (p.members name) parts = true ∨ ∀ m ∈ parts, AgreesPart p m.1 m.2

def AgreesAttribute (name : String) (value : Value) : Prop :=
  ∀ parts ∈ attributeInstances value, AgreesInstance p name parts

def AgreesEntity (entity : List (String × Value)) : Prop :=
  ∀ m ∈ entity, m.1 ∉ NOT_ATTRIBUTES → AgreesAttribute p m.1 m.2

def AgreesFeature (feature : Value) : Prop :=
  ∀ members, feature = .obj members → ∀ properties, ("properties", .obj properties) ∈ members →
    AgreesEntity p properties

/-- An instance none of whose members is withheld. -/
structure Bare (members : Members) (parts : List (String × Value)) : Prop where
  times : timesWithheld members parts = false
  plain : ∀ m ∈ parts, withheld PLAIN members m.1 = false
  modifiedBy : ∀ changed, ("modifiedBy", .obj changed) ∈ parts →
    changed ≠ [] ∧ ∀ c ∈ changed, withheld MODIFIED_BY members c.1 = false
  provenance : ∀ source, ("provenance", .obj source) ∈ parts →
    .provenance ∈ members ∨ strippedProvenance members source = source

mutual

/-- Where stripping takes all it should and no more: the answer is not mistaken for another and
nothing is to be taken below the instances of its attributes, or nothing is to be taken at all. -/
def Agrees : Value → Prop
  | .arr items => AgreesAll items
  | .obj object =>
    if isMistaken object then
      p.clean (.obj object) = .obj object ∧
        ∀ i ∈ instances (.obj object), Bare (p.members i.1) i.2
    else if isFeatureCollection object then
      ∀ features, ("features", .arr features) ∈ object → ∀ f ∈ features, AgreesFeature p f
    else AgreesEntity p object
  | _ => True

def AgreesAll : List Value → Prop
  | [] => True
  | item :: rest => Agrees item ∧ AgreesAll rest

end

end Agreeing

mutual

/-- No entity or feature of the answer is mistaken for another shape. -/
def Unmistaken : Value → Prop
  | .arr items => UnmistakenAll items
  | .obj object => isMistaken object = false
  | _ => True

def UnmistakenAll : List Value → Prop
  | [] => True
  | item :: rest => Unmistaken item ∧ UnmistakenAll rest

end

section Parts

variable {p : Passed} {members : Members} {key : String} {value : Value}

theorem stripMember_other
    (h : key ∉ ["observedAt", "unitCode", "createdAt", "modifiedAt", "modifiedBy", "provenance"]) :
    stripMember members key value = some value := by
  simp only [List.mem_cons, List.not_mem_nil, or_false, not_or] at h
  obtain ⟨hobserved, hunit, hcreated, hmodified, hby, hprovenance⟩ := h
  have hplain : withheld PLAIN members key = false := by
    simp [withheld, PLAIN, Ne.symm hobserved, Ne.symm hunit, Ne.symm hcreated, Ne.symm hmodified]
  unfold stripMember
  rw [hplain, if_neg Bool.false_ne_true, if_neg hby, if_neg fun h => hprovenance h.1]

theorem stripMember_subAttribute (h : isSubAttribute key = true) :
    stripMember members key value = some value := by
  refine stripMember_other fun hmem => ?_
  have hall : ∀ k ∈ ["observedAt", "unitCode", "createdAt", "modifiedAt", "modifiedBy",
      "provenance"], isSubAttribute k = false := by decide
  rw [hall key hmem] at h
  cases h

/-- What is left of a member of an instance. -/
def cleanPart (p : Passed) (members : Members) (key : String) (value : Value) : Option Value :=
  if isSubAttribute key then p.cleanAttribute key value
  else if key = "entity" then some (p.cleanInlined value)
  else if key = "entityList" then some (p.cleanInlinedList value)
  else cleanOwn members key value

theorem stripMember_eq_cleanOwn_iff :
    stripMember members key value = cleanOwn members key value ↔
      (key = "modifiedBy" → value ≠ .obj []) := by
  unfold stripMember cleanOwn
  by_cases hplain : withheld PLAIN members key = true
  · rw [if_pos hplain, if_pos hplain]
    refine iff_of_true rfl fun hkey => ?_
    rw [hkey] at hplain
    simp [withheld, PLAIN] at hplain
  · rw [if_neg hplain, if_neg hplain]
    by_cases hkey : key = "modifiedBy"
    · rw [if_pos hkey, if_pos hkey, imp_iff_right hkey]
      cases value with
      | obj changed =>
        rcases changed with _ | ⟨c, changed⟩
        · simp [strippedModifiedBy]
        · simp
      | _ => simp
    · rw [if_neg hkey, if_neg hkey]
      exact iff_of_true rfl fun h => absurd h hkey

/-- Stripping a member does all there is to do exactly where it agrees. -/
theorem stripMember_eq_cleanPart_iff :
    stripMember members key value = cleanPart p members key value ↔ AgreesPart p key value := by
  unfold cleanPart AgreesPart
  by_cases hsub : isSubAttribute key = true
  · rw [if_pos hsub, if_pos hsub, stripMember_subAttribute hsub, eq_comm]
  · rw [if_neg hsub, if_neg hsub]
    by_cases hentity : key = "entity"
    · rw [if_pos hentity, if_pos hentity, stripMember_other (by rw [hentity]; decide),
        Option.some_inj, eq_comm]
    · rw [if_neg hentity, if_neg hentity]
      by_cases hlist : key = "entityList"
      · rw [if_pos hlist, if_pos hlist, stripMember_other (by rw [hlist]; decide),
          Option.some_inj, eq_comm]
      · rw [if_neg hlist, if_neg hlist]
        exact stripMember_eq_cleanOwn_iff

theorem cleanParts_eq (members : Members) (parts : List (String × Value)) :
    p.cleanParts members parts =
      Assoc.filterMapValues (fun m => cleanPart p members m.1 m.2) parts := by
  induction parts with
  | nil => rfl
  | cons m rest ih =>
    rw [Passed.cleanParts, Assoc.filterMapValues_cons, ih]
    rfl

theorem cleanItems_eq (name : String) (items : List Value) :
    p.cleanItems name items = items.filterMap (p.cleanItem name) := by
  induction items with
  | nil => rfl
  | cons item rest ih =>
    rw [Passed.cleanItems, ih, List.filterMap_cons]
    cases p.cleanItem name item <;> rfl

theorem cleanEntity_eq (entity : List (String × Value)) :
    p.cleanEntity entity = Assoc.filterMapValues
      (fun m => if m.1 ∈ NOT_ATTRIBUTES then some m.2 else p.cleanAttribute m.1 m.2) entity := by
  induction entity with
  | nil => rfl
  | cons m rest ih =>
    rw [Passed.cleanEntity, Assoc.filterMapValues_cons, ih]

end Parts

section Agreement

variable {p : Passed} {name : String}

theorem keyed_of_mem : ∀ {items : List Value} {item : Value}, KeyedAll items → item ∈ items →
    Keyed item
  | first :: rest, item, h, hitem => by
    rw [KeyedAll] at h
    rcases List.mem_cons.1 hitem with rfl | hitem
    · exact h.1
    · exact keyed_of_mem h.2 hitem

theorem keyed_of_mem_members : ∀ {members : List (String × Value)} {m : String × Value},
    KeyedMembers members → m ∈ members → Keyed m.2
  | (_, _) :: rest, m, h, hm => by
    rw [KeyedMembers] at h
    rcases List.mem_cons.1 hm with rfl | hm
    · exact h.1
    · exact keyed_of_mem_members h.2 hm

/-- An instance that agrees is stripped of all there is to take. -/
theorem strip_of_agreesInstance {parts : List (String × Value)} (h : AgreesInstance p name parts) :
    (stripInstance (p.members name) parts).map .obj = p.cleanItem name (.obj parts) := by
  rw [Passed.cleanItem, stripInstance, cleanParts_eq]
  change Option.map Value.obj (if timesWithheld (p.members name) parts = true then none else _) = _
  split_ifs with htimes
  · rfl
  · refine congrArg (some ∘ Value.obj) (Assoc.filterMapValues_congr fun m hm => ?_)
    exact stripMember_eq_cleanPart_iff.2 (h.resolve_left htimes m hm)

theorem agreesInstance_of_strip {parts : List (String × Value)}
    (hkeyed : (parts.map Prod.fst).Nodup)
    (h : (stripInstance (p.members name) parts).map .obj = p.cleanItem name (.obj parts)) :
    AgreesInstance p name parts := by
  rw [Passed.cleanItem, stripInstance, cleanParts_eq] at h
  change Option.map Value.obj (if timesWithheld (p.members name) parts = true then none else _) = _
    at h
  split_ifs at h with htimes
  · exact Or.inl htimes
  · simp only [Option.map_some, Option.some.injEq, Value.obj.injEq] at h
    exact Or.inr fun m hm =>
      stripMember_eq_cleanPart_iff.1 ((Assoc.filterMapValues_inj hkeyed).1 h m hm)

theorem stripItem_eq_none_iff {item : Value} :
    stripItem (p.members name) item = none ↔ p.cleanItem name item = none := by
  cases item with
  | obj parts =>
    rw [stripItem, Passed.cleanItem, stripInstance]
    change Option.map Value.obj (if timesWithheld (p.members name) parts = true then none else _) =
      none ↔ _
    split_ifs <;> simp
  | _ => simp [stripItem, Passed.cleanItem]

theorem cleanAttribute_obj (parts : List (String × Value)) :
    p.cleanAttribute name (.obj parts) = p.cleanItem name (.obj parts) := by
  rw [Passed.cleanAttribute, Passed.cleanItem]

theorem strip_of_agreesAttribute {value : Value} (h : AgreesAttribute p name value) :
    p.stripAttribute name value = p.cleanAttribute name value := by
  cases value with
  | obj parts =>
    rw [cleanAttribute_obj]
    exact strip_of_agreesInstance (h parts (List.mem_singleton_self parts))
  | arr items =>
    rw [Passed.stripAttribute, Passed.cleanAttribute, cleanItems_eq]
    refine congrArg (some ∘ Value.arr) (List.filterMap_congr fun item hitem => ?_)
    cases item with
    | obj parts =>
      exact strip_of_agreesInstance (h parts (List.mem_filterMap.2 ⟨.obj parts, hitem, rfl⟩))
    | _ => simp [stripItem, Passed.cleanItem]
  | _ => simp [Passed.stripAttribute, Passed.cleanAttribute]

theorem agreesAttribute_of_strip {value : Value} (hkeyed : Keyed value)
    (h : p.stripAttribute name value = p.cleanAttribute name value) :
    AgreesAttribute p name value := by
  cases value with
  | obj parts =>
    rw [cleanAttribute_obj] at h
    rw [Keyed] at hkeyed
    intro parts' hparts
    obtain rfl := List.mem_singleton.1 hparts
    exact agreesInstance_of_strip hkeyed.1 h
  | arr items =>
    rw [Passed.stripAttribute, Passed.cleanAttribute, cleanItems_eq, Option.some_inj,
      Value.arr.injEq, filterMap_inj fun _ _ => stripItem_eq_none_iff] at h
    intro parts hparts
    obtain ⟨item, hitem, hobject⟩ := List.mem_filterMap.1 hparts
    cases item with
    | obj members =>
      obtain rfl := Option.some.inj hobject
      rw [Keyed] at hkeyed
      have hmembers := keyed_of_mem hkeyed hitem
      rw [Keyed] at hmembers
      exact agreesInstance_of_strip hmembers.1 (h _ hitem)
    | _ => cases hobject
  | _ =>
    intro parts hparts
    cases hparts

theorem strip_of_agreesEntity {entity : List (String × Value)} (h : AgreesEntity p entity) :
    p.stripEntity entity = p.cleanEntity entity := by
  rw [Passed.stripEntity, cleanEntity_eq]
  refine Assoc.filterMapValues_congr fun m hm => ?_
  split_ifs with hattribute
  · rfl
  · exact strip_of_agreesAttribute (h m hm hattribute)

theorem agreesEntity_of_strip {entity : List (String × Value)}
    (hnodup : (entity.map Prod.fst).Nodup) (hkeyed : KeyedMembers entity)
    (h : p.stripEntity entity = p.cleanEntity entity) : AgreesEntity p entity := by
  rw [Passed.stripEntity, cleanEntity_eq, Assoc.filterMapValues_inj hnodup] at h
  intro m hm hattribute
  refine agreesAttribute_of_strip (keyed_of_mem_members hkeyed hm) ?_
  simpa only [if_neg hattribute] using h m hm

theorem stripFeatureMember_eq_iff {m : String × Value} :
    p.stripFeatureMember m = p.cleanFeatureMember m ↔
      ∀ properties, m = ("properties", .obj properties) →
        p.stripEntity properties = p.cleanEntity properties := by
  unfold Passed.stripFeatureMember Passed.cleanFeatureMember
  split
  · simp
  · rename_i hother
    refine iff_of_true ?_ fun properties heq => absurd heq (hother properties)
    simp

theorem strip_of_agreesFeature {feature : Value} (h : AgreesFeature p feature) :
    p.stripFeature feature = p.cleanFeature feature := by
  cases feature with
  | obj members =>
    refine congrArg Value.obj (List.map_congr_left fun m hm => ?_)
    refine stripFeatureMember_eq_iff.2 fun properties heq => ?_
    exact strip_of_agreesEntity (h members rfl properties (heq ▸ hm))
  | _ => rfl

theorem agreesFeature_of_strip {feature : Value} (hkeyed : Keyed feature)
    (h : p.stripFeature feature = p.cleanFeature feature) : AgreesFeature p feature := by
  rintro members rfl properties hmem
  rw [Passed.stripFeature, Passed.cleanFeature, Value.obj.injEq, List.map_inj_left] at h
  rw [Keyed] at hkeyed
  have hproperties := keyed_of_mem_members hkeyed.2 hmem
  rw [Keyed] at hproperties
  exact agreesEntity_of_strip hproperties.1 hproperties.2
    (stripFeatureMember_eq_iff.1 (h _ hmem) properties rfl)

theorem stripCollectionMember_eq_iff {m : String × Value} :
    p.stripCollectionMember m = p.cleanCollectionMember m ↔ ∀ features,
      m = ("features", .arr features) → ∀ f ∈ features, p.stripFeature f = p.cleanFeature f := by
  unfold Passed.stripCollectionMember Passed.cleanCollectionMember
  split
  · simp
  · rename_i hother
    refine iff_of_true ?_ fun features heq => absurd heq (hother features)
    simp

theorem stripInstance_of_bare {members : Members} {parts : List (String × Value)}
    (h : Bare members parts) : stripInstance members parts = some parts := by
  have hkept : ∀ m ∈ parts, stripMember members m.1 m.2 = some m.2 := by
    rintro ⟨key, value⟩ hm
    unfold stripMember
    rw [h.plain _ hm, if_neg Bool.false_ne_true]
    split_ifs with hmodified hprovenance
    · cases value with
      | obj changed =>
        obtain ⟨hne, hnone⟩ := h.modifiedBy changed (hmodified ▸ hm)
        have hall : strippedModifiedBy members changed = changed :=
          List.filter_eq_self.2 fun c hc => by rw [hnone c hc]; rfl
        simp [hall, hne]
      | _ => rfl
    · cases value with
      | obj source =>
        have hall := (h.provenance source (hprovenance.1 ▸ hm)).resolve_left hprovenance.2
        exact congrArg (some ∘ Value.obj) hall
      | _ => rfl
    · rfl
  rw [stripInstance]
  change (if timesWithheld members parts = true then none else _) = _
  rw [h.times, if_neg Bool.false_ne_true, Assoc.filterMapValues_eq_self hkept]

theorem hasFeatures_iff {object : List (String × Value)} :
    hasFeatures object = true ↔ ∃ features, object.lookup "features" = some (.arr features) := by
  unfold hasFeatures
  cases object.lookup "features" with
  | none => simp
  | some value => cases value <;> simp [Value.asArray]

theorem strip_collection {object : List (String × Value)} (h : hasFeatures object = true) :
    p.strip (.obj object) = .obj (object.map p.stripCollectionMember) := by
  obtain ⟨features, hfeatures⟩ := hasFeatures_iff.1 h
  rw [Passed.strip, hfeatures]

theorem strip_entity {object : List (String × Value)} (h : hasFeatures object = false) :
    p.strip (.obj object) = .obj (p.stripEntity object) := by
  rw [Passed.strip]
  split
  · rename_i features hfeatures
    rw [hasFeatures_iff.2 ⟨features, hfeatures⟩] at h
    cases h
  · rfl

/-- An object is a collection, mistaken, or an entity as stripping takes it. -/
theorem shapes (object : List (String × Value)) : isMistaken object = true ∨
    isFeatureCollection object = true ∧ isMistaken object = false ∧ hasFeatures object = true ∨
      isFeatureCollection object = false ∧ isMistaken object = false ∧
        isFeature object = false ∧ hasFeatures object = false := by
  unfold isMistaken isFeatureCollection
  cases isFeature object <;> cases hasFeatures object <;>
    cases object.lookup "type" == some (.str "FeatureCollection") <;> simp

mutual

/-- An answer that agrees is stripped of all it should be and of nothing else. -/
theorem strip_of_agrees : ∀ {body : Value}, Agrees p body → p.strip body = p.clean body
  | .null, _ => rfl
  | .bool _, _ => rfl
  | .num _ _, _ => rfl
  | .str _, _ => rfl
  | .arr items, h => by
    rw [Agrees] at h
    rw [Passed.strip, Passed.clean, stripAll_of_agrees h]
  | .obj object, h => by
    rw [Agrees] at h
    rcases shapes object with hmistaken | ⟨hcollection, hmistaken, hfeatures⟩ |
      ⟨hcollection, hmistaken, hfeature, hfeatures⟩
    · rw [if_pos hmistaken] at h
      rw [h.1, strip_eq_self fun i hi => stripInstance_of_bare (h.2 i hi)]
    · rw [hmistaken, if_neg Bool.false_ne_true, if_pos hcollection] at h
      rw [strip_collection hfeatures, Passed.clean, if_pos hcollection]
      refine congrArg Value.obj (List.map_congr_left fun m hm => ?_)
      refine stripCollectionMember_eq_iff.2 fun features heq f hf => ?_
      exact strip_of_agreesFeature (h features (heq ▸ hm) f hf)
    · rw [hmistaken, if_neg Bool.false_ne_true, hcollection, if_neg Bool.false_ne_true] at h
      rw [strip_entity hfeatures, Passed.clean, hcollection, if_neg Bool.false_ne_true, hfeature,
        if_neg Bool.false_ne_true, strip_of_agreesEntity h]

theorem stripAll_of_agrees : ∀ {items : List Value}, AgreesAll p items →
    p.stripAll items = p.cleanAll items
  | [], _ => rfl
  | item :: rest, h => by
    rw [AgreesAll] at h
    rw [Passed.stripAll, Passed.cleanAll, strip_of_agrees h.1, stripAll_of_agrees h.2]

end

mutual

/-- No other answer is, unless it is mistaken for another shape. -/
theorem agrees_of_strip : ∀ {body : Value}, Keyed body → Unmistaken body →
    p.strip body = p.clean body → Agrees p body
  | .null, _, _, _ => trivial
  | .bool _, _, _, _ => trivial
  | .num _ _, _, _, _ => trivial
  | .str _, _, _, _ => trivial
  | .arr items, hkeyed, hshape, h => by
    rw [Keyed] at hkeyed
    rw [Unmistaken] at hshape
    rw [Passed.strip, Passed.clean, Value.arr.injEq] at h
    rw [Agrees]
    exact agreesAll_of_strip hkeyed hshape h
  | .obj object, hkeyed, hshape, h => by
    rw [Keyed] at hkeyed
    rw [Unmistaken] at hshape
    rw [Agrees, hshape, if_neg Bool.false_ne_true]
    rcases shapes object with hmistaken | ⟨hcollection, -, hfeatures⟩ |
      ⟨hcollection, -, hfeature, hfeatures⟩
    · rw [hmistaken] at hshape
      cases hshape
    · rw [if_pos hcollection]
      rw [strip_collection hfeatures, Passed.clean, if_pos hcollection, Value.obj.injEq,
        List.map_inj_left] at h
      intro features hmem f hf
      have hlist := keyed_of_mem_members hkeyed.2 hmem
      rw [Keyed] at hlist
      exact agreesFeature_of_strip (keyed_of_mem hlist hf)
        (stripCollectionMember_eq_iff.1 (h _ hmem) features rfl f hf)
    · rw [hcollection, if_neg Bool.false_ne_true]
      rw [strip_entity hfeatures, Passed.clean, hcollection, if_neg Bool.false_ne_true, hfeature,
        if_neg Bool.false_ne_true, Value.obj.injEq] at h
      exact agreesEntity_of_strip hkeyed.1 hkeyed.2 h

theorem agreesAll_of_strip : ∀ {items : List Value}, KeyedAll items → UnmistakenAll items →
    p.stripAll items = p.cleanAll items → AgreesAll p items
  | [], _, _, _ => by rw [AgreesAll]; trivial
  | item :: rest, hkeyed, hshape, h => by
    rw [KeyedAll] at hkeyed
    rw [UnmistakenAll] at hshape
    rw [Passed.stripAll, Passed.cleanAll, List.cons.injEq] at h
    rw [AgreesAll]
    exact ⟨agrees_of_strip hkeyed.1 hshape.1 h.1, agreesAll_of_strip hkeyed.2 hshape.2 h.2⟩

end

end Agreement

/-- Stripping leaves an answer without any member not passed and otherwise as it was where the
answer agrees, and of the answers not mistaken for another shape nowhere else. -/
theorem strip_exact_iff (p : Passed) (body : Value) (hkeyed : Keyed body) :
    (Agrees p body → p.strip body = p.clean body) ∧
      (Unmistaken body → (p.strip body = p.clean body ↔ Agrees p body)) :=
  ⟨strip_of_agrees, fun hshape => ⟨agrees_of_strip hkeyed hshape, strip_of_agrees⟩⟩

section Lamps

/-- The public may read units and no other metadata. -/
def unitRead : Odrl.PolicySpec :=
  { publicRead with
    information := [⟨[], [], [], [("*", ⟨none, none, some [.unitCode], none⟩)]⟩] }

def unitsPassed : Passed := passing reader [unitRead] .queryTemporal 0

/-- A lamp whose level says when it was observed. -/
def timedLamp : Value :=
  .obj [("id", .str "urn:ngsi-ld:Lamp:1"), ("level", .obj [("type", .str "Property"),
    ("value", .num 3 0), ("observedAt", .str "2026-11-01T10:00:00Z")])]

theorem strip_exact_timedLamp :
    unitsPassed.strip timedLamp = unitsPassed.clean timedLamp := by
  refine (strip_exact_iff unitsPassed timedLamp ?_).1 ?_
  · simp [timedLamp, Keyed, KeyedMembers]
  · have hshape : isMistaken [("id", .str "urn:ngsi-ld:Lamp:1"), ("level",
        .obj [("type", .str "Property"), ("value", .num 3 0),
          ("observedAt", .str "2026-11-01T10:00:00Z")])] = false ∧
        isFeatureCollection [("id", .str "urn:ngsi-ld:Lamp:1"), ("level",
          .obj [("type", .str "Property"), ("value", .num 3 0),
            ("observedAt", .str "2026-11-01T10:00:00Z")])] = false := by decide
    rw [timedLamp, Agrees, hshape.1, hshape.2, if_neg Bool.false_ne_true, if_neg Bool.false_ne_true]
    intro m hm hattribute parts hparts
    refine Or.inr fun part hpart => ?_
    simp only [List.mem_cons, List.not_mem_nil, or_false] at hm
    rcases hm with rfl | rfl
    · cases hparts
    · obtain rfl := List.mem_singleton.1 hparts
      simp only [List.mem_cons, List.not_mem_nil, or_false] at hpart
      rcases hpart with rfl | rfl | rfl <;> simp [AgreesPart, isSubAttribute,
        ATTRIBUTE_SYSTEM_MEMBERS]

/-- A lamp whose level has an accuracy that says when it was observed. -/
def fineLamp : Value :=
  .obj [("id", .str "urn:ngsi-ld:Lamp:1"), ("level", .obj [("type", .str "Property"),
    ("value", .num 3 0), ("accuracy", .obj [("type", .str "Property"), ("value", .num 1 0),
      ("observedAt", .str "2026-11-01T10:00:00Z")])])]

/-- The time of the accuracy stays in the answer, although the public may not read it. -/
theorem strip_not_exact_fineLamp :
    unitsPassed.strip fineLamp ≠ unitsPassed.clean fineLamp ∧
      unitsPassed.strip fineLamp = fineLamp ∧ .observedAt ∉ unitsPassed.members "accuracy" := by
  refine ⟨by decide +kernel, by decide +kernel, by decide +kernel⟩

end Lamps

end JoinedContext.Metadata

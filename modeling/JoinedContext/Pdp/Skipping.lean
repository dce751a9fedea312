import JoinedContext.Library.ListMaps
import JoinedContext.Pdp.Metadata

/-!
# Where no answer is stripped

The decision to leave every answer as it is compares what the grants pass with what the broker
sends. It is right for the answers the broker sends, and for no others.
-/

namespace JoinedContext.Metadata

open Odrl (MetadataMember)

section Instances

/-- The instances of one attribute. -/
def attributeInstances : Value → List (List (String × Value))
  | .obj parts => [parts]
  | .arr items => items.filterMap Value.asObject
  | _ => []

/-- The instances of the attributes of an entity, under the attribute's name. -/
def entityInstances (entity : List (String × Value)) : List (String × List (String × Value)) :=
  entity.flatMap fun m =>
    if m.1 ∈ NOT_ATTRIBUTES then [] else (attributeInstances m.2).map (m.1, ·)

def propertiesInstances : String × Value → List (String × List (String × Value))
  | ("properties", .obj properties) => entityInstances properties
  | _ => []

def featureInstances : Value → List (String × List (String × Value))
  | .obj feature => feature.flatMap propertiesInstances
  | _ => []

def collectionInstances : String × Value → List (String × List (String × Value))
  | ("features", .arr features) => features.flatMap featureInstances
  | _ => []

mutual

/-- The attribute instances stripping an answer visits. -/
def instances : Value → List (String × List (String × Value))
  | .arr items => instancesAll items
  | .obj object =>
    match object.lookup "features" with
    | some (.arr _) => object.flatMap collectionInstances
    | _ => entityInstances object
  | _ => []

def instancesAll : List Value → List (String × List (String × Value))
  | [] => []
  | item :: rest => instances item ++ instancesAll rest

end

end Instances

section Unchanged

variable {p : Passed}

theorem stripAttribute_eq_self {name : String} {value : Value}
    (h : ∀ i ∈ attributeInstances value, stripInstance (p.members name) i = some i) :
    p.stripAttribute name value = some value := by
  cases value with
  | obj parts => simp [Passed.stripAttribute, h parts (by simp [attributeInstances])]
  | arr items =>
    refine congrArg (some ∘ Value.arr) (filterMap_eq_self fun item hitem => ?_)
    cases item with
    | obj parts =>
      have hparts := h parts (List.mem_filterMap.2 ⟨.obj parts, hitem, rfl⟩)
      simp [stripItem, hparts]
    | _ => rfl
  | _ => rfl

theorem stripEntity_eq_self {entity : List (String × Value)}
    (h : ∀ i ∈ entityInstances entity, stripInstance (p.members i.1) i.2 = some i.2) :
    p.stripEntity entity = entity := by
  refine Assoc.filterMapValues_eq_self fun m hm => ?_
  split_ifs with hattribute
  · rfl
  · exact stripAttribute_eq_self fun i hi =>
      h (m.1, i) (List.mem_flatMap.2 ⟨m, hm, by simpa [if_neg hattribute] using hi⟩)

theorem stripFeature_eq_self {feature : Value}
    (h : ∀ i ∈ featureInstances feature, stripInstance (p.members i.1) i.2 = some i.2) :
    p.stripFeature feature = feature := by
  cases feature with
  | obj members =>
    refine congrArg Value.obj (map_eq_self fun m hm => ?_)
    unfold Passed.stripFeatureMember
    split
    · rename_i properties
      rw [stripEntity_eq_self fun i hi => h i (List.mem_flatMap.2 ⟨_, hm, hi⟩)]
    · rfl
  | _ => rfl

mutual

/-- Where no instance stripping visits is changed, the answer is not. -/
theorem strip_eq_self : ∀ {body : Value},
    (∀ i ∈ instances body, stripInstance (p.members i.1) i.2 = some i.2) → p.strip body = body
  | .null, _ => rfl
  | .bool _, _ => rfl
  | .num _ _, _ => rfl
  | .str _, _ => rfl
  | .arr items, h => by
    rw [instances] at h
    rw [Passed.strip, stripAll_eq_self h]
  | .obj object, h => by
    rw [instances] at h
    rw [Passed.strip]
    split
    · rename_i features hfeatures
      simp only [hfeatures] at h
      refine congrArg Value.obj (map_eq_self fun m hm => ?_)
      unfold Passed.stripCollectionMember
      split
      · rename_i items
        have hitems : items.map p.stripFeature = items := map_eq_self fun item hitem =>
          stripFeature_eq_self fun i hi =>
            h i (List.mem_flatMap.2 ⟨_, hm, List.mem_flatMap.2 ⟨item, hitem, hi⟩⟩)
        rw [hitems]
      · rfl
    · rename_i hfeatures
      rw [stripEntity_eq_self]
      simpa only [hfeatures] using h

theorem stripAll_eq_self : ∀ {items : List Value},
    (∀ i ∈ instancesAll items, stripInstance (p.members i.1) i.2 = some i.2) →
      p.stripAll items = items
  | [], _ => rfl
  | item :: rest, h => by
    rw [instancesAll] at h
    rw [Passed.stripAll, strip_eq_self fun i hi => h i (List.mem_append_left _ hi),
      stripAll_eq_self fun i hi => h i (List.mem_append_right _ hi)]

end

end Unchanged

section Sent

variable {members : Members} {versions : Bool}

/-- What the broker sends of an attribute instance: `modifiedBy` and a provenance only with the
versions, and never a `modifiedBy` without a member. -/
structure BrokerSends (versions : Bool) (parts : List (String × Value)) : Prop where
  plain : versions = false → ∀ m ∈ parts, m.1 ≠ "modifiedBy" ∧ m.1 ≠ "provenance"
  nonempty : ("modifiedBy", Value.obj []) ∉ parts

theorem withheld_eq_false {listed : List (MetadataMember × String)} {key : String}
    (h : ∀ m ∈ listed, m.1 ∈ members) : withheld listed members key = false := by
  refine List.any_eq_false.2 fun m hm => ?_
  simp [h m hm]

theorem plain_sent (h : sent versions ⊆ members) : ∀ m ∈ PLAIN, m.1 ∈ members := fun m hm => by
  refine h (mem_sent.2 (Or.inr ?_))
  have hall : ∀ m ∈ PLAIN, m.1 ∉ WITH_VERSIONS := by decide
  exact hall m hm

theorem stripInstance_of_sent {parts : List (String × Value)} (hsent : sent versions ⊆ members)
    (h : BrokerSends versions parts) : stripInstance members parts = some parts := by
  have hobserved : .observedAt ∈ members := plain_sent hsent (.observedAt, "observedAt") (by decide)
  have hkept : ∀ m ∈ parts, stripMember members m.1 m.2 = some m.2 := by
    rintro ⟨key, value⟩ hm
    unfold stripMember
    rw [withheld_eq_false (plain_sent hsent), if_neg Bool.false_ne_true]
    by_cases hversions : versions = true
    · have hall : ∀ m, m ∈ members := fun m => hsent (mem_sent.2 (Or.inl hversions))
      have hchanged : ∀ changed, strippedModifiedBy members changed = changed := fun changed =>
        List.filter_eq_self.2 fun m _ => by rw [withheld_eq_false fun m _ => hall m.1]; rfl
      split_ifs with hmodified hprovenance
      · cases value with
        | obj changed =>
          rcases changed with _ | ⟨c, changed⟩
          · exact absurd (hmodified ▸ hm) h.nonempty
          · simp [hchanged]
        | _ => rfl
      · exact absurd (hall _) hprovenance.2
      · rfl
    · obtain ⟨hmodified, hprovenance⟩ := h.plain (by simpa using hversions) _ hm
      rw [if_neg hmodified, if_neg fun hboth => hprovenance hboth.1]
  unfold stripInstance
  rw [decide_eq_false (not_not.2 hobserved), Bool.and_false, if_neg Bool.false_ne_true,
    Assoc.filterMapValues_eq_self hkept]

end Sent

/-- No answer is stripped exactly where every attribute passes every member the broker sends; what
the broker sends is then what stripping would leave. A member passes an attribute where a grant in
force passes it and no prohibition in force takes it back, and the grants of the public pass neither
who made a change nor a whole provenance. -/
theorem skipping_iff (subject : Subject) (policies : List Odrl.PolicySpec) (operation : Operation)
    (versions : Bool) (now : Instant) :
    (Passed.of subject policies operation versions now = none ↔
      ∀ name, sent versions ⊆ (passing subject policies operation now).members name) ∧
    (Passed.of subject policies operation versions now = none →
      ∀ body, (∀ i ∈ instances body, BrokerSends versions i.2) →
        (passing subject policies operation now).strip body = body) ∧
    (∀ name m, m ∈ (passing subject policies operation now).members name ↔
      (∃ policy ∈ applying subject policies operation now,
        policy.effect.isProhibition = false ∧ m ∈ (granted policy).members name) ∧
      ∀ policy ∈ applying subject policies operation now,
        policy.effect.isProhibition = true → m ∉ (prohibited policy).members name) ∧
    ∀ policy, isPublic policy = true → ∀ name,
      .modifiedByActor ∉ (granted policy).members name ∧
        .provenance ∉ (granted policy).members name := by
  refine ⟨Passed.of_eq_none_iff, fun hnone body hsends => ?_, fun name m => ?_,
    fun policy hpublic => public_never hpublic⟩
  · refine strip_eq_self fun i hi => stripInstance_of_sent ?_ (hsends i hi)
    exact Passed.of_eq_none_iff.1 hnone i.1
  · rw [mem_members]
    refine and_congr ?_ ?_
    · simp [passing, and_assoc]
    · simp only [passing, List.forall_mem_map, List.mem_filter, and_imp]

section Reader

def reader : Subject := { roles := {"public"} }

def publicRead : Odrl.PolicySpec where
  effect := .permission
  assignee := ⟨.role, "public"⟩
  operations := [.single .queryTemporal]
  actions := []
  information := []
  q := none
  scopeQ := none
  geoQ := none
  temporalQ := none
  contextSpaceRef := .name "air"
  assigner := "did:web:city.example"
  rules := none
  validity := none

/-- A lamp whose level says who changed it. -/
def signedLamp : Value :=
  .obj [("id", .str "urn:ngsi-ld:Lamp:1"), ("type", .str "Lamp"),
    ("level", .obj [("type", .str "Property"), ("value", .num 3 0),
      ("modifiedBy", .obj [("actor", .str "0f5a")])])]

/-- Without the versions the public's read is not stripped, although the public may not see who made
a change: an answer that said it would be left as it is. -/
theorem skipping_not_all :
    Passed.of reader [publicRead] .queryTemporal false 0 = none ∧
      (passing reader [publicRead] .queryTemporal 0).strip signedLamp ≠ signedLamp ∧
      .modifiedByActor ∉ (passing reader [publicRead] .queryTemporal 0).members "level" := by
  refine ⟨Option.isNone_iff_eq_none.1 (by decide +kernel), by decide +kernel, by decide +kernel⟩

/-- A lamp whose level says its unit. -/
def plainLamp : Value := .obj [("level", .obj [("value", .num 3 0), ("unitCode", .str "LUX")])]

theorem skipping_plainLamp :
    (passing reader [publicRead] .queryTemporal 0).strip plainLamp = plainLamp := by
  refine (skipping_iff reader [publicRead] .queryTemporal false 0).2.1
    (Option.isNone_iff_eq_none.1 (by decide +kernel)) _ fun i hi => ?_
  have hinstances : instances plainLamp =
      [("level", [("value", .num 3 0), ("unitCode", .str "LUX")])] := by decide +kernel
  rw [hinstances] at hi
  obtain rfl := List.mem_singleton.1 hi
  exact ⟨fun _ => by decide, by decide⟩

end Reader

end JoinedContext.Metadata

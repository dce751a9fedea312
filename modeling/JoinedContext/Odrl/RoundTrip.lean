import JoinedContext.Odrl.ReadBack

/-!
# An exported policy imported again

A rendered set is read as the selectors of the rules, in the order they were rendered, and
regrouping keeps what they say. What gets lost is an entry that names no entity: it is rendered as
no rule at all.
-/

namespace JoinedContext.Odrl

section Valid

variable {crates : Crates} {spec : PolicySpec}

theorem validateEntry_eq_ok_iff {info : RegistrationInfo} :
    spec.validateEntry crates info = .ok () ↔
      (∀ e ∈ info.entities, e.validate crates = .ok ()) ∧
      PolicySpec.validateNames "information.propertyNames" "propertyName must not be empty"
        "duplicate propertyName in propertyNames list" [] info.propertyNames = .ok () ∧
      (∀ c ∈ info.attributes, spec.validateCapability info c = .ok ()) ∧
      PolicySpec.validateNames "information.relationshipNames" "relationshipName must not be empty"
        "duplicate relationshipName in relationshipNames list" [] info.relationshipNames =
          .ok () := by
  unfold PolicySpec.validateEntry
  simp only [andThen_eq_ok, forM_eq_ok, mapError_eq_ok]

theorem validateSingle_eq_ok_iff : spec.validateSingle crates = .ok () ↔
    PolicySpec.validateSpaceRef spec.contextSpaceRef = .ok () ∧
      PolicySpec.validateAssigner spec.assigner = .ok () ∧ spec.validateAssignee = .ok () ∧
      spec.validateGranted = .ok () ∧
      (∀ info ∈ spec.information, spec.validateEntry crates info = .ok ()) ∧
      spec.narrowing crates = none ∧ PolicySpec.validateWindow crates spec.validity = .ok () := by
  unfold PolicySpec.validateSingle
  simp only [andThen_eq_ok, forM_eq_ok]
  rcases spec.narrowing crates with _ | refused
  · simp only [true_and]
  · simp only [reduceCtorEq, false_and, and_false, iff_false]
    rintro ⟨-, -, -, -, -, h⟩
    cases h

theorem expand_eq_ok {rules : List PolicySpec} (h : spec.expand = .ok rules) :
    rules ≠ [] ∧ rules.map PolicySpec.toPolicyRule = spec.ruleList ∧
      ∀ rule ∈ rules, rule.contextSpaceRef = spec.contextSpaceRef ∧
        rule.assigner = spec.assigner ∧ rule.validity = spec.validity := by
  unfold PolicySpec.expand at h
  rw [andThen_eq_ok] at h
  obtain ⟨hshape, h⟩ := h
  unfold PolicySpec.ruleList
  rcases hrules : spec.rules with _ | listed
  · rw [hrules] at h
    obtain rfl := Except.ok.inj h
    exact ⟨by simp, rfl, by simp⟩
  · rw [hrules] at h
    obtain rfl := Except.ok.inj h
    refine ⟨?_, by simp [PolicySpec.withRule, Function.comp_def], ?_⟩
    · rintro hnil
      obtain rfl := List.map_eq_nil_iff.1 hnil
      simp [PolicySpec.checkShape, hrules, refuseField] at hshape
    · intro rule hrule
      obtain ⟨r, -, rfl⟩ := List.mem_map.1 hrule
      exact ⟨rfl, rfl, rfl⟩

theorem validateSingle_of_validate (h : spec.validate crates = .ok ()) {rules : List PolicySpec}
    (hexpand : spec.expand = .ok rules) : ∀ rule ∈ rules, rule.validateSingle crates = .ok () := by
  unfold PolicySpec.validate at h
  rcases hrules : spec.rules with _ | listed
  · rw [hrules] at h
    unfold PolicySpec.expand at hexpand
    rw [andThen_eq_ok, hrules] at hexpand
    obtain rfl := Except.ok.inj hexpand.2
    intro rule hrule
    obtain rfl := List.mem_singleton.1 hrule
    exact h
  · rw [hrules] at h
    simp only [hexpand, bind_eq_ok, Except.ok.injEq, exists_eq_left'] at h
    exact forM_eq_ok.1 h

theorem Policy.validate_eq_ok_iff {policy : Policy} : policy.validate crates = .ok () ↔
    JoinedContext.Names.validateDns1123Label policy.name = .ok () ∧
      (∃ ns, policy.namespace = some ns ∧ JoinedContext.Names.validateNamespace ns = .ok () ∧
        ns ≠ "org") ∧
      policy.apiVersion = "joinedcontext.com/v1alpha1" ∧ policy.spec.validate crates = .ok () := by
  unfold Policy.validate
  rcases policy.namespace with _ | ns
  · simp only [andThen_eq_ok, reduceCtorEq, false_and, exists_false, and_false, iff_false]
    rintro ⟨-, h, -⟩
    cases h
  · simp only [andThen_eq_ok, mapError_eq_ok, Option.some.injEq, exists_eq_left']
    by_cases horg : ns = "org" <;>
      by_cases hversion : policy.apiVersion = "joinedcontext.com/v1alpha1" <;>
      simp [horg, hversion, refuseField, bind, Except.bind]

end Valid

section Identity

theorem colon_not_mem_of_slug {s : String} (h : JoinedContext.Names.spaceNameRe s.toList = true) :
    ':' ∉ s.toList := by
  rcases hs : s.toList with _ | ⟨c, rest⟩
  · simp
  · rw [hs] at h
    simp only [JoinedContext.Names.spaceNameRe, Bool.and_eq_true, decide_eq_true_eq, List.all_eq_true, Bool.or_eq_true,
      beq_iff_eq] at h
    rintro hmem
    rcases List.mem_cons.1 hmem with rfl | hmem
    · exact absurd h.1.1 (by decide)
    · rcases h.2 ':' hmem with h | h
      · exact absurd h (by decide)
      · exact absurd h (by decide)

theorem colon_not_mem_of_validateSpaceName {s : String}
    (h : JoinedContext.Names.validateSpaceName s = .ok ()) : ':' ∉ s.toList := by
  unfold JoinedContext.Names.validateSpaceName at h
  split_ifs at h with hbad
  simp only [Bool.or_eq_true, Bool.not_eq_true', not_or, Bool.not_eq_false] at hbad
  exact colon_not_mem_of_slug hbad.2

theorem colon_not_mem_of_validateNamespace {s : String}
    (h : JoinedContext.Names.validateNamespace s = .ok ()) : ':' ∉ s.toList := by
  unfold JoinedContext.Names.validateNamespace at h
  split_ifs at h with hbad
  simp only [Bool.or_eq_true, Bool.not_eq_true', not_or, Bool.not_eq_false] at hbad
  exact colon_not_mem_of_slug hbad.2

theorem colon_not_mem_of_validateDns1123Label {s : String}
    (h : JoinedContext.Names.validateDns1123Label s = .ok ()) : ':' ∉ s.toList := by
  unfold JoinedContext.Names.validateDns1123Label at h
  split_ifs at h with hbad
  simp only [Bool.or_eq_true, Bool.not_eq_true', not_or, Bool.not_eq_false,
    JoinedContext.Names.dns1123LabelRe, Bool.and_eq_true, List.all_eq_true, beq_iff_eq] at hbad
  intro hmem
  rcases hbad.2.2 ':' hmem with h | h
  · exact absurd h (by decide)
  · exact absurd h (by decide)

theorem splitAny_of_not_mem {s : String} (h : ':' ∉ s.toList) : Text.splitAny [':'] s = [s] := by
  unfold Text.splitAny
  rw [List.splitOnP_eq_singleton fun c hc => by
    simpa using fun heq : c = ':' => h (heq ▸ hc)]
  simp

/-- The uid of a rendered set names the policy. -/
theorem identity_render {project space name : String} (hproject : ':' ∉ project.toList)
    (hspace : ':' ∉ space.toList) (hname : ':' ∉ name.toList) :
    identity (some (.str (UID ++ project ++ ":" ++ space ++ ":" ++ name))) {} =
      .ok (project, space, name) := by
  have huid : UID ++ project ++ ":" ++ space ++ ":" ++ name =
      UID ++ (project ++ String.ofList [':'] ++ (space ++ String.ofList [':'] ++ name)) := by
    simp [String.append_assoc]
  have hsplit : Text.splitAny [':'] (project ++ String.ofList [':'] ++
      (space ++ String.ofList [':'] ++ name)) = [project, space, name] := by
    rw [Text.splitAny_append (by simp), Text.splitAny_append (by simp),
      splitAny_of_not_mem hproject, splitAny_of_not_mem hspace, splitAny_of_not_mem hname]
    rfl
  simp [identity, huid, stripPrefix_append, hsplit]

end Identity

section Rendered

variable {codecs : Codecs} {back : Instant → Instant} {policy : Policy} {rules : List PolicySpec}

/-- The members of a rendered set. -/
def setMembers (codecs : Codecs) (policy : Policy) (project : String) (rules : List PolicySpec) :
    List (String × Option Value) :=
  [("@context", some (texts CONTEXTS)), ("@type", some (.str "Set")),
    ("assigner", some (.str policy.spec.assigner)), ("conflict", some (.str "prohibit")),
    ("permission", some (.arr ((rules.filter fun rule => rule.effect == .permission).flatMap
      (odrlRules codecs)))),
    ("prohibition", unlessNone ((rules.filter fun rule => rule.effect == .prohibition).flatMap
      (odrlRules codecs))),
    ("uid", some (.str (UID ++ project ++ ":" ++ policy.spec.contextSpaceRef.nameOf ++ ":" ++
      policy.name)))]

theorem render_eq_ok {set : Value} (h : render codecs policy = .ok set) :
    ∃ project rules, policy.namespace = some project ∧ policy.spec.expand = .ok rules ∧
      (∀ rule ∈ rules, rule.assignee.kind ≠ .organization) ∧
      set = object (setMembers codecs policy project rules) := by
  unfold render at h
  rcases hproject : policy.namespace with _ | project
  · rw [hproject] at h
    cases h
  · rw [hproject] at h
    simp only [bind_eq_ok, mapError_eq_ok] at h
    obtain ⟨rules, hexpand, h⟩ := h
    by_cases hattributes : (rules.any fun rule =>
        rule.information.any fun info => !info.attributes.isEmpty) = true
    · rw [if_pos hattributes] at h
      cases h
    · rw [if_neg hattributes] at h
      by_cases horganization : (rules.any fun rule => rule.assignee.kind == .organization) = true
      · rw [if_pos horganization] at h
        cases h
      · rw [if_neg horganization] at h
        obtain rfl := Except.ok.inj h
        refine ⟨project, rules, rfl, hexpand, ?_, rfl⟩
        simpa using horganization

/-- The rendered rules of one effect, each with its slot. -/
def slotsOf (effect : PolicyEffect) (rules : List PolicySpec) :
    List (PolicySpec × Option (EntitySelector × RegistrationInfo × Option String)) :=
  (rules.filter fun rule => rule.effect == effect).flatMap fun rule =>
    (slots rule).map fun s => (rule, s)

theorem mem_slotsOf {effect : PolicyEffect}
    {x : PolicySpec × Option (EntitySelector × RegistrationInfo × Option String)} :
    x ∈ slotsOf effect rules ↔ x.1 ∈ rules ∧ x.1.effect = effect ∧ x.2 ∈ slots x.1 := by
  unfold slotsOf
  simp only [List.mem_flatMap, List.mem_filter, beq_iff_eq, List.mem_map]
  constructor
  · rintro ⟨rule, ⟨hrule, heffect⟩, s, hs, rfl⟩
    exact ⟨hrule, heffect, hs⟩
  · rintro ⟨hrule, heffect, hs⟩
    exact ⟨x.1, ⟨hrule, heffect⟩, x.2, hs, rfl⟩

theorem flatMap_odrlRules (effect : PolicyEffect) (rules : List PolicySpec) :
    (rules.filter fun rule => rule.effect == effect).flatMap (odrlRules codecs) =
      (slotsOf effect rules).map fun x =>
        withTarget codecs x.1 (x.2.map fun y => target y.1 y.2.1 y.2.2) := by
  have hrules : odrlRules codecs = fun rule => (slots rule).map fun s =>
      withTarget codecs rule (s.map fun y => target y.1 y.2.1 y.2.2) := funext odrlRules_eq
  unfold slotsOf
  rw [List.map_flatMap, hrules]
  simp only [List.map_map, Function.comp_def]

theorem rulesUnder_render {members : List (String × Value)} {key assigner : String}
    {effect : PolicyEffect} (h : ∀ rule ∈ rules, Readable codecs back rule)
    (hlist : list (members.lookup key) key =
      .ok ((rules.filter fun rule => rule.effect == effect).flatMap (odrlRules codecs))) :
    rulesUnder codecs members key effect assigner none =
      .ok ((slotsOf effect rules).map (atomOf back)) := by
  unfold rulesUnder
  rw [hlist, flatMap_odrlRules]
  refine mapM_zipIdx_eq_ok (fun x hx k => ?_) 0
  obtain ⟨hrule, rfl, hslot⟩ := mem_slotsOf.1 hx
  exact odrlRule_withTarget (h x.1 hrule) hslot _ _

/-- What the rules of a rendered set are read as. -/
def atoms (back : Instant → Instant) (rules : List PolicySpec) : List (Grant × Option Target) :=
  (slotsOf .permission rules ++ slotsOf .prohibition rules).map (atomOf back)

theorem mem_atoms {atom : Grant × Option Target} : atom ∈ atoms back rules ↔
    ∃ rule ∈ rules, ∃ s ∈ slots rule, atomOf back (rule, s) = atom := by
  unfold atoms
  simp only [List.mem_map, List.mem_append, mem_slotsOf]
  constructor
  · rintro ⟨x, ⟨hrule, -, hs⟩ | ⟨hrule, -, hs⟩, rfl⟩
    · exact ⟨x.1, hrule, x.2, hs, rfl⟩
    · exact ⟨x.1, hrule, x.2, hs, rfl⟩
  · rintro ⟨rule, hrule, s, hs, rfl⟩
    rcases heffect : rule.effect with _ | _
    · exact ⟨(rule, s), Or.inl ⟨hrule, heffect, hs⟩, rfl⟩
    · exact ⟨(rule, s), Or.inr ⟨hrule, heffect, hs⟩, rfl⟩

/-- What an import makes of the rules it read. -/
def assembled (crates : Crates) (rules : List (Grant × Option Target))
    (assigner project space name : String) : Out Policy := do
  let validity ← oneValidity (regroup rules)
  let policy : Policy := ⟨"joinedcontext.com/v1alpha1", name, some project,
    specOf (regroup rules) assigner space validity⟩
  (policy.validate crates).mapError fun e => ⟨"(manifest)", e.display⟩
  return policy

variable {project : String}

theorem lookup_setMembers (codecs : Codecs) (policy : Policy) (project : String)
    (rules : List PolicySpec) (key : String) :
    (present (setMembers codecs policy project rules)).lookup key =
      ((setMembers codecs policy project rules).lookup key).join :=
  lookup_present (by simp [setMembers])

theorem frame_render (hassigner : Text.trim policy.spec.assigner ≠ "") :
    frame (present (setMembers codecs policy project rules)) = .ok (policy.spec.assigner, none) := by
  unfold frame
  rw [closed_present (by simp [setMembers, SET_MEMBERS])]
  simp only [lookup_setMembers]
  simp [setMembers, Assoc.lookup_cons, hassigner, bind, Except.bind, pure, Except.pure]

theorem importDocument_render (hassigner : Text.trim policy.spec.assigner ≠ "")
    (hproject : ':' ∉ project.toList) (hspace : ':' ∉ policy.spec.contextSpaceRef.nameOf.toList)
    (hname : ':' ∉ policy.name.toList) :
    importDocument codecs (object (setMembers codecs policy project rules)) {} =
      (rulesOf codecs (present (setMembers codecs policy project rules)) policy.spec.assigner none
        >>= fun read => assembled codecs.toCrates read policy.spec.assigner project
          policy.spec.contextSpaceRef.nameOf policy.name) := by
  have hidentity : identity ((present (setMembers codecs policy project rules)).lookup "uid") {} =
      .ok (project, policy.spec.contextSpaceRef.nameOf, policy.name) := by
    rw [← identity_render hproject hspace hname, lookup_setMembers]
    simp [setMembers, Assoc.lookup_cons]
  unfold importDocument object
  simp only [frame_render hassigner, hidentity, bind, Except.bind]
  rfl

theorem rulesOf_render (h : ∀ rule ∈ rules, Readable codecs back rule) (assigner : String) :
    rulesOf codecs (present (setMembers codecs policy project rules)) assigner none =
      .ok (atoms back rules) := by
  have hpermission := @rulesUnder_render _ _ _ (present (setMembers codecs policy project rules))
    "permission" assigner .permission h (by
      rw [lookup_setMembers]
      simp [setMembers, Assoc.lookup_cons, list])
  have hprohibition := @rulesUnder_render _ _ _ (present (setMembers codecs policy project rules))
    "prohibition" assigner .prohibition h (by
      rw [lookup_setMembers]
      simp [setMembers, Assoc.lookup_cons, list_unlessNone])
  unfold rulesOf atoms
  rw [hpermission, hprohibition, List.map_append]
  rfl

theorem fromAt_readWindow (back : Instant → Instant) (v : Option Validity) :
    (readWindow back v).bind Validity.fromAt = (v.bind Validity.fromAt).map back := by
  unfold readWindow
  rcases v.bind Validity.fromAt with _ | a <;> rcases v.bind Validity.toAt with _ | b <;> rfl

theorem toAt_readWindow (back : Instant → Instant) (v : Option Validity) :
    (readWindow back v).bind Validity.toAt = (v.bind Validity.toAt).map back := by
  unfold readWindow
  rcases v.bind Validity.fromAt with _ | a <;> rcases v.bind Validity.toAt with _ | b <;> rfl

/-- Bounds that are read back as they were. -/
theorem bounds_readWindow {v : Option Validity} (hback : ∀ t ∈ bounds v, back t = t) :
    (readWindow back v).bind Validity.fromAt = v.bind Validity.fromAt ∧
      (readWindow back v).bind Validity.toAt = v.bind Validity.toAt := by
  rw [fromAt_readWindow, toAt_readWindow]
  constructor
  · rcases h : v.bind Validity.fromAt with _ | t
    · rfl
    · rw [Option.map_some, hback t (List.mem_append_left _ (by simp [h]))]
  · rcases h : v.bind Validity.toAt with _ | t
    · rfl
    · rw [Option.map_some, hback t (List.mem_append_right _ (by simp [h]))]

theorem covers_grantOf_iff {rule : PolicyRule} {v w : Option Validity} {c : Combination}
    (hfrom : v.bind Validity.fromAt = w.bind Validity.fromAt)
    (hto : v.bind Validity.toAt = w.bind Validity.toAt) :
    (grantOf rule v).Covers c ↔ (grantOf rule w).Covers c := by
  unfold Grant.Covers grantOf
  rw [hfrom, hto]

/-- What the rules without entries and the entries with entities say. -/
def Policy.Written (policy : Policy) (c : Combination) : Prop :=
  ∃ rule ∈ policy.spec.ruleList, (grantOf rule policy.spec.validity).Covers c ∧
    (rule.information = [] ∧ c.place = everywhere ∨
      ∃ info ∈ rule.information, ∃ e ∈ info.entities,
        c.place = ⟨some e, info.propertyNames, info.relationshipNames⟩)

/-- What the entries that name no entity say. -/
def Policy.Unwritten (policy : Policy) (c : Combination) : Prop :=
  ∃ rule ∈ policy.spec.ruleList, (grantOf rule policy.spec.validity).Covers c ∧
    ∃ info ∈ rule.information, info.entities = [] ∧
      c.place = ⟨none, info.propertyNames, info.relationshipNames⟩

theorem mem_places_iff {information : List RegistrationInfo} {p : Place} :
    p ∈ places information ↔ (information = [] ∧ p = everywhere ∨
      ∃ info ∈ information, ∃ e ∈ info.entities,
        p = ⟨some e, info.propertyNames, info.relationshipNames⟩) ∨
      ∃ info ∈ information, info.entities = [] ∧
        p = ⟨none, info.propertyNames, info.relationshipNames⟩ := by
  by_cases h : information = []
  · subst h
    simp [places_nil]
  · rw [mem_places_of_ne_nil h]
    simp only [h, false_and, false_or, ← exists_or, ← and_or_left]
    refine exists_congr fun info => and_congr_right fun _ => ?_
    by_cases hentities : info.entities = []
    · simp [placesOf, hentities]
    · rw [mem_placesOf_of_ne_nil hentities]
      simp [hentities]

theorem Policy.says_iff {c : Combination} : policy.Says c ↔ policy.Written c ∨ policy.Unwritten c := by
  unfold Policy.Says Policy.Written Policy.Unwritten
  simp only [mem_places_iff, and_or_left, exists_or]

theorem mem_slots_iff {rule : PolicySpec} {p : Place} :
    (∃ s ∈ slots rule, placeOf (atomOf back (rule, s)).2 = p) ↔
      rule.information = [] ∧ p = everywhere ∨
        ∃ info ∈ rule.information, ∃ e ∈ info.entities,
          p = ⟨some e, info.propertyNames, info.relationshipNames⟩ := by
  unfold slots
  by_cases h : rule.information = []
  · simp [h, atomOf, placeOf, eq_comm]
  · simp only [List.isEmpty_iff, h, if_false, false_and, false_or, List.mem_flatMap, List.mem_map]
    constructor
    · rintro ⟨s, ⟨c, hc, e, he, rfl⟩, rfl⟩
      exact ⟨c.1, List.fst_mem_of_mem_zipIdx hc, e, he, rfl⟩
    · rintro ⟨info, hinfo, e, he, rfl⟩
      have hnumbered : info ∈ (rule.information.zipIdx 1).map Prod.fst := by
        rwa [List.zipIdx_map_fst]
      obtain ⟨c, hc, rfl⟩ := List.mem_map.1 hnumbered
      exact ⟨_, ⟨c, hc, e, he, rfl⟩, rfl⟩

theorem said_atoms_iff (hexpand : policy.spec.expand = .ok rules) {c : Combination} :
    Said (atoms back rules) c ↔ ∃ rule ∈ policy.spec.ruleList,
      (grantOf rule (readWindow back policy.spec.validity)).Covers c ∧
        (rule.information = [] ∧ c.place = everywhere ∨
          ∃ info ∈ rule.information, ∃ e ∈ info.entities,
            c.place = ⟨some e, info.propertyNames, info.relationshipNames⟩) := by
  obtain ⟨-, hlist, hshared⟩ := expand_eq_ok hexpand
  rw [← hlist]
  unfold Said
  constructor
  · rintro ⟨atom, hatom, hcovers, hplace⟩
    obtain ⟨rule, hrule, s, hs, rfl⟩ := mem_atoms.1 hatom
    rw [← (hshared rule hrule).2.2]
    exact ⟨rule.toPolicyRule, List.mem_map_of_mem hrule, hcovers,
      mem_slots_iff.1 ⟨s, hs, hplace⟩⟩
  · rintro ⟨r, hr, hcovers, hplace⟩
    obtain ⟨rule, hrule, rfl⟩ := List.mem_map.1 hr
    obtain ⟨s, hs, hs'⟩ := (@mem_slots_iff back _ _).2 hplace
    rw [← (hshared rule hrule).2.2] at hcovers
    exact ⟨atomOf back (rule, s), mem_atoms.2 ⟨rule, hrule, s, hs, rfl⟩, hcovers, hs'⟩

/-- Where the bounds are read back as they were, what is read is what is written. -/
theorem said_atoms_iff_written (hexpand : policy.spec.expand = .ok rules)
    (hback : ∀ t ∈ bounds policy.spec.validity, back t = t) {c : Combination} :
    Said (atoms back rules) c ↔ policy.Written c := by
  rw [said_atoms_iff hexpand]
  obtain ⟨hfrom, hto⟩ := bounds_readWindow hback
  unfold Policy.Written
  simp only [covers_grantOf_iff hfrom hto]

end Rendered

section Assembled

variable {crates : Crates} {rules : List (Grant × Option Target)}
  {assigner project space name : String} {policy : Policy}

theorem places_ne_nil (information : List RegistrationInfo) : ∃ p, p ∈ places information := by
  unfold places
  rcases information with _ | ⟨info, rest⟩
  · exact ⟨everywhere, by simp⟩
  · have hinfo : ∃ p, p ∈ placesOf info := by
      unfold placesOf
      rcases info.entities with _ | ⟨e, es⟩ <;> simp
    obtain ⟨p, hp⟩ := hinfo
    exact ⟨p, by simp [hp]⟩

/-- The grants of the regrouped rules are those of the rules. -/
theorem exists_of_mem_regroup {x : Grant × List RegistrationInfo} (hx : x ∈ regroup rules) :
    ∃ rule ∈ rules, rule.1 = x.1 := by
  obtain ⟨p, hp⟩ := places_ne_nil x.2
  obtain ⟨rule, hrule, hgrant, -⟩ := (over_regroup rules x.1 p).1 ⟨x, hx, rfl, hp⟩
  exact ⟨rule, hrule, hgrant⟩

theorem regroup_ne_nil (h : rules ≠ []) : regroup rules ≠ [] := by
  obtain ⟨rule, hrule⟩ := List.exists_mem_of_ne_nil rules h
  obtain ⟨x, hx, -⟩ := (over_regroup rules rule.1 (placeOf rule.2)).2 ⟨rule, hrule, rfl, rfl⟩
  exact List.ne_nil_of_mem hx

theorem oneValidity_eq_ok_iff {grants : List (Grant × List RegistrationInfo)}
    {validity : Option Validity} : oneValidity grants = .ok validity ↔
      grants ≠ [] ∧ ∀ x ∈ grants, x.1.validity = validity := by
  rcases grants with _ | ⟨first, rest⟩
  · simp [oneValidity, refuse]
  · simp only [oneValidity, ne_eq, reduceCtorEq, not_false_eq_true, true_and, List.forall_mem_cons]
    split_ifs with hdiffer
    · simp only [List.any_eq_true, decide_eq_true_eq] at hdiffer
      obtain ⟨x, hx, hne⟩ := hdiffer
      simp only [refuse, reduceCtorEq, false_iff, not_and]
      rintro rfl hall
      exact hne (hall x hx)
    · simp only [List.any_eq_true, decide_eq_true_eq, not_exists, not_and, not_not] at hdiffer
      simp only [Except.ok.injEq]
      constructor
      · rintro rfl
        exact ⟨rfl, hdiffer⟩
      · exact And.left

theorem assembled_eq_ok_iff : assembled crates rules assigner project space name = .ok policy ↔
    ∃ validity, regroup rules ≠ [] ∧ (∀ x ∈ regroup rules, x.1.validity = validity) ∧
      policy = ⟨"joinedcontext.com/v1alpha1", name, some project,
        specOf (regroup rules) assigner space validity⟩ ∧ policy.validate crates = .ok () := by
  unfold assembled
  simp only [bind_eq_ok, oneValidity_eq_ok_iff, mapError_eq_ok]
  constructor
  · rintro ⟨validity, ⟨hne, hall⟩, ⟨⟩, hvalid, h⟩
    obtain rfl := Except.ok.inj h
    exact ⟨validity, hne, hall, rfl, hvalid⟩
  · rintro ⟨validity, hne, hall, rfl, hvalid⟩
    exact ⟨validity, ⟨hne, hall⟩, (), hvalid, rfl⟩

/-- An imported policy says what the rules it was read from say, each on its own. -/
theorem says_of_assembled (h : assembled crates rules assigner project space name = .ok policy)
    (c : Combination) : policy.Says c ↔ Said rules c := by
  obtain ⟨validity, -, hall, rfl, -⟩ := assembled_eq_ok_iff.1 h
  exact says_specOf_iff hall c

/-- A spec of one of the regrouped rules passes its checks. -/
theorem validate_specOf {grants : List (Grant × List RegistrationInfo)} {validity : Option Validity}
    (hne : grants ≠ [])
    (h : ∀ x ∈ grants, ∀ spec : PolicySpec, spec.toPolicyRule = ruleOf x →
      spec.contextSpaceRef = .typed "ContextSpace" space none → spec.assigner = assigner →
      spec.validity = validity → spec.validateSingle crates = .ok ()) :
    (specOf grants assigner space validity).validate crates = .ok () := by
  unfold specOf
  split
  · rename_i only hmap
    obtain ⟨x, rfl, rfl⟩ := List.map_eq_singleton_iff.1 hmap
    exact h x List.mem_cons_self _ rfl rfl rfl rfl
  · have hrules : (grants.map ruleOf) ≠ [] := by simpa using hne
    obtain ⟨first, rest, hcons⟩ := List.exists_cons_of_ne_nil hrules
    unfold PolicySpec.validate PolicySpec.expand PolicySpec.checkShape
    simp only [hcons]
    have hshape : PolicySpec.singleRuleMember { emptyRule with
        contextSpaceRef := .typed "ContextSpace" space none, assigner,
        rules := some (first :: rest), validity } = none := by
      simp [PolicySpec.singleRuleMember, emptyRule, PolicyEffect.isProhibition]
    simp only [hshape, bind, Except.bind, pure, Except.pure]
    rw [forM_eq_ok]
    intro spec hspec
    obtain ⟨r, hr, rfl⟩ := List.mem_map.1 hspec
    rw [← hcons] at hr
    obtain ⟨x, hx, rfl⟩ := List.mem_map.1 hr
    exact h x hx _ rfl rfl rfl rfl

end Assembled

section RoundTrip

variable {codecs : Codecs} {back : Instant → Instant} {policy : Policy} {rules : List PolicySpec}

theorem validateSingle_congr {crates : Crates} {rule spec : PolicySpec}
    {information : List RegistrationInfo} (hrule : rule.validateSingle crates = .ok ())
    (h : spec.toPolicyRule = { rule.toPolicyRule with information })
    (hspace : PolicySpec.validateSpaceRef spec.contextSpaceRef = .ok ())
    (hassigner : spec.assigner = rule.assigner)
    (hwindow : PolicySpec.validateWindow crates spec.validity = .ok ())
    (hentries : ∀ info ∈ information, spec.validateEntry crates info = .ok ()) :
    spec.validateSingle crates = .ok () := by
  obtain ⟨⟨effect, assignee, operations, actions, infos, q, scopeQ, geoQ, temporalQ⟩, contextSpaceRef,
    assigner, listed, validity⟩ := spec
  simp only [PolicyRule.mk.injEq] at h
  obtain ⟨rfl, rfl, rfl, rfl, rfl, rfl, rfl, rfl, rfl⟩ := h
  obtain ⟨-, hassigner', hassignee, hgranted, -, hnarrowing, -⟩ := validateSingle_eq_ok_iff.1 hrule
  exact validateSingle_eq_ok_iff.2 ⟨hspace, hassigner ▸ hassigner', hassignee, hgranted, hentries,
    hnarrowing, hwindow⟩

theorem exists_capability {spec : PolicySpec} (h : spec.validateGranted = .ok ()) :
    ∃ capability, capability ∈ capabilities spec.operations spec.actions := by
  unfold PolicySpec.validateGranted at h
  split_ifs at h with hempty
  · cases h
  · simp only [Bool.and_eq_true, List.isEmpty_iff, not_and_or] at hempty
    unfold capabilities
    rcases hempty with hoperations | hactions
    · obtain ⟨op, hop⟩ := List.exists_mem_of_ne_nil _ hoperations
      have hsome : ∃ o, o ∈ operationsOf op := by
        rcases op with o | g
        · exact ⟨o, List.mem_singleton_self o⟩
        · cases g <;> exact ⟨_, List.mem_cons_self⟩
      obtain ⟨o, ho⟩ := hsome
      exact ⟨.inl o, List.mem_append_left _ (List.mem_map_of_mem (List.mem_flatMap.2 ⟨op, hop, ho⟩))⟩
    · obtain ⟨a, ha⟩ := List.exists_mem_of_ne_nil _ hactions
      exact ⟨.inr a, List.mem_append_right _ (List.mem_map_of_mem ha)⟩

/-- Each rule of a valid policy covers some combination at a place. -/
theorem exists_covered {rule : PolicyRule} {validity : Option Validity} {capability : Operation ⊕ PlatformAction}
    (h : capability ∈ capabilities rule.operations rule.actions) (place : Place) :
    ∃ c : Combination, (grantOf rule validity).Covers c ∧ c.place = place :=
  ⟨⟨rule.effect, rule.assignee, capability, place, rule.q, rule.scopeQ, rule.geoQ, rule.temporalQ,
    validity.bind Validity.fromAt, validity.bind Validity.toAt⟩,
    ⟨rfl, rfl, h, rfl, rfl, rfl, rfl, rfl, rfl⟩, rfl⟩

/-- The imported policy passes its checks where the exported one does. -/
theorem validate_imported {crates : Crates} (hvalid : policy.validate crates = .ok ())
    (hexpand : policy.spec.expand = .ok rules) (hback : ∀ t ∈ bounds policy.spec.validity, back t = t)
    (hne : regroup (atoms back rules) ≠ []) {project : String}
    (hproject : policy.namespace = some project) :
    (⟨"joinedcontext.com/v1alpha1", policy.name, some project,
      specOf (regroup (atoms back rules)) policy.spec.assigner policy.spec.contextSpaceRef.nameOf
        (readWindow back policy.spec.validity)⟩ : Policy).validate crates = .ok () := by
  obtain ⟨hname, hnamespace, -, hspec⟩ := Policy.validate_eq_ok_iff.1 hvalid
  rw [hproject] at hnamespace
  obtain ⟨-, -, hshared⟩ := expand_eq_ok hexpand
  have hsingle := validateSingle_of_validate hspec hexpand
  refine Policy.validate_eq_ok_iff.2 ⟨hname, hnamespace, rfl, validate_specOf hne ?_⟩
  intro x hx spec hrule hspace hassigner hvalidity
  obtain ⟨atom, hatom, hgrant⟩ := exists_of_mem_regroup hx
  obtain ⟨rule, hmem, s, hs, rfl⟩ := mem_atoms.1 hatom
  obtain ⟨hspaceRef, -, -, -, -, -, hwindow⟩ := validateSingle_eq_ok_iff.1 (hsingle rule hmem)
  refine @validateSingle_congr _ _ _ x.2 (hsingle rule hmem) ?_ ?_ ?_ ?_ ?_
  · rw [hrule, ruleOf, ← hgrant]
    rfl
  · rw [hspace]
    unfold PolicySpec.validateSpaceRef at hspaceRef ⊢
    rw [andThen_eq_ok, mapError_eq_ok] at hspaceRef ⊢
    rw [(hshared rule hmem).1] at hspaceRef
    exact ⟨hspaceRef.1, rfl⟩
  · rw [hassigner, (hshared rule hmem).2.1]
  · obtain ⟨hfrom, hto⟩ := bounds_readWindow hback
    rw [(hshared rule hmem).2.2] at hwindow
    unfold PolicySpec.validateWindow at hwindow ⊢
    rwa [hvalidity, hfrom, hto]
  · intro info hinfo
    obtain ⟨hentities, hattributes⟩ := plain_of_mem_regroup hx info hinfo
    have horigin : ∀ e ∈ info.entities, ∃ original : RegistrationInfo, ∃ rule ∈ rules,
        original ∈ rule.information ∧ e ∈ original.entities ∧
        original.propertyNames = info.propertyNames ∧
        original.relationshipNames = info.relationshipNames := by
      intro e he
      have hplace : ⟨some e, info.propertyNames, info.relationshipNames⟩ ∈ places x.2 :=
        (mem_places_of_ne_nil (List.ne_nil_of_mem hinfo)).2
          ⟨info, hinfo, (mem_placesOf_of_ne_nil hentities).2 ⟨e, he, rfl⟩⟩
      obtain ⟨atom, hatom, -, hat⟩ := (over_regroup _ x.1 _).1 ⟨x, hx, rfl, hplace⟩
      obtain ⟨rule, hmem, s, hs, rfl⟩ := mem_atoms.1 hatom
      rcases mem_slots_iff.1 ⟨s, hs, hat⟩ with ⟨-, hall⟩ | ⟨original, horiginal, e', he', hsame⟩
      · simp [everywhere] at hall
      · simp only [Place.mk.injEq, Option.some.injEq] at hsame
        obtain ⟨rfl, hprops, hrels⟩ := hsame
        exact ⟨original, rule, hmem, horiginal, he', hprops.symm, hrels.symm⟩
    obtain ⟨e₀, he₀⟩ := List.exists_mem_of_ne_nil _ hentities
    obtain ⟨original, rule', hmem', horiginal, -, hprops, hrels⟩ := horigin e₀ he₀
    obtain ⟨-, -, -, -, hvalidEntries, -⟩ := validateSingle_eq_ok_iff.1 (hsingle rule' hmem')
    obtain ⟨-, hpropsValid, -, hrelsValid⟩ :=
      validateEntry_eq_ok_iff.1 (hvalidEntries original horiginal)
    refine validateEntry_eq_ok_iff.2 ⟨fun e he => ?_, hprops ▸ hpropsValid, ?_, hrels ▸ hrelsValid⟩
    · obtain ⟨original, rule, hmem, horiginal, he', -⟩ := horigin e he
      obtain ⟨-, -, -, -, hvalidEntries, -⟩ := validateSingle_eq_ok_iff.1 (hsingle rule hmem)
      exact (validateEntry_eq_ok_iff.1 (hvalidEntries original horiginal)).1 e he'
    · simp [hattributes]

/-- Whether the bounds of the validity are ones RFC 3339 writes and reads. -/
def Policy.BoundsReadBack (codecs : Codecs) (policy : Policy) : Prop :=
  ∀ t ∈ bounds policy.spec.validity, codecs.parseFromRfc3339 (codecs.toRfc3339Auto t) = some t

/-- Whether whatever an entry without entities says, another entry or rule says too. -/
def Policy.Accounted (policy : Policy) : Prop := ∀ c, policy.Unwritten c → policy.Written c

/-- What makes a policy one an export is made of: its checks pass, and its ids were read. -/
structure Policy.Exportable (codecs : Codecs) (policy : Policy) : Prop where
  valid : policy.validate codecs.toCrates = .ok ()
  ids : ∀ rule ∈ policy.spec.ruleList, ∀ info ∈ rule.information, ∀ e ∈ info.entities, IdRead e

theorem readable_of_exportable (h : policy.Exportable codecs) (hexpand : policy.spec.expand = .ok rules)
    (horganization : ∀ rule ∈ rules, rule.assignee.kind ≠ .organization)
    (hback : ∀ t ∈ bounds policy.spec.validity,
      codecs.parseFromRfc3339 (codecs.toRfc3339Auto t) = some (back t)) :
    ∀ rule ∈ rules, Readable codecs back rule := by
  obtain ⟨-, hlist, hshared⟩ := expand_eq_ok hexpand
  obtain ⟨-, -, -, hspec⟩ := Policy.validate_eq_ok_iff.1 h.valid
  intro rule hrule
  refine ⟨⟨horganization rule hrule, fun hblank => ?_⟩, ?_, (hshared rule hrule).2.2 ▸ hback⟩
  · obtain ⟨-, -, hassignee, -⟩ :=
      validateSingle_eq_ok_iff.1 (validateSingle_of_validate hspec hexpand rule hrule)
    unfold PolicySpec.validateAssignee at hassignee
    simp only [horganization rule hrule, hblank, if_true, if_false] at hassignee
    split_ifs at hassignee <;> cases hassignee
  · exact h.ids rule.toPolicyRule (hlist ▸ List.mem_map_of_mem hrule)

/-- The rules of a valid policy are covered by some combination. -/
theorem exists_covers (h : policy.Exportable codecs) (hexpand : policy.spec.expand = .ok rules)
    {rule : PolicySpec} (hrule : rule ∈ rules) (validity : Option Validity) (place : Place) :
    ∃ c : Combination, (grantOf rule.toPolicyRule validity).Covers c ∧ c.place = place := by
  obtain ⟨-, -, -, hspec⟩ := Policy.validate_eq_ok_iff.1 h.valid
  obtain ⟨-, -, -, hgranted, -⟩ :=
    validateSingle_eq_ok_iff.1 (validateSingle_of_validate hspec hexpand rule hrule)
  obtain ⟨capability, hcapability⟩ := exists_capability hgranted
  exact exists_covered hcapability place

/-- A rendered set that is imported carries a rule whose bounds were read. -/
theorem bounds_of_imported {project assigner : String} {read : List (Grant × Option Target)}
    (hread : rulesOf codecs (present (setMembers codecs policy project rules)) assigner none =
      .ok read) (hne : read ≠ []) (hexpand : policy.spec.expand = .ok rules) :
    ∀ t ∈ bounds policy.spec.validity,
      (codecs.parseFromRfc3339 (codecs.toRfc3339Auto t)).isSome = true := by
  obtain ⟨-, -, hshared⟩ := expand_eq_ok hexpand
  intro t ht
  by_contra hbad
  rw [Bool.not_eq_true, Option.isSome_eq_false_iff, Option.isNone_iff_eq_none] at hbad
  have hnone : ∀ (effect : PolicyEffect) (key : String) (atoms : List (Grant × Option Target)),
      list ((present (setMembers codecs policy project rules)).lookup key) key =
        .ok ((rules.filter fun rule => rule.effect == effect).flatMap (odrlRules codecs)) →
      rulesUnder codecs (present (setMembers codecs policy project rules)) key effect assigner none =
        .ok atoms → atoms = [] := by
    intro effect key atoms hlist h
    by_contra hatoms
    obtain ⟨atom, hatom⟩ := List.exists_mem_of_ne_nil _ hatoms
    unfold rulesUnder at h
    rw [hlist, flatMap_odrlRules] at h
    obtain ⟨y, hy, hread⟩ := (mem_of_mapM h).1 atom hatom
    obtain ⟨x, hx, hdocument⟩ := List.mem_map.1 (List.fst_mem_of_mem_zipIdx hy)
    obtain ⟨hrule, -, -⟩ := mem_slotsOf.1 hx
    rw [← (hshared x.1 hrule).2.2] at ht
    rw [← hdocument] at hread
    exact odrlRule_ne_ok ht hbad _ _ _ _ _ _ hread
  unfold rulesOf at hread
  simp only [bind_eq_ok] at hread
  obtain ⟨permissions, hpermissions, prohibitions, hprohibitions, h⟩ := hread
  obtain rfl := Except.ok.inj h
  refine hne ?_
  rw [hnone .permission "permission" permissions ?_ hpermissions,
    hnone .prohibition "prohibition" prohibitions ?_ hprohibitions]
  · rfl
  · rw [lookup_setMembers]
    simp [setMembers, Assoc.lookup_cons, list_unlessNone]
  · rw [lookup_setMembers]
    simp [setMembers, Assoc.lookup_cons, list]

/-- An exported policy is imported with the same combinations exactly when its bounds are read back
and each entry without entities is accounted for. -/
theorem export_agrees_iff (h : policy.Exportable codecs) {set : Value}
    (hrender : render codecs policy = .ok set) :
    (∃ imported, importDocument codecs set {} = .ok imported ∧
      ∀ c, imported.Says c ↔ policy.Says c) ↔
      policy.BoundsReadBack codecs ∧ policy.Accounted := by
  obtain ⟨project, rules, hproject, hexpand, horganization, rfl⟩ := render_eq_ok hrender
  obtain ⟨hne, hlist, hshared⟩ := expand_eq_ok hexpand
  obtain ⟨hname, ⟨ns, hns, hnamespace, -⟩, -, hspec⟩ := Policy.validate_eq_ok_iff.1 h.valid
  obtain rfl : project = ns := Option.some.inj (hproject.symm.trans hns)
  obtain ⟨first, hfirst⟩ := List.exists_mem_of_ne_nil _ hne
  obtain ⟨hspaceRef, hassigner, -⟩ :=
    validateSingle_eq_ok_iff.1 (validateSingle_of_validate hspec hexpand first hfirst)
  have hspace : ':' ∉ policy.spec.contextSpaceRef.nameOf.toList := by
    unfold PolicySpec.validateSpaceRef at hspaceRef
    rw [andThen_eq_ok, mapError_eq_ok, (hshared first hfirst).1] at hspaceRef
    exact colon_not_mem_of_validateSpaceName hspaceRef.1
  have hnotBlank : Text.trim policy.spec.assigner ≠ "" := by
    intro hblank
    rw [(hshared first hfirst).2.1] at hassigner
    simp [PolicySpec.validateAssigner, hblank, refuseField] at hassigner
  have himport := @importDocument_render codecs _ rules _ hnotBlank
    (colon_not_mem_of_validateNamespace hnamespace) hspace
    (colon_not_mem_of_validateDns1123Label hname)
  rw [himport]
  constructor
  · rintro ⟨imported, himported, hsame⟩
    obtain ⟨read, hread, hassembled⟩ := bind_eq_ok.1 himported
    have hsaid := says_of_assembled hassembled
    have hreadNe : read ≠ [] := by
      rintro rfl
      obtain ⟨-, hregroup, -⟩ := assembled_eq_ok_iff.1 hassembled
      exact hregroup rfl
    -- the bounds as they are read, whatever they are read as
    let back : Instant → Instant := fun t =>
      (codecs.parseFromRfc3339 (codecs.toRfc3339Auto t)).getD t
    have hback : ∀ t ∈ bounds policy.spec.validity,
        codecs.parseFromRfc3339 (codecs.toRfc3339Auto t) = some (back t) := by
      intro t ht
      obtain ⟨t', ht'⟩ := Option.isSome_iff_exists.1 (bounds_of_imported hread hreadNe hexpand t ht)
      simp [back, ht']
    rw [rulesOf_render (readable_of_exportable h hexpand horganization hback)] at hread
    obtain rfl := Except.ok.inj hread
    have hfixed : ∀ t ∈ bounds policy.spec.validity, back t = t := by
      obtain ⟨atom, hatom⟩ := List.exists_mem_of_ne_nil _ hreadNe
      obtain ⟨rule, hrule, s, hs, rfl⟩ := mem_atoms.1 hatom
      obtain ⟨c, hcovers, hplace⟩ := exists_covers h hexpand hrule (readWindow back rule.validity)
        (placeOf (atomOf back (rule, s)).2)
      have hcovers' := hcovers
      obtain ⟨-, -, -, -, -, -, -, hfrom, hto⟩ := hcovers'
      obtain ⟨r, -, ⟨-, -, -, -, -, -, -, hfrom', hto'⟩, -⟩ :=
        (hsame c).1 ((hsaid c).2 ⟨_, hatom, hcovers, hplace.symm⟩)
      simp only [grantOf, fromAt_readWindow, toAt_readWindow, (hshared rule hrule).2.2] at hfrom hto
      simp only [grantOf] at hfrom' hto'
      intro t ht
      rcases List.mem_append.1 ht with ht | ht
      · rw [hfrom', Option.mem_toList.1 ht] at hfrom
        exact (Option.some.inj hfrom).symm
      · rw [hto', Option.mem_toList.1 ht] at hto
        exact (Option.some.inj hto).symm
    refine ⟨fun t ht => (hback t ht).trans (by rw [hfixed t ht]), fun c hc => ?_⟩
    rw [← said_atoms_iff_written hexpand hfixed, ← hsaid, hsame, Policy.says_iff]
    exact Or.inr hc
  · rintro ⟨hbounds, haccounted⟩
    have hread := @rulesOf_render _ _ policy _ project
      (@readable_of_exportable _ id _ _ h hexpand horganization hbounds) policy.spec.assigner
    have hsaid : ∀ c, Said (atoms id rules) c ↔ policy.Says c := by
      intro c
      rw [@said_atoms_iff_written id _ _ hexpand fun _ _ => rfl, Policy.says_iff,
        or_iff_left_of_imp (haccounted c)]
    have hatoms : atoms id rules ≠ [] := by
      obtain ⟨p, hp⟩ := places_ne_nil first.information
      obtain ⟨c, hcovers, rfl⟩ := exists_covers h hexpand hfirst policy.spec.validity p
      obtain ⟨atom, hatom, -⟩ := (hsaid c).2
        ⟨first.toPolicyRule, hlist ▸ List.mem_map_of_mem hfirst, hcovers, hp⟩
      exact List.ne_nil_of_mem hatom
    have hvalidity : ∀ x ∈ regroup (atoms id rules),
        x.1.validity = readWindow id policy.spec.validity := by
      intro x hx
      obtain ⟨atom, hatom, hgrant⟩ := exists_of_mem_regroup hx
      obtain ⟨rule, hrule, s, -, rfl⟩ := mem_atoms.1 hatom
      rw [← hgrant, ← (hshared rule hrule).2.2]
      rfl
    have hassembled := assembled_eq_ok_iff.2 ⟨readWindow id policy.spec.validity,
      regroup_ne_nil hatoms, hvalidity, rfl,
      validate_imported h.valid hexpand (fun _ _ => rfl) (regroup_ne_nil hatoms) hproject⟩
    refine ⟨_, bind_eq_ok.2 ⟨_, hread, hassembled⟩, fun c => ?_⟩
    rw [says_of_assembled hassembled, hsaid]

end RoundTrip

end JoinedContext.Odrl

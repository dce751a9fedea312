import JoinedContext.Library.Assoc
import JoinedContext.Odrl.Combinations

/-!
# Reading a rendered set back

Each part of a rendered rule is read as what it was rendered from: its party, its actions, its
constraints and its target. The bounds of the validity are read as the codecs read them.
-/

namespace JoinedContext.Odrl

section Members

theorem closed_eq_ok {members : List (String × Value)} {allowed : List String} {path : String}
    (h : ∀ c ∈ members, c.1 ∈ allowed) : closed members allowed path = .ok () := by
  have hfind : (members.find? fun c => decide (c.1 ∉ allowed)) = none :=
    List.find?_eq_none.2 fun c hc => by simpa using h c hc
  simp only [closed, hfind]

theorem mem_present {l : List (String × Option Value)} {c : String × Value} (h : c ∈ present l) :
    (c.1, some c.2) ∈ l := by
  obtain ⟨d, hd, hc⟩ := List.mem_filterMap.1 h
  obtain ⟨v, hv, rfl⟩ := Option.map_eq_some_iff.1 hc
  rwa [← hv]

theorem lookup_present : ∀ {l : List (String × Option Value)} {key : String},
    (l.map Prod.fst).Nodup → (present l).lookup key = (l.lookup key).join
  | [], _, _ => rfl
  | (k, none) :: l, key, h => by
    obtain ⟨hk, hl⟩ := List.nodup_cons.1 h
    rw [show present ((k, none) :: l) = present l from rfl, lookup_present hl, Assoc.lookup_cons]
    split_ifs with hkey
    · rw [hkey, List.lookup_eq_none_iff.2 fun c hc => by
        simpa using fun hck => hk (List.mem_map.2 ⟨c, hc, hck.symm⟩)]
      rfl
    · rfl
  | (k, some v) :: l, key, h => by
    obtain ⟨-, hl⟩ := List.nodup_cons.1 h
    rw [show present ((k, some v) :: l) = (k, v) :: present l from rfl, Assoc.lookup_cons,
      lookup_present hl, Assoc.lookup_cons]
    split_ifs <;> rfl

theorem closed_present {l : List (String × Option Value)} {allowed : List String} {path : String}
    (h : ∀ k ∈ l.map Prod.fst, k ∈ allowed) : closed (present l) allowed path = .ok () :=
  closed_eq_ok fun c hc => h c.1 (List.mem_map.2 ⟨_, mem_present hc, rfl⟩)

theorem list_unlessNone (items : List Value) (path : String) :
    list (unlessNone items) path = .ok items := by
  rcases items with _ | ⟨v, items⟩ <;> rfl

end Members

theorem triple_constraint (left operator : String) (right : Value) (path : String) :
    triple (constraint left operator right) path = .ok (left, operator, right) := by
  have hclosed : closed [("leftOperand", .str left), ("operator", .str operator),
      ("rightOperand", right)] ["leftOperand", "operator", "rightOperand"] path = .ok () :=
    closed_eq_ok (by simp)
  simp [triple, constraint, hclosed, Assoc.lookup_cons, bind, Except.bind, pure, Except.pure]

theorem principal_party {p : Principal} (path : String) (hkind : p.kind ≠ .organization)
    (hid : Text.trim p.id ≠ "") : principal (party p) path = .ok p := by
  obtain ⟨kind, id⟩ := p
  have hclosed : ∀ class_ : String, closed [("@type", .str class_), ("uid", .str id)]
      ["@type", "uid"] path = .ok () := fun _ => closed_eq_ok (by simp)
  cases kind <;> simp_all [principal, party, PARTIES, Assoc.lookup_cons, bind, Except.bind]

theorem stripPrefix_append (a b : String) : Text.stripPrefix a (a ++ b) = some b := by
  rw [Text.stripPrefix_eq_some, String.toList_append]

theorem ofWire_wire (a : PlatformAction) :
    OperationRef.ofWire a.wire = none ∧ PlatformAction.ofWire a.wire = some a := by
  cases a <;> exact ⟨by decide +kernel, by decide +kernel⟩

/-- The actions of a rendered rule are read as its operations and its platform actions. -/
theorem actions_texts (operations : List OperationRef) (platform : List PlatformAction)
    (path : String) :
    actions (some (texts (operations.map (fun o => "ngsi-ld:" ++ o.asStr) ++
      platform.map fun a => "ngsi-ld:" ++ a.wire))) path = .ok (operations, platform) := by
  let both : List (OperationRef ⊕ PlatformAction) := operations.map .inl ++ platform.map .inr
  let wire : OperationRef ⊕ PlatformAction → Value :=
    Sum.elim (fun o => .str ("ngsi-ld:" ++ o.asStr)) fun a => .str ("ngsi-ld:" ++ a.wire)
  have hwire : ∀ x k, action path (wire x, k) = .ok x := by
    rintro (o | a) k
    · simp only [action, wire, Sum.elim_inl, Value.asStr_str, Option.bind_some, stripPrefix_append,
        OperationRef.ofWire_asStr]
    · obtain ⟨hoperation, haction⟩ := ofWire_wire a
      simp only [action, wire, Sum.elim_inr, Value.asStr_str, Option.bind_some, stripPrefix_append,
        hoperation, haction]
  have hmap := mapM_zipIdx_eq_ok (l := both) (r := id) (fun x _ k => hwire x k) 0
  have htexts : texts (operations.map (fun o => "ngsi-ld:" ++ o.asStr) ++
      platform.map fun a => "ngsi-ld:" ++ a.wire) = .arr (both.map wire) := by
    simp [texts, both, wire, Function.comp_def]
  rw [htexts, actions, hmap]
  have hleft : both.filterMap Sum.getLeft? = operations := by
    simp [both, List.filterMap_map, Function.comp_def]
  have hright : both.filterMap Sum.getRight? = platform := by
    simp [both, List.filterMap_map, Function.comp_def]
  rw [List.map_id]
  simp only [bind, Except.bind, pure, Except.pure, hleft, hright]

/-- The bounds of a validity. -/
def bounds (validity : Option Validity) : List Instant :=
  (validity.bind Validity.fromAt).toList ++ (validity.bind Validity.toAt).toList

/-- A validity with its bounds read back; one without bounds is none. -/
def readWindow (back : Instant → Instant) (validity : Option Validity) : Option Validity :=
  match (validity.bind Validity.fromAt).map back, (validity.bind Validity.toAt).map back with
  | none, none => none
  | a, b => some ⟨a, b⟩

section Constraints

variable {codecs : Codecs} {back : Instant → Instant}

theorem validity_text {window : Option Validity} {operator path : String} {t t' : Instant}
    (h : codecs.parseFromRfc3339 (codecs.toRfc3339Auto t) = some t') :
    validity codecs window operator (.str (codecs.toRfc3339Auto t)) path =
      (let held := window.getD ⟨none, none⟩
      if operator = "gteq" then
        if held.fromAt.isSome then refuse path "this validity bound is given twice in one rule"
        else .ok (some { held with fromAt := some t' })
      else if held.toAt.isSome then refuse path "this validity bound is given twice in one rule"
      else .ok (some { held with toAt := some t' })) := by
  simp only [validity, Value.asStr_str, Option.bind_some, h]

theorem folds_constraints (rule : PolicySpec) (g : Grant) (path : String)
    (hempty : g.q = none ∧ g.scopeQ = none ∧ g.geoQ = none ∧ g.temporalQ = none ∧ g.validity = none)
    (hback : ∀ t ∈ bounds rule.validity,
      codecs.parseFromRfc3339 (codecs.toRfc3339Auto t) = some (back t)) :
    Folds (filter codecs path) ⟨g, none, none⟩ (constraints codecs rule)
      ⟨{ g with
          q := rule.q, scopeQ := rule.scopeQ, geoQ := rule.geoQ, temporalQ := rule.temporalQ
          validity := readWindow back rule.validity }, none, none⟩ := by
  obtain ⟨effect, assignee, operations, platform, _, _, _, _, _⟩ := g
  obtain ⟨rfl, rfl, rfl, rfl, rfl⟩ := hempty
  unfold constraints
  let step (q scopeQ geoQ temporalQ : Option String) (window : Option Validity) : Filtered :=
    ⟨⟨effect, assignee, operations, platform, q, scopeQ, geoQ, temporalQ, window⟩, none, none⟩
  refine @Folds.option _ _ _ _ _ (step rule.q none none none none) _ _ _ ?_ (fun h => ?_) ?_
  · intro a ha k
    obtain ⟨v, hv, rfl⟩ := Option.map_eq_some_iff.1 ha
    simp [filter, triple_constraint, once, step, hv, bind, Except.bind, pure, Except.pure]
  · rw [Option.map_eq_none_iff.1 h]
  refine @Folds.option _ _ _ _ _ (step rule.q rule.scopeQ none none none) _ _ _ ?_ (fun h => ?_) ?_
  · intro a ha k
    obtain ⟨v, hv, rfl⟩ := Option.map_eq_some_iff.1 ha
    simp [filter, triple_constraint, once, step, hv, bind, Except.bind, pure, Except.pure]
  · rw [Option.map_eq_none_iff.1 h]
  refine @Folds.option _ _ _ _ _ (step rule.q rule.scopeQ rule.geoQ none none) _ _ _ ?_
    (fun h => ?_) ?_
  · intro a ha k
    obtain ⟨v, hv, rfl⟩ := Option.map_eq_some_iff.1 ha
    simp [filter, triple_constraint, once, step, hv, bind, Except.bind, pure, Except.pure]
  · rw [Option.map_eq_none_iff.1 h]
  refine @Folds.option _ _ _ _ _ (step rule.q rule.scopeQ rule.geoQ rule.temporalQ none) _ _ _ ?_
    (fun h => ?_) ?_
  · intro a ha k
    obtain ⟨v, hv, rfl⟩ := Option.map_eq_some_iff.1 ha
    simp [filter, triple_constraint, once, step, hv, bind, Except.bind, pure, Except.pure]
  · rw [Option.map_eq_none_iff.1 h]
  obtain ⟨half, hhalf⟩ : ∃ half : Option Validity, half =
    (rule.validity.bind Validity.fromAt).map fun t => ⟨some (back t), none⟩ := ⟨_, rfl⟩
  refine @Folds.option _ _ _ _ _ (step rule.q rule.scopeQ rule.geoQ rule.temporalQ half) _ _ _ ?_
    (fun h => ?_) ?_
  · intro a ha k
    obtain ⟨t, ht, rfl⟩ := Option.map_eq_some_iff.1 ha
    have hread := hback t (List.mem_append_left _ (Option.mem_toList.2 ht))
    rw [ht, Option.map_some] at hhalf
    simp [filter, triple_constraint, validity_text hread, step, hhalf, bind, Except.bind, pure,
      Except.pure]
  · rw [hhalf, Option.map_eq_none_iff.1 h, Option.map_none]
  refine @Folds.option _ _ _ _ _ (step rule.q rule.scopeQ rule.geoQ rule.temporalQ
    (readWindow back rule.validity)) _ _ _ ?_ (fun h => ?_) Folds.nil
  · intro a ha k
    obtain ⟨t, ht, rfl⟩ := Option.map_eq_some_iff.1 ha
    have hread := hback t (List.mem_append_right _ (Option.mem_toList.2 ht))
    rcases hfrom : rule.validity.bind Validity.fromAt with _ | f <;>
      rw [hfrom] at hhalf <;>
      simp [filter, triple_constraint, validity_text hread, step, hhalf, readWindow, ht, hfrom,
        bind, Except.bind, pure, Except.pure]
  · rw [hhalf]
    rcases hfrom : rule.validity.bind Validity.fromAt with _ | f <;>
      simp [readWindow, Option.map_eq_none_iff.1 h, hfrom]

theorem filters_constraints (rule : PolicySpec) (g : Grant) (path : String)
    (hempty : g.q = none ∧ g.scopeQ = none ∧ g.geoQ = none ∧ g.temporalQ = none ∧ g.validity = none)
    (hback : ∀ t ∈ bounds rule.validity,
      codecs.parseFromRfc3339 (codecs.toRfc3339Auto t) = some (back t)) :
    filters codecs g (unlessNone (constraints codecs rule)) path =
      .ok { g with
        q := rule.q, scopeQ := rule.scopeQ, geoQ := rule.geoQ, temporalQ := rule.temporalQ
        validity := readWindow back rule.validity } := by
  unfold filters
  rw [list_unlessNone]
  simp only [bind, Except.bind]
  rw [folds_constraints rule g path hempty hback 0]
  rfl

/-- A bound that is not read back refuses its rule. -/
theorem filters_ne_ok (rule : PolicySpec) (g g' : Grant) (path : String) {t : Instant}
    (ht : t ∈ bounds rule.validity)
    (hbad : codecs.parseFromRfc3339 (codecs.toRfc3339Auto t) = none) :
    filters codecs g (unlessNone (constraints codecs rule)) path ≠ .ok g' := by
  intro h
  unfold filters at h
  rw [list_unlessNone] at h
  simp only [bind_eq_ok, Except.ok.injEq, exists_eq_left'] at h
  obtain ⟨st, hfold, -⟩ := h
  obtain ⟨operator, hmem, hoperator⟩ : ∃ operator, constraint "ngsi-ld:validity" operator
      (.str (codecs.toRfc3339Auto t)) ∈ constraints codecs rule ∧
        (operator = "gteq" ∨ operator = "lt") := by
    rcases List.mem_append.1 ht with hfrom | hto
    · refine ⟨"gteq", ?_, Or.inl rfl⟩
      simp [constraints, Option.mem_toList.1 hfrom]
    · refine ⟨"lt", ?_, Or.inr rfl⟩
      simp [constraints, Option.mem_toList.1 hto]
  refine not_folds_of_mem (fun st k st' hstep => ?_) hmem _ 0 st hfold
  rcases hoperator with rfl | rfl <;>
    simp [filter, triple_constraint, validity, hbad, refuse, bind, Except.bind] at hstep

end Constraints

section Targets

theorem nameList_texts (items : List String) (path : String) :
    nameList (texts items) path = .ok items := by
  have hmap : ∀ items : List String, (items.map Value.str).mapM Value.asStr = some items := by
    intro items
    induction items with
    | nil => rfl
    | cons s items ih => simp [ih]
  simp only [nameList, texts, Value.asArray, Option.bind_some, hmap]

/-- Whether an id is one that was read. -/
def IdRead (selector : EntitySelector) : Prop :=
  ∀ id, selector.id = some id → ∃ s, Urn.parse s = .ok id

theorem folds_refinements {selector : EntitySelector} {info : RegistrationInfo} (path : String)
    (hid : IdRead selector) : ∃ properties relationships : Option (List String),
      Folds (refine path) ⟨none, none, none, none⟩ (refinements selector info)
        ⟨selector.id, selector.idPattern, properties, relationships⟩ ∧
      properties.getD [] = info.propertyNames ∧ relationships.getD [] = info.relationshipNames := by
  have hfirst : ∀ {rest : List (Option Value)} {st : Refined},
      Folds (refine path) ⟨selector.id, selector.idPattern, none, none⟩ (rest.filterMap id) st →
      Folds (refine path) ⟨none, none, none, none⟩
        ((selector.id.map (fun id => constraint "ngsi-ld:id" "eq" (.str id.toString)) ::
          selector.idPattern.map (fun pattern => constraint "ngsi-ld:idPattern" "eq" (.str pattern)) ::
          rest).filterMap id) st := by
    intro rest st hrest
    refine @Folds.option _ _ _ _ _ ⟨selector.id, none, none, none⟩ _ _ _ ?_ (fun h => ?_) ?_
    · intro a ha k
      obtain ⟨urn, hurn, rfl⟩ := Option.map_eq_some_iff.1 ha
      obtain ⟨s, hs⟩ := hid urn hurn
      simp [refine, triple_constraint, Urn.parse_toString hs, unlessTwice, hurn, Except.toOption,
        bind, Except.bind]
    · rw [Option.map_eq_none_iff.1 h]
    refine @Folds.option _ _ _ _ _ ⟨selector.id, selector.idPattern, none, none⟩ _ _ _ ?_
      (fun h => ?_) hrest
    · intro a ha k
      obtain ⟨pattern, hpattern, rfl⟩ := Option.map_eq_some_iff.1 ha
      simp [refine, triple_constraint, once, hpattern, bind, Except.bind, pure, Except.pure]
    · rw [Option.map_eq_none_iff.1 h]
  unfold refinements
  split_ifs with hattrs
  · simp only [Bool.and_eq_true, Bool.not_eq_true', beq_iff_eq] at hattrs
    obtain ⟨hsome, hsame⟩ := hattrs
    refine ⟨some info.propertyNames, some info.propertyNames, hfirst ?_, rfl, hsame⟩
    refine Folds.option (fun a ha k => ?_) (fun h => ?_) Folds.nil
    · simp only [names, hsome, Bool.false_eq_true, if_false, Option.some.injEq] at ha
      subst ha
      simp [refine, triple_constraint, nameList_texts, unlessTwice, bind, Except.bind]
    · simp [names, hsome] at h
  · have hlisted : ∀ (left : String) (items : List String) (a : Value),
        names left items = some a → a = constraint left "isAnyOf" (texts items) ∧ items ≠ [] := by
      intro left items a ha
      unfold names at ha
      split_ifs at ha with hempty
      exact ⟨(Option.some.inj ha).symm, by simpa using hempty⟩
    have hunlisted : ∀ (left : String) (items : List String),
        names left items = none → items = [] := by
      intro left items h
      unfold names at h
      split_ifs at h with hempty
      simpa using hempty
    let listed (items : List String) : Option (List String) :=
      if items = [] then none else some items
    have hgetD : ∀ items : List String, (listed items).getD [] = items := by
      intro items
      by_cases h : items = [] <;> simp [listed, h]
    refine ⟨listed info.propertyNames, listed info.relationshipNames, hfirst ?_, hgetD _, hgetD _⟩
    refine @Folds.option _ _ _ _ _ ⟨selector.id, selector.idPattern, listed info.propertyNames, none⟩ _ _ _
      (fun a ha k => ?_) (fun h => ?_) ?_
    · obtain ⟨rfl, hne⟩ := hlisted _ _ a ha
      simp [refine, triple_constraint, nameList_texts, unlessTwice, listed, hne, bind, Except.bind]
    · simp [listed, hunlisted _ _ h]
    refine Folds.option (fun a ha k => ?_) (fun h => ?_) Folds.nil
    · obtain ⟨rfl, hne⟩ := hlisted _ _ a ha
      simp [refine, triple_constraint, nameList_texts, unlessTwice, listed, hne, bind, Except.bind]
    · simp [listed, hunlisted _ _ h]

theorem asset_target {selector : EntitySelector} {info : RegistrationInfo} (part : Option String)
    (path : String) (hid : IdRead selector) :
    asset (target selector info part) path =
      .ok ⟨selector, info.propertyNames, info.relationshipNames, part⟩ := by
  obtain ⟨properties, relationships, hfolds, hproperties, hrelationships⟩ :=
    @folds_refinements _ info (path ++ ".refinement") hid
  have hnodup : ([("@type", some (Value.str "ngsi-ld:EntityType")), ("partOf", part.map .str),
      ("refinement", unlessNone (refinements selector info)),
      ("uid", some (.str selector.entityType))].map Prod.fst).Nodup := by
    simp
  have hpart : partOfTarget (part.map .str) path = .ok part := by
    rcases part with _ | part <;> rfl
  have hlist : list (unlessNone (refinements selector info)) (path ++ ".refinement") =
      .ok (refinements selector info) := list_unlessNone _ _
  unfold asset target object
  simp only [@closed_present [("@type", some (Value.str "ngsi-ld:EntityType")),
      ("partOf", part.map .str), ("refinement", unlessNone (refinements selector info)),
      ("uid", some (.str selector.entityType))] ["@type", "uid", "refinement", "partOf"] path
      (by simp), lookup_present hnodup]
  simp [Assoc.lookup_cons, hpart, hlist, hfolds 0, hproperties, hrelationships, bind, Except.bind,
    pure, Except.pure]

end Targets

section Rules

variable {codecs : Codecs} {back : Instant → Instant}

/-- The selectors of a rule in the order they are rendered, or none for the rule itself. -/
def slots (rule : PolicySpec) : List (Option (EntitySelector × RegistrationInfo × Option String)) :=
  if rule.information.isEmpty then [none]
  else (rule.information.zipIdx 1).flatMap fun c => c.1.entities.map fun selector =>
    some (selector, c.1, partOf rule c.2)

theorem odrlRules_eq (rule : PolicySpec) : odrlRules codecs rule =
    (slots rule).map fun s => withTarget codecs rule (s.map fun x => target x.1 x.2.1 x.2.2) := by
  unfold odrlRules slots
  split_ifs
  · rfl
  · rw [List.map_flatMap]
    simp only [List.map_map, Function.comp_def, Option.map_some]

/-- What one rendered rule is read as. -/
def atomOf (back : Instant → Instant)
    (x : PolicySpec × Option (EntitySelector × RegistrationInfo × Option String)) :
    Grant × Option Target :=
  (grantOf x.1.toPolicyRule (readWindow back x.1.validity),
    x.2.map fun y => ⟨y.1, y.2.1.propertyNames, y.2.1.relationshipNames, y.2.2⟩)

/-- What makes a rule one that is read back. -/
structure Readable (codecs : Codecs) (back : Instant → Instant) (rule : PolicySpec) : Prop where
  assignee : rule.assignee.kind ≠ .organization ∧ Text.trim rule.assignee.id ≠ ""
  ids : ∀ info ∈ rule.information, ∀ e ∈ info.entities, IdRead e
  back : ∀ t ∈ bounds rule.validity,
    codecs.parseFromRfc3339 (codecs.toRfc3339Auto t) = some (back t)

theorem mem_slots {rule : PolicySpec} {x : EntitySelector × RegistrationInfo × Option String}
    (h : some x ∈ slots rule) : x.2.1 ∈ rule.information ∧ x.1 ∈ x.2.1.entities := by
  unfold slots at h
  split_ifs at h
  · simp at h
  · obtain ⟨c, hc, hx⟩ := List.mem_flatMap.1 h
    obtain ⟨selector, hselector, hx⟩ := List.mem_map.1 hx
    obtain rfl := Option.some.inj hx
    exact ⟨List.fst_mem_of_mem_zipIdx hc, hselector⟩

theorem withTarget_members (rule : PolicySpec) (t : Option Value) (path : String) :
    ∃ members, withTarget codecs rule t = .obj members ∧
      closed members ["action", "target", "assignee", "assigner", "constraint"] path = .ok () ∧
      members.lookup "assigner" = none ∧ members.lookup "assignee" = some (party rule.assignee) ∧
      members.lookup "action" = some (texts (rule.operations.map (fun o => "ngsi-ld:" ++ o.asStr) ++
        rule.actions.map fun a => "ngsi-ld:" ++ a.wire)) ∧
      members.lookup "constraint" = unlessNone (constraints codecs rule) ∧
      members.lookup "target" = t := by
  refine ⟨_, rfl, closed_present (by simp), ?_⟩
  simp only [lookup_present (l := [("action", _), ("assignee", _), ("constraint", _), ("target", t)])
    (by simp)]
  simp [Assoc.lookup_cons]

theorem odrlRule_withTarget {rule : PolicySpec} (h : Readable codecs back rule)
    {s : Option (EntitySelector × RegistrationInfo × Option String)} (hs : s ∈ slots rule)
    (path assigner : String) :
    odrlRule codecs (withTarget codecs rule (s.map fun x => target x.1 x.2.1 x.2.2)) path
      rule.effect assigner none = .ok (atomOf back (rule, s)) := by
  obtain ⟨members, hmembers, hclosed, hassigner, hassignee, haction, hconstraint, htarget⟩ :=
    @withTarget_members codecs rule (s.map fun x => target x.1 x.2.1 x.2.2) path
  have hfilters := filters_constraints rule
    ⟨rule.effect, rule.assignee, rule.operations, rule.actions, none, none, none, none, none⟩
    (path ++ ".constraint") (by simp) h.back
  rw [hmembers]
  simp only [odrlRule, hclosed, hassigner, hassignee, haction, hconstraint, htarget,
    principal_party _ h.assignee.1 h.assignee.2, actions_texts, hfilters, bind, Except.bind]
  rcases s with _ | x
  · rfl
  · obtain ⟨hinfo, he⟩ := mem_slots hs
    simp only [Option.map_some, asset_target x.2.2 _ (h.ids _ hinfo _ he)]
    rfl

/-- A bound that is not read back refuses each rule that carries it. -/
theorem odrlRule_ne_ok {rule : PolicySpec} {t : Instant} (ht : t ∈ bounds rule.validity)
    (hbad : codecs.parseFromRfc3339 (codecs.toRfc3339Auto t) = none) (target : Option Value)
    (path assigner : String) (effect : PolicyEffect) (fallback : Option Principal)
    (atom : Grant × Option Target) :
    odrlRule codecs (withTarget codecs rule target) path effect assigner fallback ≠ .ok atom := by
  intro h
  obtain ⟨members, hmembers, hclosed, hassigner, hassignee, haction, hconstraint, htarget⟩ :=
    @withTarget_members codecs rule target path
  rw [hmembers] at h
  simp only [odrlRule, hclosed, hassigner, hassignee, haction, hconstraint, htarget] at h
  simp only [Option.any_none, Bool.false_eq_true, if_false, bind_eq_ok] at h
  obtain ⟨-, -, assignee, -, granted, -, grant, hfilters, -⟩ := h
  exact filters_ne_ok rule _ grant _ ht hbad hfilters

end Rules

end JoinedContext.Odrl

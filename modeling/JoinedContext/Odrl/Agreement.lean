import JoinedContext.Odrl.RoundTrip

/-!
# What an imported policy permits

Every combination an import permits was read of one permission of the set. The reading and the
permission agree but for one case: attribute refinements that list no name permit no attribute,
and are read as no refinement.
-/

namespace JoinedContext.Odrl

section Refinements

/-- The left operands that list attribute names. -/
def ATTRIBUTE_OPERANDS : List String :=
  ["ngsi-ld:attrs", "ngsi-ld:propertyNames", "ngsi-ld:relationshipNames"]

/-- The attribute names a refinement lists, where it lists any. -/
def attributeList (refinement : Value) : Option (List String) :=
  if ((refinement.get "leftOperand").bind Value.asStr).any (· ∈ ATTRIBUTE_OPERANDS) then
    ((refinement.get "rightOperand").bind Value.asArray).bind fun names => names.mapM Value.asStr
  else none

/-- What each attribute refinement of an ODRL rule lists. -/
def attributeLists (rule : Value) : List (List String) :=
  match (rule.get "target").bind (Value.get "refinement") with
  | some (.arr items) => items.filterMap attributeList
  | _ => []

theorem triple_eq_ok {v : Value} {path left operator : String} {right : Value}
    (h : triple v path = .ok (left, operator, right)) :
    v.get "leftOperand" = some (.str left) ∧ v.get "rightOperand" = some right := by
  unfold triple at h
  split at h
  · rename_i members
    rw [andThen_eq_ok] at h
    obtain ⟨-, h⟩ := h
    split at h
    · rename_i l o r hl ho hr
      obtain ⟨rfl, rfl, rfl⟩ := Except.ok.inj h
      obtain ⟨v, hv, hstr⟩ := Option.bind_eq_some_iff.1 hl
      rcases v with _ | _ | _ | s | _ | _ <;> simp [Value.asStr] at hstr
      exact ⟨hstr ▸ hv, hr⟩
    · cases h
  · cases h

/-- The names a target has been refined to so far. -/
def Refined.names (st : Refined) : List String :=
  st.properties.getD [] ++ st.relationships.getD []

theorem unlessTwice_eq_ok {α : Type} {twice : Bool} {path : String} {value value' : α} :
    unlessTwice twice path value = .ok value' ↔ twice = false ∧ value = value' := by
  cases twice <;> simp [unlessTwice, refuse]

theorem refine_names {path : String} {st st' : Refined} {x : Value × Nat}
    (h : refine path st x = .ok st') (n : String) :
    n ∈ st'.names ↔ n ∈ st.names ∨ n ∈ ((attributeList x.1).getD []) := by
  unfold refine at h
  obtain ⟨⟨left, operator, right⟩, htriple, h⟩ := bind_eq_ok.1 h
  obtain ⟨hleft, hright⟩ := triple_eq_ok htriple
  have hlist : ∀ {names : List String} {path : String}, nameList right path = .ok names →
      left ∈ ATTRIBUTE_OPERANDS → attributeList x.1 = some names := by
    intro names path hnames hoperand
    unfold nameList at hnames
    split at hnames
    · rename_i listed hlisted
      obtain rfl := Except.ok.inj hnames
      simp only [attributeList, hleft, hright, Option.bind_some, Value.asStr_str, Option.any_some,
        hoperand, decide_true, if_true]
      exact hlisted
    · cases hnames
  have hother : left ∉ ATTRIBUTE_OPERANDS → attributeList x.1 = none := by
    intro hoperand
    simp only [attributeList, hleft, Option.bind_some, Value.asStr_str, Option.any_some, hoperand,
      decide_false, Bool.false_eq_true, if_false]
  simp only at h
  split_ifs at h with hid hpattern hattrs hprops hrels hknown
  · obtain ⟨rfl, -⟩ := hid
    rw [hother (by decide)]
    split at h
    · cases h
    · obtain ⟨-, rfl⟩ := unlessTwice_eq_ok.1 h
      simp [Refined.names]
  · obtain ⟨rfl, -⟩ := hpattern
    rw [hother (by decide)]
    obtain ⟨pattern, -, h⟩ := bind_eq_ok.1 h
    obtain rfl := Except.ok.inj h
    simp [Refined.names]
  · obtain ⟨rfl, -⟩ := hattrs
    obtain ⟨names, hnames, h⟩ := bind_eq_ok.1 h
    rw [hlist hnames (by decide)]
    obtain ⟨htwice, rfl⟩ := unlessTwice_eq_ok.1 h
    simp only [Bool.or_eq_false_iff, Option.isSome_eq_false_iff, Option.isNone_iff_eq_none] at htwice
    simp [Refined.names, htwice.1, htwice.2]
  · obtain ⟨rfl, -⟩ := hprops
    obtain ⟨names, hnames, h⟩ := bind_eq_ok.1 h
    rw [hlist hnames (by decide)]
    obtain ⟨htwice, rfl⟩ := unlessTwice_eq_ok.1 h
    rw [Option.isSome_eq_false_iff, Option.isNone_iff_eq_none] at htwice
    simp [Refined.names, htwice, or_comm]
  · obtain ⟨rfl, -⟩ := hrels
    obtain ⟨names, hnames, h⟩ := bind_eq_ok.1 h
    rw [hlist hnames (by decide)]
    obtain ⟨htwice, rfl⟩ := unlessTwice_eq_ok.1 h
    rw [Option.isSome_eq_false_iff, Option.isNone_iff_eq_none] at htwice
    simp [Refined.names, htwice]
  · cases h
  · cases h

theorem foldlM_refine_names {path : String} (n : String) :
    ∀ {items : List Value} {k : Nat} {st st' : Refined},
      (items.zipIdx k).foldlM (refine path) st = .ok st' →
        (n ∈ st'.names ↔ n ∈ st.names ∨ n ∈ (items.filterMap attributeList).flatten)
  | [], k, st, st', h => by
    obtain rfl := Except.ok.inj h
    simp
  | v :: items, k, st, st', h => by
    rw [List.zipIdx_cons, List.foldlM_cons, bind_eq_ok] at h
    obtain ⟨next, hstep, hrest⟩ := h
    rw [foldlM_refine_names n hrest, refine_names hstep n, or_assoc]
    refine or_congr_right ?_
    rcases hv : attributeList v with _ | names <;> simp [hv]

/-- A target has the attribute names its refinements list. -/
theorem asset_names {rule value : Value} {path : String} {t : Target}
    (hrule : rule.get "target" = some value) (h : asset value path = .ok t) (n : String) :
    n ∈ t.properties ++ t.relationships ↔ n ∈ (attributeLists rule).flatten := by
  unfold asset at h
  split at h
  · rename_i members
    rw [andThen_eq_ok] at h
    obtain ⟨-, h⟩ := h
    split_ifs at h with htype
    · cases h
    · split at h
      · cases h
      · obtain ⟨part, -, h⟩ := bind_eq_ok.1 h
        obtain ⟨items, hitems, h⟩ := bind_eq_ok.1 h
        obtain ⟨refined, hrefined, h⟩ := bind_eq_ok.1 h
        obtain rfl := Except.ok.inj h
        have hlists : attributeLists rule = items.filterMap attributeList := by
          unfold attributeLists
          rw [hrule, Option.bind_some, Value.get_obj]
          unfold list at hitems
          split at hitems
          · rename_i hnone
            obtain rfl := Except.ok.inj hitems
            rw [hnone]
            rfl
          · rename_i listed hlisted
            obtain rfl := Except.ok.inj hitems
            rw [hlisted]
          · cases hitems
        rw [hlists]
        have hnames := foldlM_refine_names n hrefined
        simpa [Refined.names] using hnames
  · cases h

end Refinements

section Permissions

variable {codecs : Codecs}

theorem filter_effect {path : String} {st st' : Filtered} {x : Value × Nat}
    (h : filter codecs path st x = .ok st') : st'.grant.effect = st.grant.effect := by
  have hkeep : ∀ {α : Type} {o : Out α} {f : α → Filtered}, (o >>= fun a => pure (f a)) = .ok st' →
      (∀ a, (f a).grant.effect = st.grant.effect) → st'.grant.effect = st.grant.effect := by
    intro α o f hbind heffect
    obtain ⟨a, -, ha⟩ := bind_eq_ok.1 hbind
    rw [← Except.ok.inj ha]
    exact heffect a
  unfold filter at h
  obtain ⟨⟨left, operator, right⟩, -, h⟩ := bind_eq_ok.1 h
  simp only at h
  split_ifs at h with hq hscope hgeo heq htemporal hafter hbefore hvalidity hknown
  · exact hkeep h fun _ => rfl
  · exact hkeep h fun _ => rfl
  · exact hkeep h fun _ => rfl
  · obtain ⟨text, -, h⟩ := bind_eq_ok.1 h
    exact hkeep h fun _ => rfl
  · exact hkeep h fun _ => rfl
  · exact hkeep h fun _ => rfl
  · exact hkeep h fun _ => rfl
  · exact hkeep h fun _ => rfl
  · cases h
  · cases h

theorem filters_effect {path : String} {grant g : Grant} {value : Option Value}
    (h : filters codecs grant value path = .ok g) : g.effect = grant.effect := by
  have hfold : ∀ {items : List (Value × Nat)} {st st' : Filtered},
      items.foldlM (filter codecs path) st = .ok st' → st'.grant.effect = st.grant.effect := by
    intro items
    induction items with
    | nil =>
      intro st st' hst
      rw [← Except.ok.inj hst]
    | cons x items ih =>
      intro st st' hst
      rw [List.foldlM_cons, bind_eq_ok] at hst
      obtain ⟨next, hnext, hrest⟩ := hst
      rw [ih hrest, filter_effect hnext]
  unfold filters at h
  obtain ⟨items, -, h⟩ := bind_eq_ok.1 h
  obtain ⟨st, hst, h⟩ := bind_eq_ok.1 h
  have heffect := hfold hst
  split at h
  · obtain ⟨temporalQ, -, h⟩ := bind_eq_ok.1 h
    rw [← Except.ok.inj h]
    exact heffect
  · rw [← Except.ok.inj h]
    exact heffect

/-- The effect of a rule is that of the member it stands under, its target the one it names. -/
theorem odrlRule_spec {rule : Value} {path assigner : String} {effect : PolicyEffect}
    {fallback : Option Principal} {grant : Grant} {target : Option Target}
    (h : odrlRule codecs rule path effect assigner fallback = .ok (grant, target)) :
    grant.effect = effect ∧ (target = none → rule.get "target" = none) ∧
      ∀ t, target = some t → ∃ value, rule.get "target" = some value ∧
        asset value (path ++ ".target") = .ok t := by
  unfold odrlRule at h
  split at h
  · rename_i members
    rw [andThen_eq_ok] at h
    obtain ⟨-, h⟩ := h
    split_ifs at h with hassigner
    · cases h
    · simp only at h
      split at h
      all_goals
        obtain ⟨assignee, -, h⟩ := bind_eq_ok.1 h
        obtain ⟨⟨operations, platform⟩, -, h⟩ := bind_eq_ok.1 h
        obtain ⟨g, hfilters, h⟩ := bind_eq_ok.1 h
        have heffect := filters_effect hfilters
        split at h
        · rename_i value htarget
          obtain ⟨t, ht, h⟩ := bind_eq_ok.1 h
          obtain ⟨t, hasset, rfl⟩ := map_eq_ok.1 ht
          obtain ⟨rfl, rfl⟩ := Prod.mk.inj (Except.ok.inj h)
          refine ⟨heffect, fun h => (Option.some_ne_none _ h).elim,
            fun t' hsome => ⟨value, htarget, ?_⟩⟩
          rw [← Option.some.inj hsome]
          exact hasset
        · rename_i htarget
          obtain ⟨t, ht, h⟩ := bind_eq_ok.1 h
          obtain rfl := Except.ok.inj ht
          obtain ⟨rfl, rfl⟩ := Prod.mk.inj (Except.ok.inj h)
          exact ⟨heffect, fun _ => htarget, fun t hsome => (Option.some_ne_none t hsome.symm).elim⟩
  · cases h

/-- The permissions of a set, each with its number. -/
def permissionsOf (set : List (String × Value)) : List (Value × Nat) :=
  match set.lookup "permission" with
  | some (.arr rules) => rules.zipIdx
  | _ => []

/-- Whether a place keeps to what attribute refinements list, where there are any. -/
def Confines (lists : List (List String)) (place : Place) : Prop :=
  lists = [] ∨ place.properties ++ place.relationships ≠ [] ∧
    ∀ n ∈ place.properties ++ place.relationships, n ∈ lists.flatten

/-- Whether a permission of a set is read as one that covers a combination. -/
def Reads (codecs : Codecs) (set : List (String × Value)) (x : Value × Nat) (c : Combination) :
    Prop :=
  ∃ assigner fallback grant target, frame set = .ok (assigner, fallback) ∧
    odrlRule codecs x.1 (item "permission" x.2) .permission assigner fallback =
      .ok (grant, target) ∧ grant.Covers c ∧ placeOf target = c.place

/-- Whether a permission of a set permits a combination: it is read as that, and the attributes are
among those its refinements list. -/
def Permits (codecs : Codecs) (set : List (String × Value)) (x : Value × Nat) (c : Combination) :
    Prop :=
  Reads codecs set x c ∧ Confines (attributeLists x.1) c.place

/-- Whether a rule has attribute refinements and none of them lists a name. -/
def Vacuous (rule : Value) : Prop := attributeLists rule ≠ [] ∧ (attributeLists rule).flatten = []

theorem confines_iff {rule : Value} {path assigner : String} {effect : PolicyEffect}
    {fallback : Option Principal} {grant : Grant} {target : Option Target}
    (h : odrlRule codecs rule path effect assigner fallback = .ok (grant, target)) :
    Confines (attributeLists rule) (placeOf target) ↔ ¬ Vacuous rule := by
  obtain ⟨-, hnone, hsome⟩ := odrlRule_spec h
  rcases target with _ | t
  · have hlists : attributeLists rule = [] := by simp [attributeLists, hnone rfl]
    simp [Confines, Vacuous, hlists]
  · obtain ⟨value, hvalue, hasset⟩ := hsome t rfl
    have hnames := asset_names hvalue hasset
    have hempty : t.properties ++ t.relationships = [] ↔ (attributeLists rule).flatten = [] := by
      simp only [List.eq_nil_iff_forall_not_mem, hnames]
    unfold Confines Vacuous placeOf
    simp only [ne_eq, hempty, hnames]
    tauto

theorem effect_of_mem_rulesUnder {set : List (String × Value)} {key assigner : String} {effect : PolicyEffect}
    {fallback : Option Principal} {read : List (Grant × Option Target)}
    (h : rulesUnder codecs set key effect assigner fallback = .ok read) :
    ∀ atom ∈ read, atom.1.effect = effect := by
  unfold rulesUnder at h
  obtain ⟨rules, -, h⟩ := bind_eq_ok.1 h
  intro atom hatom
  obtain ⟨x, -, hx⟩ := (mem_of_mapM h).1 atom hatom
  exact (odrlRule_spec hx).1

theorem mem_permissions {set : List (String × Value)} {assigner : String}
    {fallback : Option Principal} {read : List (Grant × Option Target)}
    (h : rulesUnder codecs set "permission" .permission assigner fallback = .ok read) :
    (∀ atom ∈ read, ∃ x ∈ permissionsOf set,
      odrlRule codecs x.1 (item "permission" x.2) .permission assigner fallback = .ok atom) ∧
      ∀ x ∈ permissionsOf set, ∃ atom ∈ read,
        odrlRule codecs x.1 (item "permission" x.2) .permission assigner fallback = .ok atom := by
  unfold rulesUnder at h
  obtain ⟨rules, hrules, h⟩ := bind_eq_ok.1 h
  have hpermissions : permissionsOf set = rules.zipIdx := by
    unfold list at hrules
    unfold permissionsOf
    split at hrules
    · rename_i hnone
      obtain rfl := Except.ok.inj hrules
      rw [hnone]
      rfl
    · rename_i items hitems
      obtain rfl := Except.ok.inj hrules
      rw [hitems]
    · cases hrules
  rw [hpermissions]
  exact mem_of_mapM h

/-- What an imported policy permits was read of one permission. -/
theorem says_permission_iff {set : List (String × Value)} {given : Names} {policy : Policy}
    (h : importDocument codecs (.obj set) given = .ok policy) {c : Combination}
    (hc : c.effect = .permission) :
    policy.Says c ↔ ∃ x ∈ permissionsOf set, Reads codecs set x c := by
  unfold importDocument at h
  obtain ⟨⟨assigner, fallback⟩, hframe, h⟩ := bind_eq_ok.1 h
  obtain ⟨⟨project, space, name⟩, -, h⟩ := bind_eq_ok.1 h
  obtain ⟨read, hread, h⟩ := bind_eq_ok.1 h
  have hassembled : assembled codecs.toCrates read assigner project space name = .ok policy := h
  rw [says_of_assembled hassembled]
  unfold rulesOf at hread
  obtain ⟨permissions, hpermissions, hread⟩ := bind_eq_ok.1 hread
  obtain ⟨prohibitions, hprohibitions, hread⟩ := bind_eq_ok.1 hread
  obtain rfl := Except.ok.inj hread
  obtain ⟨hback, hforth⟩ := mem_permissions hpermissions
  constructor
  · rintro ⟨atom, hatom, hcovers, hplace⟩
    rcases List.mem_append.1 hatom with hatom | hatom
    · obtain ⟨x, hx, hrule⟩ := hback atom hatom
      exact ⟨x, hx, assigner, fallback, atom.1, atom.2, hframe, hrule, hcovers, hplace⟩
    · have heffect := effect_of_mem_rulesUnder hprohibitions atom hatom
      rw [← hcovers.1, hc] at heffect
      cases heffect
  · rintro ⟨x, hx, assigner', fallback', grant, target, hframe', hrule, hcovers, hplace⟩
    obtain ⟨rfl, rfl⟩ := Prod.mk.inj (Except.ok.inj (hframe.symm.trans hframe'))
    obtain ⟨atom, hatom, hrule'⟩ := hforth x hx
    obtain rfl := Except.ok.inj (hrule'.symm.trans hrule)
    exact ⟨_, List.mem_append_left _ hatom, hcovers, hplace⟩

/-- A permission that is read permits what is read of it exactly when its attribute refinements list
a name, where it has any. -/
theorem permits_iff {set : List (String × Value)} {x : Value × Nat} {c : Combination} :
    Permits codecs set x c ↔ Reads codecs set x c ∧ ¬ Vacuous x.1 := by
  unfold Permits
  refine and_congr_right ?_
  rintro ⟨assigner, fallback, grant, target, -, hrule, -, hplace⟩
  rw [← hplace]
  exact confines_iff hrule

/-- An imported policy permits only what one permission of the set permits, exactly when whatever is
read of a permission whose attribute refinements list no name is permitted by another. -/
theorem import_permits_iff {set : List (String × Value)} {given : Names} {policy : Policy}
    (h : importDocument codecs (.obj set) given = .ok policy) :
    (∀ c, c.effect = .permission → policy.Says c → ∃ x ∈ permissionsOf set, Permits codecs set x c) ↔
      ∀ x ∈ permissionsOf set, Vacuous x.1 → ∀ c, Reads codecs set x c →
        ∃ other ∈ permissionsOf set, Permits codecs set other c := by
  have heffect : ∀ {x : Value × Nat} {c : Combination}, Reads codecs set x c →
      c.effect = .permission := by
    rintro x c ⟨assigner, fallback, grant, target, -, hrule, hcovers, -⟩
    rw [hcovers.1]
    exact (odrlRule_spec hrule).1
  constructor
  · intro hsaid x hx _ c hreads
    exact hsaid c (heffect hreads) ((says_permission_iff h (heffect hreads)).2 ⟨x, hx, hreads⟩)
  · intro hvacuous c hc hsaid
    obtain ⟨x, hx, hreads⟩ := (says_permission_iff h hc).1 hsaid
    by_cases hempty : Vacuous x.1
    · exact hvacuous x hx hempty c hreads
    · exact ⟨x, hx, permits_iff.2 ⟨hreads, hempty⟩⟩

end Permissions

section Agreement

/-- An export and its import agree, and an import permits what one permission permits, exactly on
these conditions: the validity is read back and each entry without entities is accounted for, and
what is read of a permission whose attribute refinements list no name, another permits. -/
theorem odrl_agrees_iff (codecs : Codecs) :
    (∀ (policy : Policy) (set : Value), policy.Exportable codecs → render codecs policy = .ok set →
      ((∃ imported, importDocument codecs set {} = .ok imported ∧
        ∀ c, imported.Says c ↔ policy.Says c) ↔ policy.BoundsReadBack codecs ∧ policy.Accounted)) ∧
      ∀ (set : List (String × Value)) (given : Names) (policy : Policy),
        importDocument codecs (.obj set) given = .ok policy →
          ((∀ c, c.effect = .permission → policy.Says c →
            ∃ x ∈ permissionsOf set, Permits codecs set x c) ↔
            ∀ x ∈ permissionsOf set, Vacuous x.1 → ∀ c, Reads codecs set x c →
              ∃ other ∈ permissionsOf set, Permits codecs set other c) :=
  ⟨fun _ _ h hrender => export_agrees_iff h hrender, fun _ _ _ h => import_permits_iff h⟩

/-- Codecs that read nothing. -/
def bareCodecs : Codecs where
  toCrates := bareCrates
  toRfc3339Auto _ := ""
  printJson _ := ""

def publicQuery (effect : PolicyEffect) (information : List RegistrationInfo) : PolicyRule :=
  ⟨effect, ⟨.role, "public"⟩, [.single .queryEntity], [], information, none, none, none, none⟩

/-- Everyone queries sensors. -/
def openSensors : Policy :=
  ⟨"joinedcontext.com/v1alpha1", "open", some "hel",
    { publicQuery .permission [⟨[⟨"Sensor", none, none⟩], [], [], []⟩] with
      contextSpaceRef := .typed "ContextSpace" "air" none
      assigner := "did:web:hel.fi"
      rules := none
      validity := none }⟩

/-- Everyone queries sensors, and nobody anything: the entry of the prohibition names no entity. -/
def shutSensors : Policy :=
  ⟨"joinedcontext.com/v1alpha1", "open", some "hel",
    { emptyRule with
      contextSpaceRef := .typed "ContextSpace" "air" none
      assigner := "did:web:hel.fi"
      rules := some [publicQuery .permission [⟨[⟨"Sensor", none, none⟩], [], [], []⟩],
        publicQuery .prohibition [⟨[], [], [], []⟩]]
      validity := none }⟩

/-- A set that permits everyone to query sensors, refined as given. -/
def sensorSet (refinement : List Value) : List (String × Value) :=
  [("@context", texts CONTEXTS), ("@type", .str "Set"), ("assigner", .str "did:web:hel.fi"),
    ("conflict", .str "prohibit"),
    ("permission", .arr [.obj [("action", texts ["ngsi-ld:queryEntity"]),
      ("assignee", .obj [("@type", .str "ngsi-ld:Role"), ("uid", .str "public")]),
      ("target", object [("@type", some (.str "ngsi-ld:EntityType")),
        ("refinement", unlessNone refinement), ("uid", some (.str "Sensor"))])]]),
    ("uid", .str "urn:joinedcontext:policy:hel:air:open")]

/-- A policy over one type comes back as it was, and its set permits no more. -/
theorem open_sensors_agree :
    (∃ imported, importDocument bareCodecs (.obj (sensorSet [])) {} = .ok imported ∧
      ∀ c, imported.Says c ↔ openSensors.Says c) ∧
      ∀ c, c.effect = .permission → openSensors.Says c →
        ∃ x ∈ permissionsOf (sensorSet []), Permits bareCodecs (sensorSet []) x c := by
  obtain ⟨hexport, himport⟩ := odrl_agrees_iff bareCodecs
  constructor
  · refine (hexport openSensors _ ⟨rfl, ?_⟩ rfl).2 ⟨?_, ?_⟩
    · intro rule hrule info hinfo e he
      obtain rfl := List.mem_singleton.1 hrule
      obtain rfl := List.mem_singleton.1 hinfo
      obtain rfl := List.mem_singleton.1 he
      intro id hid
      cases hid
    · intro t ht
      cases ht
    · rintro c ⟨rule, hrule, -, info, hinfo, hempty, -⟩
      obtain rfl := List.mem_singleton.1 hrule
      obtain rfl := List.mem_singleton.1 hinfo
      cases hempty
  · refine (himport (sensorSet []) {} openSensors rfl).2 ?_
    intro x hx hvacuous
    obtain rfl := List.mem_singleton.1 hx
    exact absurd rfl hvacuous.1

/-- An exported prohibition is not there when it is imported, and a permission of no attribute is
imported as one of all. -/
theorem shut_sensors_are_opened :
    (shutSensors.validate bareCrates = .ok () ∧
      render bareCodecs shutSensors = .ok (.obj (sensorSet [])) ∧
      importDocument bareCodecs (.obj (sensorSet [])) {} = .ok openSensors ∧
      ∃ c, shutSensors.Says c ∧ ¬ openSensors.Says c) ∧
      ∃ set, importDocument bareCodecs (.obj set) {} = .ok openSensors ∧
        ∃ c, c.effect = .permission ∧ openSensors.Says c ∧
          ¬ ∃ x ∈ permissionsOf set, Permits bareCodecs set x c := by
  refine ⟨⟨rfl, rfl, rfl, ?_⟩, ?_⟩
  · refine ⟨⟨.prohibition, ⟨.role, "public"⟩, .inl .queryEntity, everywhere, none, none, none, none,
      none, none⟩, ?_, ?_⟩
    · exact ⟨publicQuery .prohibition [⟨[], [], [], []⟩], List.mem_cons_of_mem _ List.mem_cons_self,
        ⟨rfl, rfl, List.mem_cons_self, rfl, rfl, rfl, rfl, rfl, rfl⟩, List.mem_cons_self⟩
    · rintro ⟨rule, hrule, ⟨heffect, -⟩, -⟩
      obtain rfl := List.mem_singleton.1 hrule
      cases heffect
  · refine ⟨sensorSet [constraint "ngsi-ld:propertyNames" "isAnyOf" (.arr [])], rfl,
      ⟨.permission, ⟨.role, "public"⟩, .inl .queryEntity, ⟨some ⟨"Sensor", none, none⟩, [], []⟩,
      none, none, none, none, none, none⟩, rfl, ?_, ?_⟩
    · exact ⟨_, List.mem_cons_self, ⟨rfl, rfl, List.mem_cons_self, rfl, rfl, rfl, rfl, rfl, rfl⟩,
        List.mem_cons_self⟩
    · rintro ⟨x, hx, -, hlists | ⟨hnames, -⟩⟩
      · obtain rfl := List.mem_singleton.1 hx
        cases hlists
      · exact hnames rfl

end Agreement

end JoinedContext.Odrl

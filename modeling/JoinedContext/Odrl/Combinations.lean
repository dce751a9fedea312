import JoinedContext.Odrl.Import

/-!
# What a policy permits and prohibits

The combinations of a policy: who, which operation, which entity selector and attributes, under
which filters and validity. An entry that names no entity, like a rule without entries, is about
every entity. `regroup` keeps the combinations of the rules it regroups.
-/

namespace JoinedContext.Odrl

/-- An entity selector, none for every entity, with the attribute names beside it. -/
structure Place where
  selector : Option EntitySelector
  properties : List String
  relationships : List String
  deriving DecidableEq

structure Combination where
  effect : PolicyEffect
  assignee : Principal
  capability : Operation ⊕ PlatformAction
  place : Place
  q : Option String
  scopeQ : Option String
  geoQ : Option String
  temporalQ : Option String
  validFrom : Option Instant
  validTo : Option Instant

def operationsOf : OperationRef → List Operation
  | .single op => [op]
  | .group group => group.operations

def capabilities (operations : List OperationRef) (actions : List PlatformAction) :
    List (Operation ⊕ PlatformAction) :=
  (operations.flatMap operationsOf).map .inl ++ actions.map .inr

def everywhere : Place := ⟨none, [], []⟩

/-- What an entry is about. -/
def placesOf (info : RegistrationInfo) : List Place :=
  if info.entities.isEmpty then [⟨none, info.propertyNames, info.relationshipNames⟩]
  else info.entities.map fun e => ⟨some e, info.propertyNames, info.relationshipNames⟩

def places (information : List RegistrationInfo) : List Place :=
  if information.isEmpty then [everywhere] else information.flatMap placesOf

/-- Whether a combination is one of a grant, apart from its place. -/
def Grant.Covers (g : Grant) (c : Combination) : Prop :=
  c.effect = g.effect ∧ c.assignee = g.assignee ∧
    c.capability ∈ capabilities g.operations g.actions ∧ c.q = g.q ∧ c.scopeQ = g.scopeQ ∧
    c.geoQ = g.geoQ ∧ c.temporalQ = g.temporalQ ∧
    c.validFrom = g.validity.bind Validity.fromAt ∧ c.validTo = g.validity.bind Validity.toAt

def grantOf (rule : PolicyRule) (validity : Option Validity) : Grant :=
  ⟨rule.effect, rule.assignee, rule.operations, rule.actions, rule.q, rule.scopeQ, rule.geoQ,
    rule.temporalQ, validity⟩

/-- The rules of a spec, in either shape. -/
def PolicySpec.ruleList (spec : PolicySpec) : List PolicyRule :=
  spec.rules.getD [spec.toPolicyRule]

/-- Whether a policy permits, or prohibits, a combination. -/
def Policy.Says (policy : Policy) (c : Combination) : Prop :=
  ∃ rule ∈ policy.spec.ruleList,
    (grantOf rule policy.spec.validity).Covers c ∧ c.place ∈ places rule.information

/-- The place of one ODRL rule. -/
def placeOf : Option Target → Place
  | none => everywhere
  | some t => ⟨some t.selector, t.properties, t.relationships⟩

section Regroup

theorem mem_places_of_ne_nil {information : List RegistrationInfo} {p : Place}
    (h : information ≠ []) : p ∈ places information ↔ ∃ info ∈ information, p ∈ placesOf info := by
  unfold places
  rw [if_neg (by simpa using h), List.mem_flatMap]

theorem places_nil : places [] = [everywhere] := rfl

theorem mem_places_reverse {information : List RegistrationInfo} {p : Place} :
    p ∈ places information.reverse ↔ p ∈ places information := by
  by_cases h : information = []
  · rw [h]
    rfl
  · rw [mem_places_of_ne_nil h, mem_places_of_ne_nil (by simpa using h)]
    simp only [List.mem_reverse]

theorem mem_placesOf_of_ne_nil {info : RegistrationInfo} {p : Place} (h : info.entities ≠ []) :
    p ∈ placesOf info ↔
      ∃ e ∈ info.entities, p = ⟨some e, info.propertyNames, info.relationshipNames⟩ := by
  unfold placesOf
  rw [if_neg (by simpa using h), List.mem_map]
  simp only [eq_comm]

/-- What an import writes of an entry: it has entities and no attribute capabilities. -/
def Plain (info : RegistrationInfo) : Prop := info.entities ≠ [] ∧ info.attributes = []

theorem add_spec (entries : List RegistrationInfo) (part : Option String) (t : Target)
    (h : ∀ info ∈ entries, Plain info) :
    (∀ info ∈ add entries part t, Plain info) ∧ add entries part t ≠ [] ∧
      ∀ p, (∃ info ∈ add entries part t, p ∈ placesOf info) ↔
        p = placeOf (some t) ∨ ∃ info ∈ entries, p ∈ placesOf info := by
  have hentry : Plain ⟨[t.selector], t.properties, t.relationships, []⟩ := ⟨by simp, rfl⟩
  have hplace : ∀ p, p ∈ placesOf ⟨[t.selector], t.properties, t.relationships, []⟩ ↔
      p = placeOf (some t) := fun p => by simp [placesOf, placeOf]
  unfold add
  rcases entries with _ | ⟨info, rest⟩
  · refine ⟨?_, by simp, fun p => ?_⟩
    · simpa using hentry
    · simpa using hplace p
  · obtain ⟨hinfo, hrest⟩ := List.forall_mem_cons.1 h
    simp only
    split_ifs with hjoin
    · obtain ⟨-, hprops, hrels⟩ := hjoin
      refine ⟨List.forall_mem_cons.2 ⟨⟨by simp, hinfo.2⟩, hrest⟩, by simp, fun p => ?_⟩
      have hjoined : p ∈ placesOf { info with entities := info.entities ++ [t.selector] } ↔
          p = placeOf (some t) ∨ p ∈ placesOf info := by
        rw [mem_placesOf_of_ne_nil (by simp), mem_placesOf_of_ne_nil hinfo.1]
        simp only [List.mem_append, List.mem_singleton, placeOf, ← hprops, ← hrels]
        constructor
        · rintro ⟨e, he | rfl, hp⟩
          · exact Or.inr ⟨e, he, hp⟩
          · exact Or.inl hp
        · rintro (hp | ⟨e, he, hp⟩)
          · exact ⟨t.selector, Or.inr rfl, hp⟩
          · exact ⟨e, Or.inl he, hp⟩
      rw [List.exists_mem_cons_iff, List.exists_mem_cons_iff, hjoined, or_assoc]
    · refine ⟨List.forall_mem_cons.2 ⟨hentry, h⟩, by simp, fun p => ?_⟩
      rw [List.exists_mem_cons_iff, hplace]

/-- Whether a grant of a list is over a place. -/
def Over (grants : List (Grant × List RegistrationInfo)) (g : Grant) (p : Place) : Prop :=
  ∃ x ∈ grants, x.1 = g ∧ p ∈ places x.2

def ungrouped (grants : List Grouped) : List (Grant × List RegistrationInfo) :=
  grants.map fun g => (g.grant, g.entries)

theorem regroupStep_spec (grants : List Grouped) (rule : Grant × Option Target)
    (h : ∀ x ∈ grants, ∀ info ∈ x.entries, Plain info) :
    (∀ x ∈ regroupStep grants rule, ∀ info ∈ x.entries, Plain info) ∧
      ∀ g p, Over (ungrouped (regroupStep grants rule)) g p ↔
        (rule.1 = g ∧ placeOf rule.2 = p) ∨ Over (ungrouped grants) g p := by
  obtain ⟨grant, target⟩ := rule
  have hnil := fun t : Target => add_spec [] none t (by simp)
  rcases target with _ | t
  · have hstep : regroupStep grants (grant, none) = ⟨grant, [], none⟩ :: grants := by
      rcases grants with _ | ⟨x, rest⟩ <;> rfl
    rw [hstep]
    refine ⟨List.forall_mem_cons.2 ⟨by simp, h⟩, fun g p => ?_⟩
    simp only [Over, ungrouped, List.map_cons, List.exists_mem_cons_iff, places_nil,
      List.mem_singleton, placeOf, eq_comm (a := p)]
  · have hnew : ∀ rest : List Grouped, ∀ g p,
        Over (ungrouped (⟨grant, add [] none t, t.part⟩ :: rest)) g p ↔
          (grant = g ∧ placeOf (some t) = p) ∨ Over (ungrouped rest) g p := fun rest g p => by
      simp only [Over, ungrouped, List.map_cons, List.exists_mem_cons_iff]
      rw [mem_places_of_ne_nil (hnil t).2.1, (hnil t).2.2 p]
      simp [eq_comm]
    rcases grants with _ | ⟨last, rest⟩
    · refine ⟨?_, hnew []⟩
      intro x hx
      obtain rfl := List.mem_singleton.1 hx
      exact (hnil t).1
    · obtain ⟨hlast, hrest⟩ := List.forall_mem_cons.1 h
      simp only [regroupStep]
      split_ifs with hjoin
      · obtain ⟨rfl, hne⟩ := hjoin
        obtain ⟨hplain, hadd, hplaces⟩ := add_spec last.entries last.part t hlast
        refine ⟨List.forall_mem_cons.2 ⟨hplain, hrest⟩, fun g p => ?_⟩
        simp only [Over, ungrouped, List.map_cons, List.exists_mem_cons_iff]
        rw [mem_places_of_ne_nil hadd, hplaces p, mem_places_of_ne_nil hne, and_or_left, or_assoc,
          eq_comm (a := p)]
      · exact ⟨List.forall_mem_cons.2 ⟨(hnil t).1, h⟩, hnew (last :: rest)⟩

theorem foldl_regroupStep (g : Grant) (p : Place) : ∀ (rules : List (Grant × Option Target))
    (grants : List Grouped), (∀ x ∈ grants, ∀ info ∈ x.entries, Plain info) →
    (∀ x ∈ rules.foldl regroupStep grants, ∀ info ∈ x.entries, Plain info) ∧
      (Over (ungrouped (rules.foldl regroupStep grants)) g p ↔
        (∃ rule ∈ rules, rule.1 = g ∧ placeOf rule.2 = p) ∨ Over (ungrouped grants) g p)
  | [], grants, h => ⟨h, by simp⟩
  | rule :: rules, grants, h => by
    obtain ⟨hplain, hover⟩ := regroupStep_spec grants rule h
    obtain ⟨hplain', hover'⟩ := foldl_regroupStep g p rules _ hplain
    refine ⟨hplain', ?_⟩
    rw [List.foldl_cons, hover', hover, List.exists_mem_cons_iff, ← or_assoc]
    exact or_congr_left Or.comm

/-- What an import writes has entities in every entry and no attribute capabilities. -/
theorem plain_of_mem_regroup {rules : List (Grant × Option Target)}
    {x : Grant × List RegistrationInfo} (hx : x ∈ regroup rules) : ∀ info ∈ x.2, Plain info := by
  simp only [regroup, List.mem_reverse, List.mem_map] at hx
  obtain ⟨y, hy, rfl⟩ := hx
  intro info hinfo
  exact (foldl_regroupStep y.grant everywhere rules [] (by simp)).1 y hy info
    (List.mem_reverse.1 hinfo)

/-- Regrouping keeps what each rule grants, and where. -/
theorem over_regroup (rules : List (Grant × Option Target)) (g : Grant) (p : Place) :
    Over (regroup rules) g p ↔ ∃ rule ∈ rules, rule.1 = g ∧ placeOf rule.2 = p := by
  have hreverse : Over (regroup rules) g p ↔ Over (ungrouped (rules.foldl regroupStep [])) g p := by
    simp only [Over, regroup, ungrouped, List.mem_reverse, List.mem_map, exists_exists_and_eq_and,
      mem_places_reverse]
  rw [hreverse, (foldl_regroupStep g p rules [] (by simp)).2]
  simp [Over, ungrouped]

/-- Whether the rules of a set, each on its own, say a combination. -/
def Said (rules : List (Grant × Option Target)) (c : Combination) : Prop :=
  ∃ rule ∈ rules, rule.1.Covers c ∧ placeOf rule.2 = c.place

theorem grantOf_ruleOf (x : Grant × List RegistrationInfo) :
    grantOf (ruleOf x) x.1.validity = x.1 := rfl

theorem ruleList_specOf (grants : List (Grant × List RegistrationInfo)) (assigner space : String)
    (validity : Option Validity) :
    (specOf grants assigner space validity).ruleList = grants.map ruleOf := by
  unfold specOf PolicySpec.ruleList
  split
  · rename_i only h
    exact h.symm
  · rfl

/-- The imported policy says what the rules say, each on its own. -/
theorem says_specOf_iff {rules : List (Grant × Option Target)} {assigner space name : String}
    {project : Option String} {apiVersion : String} {validity : Option Validity}
    (h : ∀ x ∈ regroup rules, x.1.validity = validity) (c : Combination) :
    (⟨apiVersion, name, project, specOf (regroup rules) assigner space validity⟩ : Policy).Says c ↔
      Said rules c := by
  have hrules : (⟨apiVersion, name, project,
      specOf (regroup rules) assigner space validity⟩ : Policy).Says c ↔
      ∃ g, g.Covers c ∧ Over (regroup rules) g c.place := by
    unfold Policy.Says Over
    rw [ruleList_specOf]
    have hvalidity : (specOf (regroup rules) assigner space validity).validity = validity := by
      unfold specOf
      split <;> rfl
    simp only [hvalidity, List.mem_map, exists_exists_and_eq_and]
    constructor
    · rintro ⟨x, hx, hcovers, hplace⟩
      rw [← h x hx, grantOf_ruleOf] at hcovers
      exact ⟨x.1, hcovers, x, hx, rfl, hplace⟩
    · rintro ⟨g, hcovers, x, hx, rfl, hplace⟩
      refine ⟨x, hx, ?_, hplace⟩
      rw [← h x hx, grantOf_ruleOf]
      exact hcovers
  rw [hrules]
  unfold Said
  constructor
  · rintro ⟨g, hcovers, hover⟩
    obtain ⟨rule, hrule, rfl, hplace⟩ := (over_regroup rules g c.place).1 hover
    exact ⟨rule, hrule, hcovers, hplace⟩
  · rintro ⟨rule, hrule, hcovers, hplace⟩
    exact ⟨rule.1, hcovers, (over_regroup rules _ _).2 ⟨rule, hrule, rfl, hplace⟩⟩

end Regroup

end JoinedContext.Odrl

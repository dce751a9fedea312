import JoinedContext.Pdp.WriteGuard

/-!
# What a scoped grant creates

Under a grant limited to scopes a created entity should carry a scope, and every scope it carries
should lie inside the grant. The write guard reads the member `scope` alone, and of a list the texts
alone, so an empty list is no scope to it, and neither is a member that names the scope by its IRI.
-/

namespace JoinedContext.WriteGuard

/-- A value of the scope member: one scope inside the grant, or a list of at least one of them. -/
def ScopeValue (granted : String) (v : Value) : Prop :=
  (∃ scope, v = .str scope ∧ insideScopes granted scope = true) ∨
    ∃ items, v = .arr items ∧ items ≠ [] ∧
      ∀ item ∈ items, ∃ scope, item = .str scope ∧ insideScopes granted scope = true

/-- The entity carries a scope, and every member that names the scope holds scopes inside the
grant. -/
def CarriesScopes (granted : String) (entity : Value) : Prop :=
  (∃ key, namesAttribute key "scope" = true ∧ entity.get key ≠ none) ∧
    ∀ key, namesAttribute key "scope" = true → ∀ v, entity.get key = some v → ScopeValue granted v

/-- A list that is empty, or has an item that is no text. -/
def OddList (items : List Value) : Prop := items = [] ∨ ∃ item ∈ items, item.asStr = none

theorem namesAttribute_self (name : String) : namesAttribute name name = true := by
  simp [namesAttribute]

theorem asStr_eq_some {v : Value} {s : String} : v.asStr = some s ↔ v = .str s := by
  cases v <;> simp [Value.asStr]

/-- What the scope member of an accepted entity is: a scope inside the grant, or a list whose texts
are. -/
theorem namedScopes_of_checkScope {entity : Value} {granted : String}
    (hpresent : entity.get "scope" ≠ none)
    (hscope : checkScope entity (some granted) = .ok ()) :
    (∃ scope, entity.get "scope" = some (.str scope) ∧ insideScopes granted scope = true) ∨
      ∃ items, entity.get "scope" = some (.arr items) ∧
        ∀ item ∈ items, ∀ scope, item.asStr = some scope → insideScopes granted scope = true := by
  obtain ⟨scopes, hnamed, hinside⟩ := checkScope_eq_ok.1 hscope granted rfl
  unfold namedScopes at hnamed
  rcases hget : entity.get "scope" with _ | v
  · exact (hpresent hget).elim
  · rw [hget] at hnamed
    cases v with
    | str scope =>
      cases hnamed
      exact Or.inl ⟨scope, rfl, hinside scope (List.mem_singleton_self scope)⟩
    | arr items =>
      cases hnamed
      refine Or.inr ⟨items, rfl, fun item hitem scope hread => hinside scope ?_⟩
      exact List.mem_filterMap.2 ⟨item, hitem, hread⟩
    | null => cases hnamed
    | bool b => cases hnamed
    | num m e => cases hnamed
    | obj members => cases hnamed

variable {crates : Crates} {F : Type} [Float64 F]

/-- An entity created under a scoped grant is where the grant says exactly if its list of scopes is
no odd one and the members that name the scope by an IRI hold scopes inside the grant. -/
theorem carriesScopes_of_check {entity : Value} {c : Constraints} {granted : String}
    (hgranted : c.grantedScopes = some granted) (hcheck : check crates F entity c = .ok ()) :
    CarriesScopes granted entity ↔
      (∀ items, entity.get "scope" = some (.arr items) → ¬OddList items) ∧
        ∀ key, key ≠ "scope" → namesAttribute key "scope" = true →
          ∀ v, entity.get key = some v → ScopeValue granted v := by
  obtain ⟨-, -, -, -, hpresent, -, hscope, -⟩ := check_eq_ok.1 hcheck
  have hget : entity.get "scope" ≠ none := fun hnone => by
    simp [checkScopePresent, hgranted, hnone] at hpresent
  rw [hgranted] at hscope
  have hmember := namedScopes_of_checkScope hget hscope
  constructor
  · rintro ⟨-, hall⟩
    refine ⟨fun items hitems hodd => ?_, fun key _ hnames => hall key hnames⟩
    rcases hall "scope" (namesAttribute_self _) _ hitems with ⟨scope, heq, -⟩ | ⟨list, heq, hne, hin⟩
    · cases heq
    · cases heq
      rcases hodd with hnil | ⟨item, hitem, hnone⟩
      · exact hne hnil
      · obtain ⟨scope, rfl, -⟩ := hin item hitem
        cases hnone
  · rintro ⟨hlist, hother⟩
    refine ⟨⟨"scope", namesAttribute_self _, hget⟩, fun key hnames v hv => ?_⟩
    by_cases hkey : key = "scope"
    · subst hkey
      rcases hmember with ⟨scope, heq, hinside⟩ | ⟨items, heq, hinside⟩
      · rw [hv, Option.some.injEq] at heq
        exact Or.inl ⟨scope, heq, hinside⟩
      · rw [hv, Option.some.injEq] at heq
        have hodd := hlist items (heq ▸ hv)
        simp only [OddList, not_or, not_exists, not_and] at hodd
        refine Or.inr ⟨items, heq, hodd.1, fun item hitem => ?_⟩
        obtain ⟨scope, hread⟩ := Option.ne_none_iff_exists'.1 (hodd.2 item hitem)
        exact ⟨scope, asStr_eq_some.1 hread, hinside item hitem scope hread⟩
    · exact hother key hkey hnames v hv

/-- A creation limited to one district. -/
def district : Constraints := { (default : Constraints) with grantedScopes := some "/geo/SK/BB" }

def station (scope : Value) : Value :=
  .obj [("id", .str "urn:ngsi-ld:Station:hel.fi:air:one"), ("type", .str "Station"),
    ("scope", scope)]

theorem get_station {scope v : Value} {key : String} (h : (station scope).get key = some v) :
    key = "id" ∨ key = "type" ∨ key = "scope" := by
  by_contra hkey
  simp only [not_or] at hkey
  rw [station, Value.get_obj, List.lookup_cons, beq_eq_false_iff_ne.2 hkey.1, List.lookup_cons,
    beq_eq_false_iff_ne.2 hkey.2.1, List.lookup_cons, beq_eq_false_iff_ne.2 hkey.2.2] at h
  cases h

theorem carriesScopes_of_check_station :
    CarriesScopes "/geo/SK/BB" (station (.arr [.str "/geo/SK/BB/Sasova"])) := by
  refine (@carriesScopes_of_check bareCrates ℚ _ _ district _ rfl (by decide)).2
    ⟨fun items hitems => ?_, fun key hkey hnames v hv => ?_⟩
  · change some (Value.arr [.str "/geo/SK/BB/Sasova"]) = some (.arr items) at hitems
    cases hitems
    simp [OddList]
  · rcases get_station hv with rfl | rfl | rfl
    · exact absurd hnames (by decide)
    · exact absurd hnames (by decide)
    · exact (hkey rfl).elim

/-- An empty list of scopes is accepted, and is no scope. -/
theorem not_carriesScopes_of_check :
    ¬∀ (crates : Crates) (entity : Value) (c : Constraints) (granted : String),
      c.grantedScopes = some granted → check crates ℚ entity c = .ok () →
        CarriesScopes granted entity := by
  intro h
  have hcarries := h bareCrates (station (.arr [])) district "/geo/SK/BB" rfl (by decide)
  have hvalue := hcarries.2 "scope" (namesAttribute_self _) (.arr []) (by decide)
  rcases hvalue with ⟨scope, heq, -⟩ | ⟨items, heq, hne, -⟩
  · cases heq
  · cases heq
    exact hne rfl

end JoinedContext.WriteGuard

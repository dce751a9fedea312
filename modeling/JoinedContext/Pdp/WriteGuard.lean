import JoinedContext.Pdp.Evaluator
import JoinedContext.Pdp.Projection

/-!
# What a write payload has to satisfy before it reaches a broker

Reads are narrowed, writes are not: the payload's identifier, type, attributes, scope and location
are each checked against the constraint set, and the first one outside it refuses the whole write.
-/

namespace JoinedContext

namespace WriteGuard

inductive Refusal where
  | malformedId (id : String)
  | typeOutsideGrant (kind : String)
  | idOutsideGrant (id : String)
  | attributeOutsideGrant (name : String)
  | scopeOutsideGrant (scope : String)
  | scopeMissing
  | locationOutsideGrant
  | smuggledPolicyAttribute (name : String)
deriving DecidableEq

def policyVocabulary : List String :=
  ["owner", "acl", "allowedRoles", "visibility", "permissions", "policy"]

def entityId (entity : Value) : Option String :=
  ((entity.get "id") <|> (entity.get "@id")).bind Value.asStr

def declaredType (entity : Value) : Option String := (entity.get "type").bind Value.asStr

/-- Whether a payload key names the attribute `term`: the term itself, or an expanded or compact IRI
ending in it. -/
def namesAttribute (key term : String) : Bool :=
  key == term || (Text.stripSuffix term key).any (Text.endsWithAny ['/', '#', ':'])

def checkNoSmuggledPolicy (entity : Value) : Except Refusal Unit :=
  match entity.keys.find? (· ∈ policyVocabulary) with
  | some name => .error (.smuggledPolicyAttribute name)
  | none => .ok ()

def checkIdentifier (raw : String) (declared : Option String) : Except Refusal Unit :=
  match Urn.parse raw with
  | .error _ => .error (.malformedId raw)
  | .ok urn =>
    if declared.any (· != urn.entityType) then .error (.malformedId raw) else .ok ()

def checkId (entity : Value) : Except Refusal Unit :=
  match entityId entity with
  | none => .error (.malformedId "")
  | some raw => checkIdentifier raw (declaredType entity)

def checkType (entity : Value) (c : Constraints) : Except Refusal Unit :=
  if c.types = ∅ then .ok ()
  else
    match declaredType entity with
    | none => .error (.typeOutsideGrant "")
    | some declared =>
      if declared ∈ c.types then .ok () else .error (.typeOutsideGrant declared)

/-- The key a prohibition or the endpoint withholds, else the first one no grant covers. -/
def refusedAttribute (entity : Value) (c : Constraints) : Option String :=
  (entity.keys.find? fun name => decide (∃ h ∈ c.hidden, namesAttribute name h = true)) <|>
    (Projection.ungranted entity c.attrs).head?

def checkAttributes (entity : Value) (c : Constraints) : Except Refusal Unit :=
  match refusedAttribute entity c with
  | some name => .error (.attributeOutsideGrant name)
  | none => .ok ()

def namedScopes (entity : Value) : Option (List String) :=
  match entity.get "scope" with
  | none => some []
  | some (.str scope) => some [scope]
  | some (.arr values) => some (values.filterMap Value.asStr)
  | some _ => none

def insideScopes (granted scope : String) : Bool :=
  (ScopeFolding.grantedScopes granted).any fun path => ScopeFolding.covers path scope

def checkScope (entity : Value) (grantedScopes : Option String) : Except Refusal Unit :=
  match grantedScopes with
  | none => .ok ()
  | some granted =>
    match namedScopes entity with
    | none => .error (.scopeOutsideGrant "")
    | some scopes =>
      match scopes.find? fun scope => !insideScopes granted scope with
      | some scope => .error (.scopeOutsideGrant scope)
      | none => .ok ()

variable (crates : Crates) (F : Type) [Float64 F]

def insideOne (areas : List String) (point : Geo.Point F) : Bool :=
  match areas.mapM fun area => (Geo.grantedPolygon crates area : Option (Geo.Polygon F)) with
  | none => false
  | some polygons => polygons.any fun polygon => polygon.contains point

def checkLocation (entity : Value) (geoAreas : List String) : Except Refusal Unit :=
  if geoAreas = [] then .ok ()
  else
    match (Geo.entityPoint entity : Option (Geo.Point F)) with
    | none => if (entity.get "location").isSome then .error .locationOutsideGrant else .ok ()
    | some point =>
      if insideOne crates F geoAreas point then .ok () else .error .locationOutsideGrant

def checkGrantedId (raw : String) (c : Constraints) : Except Refusal Unit :=
  match Urn.parse raw with
  | .error _ => .error (.malformedId raw)
  | .ok urn =>
    if c.types ≠ ∅ ∧ urn.entityType ∉ c.types then .error (.typeOutsideGrant urn.entityType)
    else if !IdMatch.permits crates c.idPatterns raw then .error (.idOutsideGrant raw)
    else .ok ()

def checkFragment (fragment : Value) (c : Constraints) : Except Refusal Unit := do
  checkNoSmuggledPolicy fragment
  checkAttributes fragment c
  checkScope fragment c.grantedScopes
  checkLocation crates F fragment c.geoAreas

def checkEntityId (entity : Value) (c : Constraints) : Except Refusal Unit :=
  match entityId entity with
  | some raw => checkGrantedId crates raw c
  | none => .ok ()

/-- A whole entity without a scope would sit outside every scope the grant names. -/
def checkScopePresent (entity : Value) (c : Constraints) : Except Refusal Unit :=
  if c.grantedScopes.isSome ∧ entity.get "scope" = none then .error .scopeMissing else .ok ()

/-- Checks one write payload against the constraint set. -/
def check (entity : Value) (c : Constraints) : Except Refusal Unit := do
  checkNoSmuggledPolicy entity
  checkId entity
  checkType entity c
  checkEntityId crates entity c
  checkScopePresent entity c
  checkFragment crates F entity c

section Spec

theorem bind_eq_ok {ε : Type} {x : Except ε Unit} {f : Unit → Except ε Unit} :
    (x >>= f) = .ok () ↔ x = .ok () ∧ f () = .ok () := by
  rcases x with e | ⟨⟩
  · simp [bind, Except.bind]
  · simp [bind, Except.bind]

variable {crates} {F} {entity : Value} {c : Constraints}

theorem checkNoSmuggledPolicy_eq_ok :
    checkNoSmuggledPolicy entity = .ok () ↔ ∀ name ∈ entity.keys, name ∉ policyVocabulary := by
  unfold checkNoSmuggledPolicy
  split
  · rename_i name hfind
    simp only [reduceCtorEq, false_iff, not_forall, not_not]
    exact ⟨name, List.mem_of_find?_eq_some hfind, by simpa using List.find?_some hfind⟩
  · rename_i hfind
    simpa [List.find?_eq_none] using hfind

theorem checkId_eq_ok :
    checkId entity = .ok () ↔ ∃ raw urn, entityId entity = some raw ∧ Urn.parse raw = .ok urn ∧
      ∀ declared, declaredType entity = some declared → declared = urn.entityType := by
  unfold checkId
  rcases entityId entity with _ | raw
  · simp
  · simp only [checkIdentifier, Option.some.injEq, exists_and_left, exists_eq_left']
    rcases hparse : Urn.parse raw with e | urn
    · simp
    · rcases declaredType entity with _ | declared
      · simp
      · by_cases h : declared = urn.entityType <;> simp [h]

theorem checkType_eq_ok :
    checkType entity c = .ok () ↔
      c.types = ∅ ∨ ∃ declared, declaredType entity = some declared ∧ declared ∈ c.types := by
  unfold checkType
  split_ifs with h
  · simp [h]
  · rcases declaredType entity with _ | declared
    · simp [h]
    · simp [h]

theorem checkGrantedId_eq_ok {raw : String} :
    checkGrantedId crates raw c = .ok () ↔ ∃ urn, Urn.parse raw = .ok urn ∧
      (c.types = ∅ ∨ urn.entityType ∈ c.types) ∧
      IdMatch.permits crates c.idPatterns raw = true := by
  unfold checkGrantedId
  rcases Urn.parse raw with e | urn
  · simp
  · simp only [Except.ok.injEq, exists_eq_left']
    split_ifs with htype hid
    · simp [htype.1, htype.2]
    · simp_all
    · simp_all [or_iff_not_imp_left]

theorem checkAttributes_eq_ok :
    checkAttributes entity c = .ok () ↔
      (∀ name ∈ entity.keys, ∀ h ∈ c.hidden, namesAttribute name h = false) ∧
        Projection.ungranted entity c.attrs = [] := by
  unfold checkAttributes
  have hnone : refusedAttribute entity c = none ↔
      (∀ name ∈ entity.keys, ∀ h ∈ c.hidden, namesAttribute name h = false) ∧
        Projection.ungranted entity c.attrs = [] := by
    simp [refusedAttribute]
  rw [← hnone]
  rcases refusedAttribute entity c with _ | name <;> simp

theorem checkScope_eq_ok {granted : Option String} :
    checkScope entity granted = .ok () ↔ ∀ scopeQ, granted = some scopeQ →
      ∃ scopes, namedScopes entity = some scopes ∧
        ∀ scope ∈ scopes, insideScopes scopeQ scope = true := by
  unfold checkScope
  rcases granted with _ | scopeQ
  · simp
  · rcases namedScopes entity with _ | scopes
    · simp
    · simp only [Option.some.injEq, forall_eq', exists_eq_left']
      split
      · rename_i scope hfind
        simp only [reduceCtorEq, false_iff, not_forall]
        exact ⟨scope, List.mem_of_find?_eq_some hfind, by simpa using List.find?_some hfind⟩
      · rename_i hfind
        simpa [List.find?_eq_none] using hfind

theorem checkLocation_eq_ok {areas : List String} :
    checkLocation crates F entity areas = .ok () ↔ areas = [] ∨ entity.get "location" = none ∨
      ∃ point, (Geo.entityPoint entity : Option (Geo.Point F)) = some point ∧
        insideOne crates F areas point = true := by
  unfold checkLocation
  by_cases hareas : areas = []
  · simp [hareas]
  · rw [if_neg hareas]
    rcases hpoint : (Geo.entityPoint entity : Option (Geo.Point F)) with _ | point
    · rcases hlocation : entity.get "location" with _ | location <;> simp [hareas]
    · have hsome : entity.get "location" ≠ none := fun hnone => by
        simp [Geo.entityPoint, hnone] at hpoint
      simp [hareas, hsome]

theorem check_eq_ok :
    check crates F entity c = .ok () ↔
      (∀ name ∈ entity.keys, name ∉ policyVocabulary) ∧
      checkId entity = .ok () ∧ checkType entity c = .ok () ∧
      checkEntityId crates entity c = .ok () ∧ checkScopePresent entity c = .ok () ∧
      checkAttributes entity c = .ok () ∧ checkScope entity c.grantedScopes = .ok () ∧
      checkLocation crates F entity c.geoAreas = .ok () := by
  unfold check checkFragment
  simp only [bind_eq_ok, ← checkNoSmuggledPolicy_eq_ok]
  tauto

end Spec

end WriteGuard

end JoinedContext

import JoinedContext.Pdp.Geo
import JoinedContext.Pdp.Selectors
import JoinedContext.Pdp.Temporal
import Mathlib.Data.Finset.Card
import Mathlib.Data.Finset.Option

/-!
# Turning a caller and a request into one verdict

Prohibitions first, then permissions, and if nothing matched the answer is a denial. A permission
that matches produces a rewrite: the union of what the matching grants cover, which the caller's own
request is intersected with.
-/

namespace JoinedContext

section Unions

variable {α : Type}

def unions (f : α → Finset String) : List α → Finset String
  | [] => ∅
  | a :: rest => f a ∪ unions f rest

@[simp] theorem mem_unions {f : α → Finset String} {s : String} :
    ∀ {l : List α}, s ∈ unions f l ↔ ∃ a ∈ l, s ∈ f a
  | [] => by simp [unions]
  | a :: rest => by simp [unions, mem_unions (l := rest)]

end Unions

structure Request where
  types : Finset String := ∅
  attrs : Finset String := ∅
  q : Option String := none
  scopeQ : Option String := none
  geoQ : Option String := none
  temporalQ : Option String := none
  referenced : Finset String := ∅

structure GrantView where
  types : Finset String
  typeIris : Finset String
  idPatterns : Finset String
  q : Option String
  scopeQ : Option String
  geoQ : Option String
  attrs : Finset String

structure Constraints where
  tenant : String
  types : Finset String
  typeIris : Finset String
  idPatterns : Finset String
  attrs : Finset String
  attrsByType : Finset (String × Finset String)
  served : Finset String
  hidden : Finset String
  q : Option String
  grantedScopes : Option String
  geoQ : Option String
  geoGrants : List String
  geoAreas : List String
  geoCaller : Option String
  temporalQ : Option String
  temporalWindows : List Temporal.Window
  empty : Bool
  restricted : Bool
  dropped : Finset String
  grants : List GrantView
  referenced : Finset String
  attrsAsked : Finset String
deriving Inhabited

inductive Verdict where
  | deny
  | rewrite (constraints : Constraints)

namespace Verdict

def isDeny : Verdict → Bool
  | .deny => true
  | .rewrite _ => false

def constraints : Verdict → Option Constraints
  | .deny => none
  | .rewrite constraints => some constraints

end Verdict

namespace Evaluator

def grantedTypes (information : List RegistrationInfo) : Finset String :=
  unions (fun info => (info.entities.map EntitySelector.entityType).toFinset) information

def grantedAttrs (information : List RegistrationInfo) : Finset String :=
  unions (fun info => (info.propertyNames ++ info.relationshipNames).toFinset) information

def selectorPatterns (selector : EntitySelector) : Finset String :=
  selector.idPattern.toFinset ∪
    (selector.id.map fun urn => "^" ++ regexEscape urn.toString ++ "$").toFinset

def idPatterns (information : List RegistrationInfo) : Finset String :=
  unions (fun info => unions selectorPatterns info.entities) information

def grantView (policy : PolicySpec) : GrantView where
  types := grantedTypes policy.information
  typeIris := ∅
  idPatterns := idPatterns policy.information
  q := policy.q
  scopeQ := policy.scopeQ
  geoQ := policy.geoQ
  attrs := grantedAttrs policy.information

def grantsOperation (policy : PolicySpec) (operation : Operation) : Bool :=
  policy.operations.any fun
    | .single single => single == operation
    | .group group => operation ∈ group.operations

def inForce (policy : PolicySpec) (now : Instant) : Bool :=
  policy.validity.all fun validity =>
    (validity.fromAt.all fun a => decide (a ≤ now)) && validity.toAt.all fun b => decide (now < b)

def applies (subject : Subject) (operation : Operation) (now : Instant) (policy : PolicySpec) :
    Bool :=
  subject.is policy.assignee && grantsOperation policy operation && inForce policy now

/-- Whether an entry of a prohibition speaks about the request: it names no type, the request names
none, or they share one. -/
def speaksAbout (request : Request) (info : RegistrationInfo) : Bool :=
  decide (grantedTypes [info] = ∅ ∨ request.types = ∅ ∨
    grantedTypes [info] ∩ request.types ≠ ∅)

def withheldEntries (request : Request) : List RegistrationInfo → Option (Finset String)
  | [] => some ∅
  | info :: rest =>
    if speaksAbout request info then
      if grantedAttrs [info] = ∅ then none
      else (withheldEntries request rest).map (grantedAttrs [info] ∪ ·)
    else withheldEntries request rest

/-- What a prohibition takes back from this request: `none` refuses it whole, a set takes back those
attributes. -/
def withheldBy (policy : PolicySpec) (request : Request) : Option (Finset String) :=
  if policy.information = [] then none else withheldEntries request policy.information

def withheldByAll (request : Request) : List PolicySpec → Option (Finset String)
  | [] => some ∅
  | policy :: rest => do
    let names ← withheldBy policy request
    return names ∪ (← withheldByAll request rest)

/-- Takes the attributes a prohibition names out of a rewrite. `none` when they were every attribute
the grants give: an empty whitelist downstream reads as the whole entity. -/
def withhold (constraints : Constraints) (operation : Operation) (request : Request)
    (withheld : Finset String) : Option Constraints :=
  if withheld = ∅ then some constraints
  else
    let served := constraints.served \ withheld
    if constraints.served ≠ ∅ ∧ served = ∅ then none
    else
      let attrs := constraints.attrs \ withheld
      some { constraints with
        served := served
        attrs := attrs
        attrsAsked := constraints.attrsAsked \ withheld
        empty := constraints.empty ||
          (!operation.isWrite && decide (request.attrs ≠ ∅) && decide (attrs = ∅))
        restricted := true
        hidden := withheld }

def narrow (requested granted : Finset String) : Finset String :=
  if granted = ∅ then requested else if requested = ∅ then granted else requested ∩ granted

/-- `narrow`, except that two whitelists sharing nothing leave the entity's identity. -/
def narrowToIdentity (requested granted : Finset String) : Finset String :=
  let narrowed := narrow requested granted
  if narrowed = ∅ ∧ requested ≠ ∅ ∧ granted ≠ ∅ then {"id", "type"} else narrowed

/-- A filter no entity satisfies: what a policy whose own `q` does not parse grants. -/
def nothing : String := "(jcUnreadablePolicyQ==0;jcUnreadablePolicyQ!=0)"

section

variable (crates : Crates)

def filterParts (q scopeQ : Option String) : List String :=
  (q.map fun filter => if crates.parseQ filter then "(" ++ filter ++ ")" else nothing).toList ++
    (scopeQ.bind ScopeFolding.fold).toList

def grantFilter (q scopeQ : Option String) : Option String :=
  match filterParts crates q scopeQ with
  | [] => none
  | [part] => some part
  | parts => some ("(" ++ Text.join ";" parts ++ ")")

def policyFilter (policy : PolicySpec) : Option String := grantFilter crates policy.q policy.scopeQ

def unionFilter : List String → Option String
  | [] => none
  | [filter] => some ("(" ++ filter ++ ")")
  | filters => some ("(" ++ Text.join "|" (filters.map fun f => "(" ++ f ++ ")") ++ ")")

def conjoin (requested : Option String) (filters : List String) : Option String :=
  match requested.filter crates.parseQ, unionFilter filters with
  | some caller, some grants => some ("(" ++ caller ++ ");" ++ grants)
  | some caller, none => some ("(" ++ caller ++ ")")
  | none, grants => grants

def union (scopes : List String) : Option String :=
  if scopes = [] then none else some (Text.join "|" scopes)

/-- The attributes the grants list between them, none when one of them lists none: such a grant is
over the whole entity. -/
def listedAttrs (grants : List PolicySpec) : Finset String :=
  if grants.any fun policy => decide (grantedAttrs policy.information = ∅) then ∅
  else unions (fun policy => grantedAttrs policy.information) grants

variable (F : Type) [Float64 F]

/-- Intersects the request with the union of the grants. -/
def intersect (operation : Operation) (request : Request) (tenant : String)
    (grants : List PolicySpec) (now : Instant) : Constraints :=
  let grantedTypes := unions (fun policy => grantedTypes policy.information) grants
  let grantedAttrs := listedAttrs grants
  let types := narrow request.types grantedTypes
  let attrs := if operation.isWrite then grantedAttrs else narrow request.attrs grantedAttrs
  let noTypeLeft := decide (request.types ≠ ∅ ∧ grantedTypes ≠ ∅ ∧ types = ∅)
  let noAttrLeft := decide (request.attrs ≠ ∅ ∧ grantedAttrs ≠ ∅ ∧ attrs = ∅)
  let filters := grants.filterMap (policyFilter crates)
  let geo := Geo.intersect F crates request.geoQ (grants.filterMap PolicySpec.geoQ)
  let clamped := Temporal.clamp crates request.temporalQ (grants.filterMap PolicySpec.temporalQ) now
  { tenant := tenant
    types := types
    typeIris := ∅
    idPatterns := unions (fun policy => idPatterns policy.information) grants
    attrs := attrs
    attrsByType := ∅
    served := grantedAttrs
    hidden := ∅
    q := conjoin crates request.q filters
    grantedScopes := union (grants.filterMap PolicySpec.scopeQ)
    geoQ := geo.geoQ
    geoGrants := geo.grants
    geoAreas := geo.areas
    geoCaller := geo.caller
    temporalQ := clamped.temporalQ
    temporalWindows := clamped.windows
    empty := clamped.empty || noTypeLeft || noAttrLeft
    restricted := decide (types.card < request.types.card) ||
      decide (attrs.card < request.attrs.card) || decide (grantedAttrs ≠ ∅) ||
      decide (filters ≠ []) || geo.restricted || clamped.restricted
    dropped := ∅
    grants := grants.map grantView
    referenced := ∅
    attrsAsked := if operation.isWrite ∨ request.attrs = ∅ then ∅ else attrs }

def permissions (subject : Subject) (operation : Operation) (policies : List PolicySpec)
    (now : Instant) : List PolicySpec :=
  (policies.filter (applies subject operation now)).filter fun p => !p.effect.isProhibition

def prohibitions (subject : Subject) (operation : Operation) (policies : List PolicySpec)
    (now : Instant) : List PolicySpec :=
  (policies.filter (applies subject operation now)).filter fun p => p.effect.isProhibition

/-- Decides one request against the policies of one endpoint. -/
def evaluate (subject : Subject) (operation : Operation) (request : Request) (tenant : String)
    (policies : List PolicySpec) (now : Instant) : Verdict :=
  if subject.readOnly && operation.isWrite then .deny
  else
    match withheldByAll request (prohibitions subject operation policies now) with
    | none => .deny
    | some withheld =>
      let grants := permissions subject operation policies now
      if grants = [] then .deny
      else
        match withhold (intersect crates F operation request tenant grants now) operation request
          withheld with
        | some constraints => .rewrite constraints
        | none => .deny

end

section Spec

theorem narrow_eq_empty {requested granted : Finset String} :
    narrow requested granted = ∅ →
      (requested = ∅ ∧ granted = ∅) ∨ (requested ≠ ∅ ∧ granted ≠ ∅) := by
  unfold narrow
  split_ifs with h h'
  · exact fun hr => Or.inl ⟨hr, h⟩
  · exact fun hg => absurd hg h
  · exact fun _ => Or.inr ⟨h', h⟩

/-- A narrowed set lies in what was asked, unless nothing was, and in what was granted, unless
nothing was. -/
theorem mem_narrow {requested granted : Finset String} {s : String} :
    s ∈ narrow requested granted ↔
      (requested = ∅ ∨ s ∈ requested) ∧ (granted = ∅ ∨ s ∈ granted) ∧
        ¬ (requested = ∅ ∧ granted = ∅) := by
  unfold narrow
  split_ifs with h h'
  · by_cases hr : requested = ∅ <;> simp [h, hr]
  · simp [h, h']
  · simp [h, h']

theorem withheldEntries_eq_some {request : Request} :
    ∀ {information : List RegistrationInfo} {names : Finset String},
      withheldEntries request information = some names ↔
        (∀ info ∈ information, speaksAbout request info = true → grantedAttrs [info] ≠ ∅) ∧
          names = unions (fun info => grantedAttrs [info])
            (information.filter (speaksAbout request))
  | [], names =>
    ⟨fun h => ⟨by simp, (Option.some.inj h).symm⟩, fun h => congrArg some h.2.symm⟩
  | info :: rest, names => by
    unfold withheldEntries
    by_cases hspeaks : speaksAbout request info = true
    · rw [if_pos hspeaks, List.filter_cons_of_pos hspeaks, List.forall_mem_cons]
      split_ifs with hempty
      · simp [hspeaks, hempty]
      · rw [Option.map_eq_some_iff]
        constructor
        · rintro ⟨more, hmore, rfl⟩
          obtain ⟨hall, rfl⟩ := withheldEntries_eq_some.1 hmore
          exact ⟨⟨fun _ => hempty, hall⟩, rfl⟩
        · rintro ⟨⟨_, hall⟩, rfl⟩
          exact ⟨_, withheldEntries_eq_some.2 ⟨hall, rfl⟩, rfl⟩
    · rw [if_neg hspeaks, List.filter_cons_of_neg hspeaks, List.forall_mem_cons,
        withheldEntries_eq_some]
      simp [hspeaks]

theorem withheldBy_eq_some {policy : PolicySpec} {request : Request} {names : Finset String} :
    withheldBy policy request = some names ↔
      policy.information ≠ [] ∧
        (∀ info ∈ policy.information, speaksAbout request info = true →
          grantedAttrs [info] ≠ ∅) ∧
        names = unions (fun info => grantedAttrs [info])
          (policy.information.filter (speaksAbout request)) := by
  unfold withheldBy
  split_ifs with h
  · simp [h]
  · rw [withheldEntries_eq_some]
    simp [h]

def withheldNames (request : Request) (prohibitions : List PolicySpec) : Finset String :=
  unions (fun policy => unions (fun info => grantedAttrs [info])
    (policy.information.filter (speaksAbout request))) prohibitions

theorem withheldByAll_eq_some {request : Request} :
    ∀ {policies : List PolicySpec} {names : Finset String},
      withheldByAll request policies = some names ↔
        (∀ policy ∈ policies, policy.information ≠ [] ∧ ∀ info ∈ policy.information,
          speaksAbout request info = true → grantedAttrs [info] ≠ ∅) ∧
        names = withheldNames request policies
  | [], names =>
    ⟨fun h => ⟨by simp, (Option.some.inj h).symm⟩, fun h => congrArg some h.2.symm⟩
  | policy :: rest, names => by
    simp only [withheldByAll, Option.bind_eq_bind, Option.bind_eq_some_iff, Option.pure_def,
      Option.some.injEq, List.forall_mem_cons]
    constructor
    · rintro ⟨one, hone, more, hmore, rfl⟩
      obtain ⟨hne, hall, rfl⟩ := withheldBy_eq_some.1 hone
      obtain ⟨hrest, rfl⟩ := withheldByAll_eq_some.1 hmore
      exact ⟨⟨⟨hne, hall⟩, hrest⟩, rfl⟩
    · rintro ⟨⟨⟨hne, hall⟩, hrest⟩, rfl⟩
      exact ⟨_, withheldBy_eq_some.2 ⟨hne, hall, rfl⟩, _, withheldByAll_eq_some.2 ⟨hrest, rfl⟩, rfl⟩

variable {crates : Crates} {F : Type} [Float64 F] {subject : Subject} {operation : Operation}
  {request : Request} {tenant : String} {policies : List PolicySpec} {now : Instant}

/-- Everything a rewrite says of the decision that gave it. -/
theorem evaluate_eq_rewrite {c : Constraints} :
    evaluate crates F subject operation request tenant policies now = .rewrite c ↔
      (subject.readOnly && operation.isWrite) = false ∧
      permissions subject operation policies now ≠ [] ∧
      ∃ withheld, withheldByAll request (prohibitions subject operation policies now) =
          some withheld ∧
        withhold (intersect crates F operation request tenant
          (permissions subject operation policies now) now) operation request withheld =
          some c := by
  unfold evaluate
  by_cases hread : (subject.readOnly && operation.isWrite) = true
  · simp [hread]
  rw [if_neg hread]
  simp only [Bool.not_eq_true] at hread
  rcases hall : withheldByAll request (prohibitions subject operation policies now) with _ | names
  · simp
  · by_cases hnone : permissions subject operation policies now = []
    · simp [hnone]
    · simp only [hnone, if_false, hread, Option.some.injEq, exists_eq_left', ne_eq,
        not_false_eq_true, true_and]
      split <;> simp_all

theorem withhold_eq_some {constraints c : Constraints} {withheld : Finset String} :
    withhold constraints operation request withheld = some c ↔
      (constraints.served = ∅ ∨ constraints.served \ withheld ≠ ∅) ∧
      c = if withheld = ∅ then constraints else
        { constraints with
          served := constraints.served \ withheld
          attrs := constraints.attrs \ withheld
          attrsAsked := constraints.attrsAsked \ withheld
          empty := constraints.empty ||
            (!operation.isWrite && decide (request.attrs ≠ ∅) &&
              decide (constraints.attrs \ withheld = ∅))
          restricted := true
          hidden := withheld } := by
  unfold withhold
  by_cases hwithheld : withheld = ∅
  · simp only [hwithheld, if_true, Finset.sdiff_empty, Option.some.injEq]
    exact ⟨fun h => ⟨em _, h.symm⟩, fun h => h.2.symm⟩
  · simp only [hwithheld, if_false]
    split_ifs with hnamed
    · simp [hnamed.1, hnamed.2]
    · rw [not_and_or, not_not] at hnamed
      simp only [Option.some.injEq]
      exact ⟨fun h => ⟨hnamed, h.symm⟩, fun h => h.2.symm⟩

end Spec

end Evaluator

end JoinedContext

import JoinedContext.Odrl.Manifest

/-!
# A policy as an ODRL set

`render` writes one ODRL rule per entity selector of each rule of a policy: who it is for, the
operations, the residual filters with the validity, and the selector with its refinements.
-/

namespace JoinedContext.Odrl

/-- What the mapping takes from other crates: `to_rfc3339_opts(SecondsFormat::AutoSi, true)` and
`serde_json`'s compact text. -/
structure Codecs extends Crates where
  toRfc3339Auto : Instant → String
  printJson : Value → String

def CONTEXTS : List String :=
  ["http://www.w3.org/ns/odrl.jsonld", "https://joinedcontext.com/odrl/ngsi-ld/v1/context.jsonld"]

/-- What the uid of a set rendered from a manifest starts with. -/
def UID : String := "urn:joinedcontext:policy:"

structure Refusal where
  member : String
  reason : String

abbrev Out := Except Refusal

def refuse {α : Type} (member reason : String) : Out α := .error ⟨member, reason⟩

/-- What one ODRL rule grants, apart from its target. -/
structure Grant where
  effect : PolicyEffect
  assignee : Principal
  operations : List OperationRef
  actions : List PlatformAction
  q : Option String
  scopeQ : Option String
  geoQ : Option String
  temporalQ : Option String
  validity : Option Validity
  deriving DecidableEq

/-- One selector with its attribute names and the entry it is part of. -/
structure Target where
  selector : EntitySelector
  properties : List String
  relationships : List String
  part : Option String
  deriving DecidableEq

/-- The members that are there. -/
def present (members : List (String × Option Value)) : List (String × Value) :=
  members.filterMap fun c => c.2.map fun v => (c.1, v)

def object (members : List (String × Option Value)) : Value := .obj (present members)

def texts (items : List String) : Value := .arr (items.map .str)

def PlatformAction.wire : PlatformAction → String
  | .readVersions => "readVersions"
  | .personalData => "personalData"

/-- The parties of the profile. -/
def PARTIES : List (PrincipalKind × String) :=
  [(.user, "ngsi-ld:User"), (.group, "ngsi-ld:Group"), (.role, "ngsi-ld:Role"),
    (.serviceAccount, "ngsi-ld:ServiceAccount"), (.did, "ngsi-ld:Did")]

def party (principal : Principal) : Value :=
  let kind := ((PARTIES.find? fun c => c.1 == principal.kind).map Prod.snd).getD "ngsi-ld:Role"
  .obj [("@type", .str kind), ("uid", .str principal.id)]

def constraint (left operator : String) (right : Value) : Value :=
  .obj [("leftOperand", .str left), ("operator", .str operator), ("rightOperand", right)]

section

variable (codecs : Codecs)

/-- The residual filters verbatim, then the two bounds of the validity. -/
def constraints (rule : PolicySpec) : List Value :=
  [rule.q.map fun v => constraint "ngsi-ld:q" "eq" (.str v),
    rule.scopeQ.map fun v => constraint "ngsi-ld:scopeQ" "isPartOf" (.str v),
    rule.geoQ.map fun v => constraint "ngsi-ld:geoQ" "eq" (.str v),
    rule.temporalQ.map fun v => constraint "ngsi-ld:temporalQ" "eq" (.str v),
    (rule.validity.bind Validity.fromAt).map fun t =>
      constraint "ngsi-ld:validity" "gteq" (.str (codecs.toRfc3339Auto t)),
    (rule.validity.bind Validity.toAt).map fun t =>
      constraint "ngsi-ld:validity" "lt" (.str (codecs.toRfc3339Auto t))].filterMap id

def names (left : String) (items : List String) : Option Value :=
  if items.isEmpty then none else some (constraint left "isAnyOf" (texts items))

/-- The refinements of one selector of an entry. -/
def refinements (selector : EntitySelector) (info : RegistrationInfo) : List Value :=
  ([selector.id.map fun id => constraint "ngsi-ld:id" "eq" (.str id.toString),
    selector.idPattern.map fun pattern => constraint "ngsi-ld:idPattern" "eq" (.str pattern)] ++
    if !info.propertyNames.isEmpty && info.propertyNames == info.relationshipNames then
      [names "ngsi-ld:attrs" info.propertyNames]
    else [names "ngsi-ld:propertyNames" info.propertyNames,
      names "ngsi-ld:relationshipNames" info.relationshipNames]).filterMap id

def unlessNone (items : List Value) : Option Value :=
  if items.isEmpty then none else some (.arr items)

def target (selector : EntitySelector) (info : RegistrationInfo) (part : Option String) : Value :=
  object [("@type", some (.str "ngsi-ld:EntityType")), ("partOf", part.map .str),
    ("refinement", unlessNone (refinements selector info)),
    ("uid", some (.str selector.entityType))]

/-- An ODRL rule with what every rule of a spec shares, and a target. -/
def withTarget (rule : PolicySpec) (target : Option Value) : Value :=
  object [("action", some (texts (rule.operations.map (fun o => "ngsi-ld:" ++ o.asStr) ++
      rule.actions.map fun a => "ngsi-ld:" ++ a.wire))),
    ("assignee", some (party rule.assignee)),
    ("constraint", unlessNone (constraints codecs rule)), ("target", target)]

/-- The entry a selector is part of is named where a rule has several: equal names alone would read
back as one entry. -/
def partOf (rule : PolicySpec) (k : Nat) : Option String :=
  if 1 < rule.information.length then some ("#information-" ++ toString k) else none

/-- One spec of a single rule as ODRL rules: one per selector, or one without a target. -/
def odrlRules (rule : PolicySpec) : List Value :=
  if rule.information.isEmpty then [withTarget codecs rule none]
  else (rule.information.zipIdx 1).flatMap fun c => c.1.entities.map fun selector =>
    withTarget codecs rule (some (target selector c.1 (partOf rule c.2)))

def render (policy : Policy) : Out Value :=
  match policy.namespace with
  | none => refuse "metadata.namespace" "a Policy names its project"
  | some project => do
    let rules ← policy.spec.expand.mapError fun e => ⟨"spec.rules", e.display⟩
    if rules.any fun rule => rule.information.any fun info => !info.attributes.isEmpty then
      refuse "spec.information.attributes"
        "per-attribute capabilities have no ODRL form yet; the Policy is served as YAML only"
    if rules.any fun rule => rule.assignee.kind == .organization then
      refuse "spec.assignee.kind"
        "an organization assignee has no ODRL form yet; the Policy is served as YAML only"
    let permission := (rules.filter fun rule => rule.effect == .permission).flatMap
      (odrlRules codecs)
    let prohibition := (rules.filter fun rule => rule.effect == .prohibition).flatMap
      (odrlRules codecs)
    return object [("@context", some (texts CONTEXTS)), ("@type", some (.str "Set")),
      ("assigner", some (.str policy.spec.assigner)), ("conflict", some (.str "prohibit")),
      ("permission", some (.arr permission)), ("prohibition", unlessNone prohibition),
      ("uid", some (.str (UID ++ project ++ ":" ++ policy.spec.contextSpaceRef.nameOf ++ ":" ++
        policy.name)))]

end

end JoinedContext.Odrl

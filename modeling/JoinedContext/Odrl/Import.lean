import JoinedContext.Odrl.Render

/-!
# A policy from an ODRL set

`importDocument` reads the rules of a set one at a time, each as a grant and a target, and regroups
them: rules that follow each other with one grant were one rule, their selectors with the same names
one entry. A member the profile does not map is refused by its path.
-/

namespace JoinedContext.Odrl

/-- The identity an import writes where the set does not name it or should not. -/
structure Names where
  project : Option String := none
  space : Option String := none
  name : Option String := none

def SET_MEMBERS : List String :=
  ["@context", "@type", "uid", "assigner", "assignee", "conflict", "permission", "prohibition"]

def item (path : String) (n : Nat) : String := path ++ "[" ++ toString n ++ "]"

/-- Why a member the profile leaves out is refused. -/
def closedReason (member : String) : String :=
  if member ∈ ["duty", "obligation", "consequence", "remedy"] then
    "duties are not mapped: the platform enforces none, and dropping one would widen the grant"
  else if member ∈ ["inheritFrom", "profile"] then
    "a Set imports on its own, without another policy or profile"
  else "is not a member of the ngsi-ld: profile"

/-- Refuses the first member outside those allowed. -/
def closed (members : List (String × Value)) (allowed : List String) (path : String) : Out Unit :=
  match members.find? fun c => c.1 ∉ allowed with
  | none => .ok ()
  | some c => refuse (if path = "" then c.1 else path ++ "." ++ c.1) (closedReason c.1)

def list (value : Option Value) (path : String) : Out (List Value) :=
  match value with
  | none => .ok []
  | some (.arr items) => .ok items
  | some _ => refuse path "must be a list"

def principal (value : Value) (path : String) : Out Principal :=
  match value with
  | .str did =>
    if (Text.stripPrefix "did:" did).isSome then .ok ⟨.did, did⟩
    else refuse path ("name the party's kind, e.g. \x7b\"@type\": \"ngsi-ld:Role\", " ++
      "\"uid\": \"public\"\x7d, or give a DID")
  | .obj members => do
    closed members ["@type", "uid"] path
    let type := ((members.lookup "@type").bind Value.asStr).getD ""
    match PARTIES.find? fun c => c.2 == type with
    | none => refuse (path ++ ".@type") ("one of ngsi-ld:User, ngsi-ld:Group, ngsi-ld:Role, " ++
        "ngsi-ld:ServiceAccount, ngsi-ld:Did")
    | some c =>
      match (members.lookup "uid").bind Value.asStr with
      | some id => if Text.trim id = "" then refuse (path ++ ".uid") "name the party" else .ok ⟨c.1, id⟩
      | none => refuse (path ++ ".uid") "name the party"
  | _ => refuse path ("name the party's kind, e.g. \x7b\"@type\": \"ngsi-ld:Role\", " ++
      "\"uid\": \"public\"\x7d, or give a DID")

/-- The set's own members: its assigner and the assignee its rules default to. -/
def frame (set : List (String × Value)) : Out (String × Option Principal) := do
  closed set SET_MEMBERS ""
  if set.lookup "@context" ≠ some (texts CONTEXTS) then
    refuse "@context" ("must be exactly [\"http://www.w3.org/ns/odrl.jsonld\", " ++
      "\"https://joinedcontext.com/odrl/ngsi-ld/v1/context.jsonld\"]: another context could give " ++
      "a term another meaning")
  match (set.lookup "@type").bind Value.asStr with
  | some type =>
    if type = "Offer" ∨ type = "Agreement" then
      refuse "@type" ("an " ++ type ++ " is negotiated by a connector, not imported; import the " ++
        "Set it grants")
    if type ≠ "Set" then refuse "@type" "must be \"Set\""
  | none => refuse "@type" "must be \"Set\""
  if (set.lookup "conflict").any fun c => c ≠ .str "prohibit" then
    refuse "conflict"
      "only \"prohibit\" maps: a prohibition wins over every permission (GW4)"
  match (set.lookup "assigner").bind Value.asStr with
  | some assigner =>
    if Text.trim assigner = "" then
      refuse "assigner" "name the granting party, e.g. \"did:web:hel.fi\""
    let fallback ← match set.lookup "assignee" with
      | some value => some <$> principal value "assignee"
      | none => pure none
    return (assigner, fallback)
  | none => refuse "assigner" "name the granting party, e.g. \"did:web:hel.fi\""

/-- The project, the space and the name: those given first, then those of the uid. -/
def identity (uid : Option Value) (given : Names) : Out (String × String × String) :=
  let fromUid := ((uid.bind Value.asStr).bind (Text.stripPrefix UID)).map (Text.splitAny [':'])
  let part (own : Option String) (n : Nat) : Option String :=
    own <|> fromUid.bind fun parts => if parts.length = 3 then parts[n]? else none
  match part given.project 0, part given.space 1, part given.name 2 with
  | some project, some space, some name => .ok (project, space, name)
  | _, _, _ => refuse "uid" ("names no Policy (urn:joinedcontext:policy:<project>:<space>:<name>): " ++
      "give --project, --space and --name")

def PlatformAction.ofWire (wire : String) : Option PlatformAction :=
  [PlatformAction.readVersions, .personalData].find? fun a => a.wire == wire

def action (path : String) (c : Value × Nat) : Out (OperationRef ⊕ PlatformAction) :=
  match c.1.asStr.bind (Text.stripPrefix "ngsi-ld:") with
  | none => refuse (item path c.2) ("only ngsi-ld: actions map: a CIM 009 operation or group, " ++
      "readVersions or personalData")
  | some wire =>
    match OperationRef.ofWire wire, PlatformAction.ofWire wire with
    | some op, _ => .ok (.inl op)
    | none, some a => .ok (.inr a)
    | none, none => refuse (item path c.2) ("unknown action ngsi-ld:" ++ wire)

def actions (value : Option Value) (path : String) :
    Out (List OperationRef × List PlatformAction) :=
  match value with
  | some (.arr items) => do
    let granted ← items.zipIdx.mapM (action path)
    return (granted.filterMap Sum.getLeft?, granted.filterMap Sum.getRight?)
  | _ => refuse path "list the CIM 009 operations, e.g. [\"ngsi-ld:queryEntity\"]"

/-- The three members of a constraint, the right operand as given. -/
def triple (value : Value) (path : String) : Out (String × String × Value) :=
  match value with
  | .obj members => do
    closed members ["leftOperand", "operator", "rightOperand"] path
    match (members.lookup "leftOperand").bind Value.asStr,
      (members.lookup "operator").bind Value.asStr, members.lookup "rightOperand" with
    | some left, some operator, some right => return (left, operator, right)
    | _, _, _ => refuse path "a constraint has leftOperand, operator and rightOperand"
  | _ => refuse path "a constraint is a JSON object"

/-- A slot filled once from a string. -/
def once (slot : Option String) (right : Value) (path : String) : Out (Option String) :=
  match right with
  | .str text =>
    if slot.isSome then refuse path "this left operand is given twice in one rule"
    else .ok (some text)
  | _ => refuse (path ++ ".rightOperand") "must be a string"

/-- The relations a decomposed geo-query may name. -/
def RELATIONS : List String :=
  ["within", "contains", "intersects", "disjoint", "equals", "overlaps"]

section

variable (codecs : Codecs)

/-- A decomposed geo-query as its query string. -/
def geoQ (operator : String) (right : Value) (path : String) : Out String :=
  match (Text.stripPrefix "ngsi-ld:" operator).filter (· ∈ RELATIONS) with
  | none => refuse (path ++ ".operator") ("ngsi-ld:geoQ takes eq or one of ngsi-ld:[\"within\", " ++
      "\"contains\", \"intersects\", \"disjoint\", \"equals\", \"overlaps\"]")
  | some relation =>
    let geometry := ((right.get "@type").bind Value.asStr).bind (Text.stripPrefix "geojson:")
    match right.asObject.map List.length, geometry, right.get "coordinates" with
    | some 2, some geometry, some (.arr coordinates) =>
      .ok ("georel=" ++ relation ++ ";geometry=" ++ geometry ++ ";coordinates=" ++
        codecs.printJson (.arr coordinates))
    | _, _, _ => refuse (path ++ ".rightOperand")
        "a geometry is \x7b\"@type\": \"geojson:Polygon\", \"coordinates\": [...]\x7d"

/-- One bound of the validity window. -/
def validity (window : Option Validity) (operator : String) (right : Value) (path : String) :
    Out (Option Validity) :=
  match right.asStr.bind codecs.parseFromRfc3339 with
  | none => refuse (path ++ ".rightOperand") "an RFC 3339 time, e.g. 2027-01-01T00:00:00Z"
  | some t =>
    let held := window.getD ⟨none, none⟩
    if operator = "gteq" then
      if held.fromAt.isSome then refuse path "this validity bound is given twice in one rule"
      else .ok (some { held with fromAt := some t })
    else if held.toAt.isSome then refuse path "this validity bound is given twice in one rule"
    else .ok (some { held with toAt := some t })

/-- The grant so far and the two bounds of a decomposed temporal query. -/
structure Filtered where
  grant : Grant
  after : Option String
  before : Option String

def filter (path : String) (st : Filtered) (c : Value × Nat) : Out Filtered := do
  let path := item path c.2
  let (left, operator, right) ← triple c.1 path
  if left = "ngsi-ld:q" ∧ operator = "eq" then
    return { st with grant := { st.grant with q := ← once st.grant.q right path } }
  else if left = "ngsi-ld:scopeQ" ∧ operator = "isPartOf" then
    return { st with grant := { st.grant with scopeQ := ← once st.grant.scopeQ right path } }
  else if left = "ngsi-ld:geoQ" then
    let text ← if operator = "eq" then pure right else .str <$> geoQ codecs operator right path
    return { st with grant := { st.grant with geoQ := ← once st.grant.geoQ text path } }
  else if left = "ngsi-ld:temporalQ" ∧ operator = "eq" then
    return { st with grant := { st.grant with temporalQ := ← once st.grant.temporalQ right path } }
  else if left = "dateTime" ∧ operator = "gteq" then
    return { st with after := ← once st.after right path }
  else if left = "dateTime" ∧ operator = "lteq" then
    return { st with before := ← once st.before right path }
  else if left = "ngsi-ld:validity" ∧ (operator = "gteq" ∨ operator = "lt") then
    return { st with grant := { st.grant with
      validity := ← validity codecs st.grant.validity operator right path } }
  else if left ∈ ["ngsi-ld:q", "ngsi-ld:scopeQ", "ngsi-ld:temporalQ", "dateTime",
      "ngsi-ld:validity"] then
    refuse (path ++ ".operator") (left ++ " does not take " ++ operator)
  else refuse (path ++ ".leftOperand") ("unknown leftOperand " ++ left)

def temporal : Option String → Option String → Option String
  | some a, some b => some ("timerel=between;timeAt=" ++ a ++ ";endTimeAt=" ++ b)
  | some a, none => some ("timerel=after;timeAt=" ++ a)
  | none, some b => some ("timerel=before;timeAt=" ++ b)
  | none, none => none

/-- The constraints of a rule into its grant. -/
def filters (grant : Grant) (value : Option Value) (path : String) : Out Grant := do
  let items ← list value path
  let st ← items.zipIdx.foldlM (filter codecs path) ⟨grant, none, none⟩
  match temporal st.after st.before with
  | some text => return { st.grant with temporalQ := ← once st.grant.temporalQ (.str text) path }
  | none => return st.grant

/-- What the refinements of a target say. -/
structure Refined where
  id : Option Urn
  idPattern : Option String
  properties : Option (List String)
  relationships : Option (List String)

def nameList (right : Value) (path : String) : Out (List String) :=
  match right.asArray.bind fun items => items.mapM Value.asStr with
  | some names => .ok names
  | none => refuse (path ++ ".rightOperand") "a list of attribute names"

def unlessTwice {α : Type} (twice : Bool) (path : String) (value : α) : Out α :=
  if twice then refuse path "this left operand is given twice in one target" else .ok value

def refine (path : String) (st : Refined) (c : Value × Nat) : Out Refined := do
  let path := item path c.2
  let (left, operator, right) ← triple c.1 path
  if left = "ngsi-ld:id" ∧ operator = "eq" then
    match right.asStr.bind fun text => (Urn.parse text).toOption with
    | none => refuse (path ++ ".rightOperand") "an Entity URN, e.g. urn:ngsi-ld:Sensor:1"
    | some urn => unlessTwice st.id.isSome path { st with id := some urn }
  else if left = "ngsi-ld:idPattern" ∧ operator = "eq" then
    return { st with idPattern := ← once st.idPattern right path }
  else if left = "ngsi-ld:attrs" ∧ operator = "isAnyOf" then
    let names ← nameList right path
    unlessTwice (st.properties.isSome || st.relationships.isSome) path
      { st with properties := some names, relationships := some names }
  else if left = "ngsi-ld:propertyNames" ∧ operator = "isAnyOf" then
    let names ← nameList right path
    unlessTwice st.properties.isSome path { st with properties := some names }
  else if left = "ngsi-ld:relationshipNames" ∧ operator = "isAnyOf" then
    let names ← nameList right path
    unlessTwice st.relationships.isSome path { st with relationships := some names }
  else if left ∈ ["ngsi-ld:id", "ngsi-ld:idPattern", "ngsi-ld:attrs", "ngsi-ld:propertyNames",
      "ngsi-ld:relationshipNames"] then
    refuse (path ++ ".operator") (left ++ " does not take " ++ operator)
  else refuse (path ++ ".leftOperand") ("unknown leftOperand " ++ left)

/-- The entry a target names itself part of. -/
def partOfTarget (value : Option Value) (path : String) : Out (Option String) :=
  match value with
  | none => .ok none
  | some (.str part) => .ok (some part)
  | some _ => refuse (path ++ ".partOf") "names the information entry, e.g. \"#information-1\""

/-- A target: one entity type with its id and attribute refinements. -/
def asset (value : Value) (path : String) : Out Target :=
  match value with
  | .obj members => do
    closed members ["@type", "uid", "refinement", "partOf"] path
    if (members.lookup "@type").bind Value.asStr ≠ some "ngsi-ld:EntityType" then
      refuse (path ++ ".@type") "must be ngsi-ld:EntityType"
    match (members.lookup "uid").bind Value.asStr with
    | none => refuse (path ++ ".uid") "name the Entity type"
    | some entityType =>
      let part ← partOfTarget (members.lookup "partOf") path
      let path := path ++ ".refinement"
      let items ← list (members.lookup "refinement") path
      let refined ← items.zipIdx.foldlM (refine path) ⟨none, none, none, none⟩
      return ⟨⟨entityType, refined.id, refined.idPattern⟩, refined.properties.getD [],
        refined.relationships.getD [], part⟩
  | _ => refuse path "a target is \x7b\"@type\": \"ngsi-ld:EntityType\", \"uid\": \"<type>\"\x7d"

def odrlRule (rule : Value) (path : String) (effect : PolicyEffect) (assigner : String)
    (fallback : Option Principal) : Out (Grant × Option Target) :=
  match rule with
  | .obj members => do
    closed members ["action", "target", "assignee", "assigner", "constraint"] path
    if (members.lookup "assigner").any fun own => own ≠ .str assigner then
      refuse (path ++ ".assigner") "a Policy has one assigner: the Set's"
    let assignee ← match members.lookup "assignee", fallback with
      | some party, _ => principal party (path ++ ".assignee")
      | none, some party => pure party
      | none, none => refuse (path ++ ".assignee") "name who the rule is for"
    let (operations, platform) ← actions (members.lookup "action") (path ++ ".action")
    let grant ← filters codecs
      ⟨effect, assignee, operations, platform, none, none, none, none, none⟩
      (members.lookup "constraint") (path ++ ".constraint")
    let target ← match members.lookup "target" with
      | some value => some <$> asset value (path ++ ".target")
      | none => pure none
    return (grant, target)
  | _ => refuse path "a rule is a JSON object"

/-- The rules of one member of a set, each read on its own. -/
def rulesUnder (set : List (String × Value)) (key : String) (effect : PolicyEffect)
    (assigner : String) (fallback : Option Principal) : Out (List (Grant × Option Target)) := do
  let rules ← list (set.lookup key) key
  rules.zipIdx.mapM fun c => odrlRule codecs c.1 (item key c.2) effect assigner fallback

/-- Every permission, then every prohibition. -/
def rulesOf (set : List (String × Value)) (assigner : String) (fallback : Option Principal) :
    Out (List (Grant × Option Target)) := do
  let permissions ← rulesUnder codecs set "permission" .permission assigner fallback
  let prohibitions ← rulesUnder codecs set "prohibition" .prohibition assigner fallback
  return permissions ++ prohibitions

end

/-- A grant with its entries and the part the last target named, the last grant first. -/
structure Grouped where
  grant : Grant
  entries : List RegistrationInfo
  part : Option String

/-- A target joins the last entry where its names and its part are that entry's. The entries are
kept last first. -/
def add (entries : List RegistrationInfo) (lastPart : Option String) (target : Target) :
    List RegistrationInfo :=
  let entry : RegistrationInfo :=
    ⟨[target.selector], target.properties, target.relationships, []⟩
  match entries with
  | info :: rest =>
    if lastPart = target.part ∧ info.propertyNames = target.properties ∧
        info.relationshipNames = target.relationships then
      { info with entities := info.entities ++ [target.selector] } :: rest
    else entry :: info :: rest
  | [] => [entry]

def regroupStep (grants : List Grouped) (rule : Grant × Option Target) : List Grouped :=
  match grants, rule.2 with
  | last :: rest, some target =>
    if last.grant = rule.1 ∧ last.entries ≠ [] then
      ⟨last.grant, add last.entries last.part target, target.part⟩ :: rest
    else ⟨rule.1, add [] none target, target.part⟩ :: last :: rest
  | [], some target => [⟨rule.1, add [] none target, target.part⟩]
  | _, none => ⟨rule.1, [], none⟩ :: grants

/-- Rules that follow each other with one grant become one rule. -/
def regroup (rules : List (Grant × Option Target)) : List (Grant × List RegistrationInfo) :=
  ((rules.foldl regroupStep []).map fun g => (g.grant, g.entries.reverse)).reverse

/-- The one validity every rule repeats. -/
def oneValidity (grants : List (Grant × List RegistrationInfo)) : Out (Option Validity) :=
  match grants with
  | [] => refuse "permission" "the Set grants and prohibits nothing"
  | first :: rest =>
    if rest.any fun c => c.1.validity ≠ first.1.validity then
      refuse "constraint"
        "every rule carries the same ngsi-ld:validity: it belongs to the whole Policy"
    else .ok first.1.validity

def ruleOf (c : Grant × List RegistrationInfo) : PolicyRule :=
  ⟨c.1.effect, c.1.assignee, c.1.operations, c.1.actions, c.2, c.1.q, c.1.scopeQ, c.1.geoQ,
    c.1.temporalQ⟩

def emptyRule : PolicyRule := ⟨.permission, Principal.unset, [], [], [], none, none, none, none⟩

/-- The shape of a single rule for one, `rules` for several. -/
def specOf (grants : List (Grant × List RegistrationInfo)) (assigner space : String)
    (validity : Option Validity) : PolicySpec :=
  let contextSpaceRef := .typed "ContextSpace" space none
  match grants.map ruleOf with
  | [only] => { only with contextSpaceRef, assigner, rules := none, validity }
  | rules => { emptyRule with contextSpaceRef, assigner, rules := some rules, validity }

/-- The policy a set says, validated like any manifest. -/
def importDocument (codecs : Codecs) (document : Value) (given : Names) : Out Policy :=
  match document with
  | .obj set => do
    let (assigner, fallback) ← frame set
    let (project, space, name) ← identity (set.lookup "uid") given
    let grants := regroup (← rulesOf codecs set assigner fallback)
    let validity ← oneValidity grants
    let policy : Policy := ⟨"joinedcontext.com/v1alpha1", name, some project,
      specOf grants assigner space validity⟩
    (policy.validate codecs.toCrates).mapError fun e => ⟨"(manifest)", e.display⟩
    return policy
  | _ => refuse "(document)" "an ODRL policy is one JSON object"

end JoinedContext.Odrl

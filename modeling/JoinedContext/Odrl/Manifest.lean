import JoinedContext.Core.Policy
import JoinedContext.Library.Outcome

/-!
# Policy manifests

A `Policy` as it is written: one rule, or several under `rules`, in one space and with one validity.
What it permits and prohibits is a set of combinations, and `expand` turns either shape into the
rules they are read off.
-/

namespace JoinedContext.Odrl

inductive PlatformAction where
  | readVersions
  | personalData
  deriving DecidableEq

inductive VersionsCapability where
  | read
  | keep
  deriving DecidableEq

inductive MetadataMember where
  | observedAt
  | unitCode
  | createdAt
  | modifiedAt
  | modifiedByOrganization
  | modifiedByActorKind
  | modifiedByActor
  | provenance
  | reason
  deriving DecidableEq

inductive WriteCapability where
  | update
  | append
  | delete
  deriving DecidableEq

structure AttributeCapabilities where
  history : Option Bool
  versions : Option (List VersionsCapability)
  metadata : Option (List MetadataMember)
  write : Option (List WriteCapability)

structure RegistrationInfo where
  entities : List EntitySelector
  propertyNames : List String
  relationshipNames : List String
  attributes : List (String × AttributeCapabilities)

structure PolicyRule where
  effect : PolicyEffect
  assignee : Principal
  operations : List OperationRef
  actions : List PlatformAction
  information : List RegistrationInfo
  q : Option String
  scopeQ : Option String
  geoQ : Option String
  temporalQ : Option String

/-- A spec: the members of a single rule, the rules instead of them, and what belongs to both. -/
structure PolicySpec extends PolicyRule where
  contextSpaceRef : Ref
  assigner : String
  rules : Option (List PolicyRule)
  validity : Option Validity

structure Policy where
  apiVersion : String
  name : String
  «namespace» : Option String
  spec : PolicySpec

inductive Error where
  | name (error : Names.NameError)
  | kind (expected got : String)
  | apiVersion (got : String)

def Error.display : Error → String
  | .name error => error.display
  | .kind expected got => "kind must be `" ++ expected ++ "`, got `" ++ got ++ "`"
  | .apiVersion got => "apiVersion `" ++ got ++ "` is not served for this kind: every kind is " ++
      "`joinedcontext.com/v1alpha1`, a Pipeline may also be `joinedcontext.com/v1alpha2`"

def refuseField (field value reason : String) : Except Error Unit :=
  .error (.name ⟨field, value, reason⟩)

def Principal.unset : Principal := ⟨.role, ""⟩

def isWriteRef : OperationRef → Bool
  | .single op => op.isWrite
  | .group group => group == .updateOps || group == .redirectionOps

/-- The first value of a list that an earlier one repeats. -/
def firstRepeat {α : Type} [DecidableEq α] : List α → List α → Option α
  | _, [] => none
  | seen, a :: rest => if a ∈ seen then some a else firstRepeat (a :: seen) rest

/-- A person's user id: a lower-case UUID. -/
def isPersonId (value : String) : Bool :=
  value.utf8ByteSize == 36 && value.length == 36 && value.toList.zipIdx.all fun c =>
    if c.2 ∈ [8, 13, 18, 23] then c.1 == '-' else c.1.isDigit || ('a' ≤ c.1 && c.1 ≤ 'f')

def validatePersonId (field value : String) : Except Error Unit :=
  if isPersonId value then .ok ()
  else refuseField field value <|
    if '@' ∈ value.toList then
      "a person is named by their Keycloak user id (a UUID such as " ++
        "3f2a9c1e-7b4d-4e8a-9c61-0d5e2b7f8a14), never by e-mail: Git keeps every e-mail for good " ++
        "(PF-126)"
    else
      "a person is named by their Keycloak user id, a lower-case UUID such as " ++
        "3f2a9c1e-7b4d-4e8a-9c61-0d5e2b7f8a14 (PF-126)"

namespace PolicySpec

variable (crates : Crates) (spec : PolicySpec)

def singleRuleMember : Option String :=
  [(spec.effect.isProhibition, "effect"), (spec.assignee ≠ Principal.unset, "assignee"),
    (!spec.operations.isEmpty, "operations"), (!spec.actions.isEmpty, "actions"),
    (!spec.information.isEmpty, "information"), (spec.q.isSome, "q"),
    (spec.scopeQ.isSome, "scopeQ"), (spec.geoQ.isSome, "geoQ"),
    (spec.temporalQ.isSome, "temporalQ")].findSome? fun c => if c.1 then some c.2 else none

/-- One shape or the other: an assignee, or rules with no member of a single rule beside them. -/
def checkShape : Except Error Unit :=
  match spec.rules with
  | none =>
    if spec.assignee = Principal.unset then
      refuseField "spec.assignee" "" "a Policy names an assignee or lists rules"
    else .ok ()
  | some [] => refuseField "spec.rules" ""
      "rules must list at least one rule; omit it for a single-rule Policy"
  | some _ =>
    match spec.singleRuleMember with
    | some member => refuseField "spec.rules" member
        "a Policy with rules carries this member inside each rule, not beside rules"
    | none => .ok ()

def withRule (rule : PolicyRule) : PolicySpec :=
  { spec with toPolicyRule := rule, rules := none }

/-- Every rule as a spec of a single one. -/
def expand : Except Error (List PolicySpec) := do
  spec.checkShape
  match spec.rules with
  | none => return [spec]
  | some rules => return rules.map spec.withRule

def validateAssignee : Except Error Unit := do
  if spec.assignee.kind = .organization then
    if spec.assignee.id ≠ "" then
      refuseField "spec.assignee.id" spec.assignee.id
        ("an organization assignee names no id: it is always the Organization " ++
          "of the Policy's own project; write `assignee: \x7b kind: organization \x7d`")
  else if Text.trim spec.assignee.id = "" then
    refuseField "spec.assignee.id" spec.assignee.id "assignee id must not be empty"
  if spec.assignee.kind = .user && !isServiceAccountUser spec.assignee.id then
    validatePersonId "spec.assignee.id" spec.assignee.id

def narrowing : Option Names.NameError :=
  spec.q.bind (PolicySpec.refusedQ crates) <|> spec.scopeQ.bind (PolicySpec.refusedScopeQ crates) <|>
    spec.geoQ.bind (PolicySpec.refusedGeoQ crates)

/-- The names of one list: each is given, and given once. -/
def validateNames (field blank twice : String) (seen : List String) :
    List String → Except Error Unit
  | [] => .ok ()
  | n :: rest =>
    if Text.trim n = "" then refuseField field n blank
    else if n ∈ seen then refuseField field n twice
    else validateNames field blank twice (n :: seen) rest

def hasWrite : Bool := spec.operations.any isWriteRef

/-- Why the capabilities of one attribute exceed the grant. -/
def capabilityRefusal (caps : AttributeCapabilities) : Option String :=
  let temporal := spec.operations.any fun op =>
    op == .single .queryTemporal || op == .single .retrieveTemporal
  let isPublic := spec.assignee == ⟨.role, "public"⟩
  let versions := caps.versions.getD []
  let write := caps.write.getD []
  let metadata := caps.metadata.getD []
  let writes := versions.contains .keep || !write.isEmpty
  if caps.history = some true && !temporal then
    some "history needs queryTemporal or retrieveTemporal in operations"
  else if versions.contains .read && !spec.actions.contains .readVersions then
    some "versions: [read] needs the action readVersions"
  else if writes && isPublic then some "a public grant never writes or keeps versions"
  else if writes && !spec.hasWrite then some "versions: [keep] and write need a write operation"
  else if isPublic && metadata.any fun m => m == .modifiedByActor || m == .provenance then
    some "a public grant never passes modifiedBy.actor or provenance (DM-140)"
  else if (firstRepeat [] versions).isSome || (firstRepeat [] write).isSome ||
      (firstRepeat [] metadata).isSome then
    some "a capability list names each value once"
  else none

def validateCapability (info : RegistrationInfo) (c : String × AttributeCapabilities) :
    Except Error Unit :=
  let anyName := info.propertyNames.isEmpty && info.relationshipNames.isEmpty
  if c.1 ≠ "*" ∧ !anyName ∧ c.1 ∉ info.propertyNames ∧ c.1 ∉ info.relationshipNames then
    refuseField "information.attributes" c.1
      "an attribute here is `*` or one propertyNames or relationshipNames lists"
  else
    match spec.capabilityRefusal c.2 with
    | some reason => refuseField "information.attributes" c.1 reason
    | none => .ok ()

def validateEntry (info : RegistrationInfo) : Except Error Unit := do
  info.entities.forM fun e => (e.validate crates).mapError .name
  validateNames "information.propertyNames" "propertyName must not be empty"
    "duplicate propertyName in propertyNames list" [] info.propertyNames
  info.attributes.forM (spec.validateCapability info)
  validateNames "information.relationshipNames" "relationshipName must not be empty"
    "duplicate relationshipName in relationshipNames list" [] info.relationshipNames

def validateAssigner (assigner : String) : Except Error Unit :=
  if Text.trim assigner = "" then
    refuseField "spec.assigner" assigner "assigner must not be empty"
  else if (Text.stripPrefix "did:" assigner).isNone ||
      assigner.toList.any fun c => c == '@' || Text.whitespace c then
    refuseField "spec.assigner" assigner
      ("the assigner is the organisation's DID, written `did:web:\x7borgDomain\x7d`; " ++
        "an e-mail or a person's name is no assigner")
  else .ok ()

def validateSpaceRef (space : Ref) : Except Error Unit := do
  (Names.validateSpaceName space.nameOf).mapError .name
  match space.kindOf with
  | some kind => if kind ≠ "ContextSpace" then .error (.kind "ContextSpace" kind)
  | none => pure ()

def validateGranted : Except Error Unit :=
  if spec.operations.isEmpty && spec.actions.isEmpty then
    refuseField "spec.operations" "" "a policy grants at least one operation or action"
  else
    match firstRepeat [] spec.actions, firstRepeat [] (spec.operations.map OperationRef.asStr) with
    | some .readVersions, _ => refuseField "spec.actions" "ReadVersions"
        "duplicate action in actions list"
    | some .personalData, _ => refuseField "spec.actions" "PersonalData"
        "duplicate action in actions list"
    | none, some op => refuseField "spec.operations" op "duplicate operation in operations list"
    | none, none => .ok ()

/-- A bound is shown as it is written. -/
def validateWindow (validity : Option Validity) : Except Error Unit :=
  match validity.bind Validity.fromAt, validity.bind Validity.toAt with
  | some a, some b =>
    if b < a then
      refuseField "spec.validity" (crates.toRfc3339 a ++ " > " ++ crates.toRfc3339 b)
        "validity `from` must be less than or equal to `to`"
    else .ok ()
  | _, _ => .ok ()

def validateSingle : Except Error Unit := do
  validateSpaceRef spec.contextSpaceRef
  validateAssigner spec.assigner
  spec.validateAssignee
  spec.validateGranted
  spec.information.forM (spec.validateEntry crates)
  match spec.narrowing crates with
  | some refused => .error (.name refused)
  | none => pure ()
  validateWindow crates spec.validity

def validate : Except Error Unit :=
  match spec.rules with
  | some _ => do (← spec.expand).forM (validateSingle crates)
  | none => spec.validateSingle crates

end PolicySpec

namespace Policy

/-- The identity of a policy in its envelope, then its spec. -/
def validate (crates : Crates) (policy : Policy) : Except Error Unit := do
  (Names.validateDns1123Label policy.name).mapError .name
  match policy.namespace with
  | none => refuseField "metadata.namespace" "" "namespace is required"
  | some ns =>
    (Names.validateNamespace ns).mapError .name
    if ns = "org" then
      refuseField "metadata.namespace" ns
        "project-scoped resources must not have namespace `org`"
  if policy.apiVersion ≠ "joinedcontext.com/v1alpha1" then .error (.apiVersion policy.apiVersion)
  policy.spec.validate crates

end Policy

end JoinedContext.Odrl

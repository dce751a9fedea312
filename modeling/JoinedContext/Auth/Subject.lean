import JoinedContext.Auth.Token
import Mathlib.Data.Finset.Sort
import Mathlib.Data.String.Basic

/-!
# Who a request is

The token a request carries turned into the subject the decision point judges, and the admission of
that subject on an endpoint.
-/

namespace JoinedContext.Auth

/-- One human or group a binding names. -/
structure Kinds.Subject where
  user : Option String := none
  group : Option String := none
deriving DecidableEq

inductive Audience where
  | projectList | organization | «public»
deriving DecidableEq

def endpointRolePrefix : String := "endpoint:"

/-- The role a caller holds on an endpoint: its caller role, or a named one. -/
def endpointRole (project endpoint : String) (role : Option String) : String :=
  match role with
  | none => endpointRolePrefix ++ (project ++ "/" ++ endpoint)
  | some role => endpointRolePrefix ++ (project ++ "/" ++ endpoint ++ "/" ++ role)

def isEndpointRole (role : String) : Bool := (Text.stripPrefix endpointRolePrefix role).isSome

theorem isEndpointRole_endpointRole (project endpoint : String) (role : Option String) :
    isEndpointRole (endpointRole project endpoint role) = true := by
  have hstrip : ∀ rest : String, isEndpointRole (endpointRolePrefix ++ rest) = true := fun rest =>
    Option.isSome_iff_exists.2 ⟨rest, Text.stripPrefix_eq_some.2 (by simp)⟩
  cases role <;> exact hstrip _

/-- A role of an endpoint: its name in the manifest, its full name and who holds it. -/
structure NamedRole where
  name : String
  role : String
  subjects : List Kinds.Subject

/-- The roles an endpoint gives the callers it admits; nothing else gives a role of that name. -/
structure EndpointRoles where
  caller : Option String := none
  named : List NamedRole := []
  appClient : Option String := none
  endpointRoles : ∀ n ∈ named, isEndpointRole n.role = true := by simp

namespace EndpointRoles

def of (project endpoint : String) (callerRole : Bool)
    (roles : List (String × List Kinds.Subject)) : EndpointRoles where
  caller := if callerRole then some (endpointRole project endpoint none) else none
  named := roles.map fun role => ⟨role.1, endpointRole project endpoint (some role.1), role.2⟩
  endpointRoles := by
    intro n hn
    obtain ⟨role, -, rfl⟩ := List.mem_map.1 hn
    exact isEndpointRole_endpointRole project endpoint (some role.1)

def ofApp (project endpoint : String) (callerRole : Bool)
    (roles : List (String × List Kinds.Subject)) (client : String) : EndpointRoles :=
  { EndpointRoles.of project endpoint callerRole roles with appClient := some client }

def names (user : Option String) (groups : Finset String) (subject : Kinds.Subject) : Bool :=
  match subject.user, subject.group with
  | some wanted, none => user == some wanted
  | none, some wanted => wanted ∈ groups
  | _, _ => false

/-- The roles given to a caller with this user id, these groups and these roles of the endpoint's
app client. -/
def heldBy (r : EndpointRoles) (user : Option String) (groups : Finset String)
    (clientRoles : List String) : List String :=
  r.caller.toList ++ (r.named.filter fun n =>
    if r.appClient.isSome then n.name ∈ clientRoles
    else n.subjects.any (names user groups)).map NamedRole.role

end EndpointRoles

structure Endpoint where
  slug : String
  basePath : String := ""
  space : String
  project : String
  audience : Audience
  allowedProjects : List String := []
  roles : EndpointRoles := {}

namespace Endpoint

def admits (endpoint : Endpoint) (project : Option String) : Bool :=
  match endpoint.audience with
  | .public => true
  | .organization => project.any (· != "")
  | .projectList => project.any fun caller =>
      caller == endpoint.project || caller ∈ endpoint.allowedProjects

def admitsFrom (endpoint : Endpoint) (project : String) (organizations : List (String × String)) :
    Bool :=
  endpoint.admits (some project) && (endpoint.audience != .organization ||
    (organizations.lookup endpoint.project).any fun theirs =>
      organizations.lookup project == some theirs)

end Endpoint

/-- One role of a service account and where it applies. -/
structure ScopedRole where
  role : String
  contextSpace : Option String := none
  project : Option String := none
  organization : Bool := false
  /-- When it applies, both bounds included. -/
  validity : Option (Option Instant × Option Instant) := none

def ScopedRole.inForce (role : ScopedRole) (now : Instant) : Bool :=
  role.validity.all fun validity =>
    (validity.1.all fun notBefore => decide (notBefore ≤ now)) &&
      validity.2.all fun notAfter => decide (now ≤ notAfter)

structure Account where
  name : String
  project : String
  roles : List ScopedRole := []
  delegates : Bool := false
  /-- When the account's last credential ends; none while one of them has no end. -/
  credentialsEnd : Option Instant := none

/-- The roles that reach one space of one project. -/
def Account.rolesIn (account : Account) (project space : String) (now : Instant) : Finset String :=
  ((account.roles.filter fun role => role.inForce now && (role.organization ||
    (project == account.project && role.project == some project) ||
    role.contextSpace == some space)).map ScopedRole.role).toFinset

inductive AgreementRole where
  | provider | consumer
deriving DecidableEq

inductive AgreementState where
  | requested | offered | accepted | finalized | terminated
deriving DecidableEq

structure Agreement where
  project : String
  role : AgreementRole
  remoteParticipant : String
  state : AgreementState
  validity : Option Instant × Option Instant := (none, none)

def Agreement.isActive (agreement : Agreement) (now : Instant) : Bool :=
  agreement.state == .finalized && (agreement.validity.1.all fun a => decide (a ≤ now)) &&
    agreement.validity.2.all fun b => decide (now ≤ b)

structure PreviewReaders where
  readers : Finset String
  audience : Audience

/-- What the gateway holds of the repository when it decides who a token is. -/
structure Gateway where
  /-- The service accounts by their Keycloak client id. -/
  accounts : List (String × Account) := []
  /-- The slugs each App's client is admitted on. -/
  apps : List (String × Finset String) := []
  previews : List (String × PreviewReaders) := []
  /-- Each project's Organization. -/
  organizations : List (String × String) := []
  agreements : List (String × Agreement) := []
  publicUrl : Option String := none
  /-- The endpoints a hub reads with the caller's identity. -/
  callerMembers : Finset String := ∅
  brokerOfView : String → String := fun _ => "main"

/-- A subject, with what its audit line and its provenance name and no grant is decided by. -/
structure Caller extends Subject where
  agreement : Option String := none
  via : Option String := none
  client : Option String := none
  organization : Option String := none

inductive Problem where
  | unauthorized | forbidden | notFound
deriving DecidableEq

section Standing

variable (gateway : Gateway) (endpoint : Endpoint) (claims : Claims)

/-- Whether a username may be decided under its own name: a `service-account-` one only on a token
that client obtained. -/
def ownsItsName (user : String) (azp : Option String) : Bool :=
  let mark := "service-account-"
  if Text.eqIgnoreAsciiCase (String.ofList (user.toList.take mark.toList.length)) mark then
    azp.any fun azp => azp != "" &&
      Text.eqIgnoreAsciiCase (String.ofList (user.toList.drop mark.toList.length)) azp
  else true

def rolesOn (audience : Audience) (asserted : Finset String) : Finset String :=
  if audience = .public then insert "public" asserted else asserted

/-- The projects a group names: its own name, and the project it holds the readers or writers of. -/
def groupProjects (group : String) : List String :=
  group :: ((Text.stripSuffix "-readers" group <|> Text.stripSuffix "-writers" group).filter
    (· != "")).toList

/-- Whether a project is of the endpoint's own Organization, which an `organization` audience asks
of every caller. -/
def ofItsOrganization (project : String) : Bool :=
  if endpoint.audience ≠ .organization then true
  else
    match gateway.organizations.lookup endpoint.project with
    | none => true
    | some theirs => gateway.organizations.lookup project == some theirs

/-- The project a person's groups name on the endpoint, empty when none is. -/
def projectOf (groups : Finset String) : String :=
  (((endpoint.project :: endpoint.allowedProjects).find? fun project =>
      decide (∃ group ∈ groups, project ∈ groupProjects group)) <|>
    if endpoint.audience = .organization then
      (groups.sort (· ≤ ·)).find? fun group => ofItsOrganization gateway endpoint group
    else none).getD ""

/-- A person's standing in an Organization: whether they are a member, and their groups in it when
the token carries them. -/
def standing (organization : Option String) : Bool × Option (Finset String) :=
  let organization := organization.getD ""
  (claims.memberOf organization, claims.jcGroups.map fun _ => (claims.groupsIn organization).toFinset)

def inOrganization : Bool × Option (Finset String) :=
  standing claims (gateway.organizations.lookup endpoint.project)

def refuseOutside (project : String) : Except Problem Unit :=
  if !ofItsOrganization gateway endpoint project then .error .notFound
  else if !endpoint.admits (some project) then .error .forbidden
  else .ok ()

end Standing

section Dataspace

/-- The longest a transfer token may live, in seconds. -/
def maxLifetime : Int := 15 * 60

def iatLeeway : Int := 60

def presented (claims : Claims) : Bool := claims.agreementId.isSome

/-- An agreement data is served under: this platform provides, and it is in force. -/
def serving (gateway : Gateway) (id : String) (now : Instant) : Option Agreement :=
  (gateway.agreements.lookup id).filter fun agreement =>
    agreement.role == .provider && agreement.isActive now

/-- The caller a transfer token establishes: the participant, and nothing else. -/
def dataspaceSubject (gateway : Gateway) (endpoint : Endpoint) (now : Instant) (claims : Claims) :
    Except Problem Caller :=
  match claims.agreementId.filter (· != ""), claims.participant.filter (· != ""), claims.iat with
  | some id, some participant, some issued =>
    if claims.exp - issued > maxLifetime ∨ issued > now / 1000000000 + iatLeeway then
      .error .unauthorized
    else
      match serving gateway id now with
      | none => .error .unauthorized
      | some agreement =>
        if agreement.remoteParticipant ≠ participant then .error .unauthorized
        else if !endpoint.admitsFrom agreement.project gateway.organizations then .error .forbidden
        else
          .ok { did := some participant, agreement := some id, readOnly := claims.readOnly }
  | _, _, _ => .error .unauthorized

end Dataspace

section Subjects

variable (gateway : Gateway) (endpoint : Endpoint) (now : Instant) (claims : Claims)

/-- An App's client reaches the endpoints its App reads, and an `app-` client nobody names none. -/
def admitsOn (azp : String) : Bool :=
  match gateway.apps.lookup azp with
  | some slugs => endpoint.slug ∈ slugs
  | none => (Text.stripPrefix "app-" azp).isNone || (gateway.accounts.lookup azp).isSome

def readerOf (preview : PreviewReaders) (user : String) : Caller where
  user := some user
  id := some claims.sub
  roles := rolesOn preview.audience claims.roles.toFinset
  groups := claims.groupNames.toFinset
  memberOfOrganization := (inOrganization gateway endpoint claims).1
  organizationGroups := (inOrganization gateway endpoint claims).2
  client := claims.azp
  readOnly := claims.readOnly

/-- A person on a preview surface: one of the readers listed for it, by user id. -/
def previewReader (preview : PreviewReaders) : Except Problem Caller :=
  let workload := presented claims ||
    claims.azp.any fun azp => (gateway.accounts.lookup azp).isSome
  if workload ∨ claims.sub ∉ preview.readers then .error .notFound
  else
    let user := claims.preferredUsername.getD claims.sub
    if !ownsItsName user claims.azp then .error .notFound
    else .ok (readerOf gateway endpoint claims preview user)

/-- Who a token without an agreement is: a service account, or a person a client may act for. -/
inductive Party where
  | workload (account : Account)
  | person (via : Option String)

def partyOf : Except Problem Party :=
  match claims.azp with
  | none => .ok (.person none)
  | some azp =>
    let forAPerson := claims.preferredUsername.any fun user =>
      !Text.eqIgnoreAsciiCase user ("service-account-" ++ azp)
    match gateway.accounts.lookup azp with
    | some account =>
      if !forAPerson then .ok (.workload account)
      else if account.delegates then .ok (.person (some account.name))
      else .error .forbidden
    | none =>
      if "-appjob-".toList <:+: azp.toList then .error .forbidden
      else if claims.preferredUsername.isNone then .error .forbidden
      else .ok (.person none)

def workloadOf (account : Account) : Caller where
  serviceAccount := some account.name
  serviceAccountProject := some account.project
  roles := rolesOn endpoint.audience (account.rolesIn endpoint.project endpoint.space now)
  organization := gateway.organizations.lookup account.project
  readOnly := claims.readOnly

def workload (account : Account) : Except Problem Caller :=
  if !endpoint.admits (some account.project) then .error .forbidden
  else if !ofItsOrganization gateway endpoint account.project then .error .notFound
  else .ok (workloadOf gateway endpoint now claims account)

def personOf (user project : String) (via : Option String) : Caller where
  user := some user
  id := some claims.sub
  roles := rolesOn endpoint.audience claims.roles.toFinset
  groups := claims.groupNames.toFinset
  memberOfOrganization := (inOrganization gateway endpoint claims).1
  organizationGroups := (inOrganization gateway endpoint claims).2
  via := via
  client := claims.azp
  organization := gateway.organizations.lookup (if project = "" then endpoint.project else project)
  readOnly := claims.readOnly

/-- A person: admitted as a member of the endpoint's Organization, or by a project their groups
name. -/
def person (via : Option String) : Except Problem Caller :=
  match claims.preferredUsername with
  | none => .error .unauthorized
  | some user =>
    if !ownsItsName user claims.azp then .error .forbidden
    else
      let project := projectOf gateway endpoint claims.groupNames.toFinset
      let member := decide (endpoint.audience = .organization) &&
        (inOrganization gateway endpoint claims).1
      if member then .ok (personOf gateway endpoint claims user project via)
      else do
        refuseOutside gateway endpoint project
        return personOf gateway endpoint claims user project via

/-- Turns verified claims into the subject the decision point evaluates. -/
def subjectOf : Except Problem Caller :=
  if presented claims then dataspaceSubject gateway endpoint now claims
  else do
    match ← partyOf gateway claims with
    | .workload account => workload gateway endpoint now claims account
    | .person via => person gateway endpoint claims via

/-- Drops every endpoint role the token or an account asserts and gives the endpoint's own. -/
def withEndpointRoles (caller : Caller) (clientRoles : List String) : Caller :=
  { caller with
    roles := caller.roles.filter (fun role => !isEndpointRole role) ∪
      (endpoint.roles.heldBy caller.userPrincipal caller.groups clientRoles).toFinset }

/-- The subject before the endpoint's own roles. -/
def asserted : Except Problem Caller :=
  match gateway.previews.lookup endpoint.slug with
  | some preview => previewReader gateway endpoint claims preview
  | none => subjectOf gateway endpoint now claims

def clientRolesOn : List String :=
  (endpoint.roles.appClient.map claims.clientRoles).getD []

/-- The subject a verified token is on an endpoint. -/
def subjectFrom : Except Problem Caller :=
  if claims.azp.any fun azp => !admitsOn gateway endpoint azp then .error .unauthorized
  else do
    let caller ← asserted gateway endpoint now claims
    if caller.agreement.isNone then return withEndpointRoles endpoint caller (clientRolesOn endpoint claims)
    else return caller

def edgeAudience : String := "context-gateway"
def cliAudience : String := "jcctl-endpoint"
def cliClient : String := "jcctl"
def hubAudience : String := "mcp-hub"
def portalClient : String := "portal-api"
def gatewayClient : String := "context-gateway"

def audiencesFor : List String :=
  endpoint.slug :: (gateway.publicUrl.map (· ++ endpoint.basePath)).toList ++ [edgeAudience]

def brokerAudience : String := "context-broker-" ++ gateway.brokerOfView endpoint.slug

/-- A person's token for one endpoint by the scope that names it, from the one client it holds
for. -/
def scopedSubject (client : String) : Except Problem Caller :=
  if claims.azp ≠ some client ∨ endpoint.slug ∉ claims.endpointScopes then .error .unauthorized
  else do
    let caller ← subjectFrom gateway endpoint now claims
    if caller.user.isNone then .error .unauthorized else .ok caller

/-- A federated read's token, which the gateway's own exchange alone mints. -/
def exchangedSubject : Except Problem Caller :=
  if claims.azp ≠ some gatewayClient then .error .unauthorized
  else do
    let caller ← subjectFrom gateway endpoint now claims
    if caller.user.isNone then .error .unauthorized
    else .ok { caller with via := some gatewayClient }

def acceptedAudiences (federated : Bool) : List String :=
  audiencesFor gateway endpoint ++ [cliAudience, hubAudience] ++
    if federated ∧ endpoint.slug ∈ gateway.callerMembers then [brokerAudience gateway endpoint] else []

/-- The subject of a verified token, by the audience it names. -/
def admitOn (federated : Bool) : Except Problem Caller :=
  if !claims.namesAudience (acceptedAudiences gateway endpoint federated) then .error .unauthorized
  else if claims.namesAudience (audiencesFor gateway endpoint) then
    subjectFrom gateway endpoint now claims
  else if claims.namesAudience [cliAudience] then scopedSubject gateway endpoint now claims cliClient
  else if claims.namesAudience [hubAudience] then
    scopedSubject gateway endpoint now claims portalClient
  else exchangedSubject gateway endpoint now claims

end Subjects

end JoinedContext.Auth

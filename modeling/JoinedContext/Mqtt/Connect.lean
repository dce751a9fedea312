import JoinedContext.Auth.Accounts
import JoinedContext.Auth.Token
import JoinedContext.Mqtt.Grants
import JoinedContext.Pdp.Temporal

/-!
# The checks of a broker

Every CONNECT and every publish of a broker is decided by the gateway. A CONNECT is answered with
the subscriptions of the roles the account holds then and the second the broker drops the
connection at; a publish is decided again, on the roles held when it is made.
-/

namespace JoinedContext.Mqtt

open Auth

/-- The seconds of an instant, as a token's `exp` counts them. -/
def timestamp (t : Instant) : Int := t / Temporal.nanosPerSecond

def captureUsername : String := "jc-portal-capture"

/-- How long a CONNECT through the certificate door holds. -/
def certificateConnectSeconds : Int := 3600

/-- One broker the repository declares, as the checks read it. -/
structure Broker where
  name : String
  project : String
  roles : List MqttRole
  /-- The topic filters of the DataSources of its project that name it. -/
  runnerTopics : List String := []
  /-- The networks a device may connect from, empty for any. -/
  sources : List SourceRange := []
  messagesPerSecond : Nat := 10
  captureTopics : List String := []
  /-- Whether devices may connect with a token. -/
  tokens : Bool := true
  /-- Whether this is the broker's certificate door. -/
  certificateDoor : Bool := false
deriving DecidableEq

abbrev Brokers := List (String × Broker)

/-- What the broker posts of a CONNECT. -/
structure Connect where
  clientid : String
  username : String
  password : String
  ipaddr : String
deriving DecidableEq

/-- One rule of the answer. -/
structure Rule where
  permission : String := "allow"
  action : String := "subscribe"
  topic : String
  qos : List Nat := [0, 1]
deriving DecidableEq

structure Answer where
  result : String
  superuser : Bool := false
  /-- When the broker drops the connection, in seconds. -/
  expireAt : Option Int := none
  acl : Option (List Rule) := none
deriving DecidableEq

def Answer.deny : Answer := ⟨"deny", false, none, none⟩

def Answer.allow (acl : List Rule) (expireAt : Option Int) : Answer :=
  ⟨"allow", false, expireAt, some acl⟩

inductive Reason where
  | noToken | noRealm | expired | wrongAudience | invalidToken | wrongClient | unknownAccount
  | otherProject | noRole | noSubscription | sourceAddress | tokenNotAllowed | certificate
deriving DecidableEq

/-- What a CONNECT was decided on, and the reason a refusal is kept with. -/
structure Why where
  text : String
  refused : Option Reason := none
deriving DecidableEq

def refused (text : String) (reason : Reason) : Answer × Why := (.deny, ⟨text, some reason⟩)

/-- The addresses a CONNECT without a token is admitted from. -/
structure Pods where
  runner : List IpAddr := []
  portal : List IpAddr := []
  brokers : List IpAddr := []

/-- Why a token does not verify. -/
inductive Rejected where
  | expired | wrongAudience | other

/-- The realm's verifier: a token and the audiences it may name. -/
abbrev Verifier := String → List String → Except Rejected Claims

/-- The broker a mesh identity names: its first label. -/
def brokerOf (identity : String) : String := (Text.splitAny ['.'] identity).headD ""

/-- The common name of a subject DN: the value of the one `CN` attribute, an account's name. -/
def commonName (dn : String) : Option String :=
  match (Text.splitAny [','] dn).filterMap fun part => Text.stripPrefix "CN=" (Text.trim part) with
  | [name] =>
    if name ≠ "" ∧ name.toList.all (fun c => Names.lowerOrDigit c || c == '-') then some name
    else none
  | _ => none

def admitsSource (sources : List SourceRange) (ipaddr : String) : Bool :=
  sources.isEmpty || (IpAddr.parse ipaddr).any fun ip => sources.any fun range => range.contains ip

/-- Why the account is no device of the broker: another project's, or every credential ended. -/
def refusedDevice (broker : Broker) (account : Account) (now : Instant) :
    Option (String × Reason) :=
  if account.project ≠ broker.project then
    some ("the account belongs to another project", .otherProject)
  else if account.credentialsEnd.any fun t => t ≤ now then
    some ("the account's credentials have expired", .expired)
  else none

/-- A role binding of the account as the broker's roles are decided from it. -/
def bindingOf (role : ScopedRole) : Binding :=
  ⟨role.role, role.project, role.validity.map fun v => ⟨v.1, v.2⟩⟩

def rolesOf (broker : Broker) (account : Account) (now : Instant) : List Held :=
  rolesHeld broker.name broker.project broker.roles account.name account.project
    (account.roles.map bindingOf) now

/-- When the last grant ends; none where a role held has no end. -/
def grantsEnd (held : List Held) : Option Int :=
  if held.any fun h => h.lastsTo.isNone then none
  else latest (held.filterMap fun h => h.lastsTo.map timestamp)

def expireAt (account : Account) (held : List Held) (exp : Int) : Int :=
  ([account.credentialsEnd.map timestamp, grantsEnd held].filterMap id).foldl min exp

/-- The answer for a device whose token, valid until `exp`, named the account. -/
def device (broker : Broker) (account : Account) (exp : Int) (now : Instant) : Answer × Why :=
  match refusedDevice broker account now with
  | some (why, reason) => refused why reason
  | none =>
    let held := rolesOf broker account now
    if held = [] then refused "the account holds no role of this broker" .noRole
    else
      let acl := (held.flatMap fun h => h.role.subscribe).map fun topic => ({ topic } : Rule)
      (.allow acl (some (expireAt account held exp)), ⟨"a device", none⟩)

/-- A CONNECT through the certificate door. -/
def certificate (broker : Broker) (accounts : ServiceAccounts) (connect : Connect)
    (now : Instant) : Answer × Why :=
  if connect.password ≠ "" then
    refused "the certificate door takes no password" .certificate
  else if !admitsSource broker.sources connect.ipaddr then
    refused "the client's address is outside the broker's allowedSources" .sourceAddress
  else match commonName connect.username with
    | none => refused "the certificate names no single common name" .certificate
    | some name =>
      if connect.clientid ≠ keycloakClientId broker.project name then
        refused "the client id is not the certificate's account" .wrongClient
      else match accounts.resolve connect.clientid with
        | some account => device broker account (timestamp now + certificateConnectSeconds) now
        | none => refused "the certificate's common name is no ServiceAccount" .unknownAccount

/-- A CONNECT without a token: the runner or the Portal's capture, each by its name from one of its
own pods. -/
def tokenless (broker : Broker) (pods : Pods) (connect : Connect) : Answer × Why :=
  let from_ := fun (addresses : List IpAddr) =>
    (IpAddr.parse connect.ipaddr).any fun ip => addresses.contains ip.toCanonical
  if connect.username = runnerUsernameOf broker.project ∧
      (from_ pods.runner ∨ from_ pods.brokers) then
    if broker.runnerTopics = [] then refused "no DataSource reads this broker" .noSubscription
    else (.allow (broker.runnerTopics.map fun topic => { topic }) none,
      ⟨"the pipeline runner", none⟩)
  else if connect.username = captureUsername ∧ (from_ pods.portal ∨ from_ pods.brokers) then
    if broker.captureTopics = [] then refused "the broker is not in capture mode" .noSubscription
    else (.allow (broker.captureTopics.map fun topic => { topic }) none,
      ⟨"the Portal's capture", none⟩)
  else refused "no token" .noToken

/-- Decides one CONNECT; `caller` is the mesh identity of the broker asking. -/
def decide (brokers : Brokers) (verifier : Option Verifier) (accounts : ServiceAccounts)
    (caller : Option String) (pods : Pods) (connect : Connect) (now : Instant) : Answer × Why :=
  match caller.map brokerOf with
  | none => (.deny, ⟨"no mesh identity", none⟩)
  | some release =>
    match brokers.lookup release with
    | none => (.deny, ⟨"the caller is no broker this repository declares", none⟩)
    | some broker =>
      if broker.certificateDoor then certificate broker accounts connect now
      else if connect.password = "" then tokenless broker pods connect
      else if !broker.tokens then
        refused "the broker admits client certificates only" .tokenNotAllowed
      else if !admitsSource broker.sources connect.ipaddr then
        refused "the client's address is outside the broker's allowedSources" .sourceAddress
      else match verifier with
        | none => refused "no realm configured" .noRealm
        | some verify =>
          match verify connect.password [release] with
          | .error .expired => refused "the token is expired" .expired
          | .error .wrongAudience => refused "the token is bound to another broker" .wrongAudience
          | .error .other => refused "the token does not verify" .invalidToken
          | .ok claims =>
            if claims.exp ≤ timestamp now then refused "the token is expired" .expired
            else match claims.azp with
              | none => refused "the token names no client" .wrongClient
              | some azp =>
                if azp ≠ connect.username ∨ azp ≠ connect.clientid then
                  refused "the username or client id is not the token's client" .wrongClient
                else match accounts.resolve azp with
                  | some account => device broker account claims.exp now
                  | none => refused "the client is no ServiceAccount" .unknownAccount

/-- What the broker posts of a publish. -/
structure Access where
  /-- `1` subscribe, `2` publish. -/
  access : String
  clientid : String
  username : String
  topic : String
deriving DecidableEq

/-- Whether the publish is a device's: its certificate's account, or its token's client. -/
def isDevice (broker : Broker) (access : Access) : Bool :=
  if broker.certificateDoor then
    (commonName access.username).any fun name =>
      access.clientid = keycloakClientId broker.project name
  else access.username = access.clientid ∧ access.username ∉ [runnerUsername, captureUsername]

/-- Whether a role of the broker the account holds at the instant covers the topic. -/
def covered (broker : Broker) (account : Account) (clientid topic : String) (now : Instant) : Bool :=
  ((rolesOf broker account now).flatMap fun h => h.role.publish).any fun filter =>
    Topics.matchesTopic filter topic clientid

/-- Decides one publish against the repository as it is now. -/
def publishCheck (brokers : Brokers) (accounts : ServiceAccounts) (caller : Option String)
    (access : Access) (now : Instant) : Bool × String :=
  match caller.bind fun identity => brokers.lookup (brokerOf identity) with
  | none => (false, "the caller is no broker this repository declares")
  | some broker =>
    if access.access ≠ "2" then (false, "a subscription not in the CONNECT answer")
    else if !isDevice broker access then (false, "no device")
    else match accounts.resolve access.clientid with
      | none => (false, "the client is no ServiceAccount")
      | some account =>
        match refusedDevice broker account now with
        | some (why, _) => (false, why)
        | none =>
          if covered broker account access.clientid access.topic now then (true, "a device's role")
          else (false, "no role of the account covers the topic")

end JoinedContext.Mqtt

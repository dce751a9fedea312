import JoinedContext.Library.Ip
import JoinedContext.Mqtt.Topics

/-!
# The `MqttBroker` kind

One MQTT edge broker of a project: its roles with the topic filters each grants, its limits, its
address and the networks its devices connect from, with every rule one manifest is judged by.
-/

namespace JoinedContext.Mqtt

open Names

def maxMessageBytes : Nat := 1024 * 1024

def maxMessagesPerSecond : Nat := 1000

def maxConnections : Nat := 10000

def maxCaptureMessages : Nat := 1000

def maxCaptureSeconds : Nat := 24 * 3600

def maxAllowedSources : Nat := 32

/-- The prefix of the username a pipeline runner connects with on a broker's internal listener. -/
def runnerUsername : String := "pipeline-runner"

/-- The username the runner reads a broker of the project with. -/
def runnerUsernameOf (project : String) : String := runnerUsername ++ "-" ++ project

inductive MqttAddress where
  | platform
  | dedicatedPort
  | customHostname
deriving DecidableEq

def MqttAddress.word : MqttAddress → String
  | platform => "platform"
  | dedicatedPort => "dedicatedPort"
  | customHostname => "customHostname"

inductive MqttDeviceAuth where
  | token
  | clientCertificate
deriving DecidableEq

def MqttDeviceAuth.word : MqttDeviceAuth → String
  | token => "token"
  | clientCertificate => "clientCertificate"

inductive MqttMode where
  | ingest
  | capture
  | relay
deriving DecidableEq

def MqttMode.word : MqttMode → String
  | ingest => "ingest"
  | capture => "capture"
  | relay => "relay"

/-- A role: the topic filters it grants. -/
structure MqttRole where
  name : String
  serviceAccounts : List String := []
  publish : List String := []
  subscribe : List String := []
  sharedTopics : Bool := false
  reason : Option String := none
deriving DecidableEq

structure MqttLimits where
  maxMessageBytes : Nat := 64 * 1024
  messagesPerSecond : Nat := 10
  maxConnections : Nat := 1000
  connectionsPerAddress : Option Nat := none
deriving DecidableEq

def connectionsPerAddress : Nat := 20

/-- The connections one source address may hold at once. -/
def MqttLimits.perAddress (limits : MqttLimits) : Nat :=
  limits.connectionsPerAddress.getD (min Mqtt.connectionsPerAddress limits.maxConnections)

structure MqttCapture where
  messagesPerTopic : Nat := 20
  window : String := "PT1H"
deriving DecidableEq

structure MqttBrokerSpec where
  roles : List MqttRole
  limits : MqttLimits := {}
  port : Option Nat := none
  address : Option MqttAddress := none
  hostname : Option String := none
  deviceAuth : Option (List MqttDeviceAuth) := none
  mode : Option MqttMode := none
  capture : Option MqttCapture := none
  allowedSources : List String := []
deriving DecidableEq

/-- One network of `spec.allowedSources`: an address with every host bit zero and its prefix. -/
structure SourceRange where
  network : IpAddr
  length : Nat
deriving DecidableEq

namespace SourceRange

/-- A decimal number of at most 255. -/
def parseU8 (text : String) : Option Nat :=
  let digits := match text.toList with
    | '+' :: rest => rest
    | rest => rest
  if digits ≠ [] ∧ digits.all Char.isDigit then
    (some (digits.foldl (fun n c => n * 10 + (c.toNat - 48)) 0)).filter (· ≤ 255)
  else none

def parse (text : String) : Except String SourceRange :=
  match Text.splitOnce '/' text with
  | none => .error ("`" ++ text ++
      "` is no CIDR range: write an address and a prefix, e.g. 203.0.113.0/24")
  | some (address, length) =>
    match IpAddr.parse address with
    | none => .error ("`" ++ text ++ "` names no IP address (a hostname is not accepted)")
    | some network =>
      let bits := if network.isIpv4 then 32 else 128
      match (parseU8 length).filter (· ≤ bits) with
      | none => .error ("`" ++ text ++ "` has no prefix from 0 to " ++ toString bits)
      | some length =>
        let masked := network.mask length
        if length = 0 then
          .error ("`" ++ text ++ "` is every address: leave allowedSources out instead")
        else if masked ≠ network then
          .error ("`" ++ text ++ "` has host bits set: the network is " ++ masked.display ++ "/" ++
            toString length)
        else .ok ⟨network, length⟩

/-- Whether the address lies in the network; an IPv4-mapped IPv6 address counts as IPv4. -/
def contains (range : SourceRange) (address : IpAddr) : Bool :=
  let address := address.toCanonical
  address.isIpv4 = range.network.isIpv4 && address.mask range.length = range.network

end SourceRange

/-- The digits before the unit, and what comes after it; no digits where the unit is not next. -/
def durationPart (unit : Char) (text : List Char) : Option (List Char) × List Char :=
  let digits := text.takeWhile Char.isDigit
  match text.drop digits.length with
  | c :: rest => if c = unit ∧ digits ≠ [] then (some digits, rest) else (none, text)
  | [] => (none, text)

def checkedU64 (n : Nat) : Option Nat := if n < 2 ^ 64 then some n else none

/-- `PT[nH][nM][nS]` in seconds. -/
def parseIsoDuration (raw : String) : Option Nat := do
  let text ← Text.stripPrefix "PT" raw
  let (hours, text) := durationPart 'H' text.toList
  let (minutes, text) := durationPart 'M' text
  let (seconds, text) := durationPart 'S' text
  if text ≠ [] ∨ raw = "PT" then none
  else
    let part := fun (digits : Option (List Char)) (unit : Nat) =>
      (checkedU64 ((digits.getD []).foldl (fun n c => n * 10 + (c.toNat - 48)) 0)).bind
        fun n => checkedU64 (n * unit)
    let hours ← part hours 3600
    let minutes ← part minutes 60
    let seconds ← part seconds 1
    (checkedU64 (hours + minutes)).bind fun n => checkedU64 (n + seconds)

def refuse (field reason : String) : Except Error Unit := .error (invalid field reason)

def refuseIf (c : Prop) [Decidable c] (field reason : String) : Except Error Unit :=
  if c then refuse field reason else .ok ()

/-- Every filter of a list against the grammar, and then against a rule of its own. -/
def checkFilters (field : String) (reason : String → Option String) (filters : List String) :
    Except Error Unit :=
  filters.forM fun filter => do
    Topics.check field filter
    match reason filter with
    | some why => refuse field why
    | none => .ok ()

/-- Every rule one role is judged by on a broker of the mode. -/
def checkRole (role : MqttRole) (mode : Option MqttMode) : Except Error Unit := do
  refuseIf (role.publish = [] ∧ role.subscribe = []) "roles[]"
    ("role `" ++ role.name ++ "` grants no topic")
  refuseIf (role.sharedTopics ∧ role.reason.all fun r => Text.trim r = "") "roles[].reason"
    ("role `" ++ role.name ++ "` sets sharedTopics, so each of its devices may publish as any " ++
      "other: write why in `reason`")
  checkFilters "roles[].publish" (fun filter =>
    if !role.sharedTopics && !Topics.underClientId filter then
      some ("`" ++ filter ++ "` lets each device of role `" ++ role.name ++
        "` publish as any other: write a " ++ clientId ++
        " level before any wildcard, or set sharedTopics: true with a reason on the role")
    else none) role.publish
  refuseIf (role.subscribe ≠ [] ∧ mode ≠ some .relay) "roles[].subscribe" (match mode with
    | none => "role `" ++ role.name ++
        "` lets devices subscribe, which only a relay broker allows: set spec.mode: relay " ++
        "(ADR-N-048 §2.10)"
    | some mode => "role `" ++ role.name ++ "` lets devices subscribe, and in " ++ mode.word ++
        " mode devices get no subscribe right; use spec.mode: relay")
  checkFilters "roles[].subscribe" (fun filter =>
    if !Topics.underClientId filter then
      some ("`" ++ filter ++ "` reaches beyond the client's own topics: a device subscribes only " ++
        "under " ++ clientId ++ ", with no wildcard before it")
    else none) role.subscribe

/-- Every role in turn, its name not one of those before it. -/
def checkRoles (mode : Option MqttMode) : List String → List MqttRole → Except Error Unit
  | _, [] => .ok ()
  | seen, role :: rest => do
    (validateDns1123Label role.name).mapError .name
    refuseIf (role.name ∈ seen) "roles[].name" ("role `" ++ role.name ++ "` is declared twice")
    role.serviceAccounts.forM fun account => (validateDns1123Label account).mapError .name
    checkRole role mode
    checkRoles mode (role.name :: seen) rest

/-- The first authentication a list names a second time. -/
def listedTwice : List MqttDeviceAuth → List MqttDeviceAuth → Option MqttDeviceAuth
  | _, [] => none
  | seen, a :: rest => if a ∈ seen then some a else listedTwice (a :: seen) rest

namespace MqttBrokerSpec

variable (spec : MqttBrokerSpec)

def effectiveAddress : MqttAddress :=
  spec.address.getD (if spec.port.isSome then .dedicatedPort else .platform)

def effectiveDeviceAuth : List MqttDeviceAuth := spec.deviceAuth.getD [.token]

def invalid62 (field reason : String) : Except Error Unit :=
  .error (.invalid ("spec." ++ field) (reason ++ " (MF-62)"))

/-- The port an address of its kind reads. -/
def checkAddressPort : Except Error Unit :=
  match spec.effectiveAddress, spec.port with
  | .dedicatedPort, none =>
    invalid62 "port" ("is required with spec.address: dedicatedPort; pick a port the project's " ++
      "allowance assigns")
  | .dedicatedPort, some _ => .ok ()
  | _, some _ =>
    invalid62 "port" ("is read only with spec.address: dedicatedPort, and this broker's address " ++
      "is " ++ spec.effectiveAddress.word)
  | _, none => .ok ()

/-- The hostname an address of its kind reads. -/
def checkHostname : Except Error Unit :=
  match spec.effectiveAddress, spec.hostname with
  | .customHostname, none =>
    invalid62 "hostname" ("is required with spec.address: customHostname; name one of the " ++
      "project's customHostnames, such as mqtt.city.example")
  | .customHostname, some name =>
    match validateOrgDomain name with
    | .ok () => .ok ()
    | .error _ =>
      invalid62 "hostname" ("`" ++ name ++ "` is not a lowercase DNS name of at least two " ++
        "labels, such as mqtt.city.example, with no scheme, port, path or wildcard")
  | _, some _ =>
    invalid62 "hostname" ("is read only with spec.address: customHostname, and this broker's " ++
      "address is " ++ spec.effectiveAddress.word)
  | _, none => .ok ()

def checkDeviceAuth : Except Error Unit :=
  match spec.deviceAuth with
  | none => .ok ()
  | some auth =>
    if auth = [] then invalid62 "deviceAuth" "names no authentication; leave it out for [token]"
    else match listedTwice [] auth with
      | some twice => invalid62 "deviceAuth" (twice.word ++ " is listed twice")
      | none => .ok ()

/-- `spec.address` with the one field its kind reads, and `spec.deviceAuth`. -/
def checkAddress : Except Error Unit := do
  spec.checkAddressPort
  spec.checkHostname
  spec.checkDeviceAuth

def checkCapture (capture : MqttCapture) : Except Error Unit :=
  if spec.mode ≠ some .capture then
    refuse "capture" "is read only by a broker with spec.mode: capture"
  else if capture.messagesPerTopic = 0 ∨ maxCaptureMessages < capture.messagesPerTopic then
    refuse "capture.messagesPerTopic"
      (toString capture.messagesPerTopic ++ " is outside 1…" ++ toString maxCaptureMessages)
  else if (parseIsoDuration capture.window).any fun s => 1 ≤ s ∧ s ≤ maxCaptureSeconds then .ok ()
  else
    refuse "capture.window" ("`" ++ capture.window ++ "` is not a duration from PT1S to PT24H")

def readSources : List SourceRange → List String → Except Error (List SourceRange)
  | ranges, [] => .ok ranges
  | ranges, text :: rest =>
    match SourceRange.parse text with
    | .error why => .error (invalid "allowedSources" why)
    | .ok range =>
      if range ∈ ranges then
        .error (invalid "allowedSources" ("`" ++ text ++ "` is listed twice"))
      else readSources (ranges ++ [range]) rest

/-- `spec.allowedSources` read; an unreadable entry, a repeat or too many refuses the whole. -/
def sourceRanges : Except Error (List SourceRange) :=
  if maxAllowedSources < spec.allowedSources.length then
    .error (invalid "allowedSources" (toString spec.allowedSources.length ++
      " networks are more than " ++ toString maxAllowedSources ++ ": merge neighbouring ranges"))
  else readSources [] spec.allowedSources

def checkLimits : Except Error Unit :=
  [("maxMessageBytes", spec.limits.maxMessageBytes, Mqtt.maxMessageBytes),
    ("messagesPerSecond", spec.limits.messagesPerSecond, maxMessagesPerSecond),
    ("maxConnections", spec.limits.maxConnections, Mqtt.maxConnections),
    ("connectionsPerAddress", spec.limits.perAddress, spec.limits.maxConnections)].forM
    fun (field, value, ceiling) =>
      if value = 0 ∨ ceiling < value then
        refuse ("limits." ++ field) (toString value ++ " is outside 1…" ++ toString ceiling)
      else .ok ()

def checkPort : Except Error Unit :=
  match spec.port with
  | some port => refuseIf (port < 18830 ∨ 18849 < port) "port"
      (toString port ++ " is outside the reserved range 18830–18849")
  | none => .ok ()

/-- Every rule that one manifest is judged by. -/
def validate : Except Error Unit := do
  refuseIf (spec.roles = []) "roles" "a broker declares at least one role"
  checkRoles spec.mode [] spec.roles
  spec.checkLimits
  spec.capture.toList.forM spec.checkCapture
  let _ ← spec.sourceRanges
  spec.checkAddress
  spec.checkPort

end MqttBrokerSpec

end JoinedContext.Mqtt

import JoinedContext.Library.Outcome
import JoinedContext.Sources.Runner

/-!
# The connections of a data source

A data source connects to one feed: one of four typed connections, or an input of the runner
written as the runner takes it. The members of the kind, the text of a typed connection, and the
checks of its single fields.
-/

namespace JoinedContext.Sources

structure TypedRef where
  kind : String
  name : String
  «namespace» : Option String

structure MqttConnection where
  urls : List String
  brokerRef : Option TypedRef
  topics : List String
  qos : Option Nat
  cleanSession : Option Bool
  username : Option String
  passwordRef : Option SecretRef

structure Authorization where
  header : Option String
  scheme : Option String
  headerRef : SecretRef

/-- The members of a zip archive, the only format. -/
structure HttpArchive where
  members : List String
  maxBytes : Option Nat

inductive HttpBodyFormat where
  | csv
deriving DecidableEq

structure HttpConnection where
  url : String
  verb : Option String
  headers : List (String × String)
  authorization : Option Authorization
  timeout : Option String
  archive : Option HttpArchive
  format : Option HttpBodyFormat
  records : Option String
  maxBytes : Option Nat

structure WebSocketConnection where
  url : String
  openMessage : Option String

inductive GtfsFeed where
  | vehiclePositions
  | tripUpdates
  | alerts

structure GtfsRtConnection where
  url : String
  feed : GtfsFeed

structure TlsSettings where
  insecureSkipVerify : Bool
  caCertRef : Option SecretRef

inductive DataSourceType where
  | mqtt
  | http
  | webSocket
  | gtfsRt
  | runner (name : String)

structure DataSourceSpec where
  sourceType : DataSourceType
  mqtt : Option MqttConnection
  http : Option HttpConnection
  webSocket : Option WebSocketConnection
  gtfsRt : Option GtfsRtConnection
  tls : Option TlsSettings
  input : Option Value
  secrets : List SecretRef
  personalFields : List String

/-- What of a manifest's metadata the kind reads. -/
structure ObjectMeta where
  name : String
  «namespace» : Option String

/-! ## The connection blocks as JSON -/

def optionalMember (key : String) (v : Option Value) : List (String × Value) :=
  v.toList.map fun v => (key, v)

def listMember (key : String) (items : List Value) : List (String × Value) :=
  if items.isEmpty then [] else [(key, .arr items)]

def numberOf (n : Nat) : Value := .num n 0

def TypedRef.toJson (ref : TypedRef) : Value :=
  .obj ([("kind", .str ref.kind), ("name", .str ref.name)] ++
    optionalMember "namespace" (ref.namespace.map .str))

def SecretRef.toJson (ref : SecretRef) : Value :=
  .obj (("name", .str ref.name) :: optionalMember "key" (ref.key.map .str) ++
    optionalMember "envVar" (ref.envVar.map .str))

def MqttConnection.toJson (mqtt : MqttConnection) : Value :=
  .obj (listMember "urls" (mqtt.urls.map .str) ++
    optionalMember "brokerRef" (mqtt.brokerRef.map TypedRef.toJson) ++
    [("topics", .arr (mqtt.topics.map .str))] ++
    optionalMember "qos" (mqtt.qos.map numberOf) ++
    optionalMember "cleanSession" (mqtt.cleanSession.map .bool) ++
    optionalMember "username" (mqtt.username.map .str) ++
    optionalMember "passwordRef" (mqtt.passwordRef.map SecretRef.toJson))

def Authorization.toJson (authorization : Authorization) : Value :=
  .obj (optionalMember "header" (authorization.header.map .str) ++
    optionalMember "scheme" (authorization.scheme.map .str) ++
    [("headerRef", authorization.headerRef.toJson)])

def HttpArchive.toJson (archive : HttpArchive) : Value :=
  .obj ([("format", .str "zip"), ("members", .arr (archive.members.map .str))] ++
    optionalMember "maxBytes" (archive.maxBytes.map numberOf))

def HttpConnection.toJson (http : HttpConnection) : Value :=
  .obj (("url", .str http.url) :: optionalMember "verb" (http.verb.map .str) ++
    (if http.headers.isEmpty then []
      else [("headers", .obj (http.headers.map fun h => (h.1, .str h.2)))]) ++
    optionalMember "authorization" (http.authorization.map Authorization.toJson) ++
    optionalMember "timeout" (http.timeout.map .str) ++
    optionalMember "archive" (http.archive.map HttpArchive.toJson) ++
    optionalMember "format" (http.format.map fun .csv => .str "csv") ++
    optionalMember "records" (http.records.map .str) ++
    optionalMember "maxBytes" (http.maxBytes.map numberOf))

def WebSocketConnection.toJson (socket : WebSocketConnection) : Value :=
  .obj (("url", .str socket.url) :: optionalMember "openMessage" (socket.openMessage.map .str))

def GtfsFeed.asStr : GtfsFeed → String
  | .vehiclePositions => "vehiclePositions"
  | .tripUpdates => "tripUpdates"
  | .alerts => "alerts"

def GtfsRtConnection.toJson (gtfs : GtfsRtConnection) : Value :=
  .obj [("url", .str gtfs.url), ("feed", .str gtfs.feed.asStr)]

/-! ## Single fields -/

def RUNNER_USERNAME : String := "pipeline-runner"

def RUNNER_USER : String :=
  "an MQTT username is literal text, never a \x60$\x7bVAR\x7d\x60, and the pipeline runner's " ++
    "name is the platform's: a broker of the project is read by spec.mqtt.brokerRef, which signs " ++
    "in as the runner (PL-76)"

/-- Whether a username is one a broker reads as the pipeline runner's. -/
def runnerUser (user : String) : Bool := startsWith RUNNER_USERNAME (toAsciiLowercase user)

def MQTT_SCHEMES : List String := ["tcp://", "tls://", "ws://", "wss://"]

def HTTP_SCHEMES : List String := ["http://", "https://"]

def WS_SCHEMES : List String := ["ws://", "wss://"]

def validateUrl (value : String) (schemes : List String) (field : String) : Except Error Unit := do
  onlyIf (!(schemes.any (startsWith · value) && 8 < value.utf8ByteSize)) <|
    refuseName field value "the URL scheme is not one this connection type speaks"
  ((refusedRunnerRead value).or (refusedTarget value)).elim (.ok ()) (refuseName field value)

def headerName (value : String) : Except Error Unit :=
  onlyIf (!(value != "" && value.toList.all fun c =>
      c.isAlphanum || "!#$%&'*+-.^_\x60|~".toList.contains c)) <|
    refuseName "spec.http.authorization.header" value
      "a header name is a token: letters, digits and !#$%&'*+-.^_\x60|~"

def validateVerb : Option String → Except Error Unit
  | none | some "GET" | some "POST" => .ok ()
  | some other =>
    refuseName "spec.http.verb" other "a polled feed is read with GET or POST"

def MAX_BYTES : Nat := 256 * 1024 * 1024

def DEFAULT_MAX_BYTES : Nat := 32 * 1024 * 1024

def validateArchiveMember (member : String) : Except Error Unit :=
  onlyIf (!(member != "" && member.utf8ByteSize ≤ 255 && member.toList.all fun c =>
      c.isAlphanum || c ∈ ['.', '_', '-', '/'])) <|
    refuseName "spec.http.archive.members" member
      "a member name is 1 to 255 letters, digits, '.', '_', '-' and '/'"

def HttpArchive.validate (archive : HttpArchive) (http : HttpConnection) : Except Error Unit := do
  onlyIf (archive.members.isEmpty || 20 < archive.members.length) <|
    refuseName "spec.http.archive.members" (toString archive.members.length)
      "an archive names 1 to 20 members"
  archive.members.forM validateArchiveMember
  let maxBytes := archive.maxBytes.getD DEFAULT_MAX_BYTES
  onlyIf (!(1 ≤ maxBytes && maxBytes ≤ MAX_BYTES)) <|
    refuseName "spec.http.archive.maxBytes" (toString maxBytes)
      "maxBytes is 1 to 268435456 (256 MiB)"
  onlyIf (http.verb.any (· != "GET")) <|
    refuseName "spec.http.verb" (http.verb.getD "") "an archive is read with GET"
  ((http.headers.map Prod.fst).find? (Text.eqIgnoreAsciiCase · "range")).elim (.ok ()) fun range =>
    refuseName "spec.http.headers" range "an archive read sets its own Range header"

/-- The mapping that takes the array at a dotted path out of a JSON body. -/
def recordsMapping (path : String) : Except String String :=
  let names := Text.splitAny ['.'] path
  let plain := fun name : String => name != "" && name.utf8ByteSize ≤ 64 &&
    name.toList.all fun c => c.isAlphanum || c == '_' || c == '-'
  if 8 < names.length then .error "a records path holds at most 8 names"
  else if !names.all plain then
    .error ("a records path is dot-separated names of letters, digits, \x60_\x60 and \x60-\x60, " ++
      "each 1 to 64, such as data.stations")
  else
    let place := String.join (names.map fun name => ".\"" ++ name ++ "\"")
    .ok ("let records = this" ++ place ++ "\nroot = if $records.type() == \"array\" \x7b " ++
      "$records \x7d else \x7b throw(\"the body holds no array at records path " ++ path ++
      ", it holds %s\".format($records.type())) \x7d")

def isControl (c : Char) : Bool := c.toNat < 0x20 || (0x7F ≤ c.toNat && c.toNat ≤ 0x9F)

def validatePersonalField (seen : List String) (index : Nat) (field : String) :
    Except Error Unit :=
  let refuse := refuseInvalid ("spec.personalFields[" ++ toString index ++ "]")
  if field == "" || 256 < field.utf8ByteSize then
    refuse "a field name of 1 to 256 bytes, such as \x60rider\x60"
  else if field.toList.any isControl then refuse "a field name holds no control character"
  else if seen.contains field then refuse "each field is named once"
  else .ok ()

def validatePersonalFields (fields : List String) : Except Error Unit := do
  onlyIf (256 < fields.length) <|
    refuseInvalid "spec.personalFields"
      ("names " ++ toString fields.length ++ " fields; at most 256")
  fields.zipIdx.forM fun (field, index) => validatePersonalField (fields.take index) index field

end JoinedContext.Sources

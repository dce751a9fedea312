import JoinedContext.Sources.Connections

/-!
# The data source kind

The checks a data source passes before it is taken, in the order the code makes them. Those that
read the language of mappings, a processor, or the place of a password in a connection string are
passed in.
-/

namespace JoinedContext.Sources

/-- The checks of other modules, on a field and what stands in it. -/
structure Checks where
  authorBloblang : String → String → Except Error Unit
  processor : String → Value → List String → Except Error Unit
  /-- The passwords a connection string embeds. -/
  passwords : String → List String

/-! ## The fields of an input -/

/-- The values a path of fields leads to, each with the path it was found at. -/
def collectSecretTargets : List String → Value → String → List (String × Value)
  | [], v, current => [(current, v)]
  | segment :: rest, v, current =>
    let at' := fun name : String => if current == "" then name else current ++ "." ++ name
    match Text.stripSuffix "[]" segment with
    | some list =>
      match v.get list with
      | some (.arr items) => items.zipIdx.flatMap fun (item, i) =>
          collectSecretTargets rest item (at' list ++ "[" ++ toString i ++ "]")
      | _ => []
    | none =>
      match v.get segment with
      | some child => collectSecretTargets rest child (at' segment)
      | none => []

mutual

/-- Every string of a document with its dotted path. -/
def stringsOf (path : String) : Value → List (String × String)
  | .str s => [(path, s)]
  | .arr items => itemsOf path 0 items
  | .obj members => membersOf path members
  | _ => []

def itemsOf (path : String) (index : Nat) : List Value → List (String × String)
  | [] => []
  | v :: rest => stringsOf (path ++ "[" ++ toString index ++ "]") v ++ itemsOf path (index + 1) rest

def membersOf (path : String) : List (String × Value) → List (String × String)
  | [] => []
  | (key, v) :: rest => stringsOf (path ++ "." ++ key) v ++ membersOf path rest

end

/-- Every name a document interpolates, keys included. -/
def interpolatedNames (v : Value) : List String := v.texts.flatMap interpolatedIn

/-! ## The host, runner-user and connection-string rules -/

def validateInputString (checks : Checks) (path text : String) : Except Error Unit := do
  checks.authorBloblang "spec.input" text
  ((refusedTarget text).or (refusedAddress path text)).elim (.ok ()) (refuseInvalid path)
  onlyIf (endsWith ".user" path &&
      (runnerUser text || (Text.contains ".mqtt." path && Text.contains "$\x7b" text))) <|
    refuseInvalid path RUNNER_USER
  (checks.passwords text).forM fun password =>
    onlyIf (isExactVarInterpolation password).isNone <|
      refuseInvalid path ("a password inside a connection string is a \x60$\x7bVAR\x7d\x60 " ++
        "naming an envVar of spec.secrets, never a literal (PL-50, MF-35)")

def validateInputStrings (checks : Checks) (input : Value) : Except Error Unit :=
  (stringsOf "spec.input" input).forM fun (path, text) => validateInputString checks path text

/-! ## The inputs nested in one another -/

/-- The runner inputs no data source names: each works on the project's runner instead of reading a
feed. -/
def REFUSED_INPUTS : List String :=
  ["dynamic", "http_server", "inproc", "kubernetes_watch", "resource", "socket_server", "stdin",
    "subprocess"]

def refusedInput (field name : String) : Except Error Unit :=
  onlyIf (REFUSED_INPUTS.contains name) <| refuseInvalid field ("input \x60" ++ name ++ "\x60 works on the project's runner instead of " ++
      "reading a feed: it runs a program, reads the runner's own process or the cluster API, or " ++
      "reaches another stream; a feed that pushes writes to an Endpoint (PL-50, T-3833)")

/-- An input that reads files, or watches them. -/
def readsFiles (name : String) : Bool := FILE_READERS.contains name || name == "fsevent"

def checkFilePath (files field val : String) : Except Error Unit :=
  onlyIf (!startsWith files val || (Text.splitAny ['/'] val).contains "..") <|
    refuseName field val ("a file-reading input reads its own project's folder of the runner's " ++
      "files volume, /data/<project>/ (PL-50)")

/-- The files the check of an input looks at, by the field they stand in. -/
def checkedFiles (x : Input) : List (String × String) :=
  let paths := match x.2.get "paths" with
    | some (.arr items) => items.filterMap Value.asStr
    | some (.str s) => [s]
    | _ => []
  let path := ((x.2.get "path").bind Value.asStr).toList
  if readsFiles x.1 then
    paths.map (fun s => ("spec.input.paths", s)) ++ path.map fun s => ("spec.input.path", s)
  else []

def validateFiles (x : Input) (files : String) : Except Error Unit :=
  (checkedFiles x).forM fun (field, val) => checkFilePath files field val

/-- An input's own processors run in the stream like a step's, so they pass the step check. -/
def validateInputProcessors (checks : Checks) (config : Value) (own : List String) :
    Except Error Unit :=
  match config.get "processors" with
  | none => .ok ()
  | some (.arr processors) =>
    processors.forM fun processor => checks.processor "spec.input.processors" processor own
  | some _ => refuseInvalid "spec.input.processors" "an input's processors are a list"

section Tree

variable (checks : Checks) (own : List String) (files : String)

def notAnInput (name : String) : Except Error Unit :=
  refuseInvalid "spec.input"
    ("an input inside \x60" ++ name ++ "\x60 is a map of its name to its configuration")

mutual

/-- One runner input and every input nested in it. A configuration that is no object is an empty
one. -/
def validateInputTree (name : String) : Value → Except Error Unit
  | .obj members => do
    validateFiles (name, .obj members) files
    validateInputProcessors checks (.obj members) own
    (WRAPPER_INPUTS.lookup name).elim (.ok ()) fun field => validateNested name field members
  | _ => .ok ()

/-- What the first member under a key holds: one child, or a list of them. -/
def validateNested (name field : String) : List (String × Value) → Except Error Unit
  | [] => .ok ()
  | (key, v) :: rest =>
    if field = key then validateChildren name v else validateNested name field rest

def validateChildren (name : String) : Value → Except Error Unit
  | .arr items => validateItems name items
  | .obj members => do
    validateInputProcessors checks (.obj members) own
    validateMembers name members
  | _ => notAnInput name

def validateItems (name : String) : List Value → Except Error Unit
  | [] => .ok ()
  | v :: rest => do
    validateChild name v
    validateItems name rest

def validateChild (name : String) : Value → Except Error Unit
  | .obj members => do
    validateInputProcessors checks (.obj members) own
    validateMembers name members
  | _ => notAnInput name

def validateMembers (name : String) : List (String × Value) → Except Error Unit
  | [] => .ok ()
  | (childName, childConfig) :: rest => do
    onlyIf (childName ∉ ["label", "processors"]) <| do
      onlyIf (!INPUTS.contains childName) <|
        refuseInvalid "spec.input"
          ("unknown input \x60" ++ childName ++ "\x60 inside \x60" ++ name ++ "\x60")
      refusedInput "spec.input" childName
      validateInputTree childName childConfig
    validateMembers name rest

end

end Tree

/-! ## A whole spec -/

namespace DataSourceSpec

variable (spec : DataSourceSpec) (checks : Checks)

/-- The blocks that are there, as fields of the spec. -/
def present : List String :=
  (if spec.mqtt.isSome then ["mqtt"] else []) ++ (if spec.http.isSome then ["http"] else []) ++
    (if spec.webSocket.isSome then ["webSocket"] else []) ++
    (if spec.gtfsRt.isSome then ["gtfsRt"] else [])

/-- The connection blocks as they are written out, `null` for one that is not there. -/
def blocks : List (String × Value) :=
  [("spec.mqtt", (spec.mqtt.map MqttConnection.toJson).getD .null),
    ("spec.http", (spec.http.map HttpConnection.toJson).getD .null),
    ("spec.webSocket", (spec.webSocket.map WebSocketConnection.toJson).getD .null),
    ("spec.gtfsRt", (spec.gtfsRt.map GtfsRtConnection.toJson).getD .null)]

def envVars : List String := spec.secrets.filterMap SecretRef.envVar

def validateTyped (expected : String) : Except Error Unit :=
  onlyIf (spec.present ≠ [expected]) <|
    refuseName "spec" (Text.join ", " spec.present)
      "exactly the connection block named by \x60type\x60 is present (MF-35)"

def validateType : Except Error Unit :=
  match spec.sourceType with
  | .mqtt => spec.validateTyped "mqtt"
  | .http => spec.validateTyped "http"
  | .webSocket => spec.validateTyped "webSocket"
  | .gtfsRt => spec.validateTyped "gtfsRt"
  | .runner name => do
    onlyIf (!INPUTS.contains name) <|
      refuseInvalid "spec.type" ("unknown type \x60" ++ name ++ "\x60; accepted types are: " ++
        Text.join ", " (["mqtt", "http", "websocket", "gtfs-rt"] ++ INPUTS))
    refusedInput "spec.type" name
    onlyIf (spec.present ≠ []) <|
      refuseName "spec" (Text.join ", " spec.present)
        ("runner data sources do not use typed connection blocks; configure \x60spec.input\x60 " ++
          "instead")

def runnerName : Option String :=
  match spec.sourceType with
  | .runner name => some name
  | _ => none

def validateTls : Except Error Unit :=
  spec.tls.elim (.ok ()) fun tls => do
    onlyIf spec.runnerName.isSome <|
      refuseName "spec.tls" ""
        ("runner data sources carry their own tls configuration inside \x60spec.input\x60, not " ++
          "\x60spec.tls\x60")
    onlyIf tls.insecureSkipVerify <|
      refuseName "spec.tls.insecureSkipVerify" "true"
        "a feed's certificate is always verified; use \x60caCertRef\x60 for a private authority"

/-- Every credential reference the source carries, by the field it stands in. -/
def secretReferences : List (String × SecretRef) :=
  ((spec.mqtt.bind MqttConnection.passwordRef).toList.map fun ref => ("spec.mqtt.passwordRef", ref)) ++
    ((spec.http.bind HttpConnection.authorization).toList.map fun authorization =>
      ("spec.http.authorization.headerRef", authorization.headerRef)) ++
    ((spec.tls.bind TlsSettings.caCertRef).toList.map fun ref => ("spec.tls.caCertRef", ref)) ++
    spec.secrets.zipIdx.map fun (ref, i) => ("spec.secrets[" ++ toString i ++ "]", ref)

def validateSecretReferences : Except Error Unit :=
  spec.secretReferences.forM fun (field, ref) => ref.validate field

def validateBlock (block : String × Value) : Except Error Unit :=
  (refusedRunnerRead block.2.toText).elim (.ok ()) (refuseInvalid block.1)

def validateTypedCommon : Except Error Unit := do
  onlyIf spec.input.isSome <|
    refuseName "spec.input" ""
      ("typed data sources do not declare \x60input\x60; use the connection block named by " ++
        "\x60type\x60")
  onlyIf (!spec.secrets.isEmpty) <|
    refuseName "spec.secrets" ""
      ("typed data sources do not declare \x60secrets\x60; credentials belong in the connection " ++
        "block")

end DataSourceSpec

def validateBrokerRef (mqtt : MqttConnection) (broker : TypedRef) : Except Error Unit := do
  onlyIf (broker.kind != "MqttBroker") <|
    refuseName "spec.mqtt.brokerRef.kind" broker.name "a brokerRef names an MqttBroker"
  onlyIf broker.namespace.isSome <|
    refuseName "spec.mqtt.brokerRef.namespace" broker.name
      "a DataSource reads a broker of its own project only (PL-76)"
  (Names.validateDns1123Label broker.name).mapError .name
  onlyIf (!mqtt.urls.isEmpty || mqtt.username.isSome || mqtt.passwordRef.isSome) <|
    refuseName "spec.mqtt.brokerRef" broker.name
      ("a brokerRef takes the place of urls, username and passwordRef: the runner reads a " ++
        "platform broker with no credential (PL-76)")

def validateMqtt (mqtt : MqttConnection) : Except Error Unit := do
  mqtt.brokerRef.elim
    (onlyIf mqtt.urls.isEmpty <|
      refuseName "spec.mqtt.urls" "" "an MQTT connection needs at least one broker URL")
    (validateBrokerRef mqtt)
  onlyIf mqtt.topics.isEmpty <|
    refuseName "spec.mqtt.topics" "" "an MQTT connection needs at least one topic filter"
  mqtt.urls.forM fun broker => validateUrl broker MQTT_SCHEMES "spec.mqtt.urls"
  (mqtt.username.filter fun user => runnerUser user || Text.contains "$\x7b" user).elim (.ok ())
    fun user => refuseName "spec.mqtt.username" user RUNNER_USER
  mqtt.qos.elim (.ok ()) fun qos =>
    onlyIf (2 < qos) <|
      refuseName "spec.mqtt.qos" (toString qos) "MQTT quality of service is 0, 1 or 2"

def validateRecords (http : HttpConnection) (records : String) : Except Error Unit := do
  let _ ← (recordsMapping records).mapError fun reason =>
    .name ⟨"spec.http.records", records, reason⟩
  onlyIf (http.format = some .csv) <|
    refuseName "spec.http.records" records
      "records splits a JSON body; a body of format csv is split by its rows already"

def validateHttp (http : HttpConnection) : Except Error Unit := do
  validateUrl http.url HTTP_SCHEMES "spec.http.url"
  http.authorization.elim (.ok ()) fun authorization =>
    headerName (authorization.header.getD "Authorization")
  http.archive.elim (.ok ()) fun archive => archive.validate http
  http.records.elim (.ok ()) (validateRecords http)
  let maxBytes := http.maxBytes.getD DEFAULT_MAX_BYTES
  onlyIf (!(1 ≤ maxBytes && maxBytes ≤ MAX_BYTES)) <|
    refuseName "spec.http.maxBytes" (toString maxBytes) "maxBytes is 1 to 268435456 (256 MiB)"
  validateVerb http.verb

def validateWebSocket (socket : WebSocketConnection) : Except Error Unit :=
  validateUrl socket.url WS_SCHEMES "spec.webSocket.url"

def validateGtfsRt (gtfs : GtfsRtConnection) : Except Error Unit :=
  validateUrl gtfs.url HTTP_SCHEMES "spec.gtfsRt.url"

namespace DataSourceSpec

variable (spec : DataSourceSpec) (checks : Checks)

def validateEnvVar (ref : SecretRef) : Except Error Unit :=
  ref.envVar.elim
    (refuseName "spec.secrets.envVar" "" "envVar is required for runner secrets (PL-50)")
    fun envVar => onlyIf (!envVarRe envVar.toList) <|
      refuseName "spec.secrets.envVar" envVar "envVar must match [A-Z][A-Z0-9_]*"

/-- A documented secret field holds one interpolation of a declared secret. -/
def validateSecretTarget (own : List String) (target : String × Value) : Except Error Unit :=
  onlyIf (!(target.2.asStr.bind isExactVarInterpolation).any own.contains) <|
    refuseInvalid ("spec.input." ++ target.1)
      ("a runner-documented secret field holds a \x60$\x7bVAR\x7d\x60 interpolation naming an " ++
        "entry of spec.secrets, never a value (MF-35, PL-16)")

def validateSecretFields (name : String) (input : Value) : Except Error Unit :=
  (secretFields name).forM fun path =>
    (collectSecretTargets (segmentsOf path) input "").forM (validateSecretTarget spec.envVars)

def validateNames (input : Value) : Except Error Unit :=
  ((interpolatedNames input).find? fun name => !spec.envVars.contains name).elim (.ok ())
    fun name => refuseInvalid "spec.input" ("\x60$\x7b" ++ name ++ "\x7d\x60 names no envVar of " ++
      "spec.secrets; the runner's own environment is not reachable from a manifest (PL-50, PL-16)")

def validateRunner (name files : String) : Except Error Unit :=
  match spec.input with
  | some (.obj (member :: members)) => do
    let input := Value.obj (member :: members)
    spec.secrets.forM validateEnvVar
    spec.validateSecretFields name input
    spec.validateNames input
    validateInputStrings checks input
    validateInputTree checks spec.envVars files name input
  | _ =>
    refuseName "spec.input" ""
      "\x60spec.input\x60 must be present and a non-empty mapping for runner data sources"

/-- The check of the block that `validateType` has found to be there. -/
def validateConnection {α : Type} (block : Option α) (validate : α → Except Error Unit) :
    Except Error Unit := do
  spec.validateTypedCommon
  block.elim (.ok ()) validate

/-- The checks of a spec, with every file a runner input reads held under a folder. -/
def validateReadingFiles (files : String) : Except Error Unit := do
  spec.validateType
  spec.validateTls
  spec.validateSecretReferences
  validatePersonalFields spec.personalFields
  spec.blocks.forM validateBlock
  match spec.sourceType with
  | .mqtt => spec.validateConnection spec.mqtt validateMqtt
  | .http => spec.validateConnection spec.http validateHttp
  | .webSocket => spec.validateConnection spec.webSocket validateWebSocket
  | .gtfsRt => spec.validateConnection spec.gtfsRt validateGtfsRt
  | .runner name => spec.validateRunner checks name files

def projectFolder (project : String) : String := "/data/" ++ project ++ "/"

def validateSpec (metadata : ObjectMeta) : Except Error Unit := do
  (Names.validateDns1123Label metadata.name).mapError .name
  match metadata.namespace with
  | some project => spec.validateReadingFiles checks (projectFolder project)
  | none => spec.validateReadingFiles checks "/data/"

end DataSourceSpec

end JoinedContext.Sources

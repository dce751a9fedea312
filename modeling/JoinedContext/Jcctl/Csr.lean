import JoinedContext.Core.Policy
import JoinedContext.Jcctl.Manifest
import JoinedContext.Library.Machine
import JoinedContext.Library.Outcome

/-!
# Broker registrations

A `ContextSourceRegistration` manifest as one registration of the broker. `registration` says what
the broker should hold, `same` whether it does, and `apply` makes the one call that is missing. The
broker's `PATCH` merges what it is sent into what it stores, so a member is gone from the broker
only where no manifest ever said it.
-/

namespace JoinedContext

namespace Jcctl.Csr

inductive FederationIdentity where
  | serviceAccount
  | caller
  | anonymous
  deriving DecidableEq

inductive RegistrationMode where
  | inclusive
  | exclusive
  | auxiliary
  | redirect
  deriving DecidableEq

structure Federation where
  identity : FederationIdentity
  serviceAccountRef : Option Ref

/-- A coverage claim, with the names its attribute capabilities are keyed by. -/
structure RegistrationInfo extends JoinedContext.RegistrationInfo where
  attributes : List String

structure ContextSourceRegistrationSpec where
  endpointRef : Option Ref
  endpoint : Option String
  information : List RegistrationInfo
  federation : Federation
  mode : RegistrationMode
  operations : List String
  /-- The timestamp as it is serialised. -/
  expiresAt : Option String
  schedule : Option Schedule

/-- What reads a spec (`serde`'s derived reader), with the other crates. -/
structure Reader where
  fromValue : Value → Except String ContextSourceRegistrationSpec
  crates : Crates

section Validation

def refuse (field value reason : String) : Except Names.NameError Unit :=
  .error ⟨field, value, reason⟩

def validateMirrorSchedule : Option Schedule → Except Names.NameError Unit
  | none => .ok ()
  | some schedule =>
    if schedule.webhook = some true then
      refuse "spec.schedule.webhook" "true"
        "a mirrored peer sends no webhook; give spec.schedule.interval instead"
    else
      match schedule.interval with
      | none => refuse "spec.schedule" ""
          "a schedule with no interval never fires; leave it out for the 24h default"
      | some interval =>
        if schedule.intervalSeconds = none then
          refuse "spec.schedule.interval" interval
            "an interval is a number and one of the suffixes s, m, h, d"
        else .ok ()

def Federation.validate (f : Federation) : Except Names.NameError Unit :=
  match f.identity, f.serviceAccountRef with
  | .serviceAccount, none => refuse "spec.federation.serviceAccountRef" ""
      "serviceAccount identity names the ServiceAccount to forward as (PF-48)"
  | .anonymous, some account => refuse "spec.federation.serviceAccountRef" account.nameOf
      ("anonymous identity forwards no credential, so a ServiceAccount here " ++
        "would never be used (PF-48)")
  | .caller, some account => refuse "spec.federation.serviceAccountRef" account.nameOf
      ("caller identity forwards the caller's token, so a ServiceAccount here " ++
        "would never be used (PF-48)")
  | _, account =>
    match account.bind Ref.kindOf with
    | some kind =>
      if kind ≠ "ServiceAccount" then
        refuse "spec.federation.serviceAccountRef.kind" kind
          "serviceAccountRef names a ServiceAccount"
      else .ok ()
    | none => .ok ()

def validateAddress (url : String) : Except Names.NameError Unit :=
  match Text.stripPrefix "https://" url <|> Text.stripPrefix "http://" url with
  | none => refuse "spec.endpoint" url "an external source is an http or https base URL"
  | some rest =>
    if '@' ∈ ((Text.splitAny ['/', '?', '#'] rest).headD "").toList then
      refuse "spec.endpoint" "" ("the address carries a user or password; a credential is a " ++
        "secretRef, never part of the manifest (MF-24)")
    else .ok ()

def validateInformation (reader : Reader) (info : RegistrationInfo) :
    Except Names.NameError Unit := do
  if info.entities = [] then
    refuse "spec.information.entities" "" "an information entry selects at least one entity type"
  match info.attributes with
  | name :: _ =>
    refuse "spec.information.attributes" name
      "attribute capabilities belong to a Policy, not a registration"
  | [] => pure ()
  info.entities.forM (EntitySelector.validate reader.crates)

variable (spec : ContextSourceRegistrationSpec)

def validateAnonymousTarget : Except Names.NameError Unit :=
  if spec.federation.identity ≠ .anonymous then .ok ()
  else
    match spec.endpoint with
    | some url =>
      if (Text.stripPrefix "https://" url).isSome then .ok ()
      else refuse "spec.endpoint" url ("anonymous identity reaches an https address outside " ++
        "this platform (PF-48)")
    | none => refuse "spec.federation.identity" "anonymous"
        ("anonymous identity reaches an address outside this platform; an " ++
          "Endpoint here is read as serviceAccount or caller (PF-48)")

def validate (reader : Reader) : Except Names.NameError Unit := do
  match spec.endpointRef, spec.endpoint with
  | some _, some url =>
    refuse "spec.endpoint" url
      ("a registration names an Endpoint on this platform or an address " ++
        "elsewhere, not both (MF-36)")
  | none, none =>
    refuse "spec.endpointRef" ""
      "a registration has to say where the data is: endpointRef or endpoint (MF-36)"
  | _, _ => pure ()
  match spec.endpointRef.bind Ref.kindOf with
  | some kind =>
    if kind ≠ "Endpoint" then
      refuse "spec.endpointRef.kind" kind "endpointRef names an Endpoint"
  | none => pure ()
  spec.endpoint.forM validateAddress
  match spec.operations.find? fun operation => Text.trim operation == "" with
  | some operation =>
    refuse "spec.operations" operation
      "an operation is named, and an empty name would be forwarded to the broker as one"
  | none => pure ()
  if spec.information.isEmpty then
    refuse "spec.information" "" "a registration claims at least one entity selector (MF-36)"
  spec.information.forM (validateInformation reader)
  validateMirrorSchedule spec.schedule
  spec.federation.validate
  validateAnonymousTarget spec

end Validation

inductive CsrError where
  | notARegistration
  | spec (message : String)
  | unresolvedEndpoint (name : String)
  | broker (message : String)

structure MemberSource where
  endpoint : String
  tenant : String
  gateway : Option String

/-- The member behind an Endpoint, by its name. -/
abbrev Endpoints := String → Option MemberSource

/-- A registration document: the members of one JSON object. -/
abbrev Document := SortedMap String Value

def registrationId (name : String) : String := "urn:ngsi-ld:ContextSourceRegistration:" ++ name

def forwardsCallerIdentity (spec : ContextSourceRegistrationSpec) : Bool :=
  spec.federation.identity == .caller

def selectorDocument (e : EntitySelector) : Document :=
  ((SortedMap.empty.insert "type" (.str e.entityType)).insertSome "id"
    (e.id.map fun id => .str id.toString)).insertSome "idPattern" (e.idPattern.map .str)

def texts (items : List String) : Value := .arr (items.map .str)

def unlessEmpty (items : List String) : Option Value :=
  if items.isEmpty then none else some (texts items)

def informationDocument (info : RegistrationInfo) : Document :=
  ((SortedMap.empty.insert "entities"
    (.arr (info.entities.map fun e => .obj (selectorDocument e).entries))).insertSome
      "propertyNames" (unlessEmpty info.propertyNames)).insertSome
      "relationshipNames" (unlessEmpty info.relationshipNames)

def information (spec : ContextSourceRegistrationSpec) : Value :=
  .arr (spec.information.map fun info => .obj (informationDocument info).entries)

def RegistrationMode.text : RegistrationMode → String
  | .inclusive => "inclusive"
  | .exclusive => "exclusive"
  | .auxiliary => "auxiliary"
  | .redirect => "redirect"

/-- The title as one string, else the first text of the map it is. -/
def titleOf (manifest : RawManifest) : Option String :=
  (manifest.metadata.rest.lookup "title").bind fun title =>
    title.asStr <|> title.asObject.bind fun texts => texts.findSome? fun c => c.2.asStr

def memberOf (endpoints : Endpoints) (spec : ContextSourceRegistrationSpec) :
    Except CsrError MemberSource :=
  match spec.endpointRef, spec.endpoint with
  | some reference, _ =>
    match endpoints reference.nameOf with
    | some member => .ok member
    | none => .error (.unresolvedEndpoint reference.nameOf)
  | none, some url => .ok ⟨url, "", none⟩
  | none, none => .error (.spec "no target")

/-- The forwarded header of a member that is read as the caller. -/
def authorization : Value :=
  .arr [.obj [("key", .str "Authorization"), ("value", .str "urn:ngsi-ld:request")]]

/-- Where the forward goes, and as whom. -/
def addressed (spec : ContextSourceRegistrationSpec) (member : MemberSource) (body : Document) :
    Except CsrError Document :=
  match forwardsCallerIdentity spec, spec.endpointRef with
  | true, some reference =>
    match member.gateway with
    | some gateway =>
      .ok ((body.insert "endpoint" (.str gateway)).insert "contextSourceInfo" authorization)
    | none => .error (.unresolvedEndpoint reference.nameOf)
  | _, _ => .ok ((body.insert "endpoint" (.str member.endpoint)).insertSome "tenant"
      (if member.tenant = "" then none else some (.str member.tenant)))

section Apply

variable (reader : Reader)

def registration (manifest : RawManifest) (endpoints : Endpoints) : Except CsrError Document := do
  if manifest.kind ≠ "ContextSourceRegistration" then throw .notARegistration
  let spec ← (reader.fromValue manifest.spec).mapError .spec
  (validate spec reader).mapError fun e => .spec e.display
  let member ← memberOf endpoints spec
  let body := (SortedMap.empty.insert "id" (.str (registrationId manifest.metadata.name))).insert
    "type" (.str "ContextSourceRegistration")
  let body ← addressed spec member body
  let body := (body.insert "information" (information spec)).insert "mode" (.str spec.mode.text)
  let body := body.insertSome "operations" (unlessEmpty spec.operations)
  let body := body.insertSome "registrationName" ((titleOf manifest).map .str)
  return body.insertSome "expiresAt" (spec.expiresAt.map .str)

/-- The part of the broker's interface a reconciler uses; a call that is refused changes
nothing the caller goes on with. -/
structure BrokerApi (B : Type) where
  get : B → String → String → Except String (Option Document)
  create : B → String → Document → Except String B
  update : B → String → String → Document → Except String B

inductive Outcome where
  | created
  | updated
  | unchanged
  deriving DecidableEq

/-- Whether the broker's copy already says what the manifest says. -/
def same (live desired : Document) : Bool :=
  desired.entries.all fun c => c.1 == "id" || c.1 == "type" || live.get? c.1 == some c.2

variable {B : Type} (api : BrokerApi B)

/-- The one call that is missing where the broker holds this under the id. -/
def applyTo (tenant id : String) (desired : Document) (b : B) :
    Option Document → Except CsrError (Outcome × B)
  | none => do return (.created, ← (api.create b tenant desired).mapError .broker)
  | some live =>
    if same live desired then .ok (.unchanged, b)
    else do
      let patch := (desired.erase "id").erase "type"
      return (.updated, ← (api.update b tenant id patch).mapError .broker)

/-- Brings the broker's copy of one registration to what the manifest says. -/
def apply (tenant : String) (manifest : RawManifest) (endpoints : Endpoints) (b : B) :
    Except CsrError (Outcome × B) := do
  let desired ← registration reader manifest endpoints
  let id := ((desired.get? "id").bind Value.asStr).getD ""
  let held ← (api.get b tenant id).mapError .broker
  applyTo api tenant id desired b held

end Apply

/-- The members of a registration the manifest language owns. -/
def OWNED : List String :=
  ["endpoint", "contextSourceInfo", "tenant", "information", "mode", "operations",
    "registrationName", "expiresAt"]

/-- Whether a member is read as the caller, through its own Endpoint. -/
def readAsCaller (spec : ContextSourceRegistrationSpec) : Bool :=
  forwardsCallerIdentity spec && spec.endpointRef.isSome

/-- What makes a manifest one a registration is built from. -/
structure Accepted (reader : Reader) (manifest : RawManifest) (endpoints : Endpoints)
    (spec : ContextSourceRegistrationSpec) (member : MemberSource) : Prop where
  kind : manifest.kind = "ContextSourceRegistration"
  parsed : reader.fromValue manifest.spec = .ok spec
  valid : validate spec reader = .ok ()
  found : memberOf endpoints spec = .ok member
  reachable : readAsCaller spec = true → member.gateway.isSome = true

/-- Whether a manifest says anything of a member. -/
def Says (spec : ContextSourceRegistrationSpec) (member : MemberSource) (title : Option String)
    (key : String) : Prop :=
  key = "endpoint" ∨ key = "information" ∨ key = "mode" ∨
    key = "contextSourceInfo" ∧ readAsCaller spec = true ∨
    key = "tenant" ∧ readAsCaller spec = false ∧ member.tenant ≠ "" ∨
    key = "operations" ∧ spec.operations ≠ [] ∨
    key = "registrationName" ∧ title.isSome = true ∨ key = "expiresAt" ∧ spec.expiresAt.isSome = true

variable {reader : Reader} {manifest : RawManifest} {endpoints : Endpoints}
  {spec : ContextSourceRegistrationSpec} {member : MemberSource} {body : Document}

/-- What a registration is built of once its address is. -/
def completed (spec : ContextSourceRegistrationSpec) (title : Option String) (body : Document) :
    Document :=
  ((((body.insert "information" (information spec)).insert "mode" (.str spec.mode.text)).insertSome
    "operations" (unlessEmpty spec.operations)).insertSome "registrationName"
    (title.map .str)).insertSome "expiresAt" (spec.expiresAt.map .str)

def headed (name : String) : Document :=
  (SortedMap.empty.insert "id" (.str (registrationId name))).insert "type"
    (.str "ContextSourceRegistration")

theorem registration_eq_ok_iff : registration reader manifest endpoints = .ok body ↔
    manifest.kind = "ContextSourceRegistration" ∧ ∃ spec member address,
      reader.fromValue manifest.spec = .ok spec ∧ validate spec reader = .ok () ∧
      memberOf endpoints spec = .ok member ∧
      addressed spec member (headed manifest.metadata.name) = .ok address ∧
      completed spec (titleOf manifest) address = body := by
  unfold registration
  by_cases hkind : manifest.kind = "ContextSourceRegistration"
  · rw [if_neg (not_not.2 hkind)]
    simp only [bind_eq_ok, mapError_eq_ok, hkind, true_and]
    constructor
    · rintro ⟨spec, hparsed, ⟨⟩, hvalid, member, hfound, address, haddress, hbody⟩
      exact ⟨spec, member, address, hparsed, hvalid, hfound, haddress, Except.ok.inj hbody⟩
    · rintro ⟨spec, member, address, hparsed, hvalid, hfound, haddress, rfl⟩
      exact ⟨spec, hparsed, (), hvalid, member, hfound, address, haddress, rfl⟩
  · rw [if_pos hkind]
    simp only [hkind, false_and, iff_false]
    intro h
    cases h

theorem addressed_eq_ok_iff {address : Document} : addressed spec member body = .ok address ↔
    (readAsCaller spec = true ∧ ∃ gateway, member.gateway = some gateway ∧
      address = (body.insert "endpoint" (.str gateway)).insert "contextSourceInfo" authorization) ∨
    (readAsCaller spec = false ∧ address = (body.insert "endpoint" (.str member.endpoint)).insertSome
      "tenant" (if member.tenant = "" then none else some (.str member.tenant))) := by
  unfold addressed readAsCaller
  split
  · rename_i reference hcaller hreference
    rw [hcaller, hreference]
    rcases member.gateway with _ | gateway
    · simp only [reduceCtorEq, Option.isSome_some, Bool.and_self, false_and, exists_false,
        and_false, Bool.true_eq_false, or_self]
    · simp only [Except.ok.injEq, Option.isSome_some, Bool.and_self, Option.some.injEq,
        exists_eq_left', true_and, Bool.true_eq_false, false_and, or_false]
      exact eq_comm
  · rename_i hnot
    have hcaller : (forwardsCallerIdentity spec && spec.endpointRef.isSome) = false := by
      rw [Bool.and_eq_false_iff, ← Bool.not_eq_true, or_iff_not_imp_left, not_not]
      intro hcaller
      rcases hreference : spec.endpointRef with _ | reference
      · rfl
      · exact (hnot reference hcaller hreference).elim
    rw [hcaller]
    simp only [Except.ok.injEq, Bool.false_eq_true, false_and, true_and, false_or]
    exact eq_comm

/-- A registration is built from a manifest exactly when it is accepted. -/
theorem accepted_iff : (∃ body, registration reader manifest endpoints = .ok body) ↔
    ∃ spec member, Accepted reader manifest endpoints spec member := by
  simp only [registration_eq_ok_iff, addressed_eq_ok_iff]
  constructor
  · rintro ⟨-, hkind, spec, member, address, hparsed, hvalid, hfound, haddress, -⟩
    refine ⟨spec, member, hkind, hparsed, hvalid, hfound, fun hcaller => ?_⟩
    rcases haddress with ⟨-, gateway, hgateway, -⟩ | ⟨hnot, -⟩
    · exact hgateway ▸ rfl
    · exact absurd (hcaller.symm.trans hnot) (by decide)
  · rintro ⟨spec, member, h⟩
    rcases hcaller : readAsCaller spec with _ | _
    · exact ⟨_, h.kind, spec, member, _, h.parsed, h.valid, h.found, Or.inr ⟨hcaller, rfl⟩, rfl⟩
    · obtain ⟨gateway, hgateway⟩ := Option.isSome_iff_exists.1 (h.reachable hcaller)
      exact ⟨_, h.kind, spec, member, _, h.parsed, h.valid, h.found,
        Or.inl ⟨hcaller, gateway, hgateway, rfl⟩, rfl⟩

theorem Accepted.unique {spec' : ContextSourceRegistrationSpec} {member' : MemberSource}
    (h : Accepted reader manifest endpoints spec member)
    (h' : Accepted reader manifest endpoints spec' member') : spec = spec' ∧ member = member' := by
  obtain rfl := Except.ok.inj (h.parsed.symm.trans h'.parsed)
  exact ⟨rfl, Except.ok.inj (h.found.symm.trans h'.found)⟩

theorem Says.owned {title : Option String} {key : String} (h : Says spec member title key) :
    key ∈ OWNED := by
  unfold Says at h
  unfold OWNED
  simp only [List.mem_cons]
  tauto

theorem isSome_unlessEmpty {items : List String} :
    (unlessEmpty items).isSome = true ↔ items ≠ [] := by
  rcases items with _ | ⟨s, items⟩ <;> simp [unlessEmpty]

theorem isSome_completed {title : Option String} {key : String}
    (haddress : addressed spec member (headed manifest.metadata.name) = .ok body) :
    ((completed spec title body).get? key).isSome ↔
      key = "id" ∨ key = "type" ∨ Says spec member title key := by
  unfold Says completed
  rcases addressed_eq_ok_iff.1 haddress with ⟨hcaller, gateway, -, rfl⟩ | ⟨hcaller, rfl⟩
  · simp only [headed, SortedMap.isSome_insert, SortedMap.isSome_insertSome, isSome_unlessEmpty,
      Option.isSome_map, SortedMap.get?_empty, Option.isSome_none, Bool.false_eq_true, hcaller]
    grind
  · have htenant : (if member.tenant = "" then none else some (Value.str member.tenant)).isSome ↔
        member.tenant ≠ "" := by
      split_ifs with h <;> simp [h]
    simp only [headed, SortedMap.isSome_insert, SortedMap.isSome_insertSome, isSome_unlessEmpty,
      Option.isSome_map, SortedMap.get?_empty, Option.isSome_none, Bool.false_eq_true, hcaller,
      htenant]
    grind

/-- Later members never write the id. -/
theorem id_of_addressed {title : Option String}
    (haddress : addressed spec member (headed manifest.metadata.name) = .ok body) :
    (completed spec title body).get? "id" =
      some (.str (registrationId manifest.metadata.name)) := by
  rcases addressed_eq_ok_iff.1 haddress with ⟨-, gateway, -, rfl⟩ | ⟨-, rfl⟩ <;>
    simp [completed, headed, SortedMap.get?_insert, SortedMap.get?_insertSome]

theorem registration_of_accepted (h : Accepted reader manifest endpoints spec member) :
    ∃ body, registration reader manifest endpoints = .ok body ∧
      body.get? "id" = some (.str (registrationId manifest.metadata.name)) ∧
      ∀ key, (body.get? key).isSome ↔
        key = "id" ∨ key = "type" ∨ Says spec member (titleOf manifest) key := by
  obtain ⟨body, hbody⟩ := accepted_iff.2 ⟨spec, member, h⟩
  refine ⟨body, hbody, ?_⟩
  obtain ⟨-, spec', member', address, hparsed, -, hfound, haddress, rfl⟩ :=
    registration_eq_ok_iff.1 hbody
  obtain rfl := Except.ok.inj (h.parsed.symm.trans hparsed)
  obtain rfl := Except.ok.inj (h.found.symm.trans hfound)
  exact ⟨id_of_addressed haddress, fun key => isSome_completed haddress⟩

/-- A broker that answers every call: it stores what it creates, and its `PATCH` merges the members
it is given into what it stores. What it adds is no member of the manifest language. -/
structure Merges {B : Type} (api : BrokerApi B) (holds : B → String → String → Option Document) :
    Prop where
  get : ∀ b tenant id, api.get b tenant id = .ok (holds b tenant id)
  create : ∀ b tenant id body, holds b tenant id = none → body.get? "id" = some (.str id) →
    ∃ b' doc, api.create b tenant body = .ok b' ∧ holds b' tenant id = some doc ∧
      ∀ key ∈ OWNED, doc.get? key = body.get? key
  update : ∀ b tenant id doc patch, holds b tenant id = some doc →
    ∃ b' doc', api.update b tenant id patch = .ok b' ∧ holds b' tenant id = some doc' ∧
      ∀ key ∈ OWNED, doc'.get? key = (patch.get? key <|> doc.get? key)

section Runs

variable {B : Type} {api : BrokerApi B} {holds : B → String → String → Option Document}
  {tenant name : String} {b : B}

theorem same_iff {live desired : Document} : same live desired = true ↔
    ∀ key value, desired.get? key = some value → key = "id" ∨ key = "type" ∨
      live.get? key = some value := by
  unfold same
  simp only [List.all_eq_true, Bool.or_eq_true, beq_iff_eq, or_assoc]
  constructor
  · intro h key value hdesired
    exact h (key, value) (SortedMap.get?_eq_some.1 hdesired)
  · intro h c hc
    exact h c.1 c.2 (SortedMap.get?_eq_some.2 hc)

/-- What the broker holds of a member after an apply is what the manifest says, else what it held. -/
theorem apply_of_accepted (laws : Merges api holds)
    (h : Accepted reader manifest endpoints spec member) :
    ∃ outcome b' doc body, apply reader api tenant manifest endpoints b = .ok (outcome, b') ∧
      registration reader manifest endpoints = .ok body ∧
      holds b' tenant (registrationId manifest.metadata.name) = some doc ∧
      ∀ key ∈ OWNED, doc.get? key = (body.get? key <|>
        (holds b tenant (registrationId manifest.metadata.name)).bind (·.get? key)) := by
  obtain ⟨body, hbody, hid, hkeys⟩ := registration_of_accepted h
  have happly : apply reader api tenant manifest endpoints b =
      ((api.get b tenant (registrationId manifest.metadata.name)).mapError .broker >>= fun held =>
        applyTo api tenant (registrationId manifest.metadata.name) body b held) := by
    simp only [apply, hbody, hid, bind, Except.bind, Option.bind_some, Value.asStr_str,
      Option.getD_some]
  rw [happly, laws.get]
  rcases hheld : holds b tenant (registrationId manifest.metadata.name) with _ | live
  · obtain ⟨b', doc, hcreate, hdoc, hmembers⟩ := laws.create b tenant _ body hheld hid
    refine ⟨.created, b', doc, body, ?_, hbody, hdoc, fun key hkey => ?_⟩
    · simp only [mapError_ok, bind, Except.bind, applyTo, hcreate]
      rfl
    · rw [hmembers key hkey]
      simp
  · by_cases hsame : same live body = true
    · refine ⟨.unchanged, b, live, body, ?_, hbody, hheld, fun key hkey => ?_⟩
      · simp only [mapError_ok, bind, Except.bind, applyTo, hsame]
        rfl
      · rcases hvalue : body.get? key with _ | value
        · simp
        · rcases same_iff.1 hsame key value hvalue with rfl | rfl | hlive
          · exact absurd hkey (by decide)
          · exact absurd hkey (by decide)
          · rw [hlive]
            rfl
    · obtain ⟨b', doc, hupdate, hdoc, hmembers⟩ :=
        laws.update b tenant _ live ((body.erase "id").erase "type") hheld
      refine ⟨.updated, b', doc, body, ?_, hbody, hdoc, fun key hkey => ?_⟩
      · simp only [mapError_ok, bind, Except.bind, applyTo, hsame, hupdate]
        rfl
      · have hid : key ≠ "id" := fun h => absurd (h ▸ hkey) (by decide)
        have htype : key ≠ "type" := fun h => absurd (h ▸ hkey) (by decide)
        rw [hmembers key hkey, SortedMap.get?_erase, if_neg htype, SortedMap.get?_erase, if_neg hid]
        rfl

/-- One manifest of a history, applied with the Endpoints known at the time. -/
def applied (reader : Reader) (api : BrokerApi B) (tenant : String) (b : B)
    (c : RawManifest × Endpoints) : B :=
  match apply reader api tenant c.1 c.2 b with
  | .ok (_, b') => b'
  | .error _ => b

/-- Whether the broker holds anything of a member. -/
def Held (holds : B → String → String → Option Document) (tenant name : String) (b : B)
    (key : String) : Prop :=
  ((holds b tenant (registrationId name)).bind (·.get? key)).isSome

/-- Whether a manifest of a history is accepted and says anything of a member. -/
def SaidBy (reader : Reader) (c : RawManifest × Endpoints) (key : String) : Prop :=
  ∃ spec member, Accepted reader c.1 c.2 spec member ∧ Says spec member (titleOf c.1) key

theorem applied_of_not_accepted {c : RawManifest × Endpoints}
    (h : ¬ ∃ spec member, Accepted reader c.1 c.2 spec member) : applied reader api tenant b c = b := by
  rcases hbody : registration reader c.1 c.2 with e | body
  · simp only [applied, apply, hbody, bind, Except.bind]
  · exact absurd (accepted_iff.1 ⟨body, hbody⟩) h

theorem saidBy_iff (h : Accepted reader manifest endpoints spec member) {key : String} :
    SaidBy reader (manifest, endpoints) key ↔ Says spec member (titleOf manifest) key := by
  constructor
  · rintro ⟨spec', member', h', hsaid⟩
    obtain ⟨rfl, rfl⟩ := h.unique h'
    exact hsaid
  · intro hsaid
    exact ⟨spec, member, h, hsaid⟩

theorem isSome_iff_said {body : Document} {key : String} (hkey : key ∈ OWNED)
    (hkeys : ∀ key, (body.get? key).isSome ↔
      key = "id" ∨ key = "type" ∨ Says spec member (titleOf manifest) key) :
    (body.get? key).isSome ↔ Says spec member (titleOf manifest) key := by
  have hid : key ≠ "id" := fun h => absurd (h ▸ hkey) (by decide)
  have htype : key ≠ "type" := fun h => absurd (h ▸ hkey) (by decide)
  rw [hkeys, or_iff_right hid, or_iff_right htype]

theorem held_applied (laws : Merges api holds) {c : RawManifest × Endpoints}
    (hname : c.1.metadata.name = name) {key : String} (hkey : key ∈ OWNED) :
    Held holds tenant name (applied reader api tenant b c) key ↔
      Held holds tenant name b key ∨ SaidBy reader c key := by
  obtain ⟨manifest, endpoints⟩ := c
  subst hname
  by_cases haccepted : ∃ spec member, Accepted reader manifest endpoints spec member
  · obtain ⟨spec, member, h⟩ := haccepted
    obtain ⟨outcome, b', doc, body, happly, hbody, hdoc, hmembers⟩ :=
      @apply_of_accepted _ _ _ _ _ _ _ _ tenant b laws h
    obtain ⟨body', hbody', -, hkeys⟩ := registration_of_accepted h
    obtain rfl := Except.ok.inj (hbody.symm.trans hbody')
    have hstep : applied reader api tenant b (manifest, endpoints) = b' := by
      simp only [applied, happly]
    rw [saidBy_iff h, ← isSome_iff_said hkey hkeys, hstep]
    unfold Held
    rw [hdoc, Option.bind_some, hmembers key hkey, Option.orElse_eq_orElse, Option.orElse_eq_or, Option.isSome_or, Bool.or_eq_true]
    exact Or.comm
  · rw [applied_of_not_accepted haccepted]
    refine (or_iff_left ?_).symm
    rintro ⟨spec, member, h, -⟩
    exact haccepted ⟨spec, member, h⟩

/-- The broker holds a member after a history where it held it before or some manifest said it. -/
theorem held_run (laws : Merges api holds) {key : String} (hkey : key ∈ OWNED) :
    ∀ {history : List (RawManifest × Endpoints)} {b : B},
      (∀ c ∈ history, c.1.metadata.name = name) →
      (Held holds tenant name (Machine.run (applied reader api tenant) b history) key ↔
        Held holds tenant name b key ∨ ∃ c ∈ history, SaidBy reader c key)
  | [], b, _ => by simp
  | c :: history, b, hnames => by
    rw [Machine.run_cons, held_run laws hkey fun d hd => hnames d (List.mem_cons_of_mem _ hd),
      held_applied laws (hnames c List.mem_cons_self) hkey, or_assoc]
    simp only [List.mem_cons, exists_eq_or_imp]

/-- Whether the broker holds of every owned member what the registration says, and no other. -/
def Converged (holds : B → String → String → Option Document) (tenant : String) (b : B)
    (body : Document) (name : String) : Prop :=
  ∃ doc, holds b tenant (registrationId name) = some doc ∧
    ∀ key ∈ OWNED, doc.get? key = body.get? key

end Runs

/-- A broker that keeps its registrations in memory, with every write it was asked to make. -/
structure InMemoryBroker where
  registrations : SortedMap (String ×ₗ String) Document
  calls : List (String × String × String)

namespace InMemoryBroker

def empty : InMemoryBroker := ⟨SortedMap.empty, []⟩

def registration (b : InMemoryBroker) (tenant id : String) : Option Document :=
  b.registrations.get? (toLex (tenant, id))

def create (b : InMemoryBroker) (tenant : String) (body : Document) : InMemoryBroker :=
  let id := ((body.get? "id").bind Value.asStr).getD ""
  ⟨b.registrations.insert (toLex (tenant, id)) body, b.calls ++ [("create", tenant, id)]⟩

def update (b : InMemoryBroker) (tenant id : String) (patch : Document) : InMemoryBroker :=
  ⟨b.registrations.insert (toLex (tenant, id))
    (((b.registration tenant id).getD SortedMap.empty).merge patch),
    b.calls ++ [("update", tenant, id)]⟩

def api : BrokerApi InMemoryBroker where
  get b tenant id := .ok (b.registration tenant id)
  create b tenant body := .ok (b.create tenant body)
  update b tenant id patch := .ok (b.update tenant id patch)

theorem merges : Merges api registration where
  get _ _ _ := rfl
  create b tenant id body _ hid := by
    refine ⟨_, body, rfl, ?_, fun _ _ => rfl⟩
    simp only [registration, create, hid, Option.bind_some, Value.asStr_str, Option.getD_some,
      SortedMap.get?_insert, if_true]
  update b tenant id doc patch hdoc := by
    refine ⟨_, doc.merge patch, rfl, ?_, fun _ _ => SortedMap.get?_merge⟩
    simp only [update, hdoc, Option.getD_some]
    simp only [registration, SortedMap.get?_insert, if_true]

end InMemoryBroker

section Samples

def sampleSpec (federation : List (String × Value)) : Value :=
  .obj [("contextSpaceRef", .str "hub"), ("endpointRef", .str "air"),
    ("federation", .obj federation),
    ("information", .arr [.obj [("entities", .arr [.obj [("type", .str "AirQuality")]])]])]

def sampleAsCaller : List (String × Value) := [("identity", .str "caller")]

def sampleAsAccount : List (String × Value) :=
  [("identity", .str "serviceAccount"), ("serviceAccountRef", .str "hub-reader")]

def sampleParsed (federation : Federation) : ContextSourceRegistrationSpec where
  endpointRef := some (.name "air")
  endpoint := none
  information := [⟨⟨[⟨"AirQuality", none, none⟩], [], []⟩, []⟩]
  federation := federation
  mode := .inclusive
  operations := []
  expiresAt := none
  schedule := none

def sampleReader : Reader where
  fromValue v :=
    if v = sampleSpec sampleAsCaller then .ok (sampleParsed ⟨.caller, none⟩)
    else if v = sampleSpec sampleAsAccount then
      .ok (sampleParsed ⟨.serviceAccount, some (.name "hub-reader")⟩)
    else .error "unknown"
  crates := bareCrates

def sampleMember : MemberSource := ⟨"https://broker", "air", some "https://gateway/api/endpoint/air"⟩

def sampleEndpoints : Endpoints := fun name => if name = "air" then some sampleMember else none

def sampleManifest (federation : List (String × Value))
    (h : (sampleSpec federation).wellFormed = true) : RawManifest where
  apiVersion := API_VERSION
  kind := "ContextSourceRegistration"
  metadata := ⟨"air", some "bb-hub", []⟩
  spec := sampleSpec federation
  status := none
  rest_wellFormed := rfl
  spec_wellFormed := h

def asCaller : RawManifest := sampleManifest sampleAsCaller (by decide +kernel)

def asAccount : RawManifest := sampleManifest sampleAsAccount (by decide +kernel)

theorem sample_accepted : Accepted sampleReader asAccount sampleEndpoints
    (sampleParsed ⟨.serviceAccount, some (.name "hub-reader")⟩) sampleMember where
  kind := rfl
  parsed := by
    have hother : sampleSpec sampleAsAccount ≠ sampleSpec sampleAsCaller := by decide +kernel
    simp only [sampleReader, asAccount, sampleManifest, hother, if_true, if_false]
  valid := by decide +kernel
  found := rfl
  reachable := by decide +kernel

end Samples

section Convergence

variable {B : Type} {api : BrokerApi B} {holds : B → String → String → Option Document}
  {tenant name : String}

/-- After any history of manifests under one name the broker holds what the last of them says, and
nothing else, exactly when that one says every member that was held before or that an earlier
one said. Applying it again calls nothing. -/
theorem registrations_converge_iff (laws : Merges api holds)
    {history : List (RawManifest × Endpoints)} (hnames : ∀ c ∈ history, c.1.metadata.name = name)
    (hname : manifest.metadata.name = name) (h : Accepted reader manifest endpoints spec member)
    (b : B) :
    let b' := Machine.run (applied reader api tenant) b (history ++ [(manifest, endpoints)])
    ((∃ body, registration reader manifest endpoints = .ok body ∧
        Converged holds tenant b' body name) ↔
      ∀ key ∈ OWNED, (Held holds tenant name b key ∨ ∃ c ∈ history, SaidBy reader c key) →
        Says spec member (titleOf manifest) key) ∧
    apply reader api tenant manifest endpoints b' = .ok (.unchanged, b') := by
  intro b'
  subst hname
  obtain ⟨outcome, b'', doc, body, happly, hbody, hdoc, hmembers⟩ :=
    @apply_of_accepted _ _ _ _ _ _ _ _ tenant (Machine.run (applied reader api tenant) b history) laws h
  obtain ⟨body', hbody', hid, hkeys⟩ := registration_of_accepted h
  obtain rfl := Except.ok.inj (hbody.symm.trans hbody')
  have hlast : b' = b'' := by
    simp only [b', Machine.run_append, Machine.run_cons, Machine.run_nil, applied, happly]
  rw [hlast]
  constructor
  · constructor
    · rintro ⟨body', hbody', doc', hdoc', hconverged⟩ key hkey hbefore
      obtain rfl := Except.ok.inj (hbody.symm.trans hbody')
      obtain rfl := Option.some.inj (hdoc.symm.trans hdoc')
      rw [← isSome_iff_said hkey hkeys, ← hconverged key hkey, hmembers key hkey,
        Option.orElse_eq_orElse, Option.orElse_eq_or, Option.isSome_or, Bool.or_eq_true]
      exact Or.inr ((held_run laws hkey hnames).2 hbefore)
    · intro hsaid
      refine ⟨body, hbody, doc, hdoc, fun key hkey => ?_⟩
      rw [hmembers key hkey]
      rcases hvalue : body.get? key with _ | value
      · rcases hheld : (holds (Machine.run (applied reader api tenant) b history) tenant
          (registrationId manifest.metadata.name)).bind (·.get? key) with _ | value
        · rfl
        · have hbefore := (held_run laws hkey hnames).1 (Option.isSome_iff_exists.2 ⟨value, hheld⟩)
          rw [← Option.not_isSome_iff_eq_none] at hvalue
          exact absurd ((isSome_iff_said hkey hkeys).2 (hsaid key hkey hbefore)) hvalue
      · rfl
  · have hsame : same doc body = true := by
      refine same_iff.2 fun key value hvalue => ?_
      rcases (hkeys key).1 (Option.isSome_iff_exists.2 ⟨value, hvalue⟩) with hkey | hkey | hkey
      · exact Or.inl hkey
      · exact Or.inr (Or.inl hkey)
      · rw [hmembers key hkey.owned, hvalue]
        exact Or.inr (Or.inr rfl)
    simp only [apply, applyTo, hbody, hid, laws.get, hdoc, hsame, mapError_ok, bind,
      Except.bind, Option.bind_some, Value.asStr_str, Option.getD_some, if_true]

/-- The same manifest twice: the broker holds it, and the second apply calls nothing. -/
theorem registrations_converge_twice :
    let b' := Machine.run (applied sampleReader InMemoryBroker.api "hub") InMemoryBroker.empty
      ([(asAccount, sampleEndpoints)] ++ [(asAccount, sampleEndpoints)])
    (∃ body, registration sampleReader asAccount sampleEndpoints = .ok body ∧
      Converged InMemoryBroker.registration "hub" b' body "air") ∧
    apply sampleReader InMemoryBroker.api "hub" asAccount sampleEndpoints b' =
      .ok (.unchanged, b') := by
  have h := @registrations_converge_iff _ _ _ _ _ _ _ _ "hub" _ InMemoryBroker.merges
    [(asAccount, sampleEndpoints)] (by simp [asAccount, sampleManifest]) rfl sample_accepted
    InMemoryBroker.empty
  refine ⟨h.1.2 fun key _ hbefore => ?_, h.2⟩
  rcases hbefore with hheld | ⟨c, hc, hsaid⟩
  · exact absurd hheld (by simp [Held, InMemoryBroker.registration, InMemoryBroker.empty])
  · obtain rfl := List.mem_singleton.1 hc
    exact (saidBy_iff sample_accepted).1 hsaid

/-- A source that was read as the caller and is now read as an account: the broker goes on sending
the caller's token. -/
theorem token_stays_in_the_broker : ¬ ∃ body,
    registration sampleReader asAccount sampleEndpoints = .ok body ∧
      Converged InMemoryBroker.registration "hub"
        (Machine.run (applied sampleReader InMemoryBroker.api "hub") InMemoryBroker.empty
          ([(asCaller, sampleEndpoints)] ++ [(asAccount, sampleEndpoints)])) body "air" := by
  rintro ⟨body, hbody, doc, hdoc, hconverged⟩
  have hheld : ((Machine.run (applied sampleReader InMemoryBroker.api "hub") InMemoryBroker.empty
      ([(asCaller, sampleEndpoints)] ++ [(asAccount, sampleEndpoints)])).registration "hub"
        (registrationId "air")).bind (·.get? "contextSourceInfo") = some authorization := by
    decide +kernel
  have hbuilt : (registration sampleReader asAccount sampleEndpoints).toOption.bind
      (·.get? "contextSourceInfo") = none := by
    decide +kernel
  rw [hdoc, Option.bind_some, hconverged "contextSourceInfo" (by decide)] at hheld
  rw [hbody] at hbuilt
  exact absurd (hheld.symm.trans hbuilt) (by simp)

end Convergence

end Jcctl.Csr

end JoinedContext

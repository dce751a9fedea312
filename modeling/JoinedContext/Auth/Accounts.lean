import JoinedContext.Auth.Subject
import JoinedContext.Jcctl.Manifest
import JoinedContext.Library.Registry

/-!
# The identity table

The ServiceAccounts of a repository, the accounts its Pipelines and its Apps' jobs derive, by their
Keycloak client ids, and the endpoints each App's client is admitted on. An id the table does not
hold resolves to nobody.
-/

namespace JoinedContext.Auth

open Jcctl

/-- The Keycloak client id of a service account: derived, never chosen. -/
def keycloakClientId (project name : String) : String := project ++ "-" ++ name

def appClientPrefix : String := "app-"

/-- The realm's clients that belong to the platform itself. -/
def platformClients : List String :=
  ["activity-ingest", "apisix-gateway", "ckan", "context-gateway", "edge", "gitea", "grafana",
    "jc-assistant", "jc-build-lane", "mcp-hub", "mcp-local", "mcp-mobile", "portal-api",
    "portal-reconciler", "portal-ui"]

structure ServiceAccounts where
  byClientId : List (String × Account) := []
  /-- The slugs each App's client, and each App job's client, is admitted on. -/
  apps : List (String × List String) := []

namespace ServiceAccounts

variable (accounts : ServiceAccounts)

def resolve (azp : String) : Option Account := accounts.byClientId.lookup azp

/-- Whether a token of the client may be admitted on the endpoint: an App's client only on the
endpoints that App reads, and an `app-` client nobody names on none. -/
def admitsOn (azp slug : String) : Bool :=
  match accounts.apps.lookup azp with
  | some slugs => slugs.contains slug
  | none => (Text.stripPrefix appClientPrefix azp).isNone || (accounts.byClientId.lookup azp).isSome

end ServiceAccounts

/-! ## What the table is read from -/

structure RoleScope where
  contextSpace : Option String := none
  project : Option String := none
  organization : Option String := none

structure RoleBinding where
  role : String
  scope : RoleScope := {}
  validity : Option (Option Instant × Option Instant) := none

structure ServiceAccountSpec where
  roles : List RoleBinding
  /-- When each credential expires. -/
  credentials : List (Option Instant) := []
  /-- Whether the delegation is by token exchange. -/
  tokenExchange : Bool := false

/-- A Pipeline's outputs, each by the endpoint it writes to, and its sources, each by the endpoint
it reads if it reads one. -/
structure PipelineSpec where
  outputs : List String := []
  sources : List (Option String) := []

structure EndpointManifest where
  slug : String
  contextSpace : String
  isPublic : Bool := false

structure SharedSpaceReferenceSpec where
  endpointRef : Option (String × String) := none
  endpointSlug : Option String := none

inductive AppClass where
  | ui | uiRust | wasm
deriving DecidableEq

structure AppSpec where
  /-- The context space of each data need. -/
  dataNeeds : List String := []
  appClass : AppClass := .ui
  /-- The jobs of its server, none where it has none. -/
  jobs : List String := []

/-- The specs as their types read them, and the SHA-256 of a text in hexadecimal. -/
structure Decoders where
  serviceAccount : Value → Option ServiceAccountSpec
  pipeline : Value → Option PipelineSpec
  endpoint : Value → Option EndpointManifest
  reference : Value → Option SharedSpaceReferenceSpec
  app : Value → Option AppSpec
  sha256 : String → String

/-- A name as a DNS label: unchanged up to 63 characters, otherwise its first 52 and ten digits of
its hash. -/
def bounded (sha256 : String → String) (name : String) : String :=
  if name.utf8ByteSize ≤ 63 then name
  else String.ofList ((name.toList.take 52).rdropWhile (· == '-')) ++ "-" ++
    String.ofList ((sha256 name).toList.take 10)

/-- Who a client id stands for: a manifest, or the jobs of the App it is. -/
structure Principal where
  manifest : ResourceId
  job : Bool := false
deriving DecidableEq

/-- A client id with the principal it is derived for, and what the table keeps of it. -/
structure Derived (α : Type) where
  principal : Principal
  client : String
  value : α

section Repository

variable (d : Decoders) (repo : Repository)

def projectOfId (id : ResourceId) : String := id.namespace.getD ""

/-- The manifests of a kind whose spec is read, in the repository's order. -/
def readAs {α : Type} (kind : String) (decode : Value → Option α) : List (ResourceId × α) :=
  repo.iter.filterMap fun c =>
    if c.1.kind = kind then (decode c.2.manifest.spec).map (c.1, ·) else none

/-- The segment of a context space: its pin, else its project and its name. -/
def spaceSegment (project name : String) : String :=
  let id : ResourceId := ⟨"joinedcontext.com", "ContextSpace", some project, name⟩
  let pin := ((repo.resources.get? id).bind fun r => r.manifest.spec.get "urnSegment").bind Value.asStr
  pin.getD (project ++ "-" ++ name)

/-- The latest end of the credentials, none when one never ends. -/
def credentialsEnd (credentials : List (Option Instant)) : Option Instant :=
  if credentials.any Option.isNone then none
  else (credentials.filterMap id).foldl (fun best t => some (best.elim t (max t))) none

def scopedRole (project : String) (binding : RoleBinding) : ScopedRole where
  role := binding.role
  contextSpace := binding.scope.contextSpace.map (spaceSegment repo project)
  project := binding.scope.project
  organization := binding.scope.organization.isSome
  validity := binding.validity

def serviceAccountsOf : List (Derived Account) :=
  (readAs repo "ServiceAccount" d.serviceAccount).map fun c =>
    let project := projectOfId c.1
    ⟨⟨c.1, false⟩, keycloakClientId project c.1.name,
      { name := c.1.name, project
        roles := c.2.roles.map (scopedRole repo project)
        delegates := c.2.tokenExchange
        credentialsEnd := credentialsEnd c.2.credentials }⟩

/-- The space each endpoint of a project serves. -/
def endpointSpaces : List ((String × String) × String) :=
  (readAs repo "Endpoint" d.endpoint).foldl
    (fun spaces c => Assoc.put (projectOfId c.1, c.1.name) c.2.contextSpace spaces) []

/-- The spaces a pipeline writes to and reads, each once. -/
def pipelineSpaces (project : String) (spec : PipelineSpec) : List String :=
  let spaceOf := fun endpoint => (endpointSpaces d repo).lookup (project, endpoint)
  (((spec.outputs.filterMap spaceOf) ++
    spec.sources.filterMap fun source => source.bind spaceOf).mergeSort (· ≤ ·)).dedup

/-- Every Pipeline's own account, `pl-{pipeline}`. -/
def pipelinesOf : List (Derived Account) :=
  (readAs repo "Pipeline" d.pipeline).map fun c =>
    let project := projectOfId c.1
    let name := bounded d.sha256 ("pl-" ++ c.1.name)
    ⟨⟨c.1, false⟩, keycloakClientId project name,
      { name, project
        roles := (pipelineSpaces d repo project c.2).map fun space =>
          { role := "pipeline", contextSpace := some (spaceSegment repo project space) } }⟩

/-- An Endpoint as an App's endpoints are chosen from. -/
structure EndpointFact where
  project : String
  name : String
  slug : String
  space : String
  generatedBy : Option String
  isPublic : Bool

structure ReferenceFact where
  project : String
  name : String
  sourceProject : String
  endpoint : String

def appEndpointGenerator : String := "portal/app-reconciler"

def maxAppEndpoints : Nat := 5

def endpointFacts : List EndpointFact :=
  repo.iter.filterMap fun c =>
    if c.1.kind = "Endpoint" then
      (d.endpoint c.2.manifest.spec).map fun spec =>
        ⟨projectOfId c.1, c.1.name, spec.slug, spec.contextSpace,
          ((c.2.manifest.metadata.rest.lookup "annotations").bind fun annotations =>
            annotations.get GENERATED_BY).bind Value.asStr, spec.isPublic⟩
    else none

/-- A reference names its endpoint, or the slug of one. -/
def referenceFacts : List ReferenceFact :=
  (readAs repo "SharedSpaceReference" d.reference).filterMap fun c =>
    match c.2.endpointRef, c.2.endpointSlug with
    | some (project, name), _ => some ⟨projectOfId c.1, c.1.name, project, name⟩
    | none, some slug => ((endpointFacts d repo).find? fun e => e.slug = slug).map fun e =>
        ⟨projectOfId c.1, c.1.name, e.project, e.name⟩
    | none, none => none

/-- The generated endpoint of an App. -/
def isOwnEndpoint (project app : String) (e : EndpointFact) : Bool :=
  e.project = project && e.name = appClientPrefix ++ app && e.generatedBy = some appEndpointGenerator

/-- The endpoints of one data need of an App. -/
def neededEndpoints (project app : String) (first : Option String) (endpoints : List EndpointFact)
    (space : String) : List EndpointFact :=
  match (endpoints.find? (isOwnEndpoint project app)).filter fun own => own.space = space with
  | some own => [own]
  | none => (endpoints.filter fun e => e.project = project && e.space = space &&
      (e.isPublic || first = some space)).mergeSort fun a b => a.name ≤ b.name

/-- The endpoints an App reads, the primary first: each slug once, the first five kept. -/
def servedEndpoints (project app : String) (spec : AppSpec) (endpoints : List EndpointFact)
    (references : List ReferenceFact) : List EndpointFact :=
  let needed := spec.dataNeeds.flatMap
    (neededEndpoints project app spec.dataNeeds.head? endpoints)
  let held := (references.filter fun r => r.project = project).mergeSort fun a b => a.name ≤ b.name
  let referenced := held.filterMap fun r =>
    endpoints.find? fun e => e.project = r.sourceProject && e.name = r.endpoint
  let unique := (needed ++ referenced).foldl (fun unique e =>
    if e.slug ≠ "" ∧ unique.all fun seen => seen.slug ≠ e.slug then unique ++ [e] else unique) []
  unique.take maxAppEndpoints

def runsJobs (spec : AppSpec) : Bool := spec.appClass = .wasm && !spec.jobs.isEmpty

/-- The job principal of an App, `appjob-{app}`. -/
def jobAccountName (app : String) : String := bounded d.sha256 ("appjob-" ++ app)

def jobClient (id : ResourceId) : String :=
  keycloakClientId (projectOfId id) (jobAccountName d id.name)

/-- What each App's client is admitted on, and its jobs' client on the App's own endpoint alone. -/
def admissionsOf : List (Derived (List String)) :=
  (readAs repo "App" d.app).flatMap fun c =>
    let project := projectOfId c.1
    let slugs := (servedEndpoints project c.1.name c.2 (endpointFacts d repo)
      (referenceFacts d repo)).map EndpointFact.slug
    let own := ((endpointFacts d repo).filter fun e =>
      isOwnEndpoint project c.1.name e && e.slug ≠ "").map EndpointFact.slug
    ⟨⟨c.1, false⟩, appClientPrefix ++ c.1.name, slugs⟩ ::
      if runsJobs c.2 then [⟨⟨c.1, true⟩, jobClient d c.1, own⟩] else []

/-- Every wasm App's job principal, which holds no role of its own. -/
def jobsOf : List (Derived Account) :=
  (readAs repo "App" d.app).filterMap fun c =>
    if runsJobs c.2 then
      some ⟨⟨c.1, true⟩, jobClient d c.1,
        { name := jobAccountName d c.1.name, project := projectOfId c.1 }⟩
    else none

def accountEntries : List (Derived Account) :=
  serviceAccountsOf d repo ++ pipelinesOf d repo ++ jobsOf d repo

/-- Builds the table. The hyphen that joins project and name is also a character of both, so two
accounts can derive one client id: such an id resolves to nobody, and so does a platform client's. -/
def accountsOf : ServiceAccounts where
  byClientId := (Registry.enterAll ((accountEntries d repo).map fun e => (e.client, e.value))
    {}).held.filter fun c => c.1 ∉ platformClients
  apps := (admissionsOf d repo).foldl (fun apps e => Assoc.put e.client e.value apps) []

end Repository

section Read

variable {repo : Repository}

theorem mem_readAs {α : Type} {kind : String} {decode : Value → Option α} {c : ResourceId × α} :
    c ∈ readAs repo kind decode ↔
      ∃ m ∈ repo.iter, m.1.kind = kind ∧ decode m.2.manifest.spec = some c.2 ∧ m.1 = c.1 := by
  unfold readAs
  rw [List.mem_filterMap]
  refine exists_congr fun m => and_congr_right fun _ => ?_
  split_ifs with hkind
  · rw [Option.map_eq_some_iff]
    constructor
    · rintro ⟨v, hv, rfl⟩
      exact ⟨hkind, hv, rfl⟩
    · rintro ⟨-, hv, hid⟩
      exact ⟨c.2, hv, by rw [hid]⟩
  · simp [hkind]

/-- A manifest is read once. -/
theorem eq_of_mem_readAs {α : Type} {kind : String} {decode : Value → Option α} {c c' : ResourceId × α}
    (hc : c ∈ readAs repo kind decode) (hc' : c' ∈ readAs repo kind decode) (h : c.1 = c'.1) : c = c' := by
  obtain ⟨m, hm, -, hread, hid⟩ := mem_readAs.1 hc
  obtain ⟨m', hm', -, hread', hid'⟩ := mem_readAs.1 hc'
  have heq : m.2 = m'.2 := by
    have hget : repo.resources.get? m.1 = some m.2 := SortedMap.get?_eq_some.2 hm
    rw [hid, h, ← hid', SortedMap.get?_eq_some.2 hm'] at hget
    exact (Option.some.inj hget).symm
  rw [heq, hread'] at hread
  exact Prod.ext h (Option.some.inj hread).symm

end Read

end JoinedContext.Auth

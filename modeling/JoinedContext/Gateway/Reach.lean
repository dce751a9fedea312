import JoinedContext.Auth.Accounts
import JoinedContext.Library.Ordered
import JoinedContext.Mqtt.Brokers

/-!
# What an assistant reads

The Endpoints a deployment resolves from its connectors, its selector and its named server. The gateway
and the validator call one resolver, each with facts of its own: the validator reads the manifests, the
gateway its serving table, where a space goes by its rendered segment and the types are those of the
space's declared model.
-/

namespace JoinedContext.Gateway.Reach

open Jcctl Auth

section Kinds

/-- A theme of the EU data-theme table. -/
inductive DataTheme where
  | agri | econ | educ | ener | envi | gove | heal | intr | just | regi | soci | tech | tran
deriving DecidableEq

inductive Channel where
  | «public» | internal | ckan | iframe
deriving DecidableEq

def Channel.isAnonymous (channel : Channel) : Bool := channel ≠ .internal

inductive AccessLevel where
  | «public» | organization | project | grant
deriving DecidableEq

/-- Which Endpoints are selected, a field that is not given matching all. -/
structure Select where
  projects : Option (List String) := none
  spaces : Option (List String) := none
  domains : Option (List String) := none
  themes : Option (List DataTheme) := none
  types : Option (List String) := none
  accessLevel : Option (List AccessLevel) := none
deriving DecidableEq

structure McpServerSpec where
  members : List (Option String × String)
  select : Option Select
  audience : Audience

/-- The members, by project and name. -/
def McpServerSpec.memberIds (spec : McpServerSpec) («namespace» : String) : List (String × String) :=
  spec.members.map fun member => (member.1.getD «namespace», member.2)

structure Connector where
  endpoint : String
  tools : List String
  timeoutSeconds : ℕ
deriving DecidableEq

structure AssistantDeploymentSpec where
  publicId : String
  channel : Channel
  enabled : Bool
  connectors : List Connector
  mcpServer : Option String
  select : Option Select
  exclude : List String
  scope : List String
deriving DecidableEq

def connectorTarget (endpoint : String) : Option String × String :=
  match Text.splitOnce '/' endpoint with
  | some (project, name) => (some project, name)
  | none => (none, endpoint)

/-- Who is let in, the widest last. -/
def breadth : Audience → ℕ
  | .projectList => 0
  | .organization => 1
  | .public => 2

end Kinds

section Resolver

structure EndpointFacts where
  project : String
  name : String
  slug : String
  space : String
  audience : Audience
  types : List String
  domains : List String
  themes : List DataTheme

/-- The access level a deployment sees an Endpoint at; never a grant. -/
def EndpointFacts.level (e : EndpointFacts) : AccessLevel :=
  match e.audience with
  | .public => .public
  | .organization => .organization
  | .projectList => .project

def any {α : Type} (wanted : Option (List α)) (has : α → Bool) : Bool :=
  wanted.all fun values => values.any has

def Select.matches (select : Select) (e : EndpointFacts) : Bool :=
  any select.projects (· == e.project) && any select.spaces (· == e.project ++ "/" ++ e.space) &&
    any select.domains (fun d => d ∈ e.domains) && any select.themes (fun t => t ∈ e.themes) &&
    any select.types fun t => t ∈ e.types

/-- Whether a selector picks an Endpoint, its access level with it. -/
def Select.picks (select : Select) (e : EndpointFacts) : Bool :=
  select.matches e && any select.accessLevel (· == e.level)

structure ResolvedEndpoint where
  project : String
  name : String
  slug : String
  tools : List String
  timeoutSeconds : ℕ

/-- The Endpoints by slug, and the slugs past the most a deployment reads. -/
structure Resolution where
  endpoints : List ResolvedEndpoint
  omitted : List String

def MAX_RESOLVED : ℕ := 100

def SELECTED_TIMEOUT_SECONDS : ℕ := 20

variable (project : String) (deployment : AssistantDeploymentSpec) (server : Option (String × McpServerSpec))

def candidate (e : EndpointFacts) : Bool :=
  if e.project = project then !deployment.channel.isAnonymous || e.audience == .public
  else e.project ∈ deployment.scope && e.audience == .public

def named (reference : String) : String × String :=
  let target := connectorTarget reference
  (target.1.getD project, target.2)

def excluded (e : EndpointFacts) : Bool :=
  (e.project, e.name) ∈ deployment.exclude.map (named project)

/-- The connector of an Endpoint, the last that names it. -/
def connector (e : EndpointFacts) : Option Connector :=
  deployment.connectors.reverse.find? fun c => named project c.endpoint = (e.project, e.name)

def member (e : EndpointFacts) : Bool :=
  server.any fun s => (e.project, e.name) ∈ s.2.memberIds s.1

/-- Whether a selector picks an Endpoint: the deployment's, or its server's. -/
def chosen (e : EndpointFacts) : Bool :=
  deployment.select.any (·.picks e) ||
    server.any fun s => s.2.select.any fun select =>
      decide (breadth s.2.audience ≤ breadth e.audience) && select.picks e

def resolved (e : EndpointFacts) (tools : List String) (timeoutSeconds : ℕ) : ResolvedEndpoint :=
  ⟨e.project, e.name, e.slug, tools, timeoutSeconds⟩

def joined (e : EndpointFacts) : Option ResolvedEndpoint :=
  if excluded project deployment e then none
  else
    match connector project deployment e with
    | some c => some (resolved e c.tools c.timeoutSeconds)
    | none =>
      if member server e || chosen deployment server e then
        some (resolved e [] SELECTED_TIMEOUT_SECONDS)
      else none

def resolveConnectors (catalog : List EndpointFacts) : Resolution :=
  let endpoints := Ordered.keyed ResolvedEndpoint.slug
    ((catalog.filter (candidate project deployment)).filterMap (joined project deployment server))
  ⟨endpoints.take MAX_RESOLVED, (endpoints.drop MAX_RESOLVED).map ResolvedEndpoint.slug⟩

end Resolver

section Source

structure EndpointSpec where
  slug : String
  contextSpace : String
  audience : Audience
  /-- The themes set by hand. -/
  themes : List DataTheme
deriving DecidableEq

structure DataModelSpec where
  classes : List String
  contextSpace : Option String
  mirrored : Bool

/-- The specs, as their types read them, with the table of the types that have a domain and a theme. A
deployment is valid only if the server it names is one of a project. -/
structure ReachDecoders where
  endpoint : Value → Option EndpointSpec
  deployment : Value → Option AssistantDeploymentSpec
  server : Value → Option McpServerSpec
  space : Value → Option (Option String)
  model : Value → Option DataModelSpec
  row : String → Option (String × DataTheme)
  valid : AssistantDeploymentSpec → Bool
  valid_server : ∀ spec reads, valid spec = true → spec.mcpServer = some reads →
    ∃ project name, Text.splitOnce '/' reads = some (project, name) ∧ project ≠ ""

variable (d : ReachDecoders) (repo : Repository)

def endpoints : List (ResourceId × EndpointSpec) := Auth.readAs repo "Endpoint" d.endpoint

/-- The facts of an Endpoint that is known by this name to serve this space and these types. -/
def factsOf (project name space : String) (spec : EndpointSpec) (types : List String) : EndpointFacts where
  project := project
  name := name
  slug := spec.slug
  space := space
  audience := spec.audience
  types := types
  domains := (types.filterMap d.row).map Prod.fst
  themes := if spec.themes = [] then (types.filterMap d.row).map Prod.snd else spec.themes

/-- `org/all` has no manifest until the organization declares one. -/
def orgAll : McpServerSpec := ⟨[], some {}, .organization⟩

/-- The server of a project, as its manifest reads. -/
def declaredServer (project name : String) : Option McpServerSpec :=
  ((Auth.readAs repo "McpServer" d.server).filter fun c => projectOfId c.1 = project ∧ c.1.name = name).getLast?.map
    Prod.snd

namespace Validator

/-- The classes of the model a space's manifest names. -/
def modelClasses («namespace» : Option String) (space : String) : List String :=
  let held := repo.declares ⟨"joinedcontext.com", "ContextSpace", «namespace», space⟩
  let model := (held.bind fun m => m.spec.get "dataModelRef").bind fun reference =>
    (reference.asStr <|> (reference.get "name").bind Value.asStr).map fun name =>
      (((reference.get "namespace").bind Value.asStr <|> «namespace»), name)
  let classes := model.bind fun m =>
    (repo.declares ⟨"joinedcontext.com", "DataModel", m.1, m.2⟩).bind fun m =>
      (m.spec.get "classes").bind Value.asArray
  (classes.getD []).filterMap Value.asStr

def facts (c : ResourceId × EndpointSpec) : EndpointFacts :=
  factsOf d (projectOfId c.1) c.1.name c.2.contextSpace c.2
    (modelClasses repo c.1.namespace c.2.contextSpace)

def server (own : String) (deployment : AssistantDeploymentSpec) : Option (String × McpServerSpec) :=
  deployment.mcpServer.bind fun reads =>
    let project := (connectorTarget reads).1.getD own
    match (((Auth.readAs repo "McpServer" d.server).filter fun c =>
        c.1.namespace = some project ∧ c.1.name = (connectorTarget reads).2).getLast?.map Prod.snd) with
    | some spec => some (project, spec)
    | none => if reads = "org/all" then some ("org", orgAll) else none

/-- The resolution of a deployment that `jcctl validate` computes. -/
def resolution (c : ResourceId × AssistantDeploymentSpec) : Resolution :=
  resolveConnectors (projectOfId c.1) c.2 (server d repo (projectOfId c.1) c.2)
    ((endpoints d repo).map (facts d repo))

end Validator

/-- The models of a space that are its own. -/
def modelsOf (project space : String) : List (String × List String) :=
  (Auth.readAs repo "DataModel" d.model).filterMap fun c =>
    if projectOfId c.1 = project ∧ c.2.contextSpace = some space ∧ c.2.mirrored = false then
      some (c.1.name, c.2.classes)
    else none

/-- The classes of the one model a space names, if it is one of its own. -/
def declaredTypes (project space : String) : Option (List String) :=
  ((Auth.readAs repo "ContextSpace" d.space).filterMap fun c =>
    if projectOfId c.1 = project ∧ c.1.name = space then
      c.2.bind fun model => (modelsOf d repo project space).lookup model
    else none).getLast?

def classes (project space : String) : List String :=
  (declaredTypes d repo project space).getD ((modelsOf d repo project space).flatMap Prod.snd)

/-- The name of the last Endpoint of each slug. -/
def names : List (String × String) :=
  (endpoints d repo).foldl (fun table c => Assoc.put c.2.slug c.1.name table) []

/-- What a selector reads of an Endpoint of the serving table. -/
def facts (name : String) (c : ResourceId × EndpointSpec) : EndpointFacts :=
  factsOf d (projectOfId c.1) name (spaceSegment repo (projectOfId c.1) c.2.contextSpace) c.2
    (classes d repo (projectOfId c.1) c.2.contextSpace)

/-- A deployment as its own server. -/
structure McpServer where
  deployment : ResourceId
  name : String
  audience : Audience
  members : List String

def server (deployment : AssistantDeploymentSpec) : Option (String × McpServerSpec) :=
  deployment.mcpServer.bind fun reads =>
    (Text.splitOnce '/' reads).bind fun target =>
      (declaredServer d repo target.1 target.2 <|>
        if target = ("org", "all") then some orgAll else none).map (target.1, ·)

def serverOf (c : ResourceId × AssistantDeploymentSpec) : McpServer where
  deployment := c.1
  name := c.2.publicId
  audience := if c.2.channel.isAnonymous then .public else .organization
  members := (resolveConnectors (projectOfId c.1) c.2 (server d repo c.2)
    ((endpoints d repo).filterMap fun e =>
      ((names d repo).lookup e.2.slug).map fun name => facts d repo name e)).endpoints.map
        ResolvedEndpoint.slug

/-- The deployments the gateway serves. -/
def served : List (ResourceId × AssistantDeploymentSpec) :=
  (Auth.readAs repo "AssistantDeployment" d.deployment).filter fun c => d.valid c.2 && c.2.enabled

def deploymentServers : List McpServer := (served d repo).map (serverOf d repo)

end Source

section Property

variable (d : ReachDecoders) (repo : Repository) (c : ResourceId × AssistantDeploymentSpec)

/-- The server of a deployment reads the Endpoints of the resolution, and none that is not in its reach:
its project's and the public ones of its scope, on an anonymous channel public ones alone. -/
structure OneReach : Prop where
  same : ∀ e ∈ endpoints d repo, e.2.slug ∈ (serverOf d repo c).members ↔
    e.2.slug ∈ (Validator.resolution d repo c).endpoints.map ResolvedEndpoint.slug
  anonymous : ∀ e ∈ endpoints d repo, e.2.slug ∈ (serverOf d repo c).members →
    c.2.channel.isAnonymous = true → e.2.audience = .public
  reach : ∀ e ∈ endpoints d repo, e.2.slug ∈ (serverOf d repo c).members →
    projectOfId e.1 = projectOfId c.1 ∨ projectOfId e.1 ∈ c.2.scope ∧ e.2.audience = .public

/-- Whether the resolver takes an Endpoint by these facts. -/
def joins (server : Option (String × McpServerSpec)) (e : EndpointFacts) : Bool :=
  candidate (projectOfId c.1) c.2 e && (joined (projectOfId c.1) c.2 server e).isSome

/-- Only a selector can take this Endpoint: it is a candidate, and neither excluded nor a connector nor a
member of the server. -/
def Open (server : Option (String × McpServerSpec)) (e : EndpointFacts) : Prop :=
  candidate (projectOfId c.1) c.2 e = true ∧ excluded (projectOfId c.1) c.2 e = false ∧
    connector (projectOfId c.1) c.2 e = none ∧ member server e = false

/-- The Endpoints before one by slug that are taken by the facts of both. -/
def before (e : ResourceId × EndpointSpec) : List (ResourceId × EndpointSpec) :=
  (endpoints d repo).filter fun o => joins c (server d repo c.2) (facts d repo o.1.name o) ∧
    joins c (server d repo c.2) (Validator.facts d repo o) ∧ o.2.slug < e.2.slug

/-- The selectors pick an Endpoint by both facts or by none, or it comes after as many as are read. -/
def Alike : Prop :=
  ∀ e ∈ endpoints d repo, Open c (server d repo c.2) (Validator.facts d repo e) →
    (chosen c.2 (server d repo c.2) (facts d repo e.1.name e) = true ↔
      chosen c.2 (server d repo c.2) (Validator.facts d repo e) = true) ∨
    MAX_RESOLVED ≤ (before d repo c e).length

end Property

section Resolve

variable {d : ReachDecoders} {repo : Repository} {c : ResourceId × AssistantDeploymentSpec}
  {srv : Option (String × McpServerSpec)} {catalog : List EndpointFacts} {e f : EndpointFacts} {x : String}

theorem isSome_joined : (joined (projectOfId c.1) c.2 srv e).isSome = true ↔
    excluded (projectOfId c.1) c.2 e = false ∧ ((connector (projectOfId c.1) c.2 e).isSome = true ∨
      member srv e = true ∨ chosen c.2 srv e = true) := by
  unfold joined
  cases hexcluded : excluded (projectOfId c.1) c.2 e with
  | true => simp
  | false =>
    cases hconnector : connector (projectOfId c.1) c.2 e with
    | some _ => simp
    | none =>
      cases hmember : member srv e <;> cases hchosen : chosen c.2 srv e <;> simp

theorem slug_of_joined {r : ResolvedEndpoint} (h : joined (projectOfId c.1) c.2 srv e = some r) :
    r.slug = e.slug := by
  unfold joined at h
  split at h
  · cases h
  · split at h
    · exact congrArg ResolvedEndpoint.slug (Option.some.inj h).symm
    · split at h
      · exact congrArg ResolvedEndpoint.slug (Option.some.inj h).symm
      · cases h

/-- The slugs of all Endpoints the resolver takes, in their order. -/
def taken (c : ResourceId × AssistantDeploymentSpec) (srv : Option (String × McpServerSpec))
    (catalog : List EndpointFacts) : List String :=
  (Ordered.keyed ResolvedEndpoint.slug ((catalog.filter (candidate (projectOfId c.1) c.2)).filterMap
    (joined (projectOfId c.1) c.2 srv))).map ResolvedEndpoint.slug

theorem map_slug_resolve : (resolveConnectors (projectOfId c.1) c.2 srv catalog).endpoints.map
    ResolvedEndpoint.slug = (taken c srv catalog).take MAX_RESOLVED := by
  unfold resolveConnectors taken
  exact List.map_take

theorem pairwise_taken : (taken c srv catalog).Pairwise (· < ·) := Ordered.pairwise_map_keyed

theorem mem_taken : x ∈ taken c srv catalog ↔ ∃ e ∈ catalog, e.slug = x ∧ joins c srv e = true := by
  unfold taken joins
  rw [Ordered.mem_map_keyed]
  simp only [List.mem_map, List.mem_filterMap, List.mem_filter, Bool.and_eq_true]
  constructor
  · rintro ⟨r, ⟨e, ⟨he, hcandidate⟩, hjoined⟩, rfl⟩
    exact ⟨e, he, (slug_of_joined hjoined).symm, hcandidate, Option.isSome_of_eq_some hjoined⟩
  · rintro ⟨e, he, rfl, hcandidate, hjoined⟩
    obtain ⟨r, hr⟩ := Option.isSome_iff_exists.1 hjoined
    exact ⟨r, ⟨e, ⟨he, hcandidate⟩, hr⟩, slug_of_joined hr⟩

/-- Two facts of one Endpoint that differ in what selectors read alone. -/
theorem joins_congr_iff (hproject : e.project = f.project) (hname : e.name = f.name)
    (haudience : e.audience = f.audience) : (joins c srv e = true ↔ joins c srv f = true) ↔
      (Open c srv f → (chosen c.2 srv e = true ↔ chosen c.2 srv f = true)) := by
  have hcandidate : candidate (projectOfId c.1) c.2 e = candidate (projectOfId c.1) c.2 f := by
    unfold candidate
    rw [hproject, haudience]
  have hexcluded : excluded (projectOfId c.1) c.2 e = excluded (projectOfId c.1) c.2 f := by
    unfold excluded
    rw [hproject, hname]
  have hconnector : connector (projectOfId c.1) c.2 e = connector (projectOfId c.1) c.2 f := by
    unfold connector
    rw [hproject, hname]
  have hmember : member srv e = member srv f := by
    unfold member
    rw [hproject, hname]
  unfold joins Open
  rw [Bool.and_eq_true, Bool.and_eq_true, isSome_joined, isSome_joined, hcandidate, hexcluded, hconnector,
    hmember]
  cases candidate (projectOfId c.1) c.2 f with
  | false => simp
  | true =>
    cases excluded (projectOfId c.1) c.2 f with
    | true => simp
    | false =>
      cases connector (projectOfId c.1) c.2 f with
      | some _ => simp
      | none => cases member srv f <;> simp

end Resolve

section Reach

variable {d : ReachDecoders} {repo : Repository} {c : ResourceId × AssistantDeploymentSpec}
  {e o : ResourceId × EndpointSpec}

/-- Both read the server a valid deployment names. -/
theorem server_eq (hvalid : d.valid c.2 = true) :
    Validator.server d repo (projectOfId c.1) c.2 = server d repo c.2 := by
  unfold Validator.server server
  cases hreads : c.2.mcpServer with
  | none => rfl
  | some reads =>
    obtain ⟨project, name, hsplit, hproject⟩ := d.valid_server c.2 reads hvalid hreads
    have htarget : connectorTarget reads = (some project, name) := by
      unfold connectorTarget
      rw [hsplit]
    have hall : reads = "org/all" ↔ (project, name) = ("org", "all") := by
      constructor
      · rintro rfl
        exact Option.some.inj (hsplit.symm.trans (by decide +kernel))
      · intro heq
        obtain ⟨rfl, rfl⟩ := Prod.mk.inj heq
        exact String.toList_inj.1 ((Text.splitOnce_eq_some hsplit).trans (by decide +kernel))
    have hsame : ∀ m : ResourceId × McpServerSpec, projectOfId m.1 = project ↔ m.1.namespace = some project := by
      intro m
      unfold projectOfId
      cases m.1.namespace with
      | none => simp [hproject.symm]
      | some _ => simp
    simp only [Option.bind_some, hsplit, htarget, Option.getD_some, hall, declaredServer, hsame]
    cases ((Auth.readAs repo "McpServer" d.server).filter fun m =>
        m.1.namespace = some project ∧ m.1.name = name).getLast? with
    | some spec => rfl
    | none => by_cases hnone : (project, name) = ("org", "all") <;> simp_all

theorem eq_of_slug (hslugs : ((endpoints d repo).map fun e => e.2.slug).Nodup) (he : e ∈ endpoints d repo)
    (ho : o ∈ endpoints d repo) (h : e.2.slug = o.2.slug) : e = o :=
  List.inj_on_of_nodup_map hslugs he ho h

theorem lookup_names (hslugs : ((endpoints d repo).map fun e => e.2.slug).Nodup) (he : e ∈ endpoints d repo) :
    (names d repo).lookup e.2.slug = some e.1.name := by
  unfold names
  rw [Assoc.lookup_foldl_put]
  have hmem : e ∈ (endpoints d repo).filter fun o => o.2.slug = e.2.slug := List.mem_filter.2 ⟨he, by simp⟩
  have hne := List.ne_nil_of_mem hmem
  obtain ⟨hlast, hslug⟩ := List.mem_filter.1 (List.getLast_mem hne)
  rw [List.getLast?_eq_some_getLast hne, eq_of_slug hslugs hlast he (of_decide_eq_true hslug)]
  rfl

/-- With each slug of one Endpoint, the gateway knows every Endpoint by its name. -/
theorem catalog_eq (hslugs : ((endpoints d repo).map fun e => e.2.slug).Nodup) :
    ((endpoints d repo).filterMap fun e =>
      ((names d repo).lookup e.2.slug).map fun name => facts d repo name e) =
      (endpoints d repo).map fun e => facts d repo e.1.name e := by
  rw [← List.filterMap_eq_map]
  refine List.filterMap_congr fun e he => ?_
  rw [lookup_names hslugs he]
  rfl

/-- An Endpoint's slug is taken exactly where the resolver takes it by its facts. -/
theorem slug_mem_taken {factsOf : ResourceId × EndpointSpec → EndpointFacts}
    {srv : Option (String × McpServerSpec)}
    (hslugs : ((endpoints d repo).map fun e => e.2.slug).Nodup) (hslug : ∀ e, (factsOf e).slug = e.2.slug)
    (he : e ∈ endpoints d repo) :
    e.2.slug ∈ taken c srv ((endpoints d repo).map factsOf) ↔ joins c srv (factsOf e) = true := by
  rw [mem_taken]
  constructor
  · rintro ⟨f, hf, heq, hjoins⟩
    obtain ⟨o, ho, rfl⟩ := List.mem_map.1 hf
    rwa [eq_of_slug hslugs he ho (by rw [← heq, hslug])]
  · intro hjoins
    exact ⟨_, List.mem_map_of_mem he, hslug e, hjoins⟩

theorem exists_of_mem_taken {factsOf : ResourceId × EndpointSpec → EndpointFacts}
    {srv : Option (String × McpServerSpec)} {x : String} (hslug : ∀ e, (factsOf e).slug = e.2.slug)
    (hx : x ∈ taken c srv ((endpoints d repo).map factsOf)) : ∃ e ∈ endpoints d repo, e.2.slug = x := by
  obtain ⟨f, hf, rfl, -⟩ := mem_taken.1 hx
  obtain ⟨e, he, rfl⟩ := List.mem_map.1 hf
  exact ⟨e, he, (hslug e).symm⟩

/-- What one reader takes and the other does not is told apart by what selectors pick. -/
theorem joins_iff : (joins c (server d repo c.2) (facts d repo e.1.name e) = true ↔
      joins c (server d repo c.2) (Validator.facts d repo e) = true) ↔
    (Open c (server d repo c.2) (Validator.facts d repo e) →
      (chosen c.2 (server d repo c.2) (facts d repo e.1.name e) = true ↔
        chosen c.2 (server d repo c.2) (Validator.facts d repo e) = true)) :=
  joins_congr_iff rfl rfl rfl

theorem members_eq (hslugs : ((endpoints d repo).map fun e => e.2.slug).Nodup) :
    (serverOf d repo c).members = (taken c (server d repo c.2)
      ((endpoints d repo).map fun e => facts d repo e.1.name e)).take MAX_RESOLVED := by
  unfold serverOf
  simp only [catalog_eq hslugs]
  exact map_slug_resolve

theorem resolution_eq (hvalid : d.valid c.2 = true) :
    (Validator.resolution d repo c).endpoints.map ResolvedEndpoint.slug = (taken c (server d repo c.2)
      ((endpoints d repo).map (Validator.facts d repo))).take MAX_RESOLVED := by
  unfold Validator.resolution
  rw [server_eq hvalid]
  exact map_slug_resolve

/-- What both take before an Endpoint is counted by Endpoints. -/
theorem length_common (hslugs : ((endpoints d repo).map fun e => e.2.slug).Nodup) :
    (Ordered.common (taken c (server d repo c.2) ((endpoints d repo).map fun e => facts d repo e.1.name e))
      (taken c (server d repo c.2) ((endpoints d repo).map (Validator.facts d repo))) e.2.slug).length =
      (before d repo c e).length := by
  have hnodup : ((before d repo c e).map fun o => o.2.slug).Nodup :=
    hslugs.sublist (List.filter_sublist.map _)
  have hmap : ((before d repo c e).map fun o => o.2.slug).length = (before d repo c e).length := List.length_map _
  rw [← hmap]
  refine List.Perm.length_eq ((List.perm_ext_iff_of_nodup ?_ hnodup).2 fun x => ?_)
  · exact (Ordered.common_sorted pairwise_taken).imp ne_of_lt
  · rw [Ordered.mem_common, List.mem_map]
    constructor
    · rintro ⟨hgateway, hvalidator, hlt⟩
      obtain ⟨o, ho, rfl⟩ := exists_of_mem_taken (fun _ => rfl) hgateway
      rw [slug_mem_taken hslugs (fun _ => rfl) ho] at hgateway hvalidator
      exact ⟨o, List.mem_filter.2 ⟨ho, decide_eq_true ⟨hgateway, hvalidator, hlt⟩⟩, rfl⟩
    · rintro ⟨o, ho, rfl⟩
      obtain ⟨ho, hbefore⟩ := List.mem_filter.1 ho
      obtain ⟨hgateway, hvalidator, hlt⟩ := of_decide_eq_true hbefore
      exact ⟨(slug_mem_taken hslugs (fun _ => rfl) ho).2 hgateway,
        (slug_mem_taken hslugs (fun _ => rfl) ho).2 hvalidator, hlt⟩

theorem same_iff (hslugs : ((endpoints d repo).map fun e => e.2.slug).Nodup) (hvalid : d.valid c.2 = true) :
    (∀ e ∈ endpoints d repo, e.2.slug ∈ (serverOf d repo c).members ↔
      e.2.slug ∈ (Validator.resolution d repo c).endpoints.map ResolvedEndpoint.slug) ↔ Alike d repo c := by
  rw [members_eq hslugs, resolution_eq hvalid]
  have hall : (∀ x, x ∈ (taken c (server d repo c.2)
      ((endpoints d repo).map fun e => facts d repo e.1.name e)).take MAX_RESOLVED ↔
      x ∈ (taken c (server d repo c.2)
        ((endpoints d repo).map (Validator.facts d repo))).take MAX_RESOLVED) ↔ Alike d repo c := by
    rw [Ordered.mem_take_congr_iff pairwise_taken pairwise_taken]
    constructor
    · intro h e he hopen
      have hx := h e.2.slug
      rw [slug_mem_taken hslugs (fun _ => rfl) he, slug_mem_taken hslugs (fun _ => rfl) he,
        length_common hslugs] at hx
      exact hx.imp_left fun hjoins => joins_iff.1 hjoins hopen
    · intro h x
      by_cases hx : ∃ e ∈ endpoints d repo, e.2.slug = x
      · obtain ⟨e, he, rfl⟩ := hx
        rw [slug_mem_taken hslugs (fun _ => rfl) he, slug_mem_taken hslugs (fun _ => rfl) he,
          length_common hslugs]
        by_cases hfew : MAX_RESOLVED ≤ (before d repo c e).length
        · exact Or.inr hfew
        · exact Or.inl (joins_iff.2 fun hopen => (h e he hopen).resolve_right hfew)
      · exact Or.inl ⟨fun hmem => (hx (exists_of_mem_taken (fun _ => rfl) hmem)).elim,
          fun hmem => (hx (exists_of_mem_taken (fun _ => rfl) hmem)).elim⟩
  rw [← hall]
  constructor
  · intro h x
    constructor
    · intro hx
      obtain ⟨e, he, rfl⟩ := exists_of_mem_taken (fun _ => rfl) (List.mem_of_mem_take hx)
      exact (h e he).1 hx
    · intro hx
      obtain ⟨e, he, rfl⟩ := exists_of_mem_taken (fun _ => rfl) (List.mem_of_mem_take hx)
      exact (h e he).2 hx
  · exact fun h e _ => h e.2.slug

/-- A member is a candidate. -/
theorem candidate_of_mem (hslugs : ((endpoints d repo).map fun e => e.2.slug).Nodup)
    (he : e ∈ endpoints d repo) (h : e.2.slug ∈ (serverOf d repo c).members) :
    candidate (projectOfId c.1) c.2 (facts d repo e.1.name e) = true := by
  rw [members_eq hslugs] at h
  have hjoins := (slug_mem_taken hslugs (fun _ => rfl) he).1 (List.mem_of_mem_take h)
  exact (Bool.and_eq_true _ _ ▸ hjoins).1

/-- With each slug of one Endpoint, a deployment has one reach exactly where its selectors pick every
Endpoint by both facts or by none. -/
theorem oneReach_iff (hslugs : ((endpoints d repo).map fun e => e.2.slug).Nodup)
    (hc : c ∈ served d repo) : OneReach d repo c ↔ Alike d repo c := by
  have hvalid : d.valid c.2 = true := by
    have := (List.mem_filter.1 hc).2
    exact (Bool.and_eq_true _ _ ▸ this).1
  rw [← same_iff hslugs hvalid]
  refine ⟨OneReach.same, fun hsame => ⟨hsame, fun e he hmem hanonymous => ?_, fun e he hmem => ?_⟩⟩
  · have hcandidate := candidate_of_mem hslugs he hmem
    unfold candidate at hcandidate
    split_ifs at hcandidate <;> simp_all [facts, factsOf]
  · have hcandidate := candidate_of_mem hslugs he hmem
    unfold candidate at hcandidate
    split_ifs at hcandidate with hproject
    · exact Or.inl hproject
    · obtain ⟨hscope, hpublic⟩ := Bool.and_eq_true _ _ ▸ hcandidate
      exact Or.inr ⟨of_decide_eq_true hscope, by simpa [facts, factsOf] using hpublic⟩

end Reach

section Guide

/-- A deployment for signed-in people that selects. -/
def selecting (select : Select) : AssistantDeploymentSpec where
  publicId := "guide"
  channel := .internal
  enabled := true
  connectors := []
  mcpServer := none
  select := some select
  exclude := []
  scope := []

/-- Every Endpoint is of the space `air`, every deployment has one selector and no server. -/
def airDecoders (select : Select) : ReachDecoders where
  endpoint _ := some ⟨"air", "air", .organization, []⟩
  deployment _ := some (selecting select)
  server _ := none
  space _ := none
  model _ := none
  row _ := none
  valid spec := spec.mcpServer.isNone
  valid_server spec reads hvalid hreads := by simp [hreads] at hvalid

def guide : Repository :=
  (Repository.empty.add "projects/city/air.yaml" (Mqtt.bareManifest "Endpoint" "city" "air")).add
    "projects/city/guide.yaml" (Mqtt.bareManifest "AssistantDeployment" "city" "guide")

def guideId : ResourceId := ⟨"joinedcontext.com", "AssistantDeployment", some "city", "guide"⟩

theorem oneReach_selectAll : OneReach (airDecoders {}) guide (guideId, selecting {}) ↔
    Alike (airDecoders {}) guide (guideId, selecting {}) :=
  oneReach_iff (by decide +kernel) (by decide +kernel)

/-- A selector that names the space picks its Endpoint for the validator alone. -/
theorem not_oneReach :
    (guideId, selecting { spaces := some ["city/air"] }) ∈ served (airDecoders { spaces := some ["city/air"] }) guide ∧
      ¬ OneReach (airDecoders { spaces := some ["city/air"] }) guide
        (guideId, selecting { spaces := some ["city/air"] }) := by
  refine ⟨by decide +kernel, fun h => ?_⟩
  have halike := (same_iff (by decide +kernel) (by decide +kernel)).1 h.same
  rcases halike (⟨"joinedcontext.com", "Endpoint", some "city", "air"⟩, ⟨"air", "air", .organization, []⟩)
    (by decide +kernel) ⟨by decide +kernel, by decide +kernel, by decide +kernel, by decide +kernel⟩ with hpicks | hmany
  · exact absurd (hpicks.2 (by decide +kernel)) (by decide +kernel)
  · exact absurd hmany (by decide +kernel)

end Guide

end JoinedContext.Gateway.Reach

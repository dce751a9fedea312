import JoinedContext.Mqtt.Brokers
import JoinedContext.Odrl.Manifest

/-!
# The Policies of an Endpoint

An Endpoint is bound to every Policy of its space, or to those it names. The gateway binds them, and the
validator reports a Policy that grants a write and a Pipeline's output, where no Endpoint binds the grant.
A reference counts under a domain of its own: the gateway judges it by the domains of the project, the
validator by the one domain the load renders.
-/

namespace JoinedContext.Gateway.Bindings

open Jcctl Auth

section Kinds

structure EndpointSpec where
  contextSpace : String
  policyRef : Option Urn := none
  /-- `spec.policyRefs`, as it is written. -/
  listed : Option (List Urn) := none
deriving DecidableEq

/-- The Policies an Endpoint names. -/
def EndpointSpec.policyRefs (spec : EndpointSpec) : Option (List Urn) :=
  (spec.policyRef.map fun r => [r]) <|> spec.listed

structure ProjectSpec where
  organizationRef : String
  domain : Option String

inductive SourceDeleteMode where
  | never | snapshot | events | lease
deriving DecidableEq

structure PipelineOutput where
  targetEndpoint : Urn
  entityType : Option String
deriving DecidableEq

structure PipelineSource where
  endpointRef : Option Ref
  /-- The entity type of its query. -/
  entityType : Option String
deriving DecidableEq

/-- A Pipeline of either shape: one source and one target, or lists of them. -/
structure PipelineSpec where
  source : Option PipelineSource := none
  targetEndpoint : Option Urn := none
  /-- The entity type of the one output. -/
  outputType : Option String := none
  sourceList : List PipelineSource := []
  steps : ℕ := 0
  outputList : List PipelineOutput := []
  /-- The outputs of each route. -/
  routes : List (List PipelineOutput) := []
  expires : Bool := false
  sourceDeletes : Option SourceDeleteMode := none
deriving DecidableEq

namespace PipelineSpec

variable (spec : PipelineSpec)

def isSecondShape : Bool :=
  !spec.sourceList.isEmpty || spec.steps ≠ 0 || !spec.outputList.isEmpty || !spec.routes.isEmpty

def sources : List PipelineSource := if spec.isSecondShape then spec.sourceList else spec.source.toList

/-- The outputs of the default lane. -/
def laneOutputs : List PipelineOutput :=
  if spec.isSecondShape then spec.outputList
  else (spec.targetEndpoint.map fun target => ⟨target, spec.outputType⟩).toList

def outputs : List PipelineOutput := spec.laneOutputs ++ spec.routes.flatten

/-- Whether it deletes what its source no longer has. -/
def deletes : Bool := spec.sourceDeletes = some .snapshot || spec.sourceDeletes = some .events

end PipelineSpec

/-- The specs, as their types read them, and the SHA-256 of a text in hexadecimal. An Organization is read
as its domain. -/
structure BindingDecoders where
  endpoint : Value → Option EndpointSpec
  policy : Value → Option Odrl.PolicySpec
  pipeline : Value → Option PipelineSpec
  project : Value → Option ProjectSpec
  organization : Value → Option String
  sha256 : String → String

/-- Every rule of a Policy by its name, `{policy}#{n}` where it lists several. -/
def expand (name : String) (spec : Odrl.PolicySpec) : Except Odrl.Error (List (String × Odrl.PolicySpec)) :=
  spec.expand.map fun rules =>
    if spec.rules.isNone then rules.map (name, ·)
    else rules.zipIdx.map fun c => (name ++ "#" ++ toString (c.2 + 1), c.1)

/-- The Policy a rule belongs to. -/
def policyOf (rule : String) : String := (Text.splitOnce '#' rule).elim rule Prod.fst

/-- A Policy of an invalid shape has no rules. -/
def rulesOf (name : String) (spec : Odrl.PolicySpec) : List (String × Odrl.PolicySpec) :=
  match expand name spec with
  | .ok rules => rules
  | .error _ => []

/-- Whether a Policy is granted to a role of an Endpoint itself. -/
def isEndpointGrant (policy : Odrl.PolicySpec) (project endpoint : String) : Bool :=
  policy.assignee.kind = .role &&
    (Text.stripPrefix (endpointRole project endpoint none) policy.assignee.id).any fun rest =>
      rest = "" || (Text.stripPrefix "/" rest).any fun role => role ≠ "" && !role.toList.contains '/'

/-- A bare service account is one of the Policy's own project. -/
def ofOwnProject (project : String) (spec : Odrl.PolicySpec) : Odrl.PolicySpec :=
  if spec.assignee.kind = .serviceAccount && !spec.assignee.id.toList.contains '/' then
    { spec with assignee := ⟨.serviceAccount, project ++ "/" ++ spec.assignee.id⟩ }
  else spec

end Kinds

section Derivation

variable (d : BindingDecoders)

def accountName (pipeline : String) : String := bounded d.sha256 ("pl-" ++ pipeline)

def writeName (pipeline : String) (index : ℕ) : String :=
  bounded d.sha256 (accountName d pipeline ++ "-w-" ++ toString (index + 1))

def readName (pipeline : String) (index : ℕ) : String :=
  bounded d.sha256 (accountName d pipeline ++ if index = 0 then "-r" else "-r-" ++ toString (index + 1))

/-- The Policy that grants a Pipeline's account these operations on a space. -/
def derivedPolicy (pipeline orgDomain space : String) (operations : List OperationRef)
    (entityType : Option String) : Odrl.PolicySpec where
  contextSpaceRef := .typed "ContextSpace" space none
  effect := .permission
  assigner := "did:web:" ++ orgDomain
  assignee := ⟨.serviceAccount, accountName d pipeline⟩
  operations := operations
  actions := []
  information := (entityType.map fun entityType =>
    ⟨[{ entityType := entityType }], [], [], []⟩).toList
  q := none
  scopeQ := none
  geoQ := none
  temporalQ := none
  rules := none
  validity := none

def writeOperations (spec : PipelineSpec) : List OperationRef :=
  [.single .upsertBatch, .single .createBatch, .single .queryBatch] ++
    if spec.expires || spec.deletes then [.single .deleteBatch] else []

/-- The write Policy of an output, if its Endpoint's space is known. -/
def writePolicy (orgDomain pipeline : String) (spec : PipelineSpec) (spaceOf : String → Option String)
    (o : PipelineOutput × ℕ) : Option (String × Odrl.PolicySpec) :=
  (spaceOf o.1.targetEndpoint.localId).map fun space =>
    (writeName d pipeline o.2,
      derivedPolicy d pipeline orgDomain space (writeOperations spec) o.1.entityType)

def readPolicy (orgDomain pipeline : String) (spaceOf : String → Option String)
    (s : PipelineSource × ℕ) : Option (String × Odrl.PolicySpec) :=
  ((s.1.endpointRef.map Ref.nameOf).bind spaceOf).map fun space =>
    (readName d pipeline s.2,
      derivedPolicy d pipeline orgDomain space [.group .retrieveOps] s.1.entityType)

/-- The Policies of a Pipeline: one for each output and one for each source. -/
def derive (orgDomain pipeline : String) (spec : PipelineSpec) (spaceOf : String → Option String) :
    List (String × Odrl.PolicySpec) :=
  spec.outputs.zipIdx.filterMap (writePolicy d orgDomain pipeline spec spaceOf) ++
    spec.sources.zipIdx.filterMap (readPolicy d orgDomain pipeline spaceOf)

end Derivation

/-- The domain a load renders: that of the environment's overlay, else the installation Organization's. -/
def loadedDomain (overlay : Option String) (repo : Repository) : Option String :=
  overlay <|> (installationOrganization repo).bind fun c => (c.2.manifest.spec.get "domain").bind Value.asStr

namespace Validator

/-- What the write check finds, and why: a rule no Endpoint binds, or an output of a Pipeline whose target
does not grant its account the write. -/
inductive Finding where
  | rule (rule space why : String)
  | output (pipeline : String) (index : ℕ) (account why : String)

def Finding.message : Finding → String
  | .rule name space why => "Policy " ++ name ++ " grants a write on the space " ++ space ++
      ", but no Endpoint binds it (" ++ why ++ "): name it in an Endpoint's policyRef or add an " ++
      "Endpoint of the space without one (EP-14, ADR-N-057)"
  | .output pipeline index account why => "Pipeline " ++ pipeline ++ " output " ++ toString (index + 1) ++
      " writes as " ++ account ++ ", but its targetEndpoint grants that account no write (" ++ why ++
      "), so every write answers 404: aim it at an Endpoint of the space without policyRef " ++
      "(PL-20, ADR-N-057)"

structure UnmadeWrite where
  id : ResourceId
  field : Option String
  finding : Finding

/-- The path of an output of the routes. -/
def routeField : ℕ → List (List PipelineOutput) → ℕ → String
  | _, [], _ => "spec.outputs"
  | route, outputs :: routes, index =>
    if index < outputs.length then
      "spec.routes." ++ toString route ++ ".outputs." ++ toString index ++ ".targetEndpoint"
    else routeField (route + 1) routes (index - outputs.length)

def outputField (spec : PipelineSpec) (index : ℕ) : String :=
  if index < spec.laneOutputs.length then
    if spec.isSecondShape then "spec.outputs." ++ toString index ++ ".targetEndpoint"
    else "spec.targetEndpoint"
  else routeField 0 spec.routes (index - spec.laneOutputs.length)

/-- A subscription is the caller's own state, so what lets a reader subscribe grants no write. -/
def writesEntities (policy : Odrl.PolicySpec) : Bool :=
  policy.operations.any fun op =>
    match op with
    | .single .createSubscription | .single .updateSubscription | .single .deleteSubscription => false
    | op => Odrl.isWriteRef op

variable (d : BindingDecoders) (repo : Repository) (orgDomain : Option String)

/-- The Endpoints by project and name. -/
def endpoints : SortedMap (String ×ₗ String) EndpointSpec :=
  (Auth.readAs repo "Endpoint" d.endpoint).foldl
    (fun table c => table.insert (toLex (projectOfId c.1, c.1.name)) c.2) SortedMap.empty

def spaceOf (project endpoint : String) : Option String :=
  ((endpoints d repo).get? (toLex (project, endpoint))).map EndpointSpec.contextSpace

def isApp (project endpoint : String) : Bool :=
  (Text.stripPrefix "app-" endpoint).any fun app =>
    (repo.resources.get? ⟨"joinedcontext.com", "App", some project, app⟩).isSome

/-- Whether a reference is under the domain the load renders. -/
def ourDomain (reference : Urn) : Bool := orgDomain.all fun domain => reference.orgDomain = some domain

/-- Why none of the references of an Endpoint names a Policy. -/
def unnamed (project space name : String) (refs : List Urn) : Option String :=
  let segment := spaceSegment repo project space
  match refs.filter fun r => r.localId = name with
  | [] => some ("binds only its policyRefs " ++ Text.join ", " (refs.map Urn.toString))
  | first :: named =>
    if (first :: named).any fun r => ourDomain orgDomain r && r.space = some segment then none
    else some ("names it as " ++ first.toString ++ ", which binds nothing: write urn:ngsi-ld:Policy:" ++
      orgDomain.getD "\x7borgDomain\x7d" ++ ":" ++ segment ++ ":" ++ name)

/-- Why an Endpoint does not bind a Policy, none where it does. -/
def refusal (project endpoint : String) (spec : EndpointSpec) (name : String) (policy : Odrl.PolicySpec) :
    Option String :=
  if spec.contextSpace ≠ policy.contextSpaceRef.nameOf then some ("serves the space " ++ spec.contextSpace)
  else
    spec.policyRefs.bind (unnamed repo orgDomain project spec.contextSpace name) <|>
      if isApp repo project endpoint && !isEndpointGrant policy project endpoint then
        some ("is the App " ++ String.ofList (endpoint.toList.drop 4) ++ "'s own Endpoint")
      else none

/-- The Endpoints of a project, each with its answer to a rule. -/
def answers (project name : String) (policy : Odrl.PolicySpec) :
    List (String × EndpointSpec × Option String) :=
  ((endpoints d repo).entries.filter fun e => (ofLex e.1).1 = project).map fun e =>
    ((ofLex e.1).2, e.2, refusal repo orgDomain project (ofLex e.1).2 e.2 name policy)

def unboundRule (c : ResourceId × Odrl.PolicySpec) (rule : String × Odrl.PolicySpec) :
    Option UnmadeWrite :=
  let project := projectOfId c.1
  let space := rule.2.contextSpaceRef.nameOf
  let answers := answers d repo orgDomain project c.1.name rule.2
  if rule.2.effect.isProhibition || !writesEntities rule.2 then none
  else if answers.any fun a => a.2.2.isNone then none
  else
    let reasons := answers.filterMap fun a =>
      if a.2.1.contextSpace = space then a.2.2.map (a.1 ++ " " ++ ·) else none
    let why := if reasons = [] then "the space " ++ space ++ " has no Endpoint in project " ++ project
      else Text.join "; " reasons
    some ⟨c.1, none, .rule rule.1 space why⟩

def unboundWritePolicies : List UnmadeWrite :=
  (Auth.readAs repo "Policy" d.policy).flatMap fun c =>
    (rulesOf c.1.name c.2).filterMap (unboundRule d repo orgDomain c)

def noEndpoint (project target : String) (declared : String → Bool) : String :=
  "project " ++ project ++ " declares no Endpoint " ++ target ++
    match (Text.rsplitOnce ':' target).filter fun t => declared t.2 with
    | some t => "; write the Endpoint's name alone: targetEndpoint: urn:ngsi-ld:Endpoint:" ++ t.2
    | none => "; write targetEndpoint: urn:ngsi-ld:Endpoint:<name of an Endpoint of " ++ project ++ ">"

/-- Why a Pipeline's account cannot write through the target of an output, none where it can. -/
def unreachable (c : ResourceId × PipelineSpec) (o : PipelineOutput × ℕ) : Option String :=
  let project := projectOfId c.1
  let target := o.1.targetEndpoint.localId
  match (endpoints d repo).get? (toLex (project, target)) with
  | none => some (noEndpoint project target fun name => (spaceOf d repo project name).isSome)
  | some endpoint =>
    ((derive d (orgDomain.getD "") c.1.name c.2 (spaceOf d repo project)).find? fun p =>
      p.1 = writeName d c.1.name o.2).bind fun p =>
        (refusal repo orgDomain project target endpoint p.1 p.2).map (target ++ " " ++ ·)

def unreachablePipelineTargets : List UnmadeWrite :=
  (Auth.readAs repo "Pipeline" d.pipeline).flatMap fun c => c.2.outputs.zipIdx.filterMap fun o =>
    (unreachable d repo orgDomain c o).map fun why =>
      ⟨c.1, some (outputField c.2 o.2), .output c.1.name o.2 (accountName d c.1.name) why⟩

/-- The findings of the write check. -/
def unmadeWrites : List UnmadeWrite :=
  unboundWritePolicies d repo orgDomain ++ unreachablePipelineTargets d repo orgDomain

end Validator

section Gateway

variable (d : BindingDecoders) (repo : Repository) (orgDomain : Option String)

/-- The space each Endpoint of a project serves. -/
def spaces : SortedMap (String ×ₗ String) String :=
  (Auth.readAs repo "Endpoint" d.endpoint).foldl
    (fun table c => table.insert (toLex (projectOfId c.1, c.1.name)) c.2.contextSpace) SortedMap.empty

/-- The Policies of each Pipeline, with its project. -/
def derived : List (String × List (String × Odrl.PolicySpec)) :=
  (Auth.readAs repo "Pipeline" d.pipeline).map fun c =>
    (projectOfId c.1, derive d (orgDomain.getD "") c.1.name c.2 fun endpoint =>
      (spaces d repo).get? (toLex (projectOfId c.1, endpoint)))

/-- Every grant, with its project: the rules of the Policies and what Pipelines derive. -/
def grants : List (String × String × Odrl.PolicySpec) :=
  ((Auth.readAs repo "Policy" d.policy).flatMap fun c =>
    (rulesOf c.1.name c.2).map fun rule =>
      (projectOfId c.1, rule.1, ofOwnProject (projectOfId c.1) rule.2)) ++
  (derived d repo orgDomain).flatMap fun c => c.2.map fun p => (c.1, p.1, ofOwnProject c.1 p.2)

def policiesBySpace : SortedMap (String ×ₗ String) (List (String × String × Odrl.PolicySpec)) :=
  SortedMap.group (fun g => toLex (g.1, g.2.2.contextSpaceRef.nameOf)) (grants d repo orgDomain)

/-- The domain of each Organization. -/
def organizations : List (String × String) :=
  (Auth.readAs repo "Organization" d.organization).foldl (fun table c => Assoc.put c.1.name c.2 table) []

/-- The domains a project publishes under: its own and its Organization's. -/
def domainsOf (spec : ProjectSpec) : List String :=
  spec.domain.toList ++ ((organizations d repo).lookup spec.organizationRef).toList

def policyRefDomains : List (String × List String) :=
  ((Auth.readAs repo "Project" d.project).filter fun c => domainsOf d repo c.2 ≠ []).foldl
    (fun table c => Assoc.put c.1.name (domainsOf d repo c.2) table) []

/-- Whether a reference is under a domain of the project, or of the load where the project has none. -/
def itsDomain (project : String) (reference : Urn) : Bool :=
  match (policyRefDomains d repo).lookup project with
  | some domains => reference.orgDomain.any fun domain => domains.contains domain
  | none => orgDomain.all fun domain => reference.orgDomain = some domain

/-- The grants a list of references names. -/
def boundPolicies (refs : List Urn) (project segment : String) (named : List (String × Odrl.PolicySpec)) :
    List (String × Odrl.PolicySpec) :=
  named.filter fun p => refs.any fun r =>
    itsDomain d repo orgDomain project r && r.space = some segment && policyOf p.1 = r.localId

/-- The client of the App an Endpoint was generated for. -/
def appOf (project endpoint : String) : Option String :=
  (Text.stripPrefix "app-" endpoint).bind fun app =>
    if repo.iter.any fun c => c.1.kind = "App" && c.1.name = app && c.1.namespace = some project then
      some endpoint
    else none

/-- An Endpoint of the table, with the Policies it evaluates. -/
structure Endpoint where
  project : String
  name : String
  policies : List (String × Odrl.PolicySpec)

/-- Binds an Endpoint: an App's own evaluates its grants and the prohibitions alone. -/
def endpointOf (c : ResourceId × EndpointSpec) : Endpoint :=
  let project := projectOfId c.1
  let segment := spaceSegment repo project c.2.contextSpace
  let named := (((policiesBySpace d repo orgDomain).get? (toLex (project, c.2.contextSpace))).getD []).map
    Prod.snd
  let bound := c.2.policyRefs.elim named fun refs => boundPolicies d repo orgDomain refs project segment named
  ⟨project, c.1.name,
    if (appOf repo project c.1.name).isSome then
      bound.filter fun p => p.2.effect.isProhibition || isEndpointGrant p.2 project c.1.name
    else bound⟩

def endpointsFrom : List Endpoint :=
  (Auth.readAs repo "Endpoint" d.endpoint).map (endpointOf d repo orgDomain)

end Gateway

section Property

variable (d : BindingDecoders) (repo : Repository) (orgDomain : Option String)

def policies : List (ResourceId × Odrl.PolicySpec) := Auth.readAs repo "Policy" d.policy

def pipelines : List (ResourceId × PipelineSpec) := Auth.readAs repo "Pipeline" d.pipeline

/-- The check reports a rule of a Policy. -/
def ReportsRule (c : ResourceId × Odrl.PolicySpec) (rule : String × Odrl.PolicySpec) : Prop :=
  ∃ why, ⟨c.1, none, .rule rule.1 rule.2.contextSpaceRef.nameOf why⟩ ∈ Validator.unmadeWrites d repo orgDomain

/-- The check reports an output of a Pipeline. -/
def ReportsOutput (c : ResourceId × PipelineSpec) (o : PipelineOutput × ℕ) : Prop :=
  ∃ why, ⟨c.1, some (Validator.outputField c.2 o.2),
    .output c.1.name o.2 (accountName d c.1.name) why⟩ ∈ Validator.unmadeWrites d repo orgDomain

/-- A rule is reported where no Endpoint of its project is bound to it, and an output where the Endpoint its
target names is not declared or not bound to the output's Policy. -/
structure OneBinding : Prop where
  rules : ∀ c ∈ policies d repo, ∀ rule ∈ rulesOf c.1.name c.2, rule.2.effect.isProhibition = false →
    Validator.writesEntities rule.2 = true → (ReportsRule d repo orgDomain c rule ↔
      ¬ ∃ e ∈ endpointsFrom d repo orgDomain, e.project = projectOfId c.1 ∧
        (rule.1, ofOwnProject (projectOfId c.1) rule.2) ∈ e.policies)
  outputs : ∀ c ∈ pipelines d repo, ∀ o ∈ c.2.outputs.zipIdx, (ReportsOutput d repo orgDomain c o ↔
    ¬ ∃ e ∈ endpointsFrom d repo orgDomain, e.project = projectOfId c.1 ∧
      e.name = o.1.targetEndpoint.localId ∧ ∃ p, writePolicy d (orgDomain.getD "") c.1.name c.2
        (Validator.spaceOf d repo (projectOfId c.1)) o = some p ∧
          (p.1, ofOwnProject (projectOfId c.1) p.2) ∈ e.policies)

/-- An Endpoint serves a Policy's space, as an App's own only for its own grants, and names no Policies or
this one by a reference of a domain judged its own. -/
structure Binds (judge : Urn → Bool) (name : String) (policy : Odrl.PolicySpec) (project endpoint : String)
    (spec : EndpointSpec) : Prop where
  space : spec.contextSpace = policy.contextSpaceRef.nameOf
  app : Validator.isApp repo project endpoint = true → isEndpointGrant policy project endpoint = true
  named : ∀ refs, spec.policyRefs = some refs → ∃ r ∈ refs, r.localId = name ∧
    r.space = some (spaceSegment repo project spec.contextSpace) ∧ judge r = true

/-- What an Endpoint binds by the domain the load renders, an Endpoint binds by the domains of the project,
and conversely. Of Endpoints that share a project and a name the check sees the last, and of derived Policies
that share a name the first. -/
structure Alike : Prop where
  rules : ∀ c ∈ policies d repo, ∀ rule ∈ rulesOf c.1.name c.2, rule.2.effect.isProhibition = false →
    Validator.writesEntities rule.2 = true →
      ((∃ e ∈ (Validator.endpoints d repo).entries, (ofLex e.1).1 = projectOfId c.1 ∧
        Binds repo (Validator.ourDomain orgDomain) c.1.name rule.2 (projectOfId c.1) (ofLex e.1).2 e.2) ↔
      ∃ e ∈ Auth.readAs repo "Endpoint" d.endpoint, projectOfId e.1 = projectOfId c.1 ∧
        Binds repo (itsDomain d repo orgDomain (projectOfId c.1)) (policyOf rule.1) rule.2 (projectOfId c.1)
          e.1.name e.2)
  outputs : ∀ c ∈ pipelines d repo, ∀ o ∈ c.2.outputs.zipIdx, ∀ endpoint p w,
    (Validator.endpoints d repo).get? (toLex (projectOfId c.1, o.1.targetEndpoint.localId)) = some endpoint →
      ((derive d (orgDomain.getD "") c.1.name c.2 (Validator.spaceOf d repo (projectOfId c.1))).find? fun p =>
        p.1 = writeName d c.1.name o.2) = some p →
      writePolicy d (orgDomain.getD "") c.1.name c.2 (Validator.spaceOf d repo (projectOfId c.1)) o = some w →
        (Binds repo (Validator.ourDomain orgDomain) p.1 p.2 (projectOfId c.1) o.1.targetEndpoint.localId
          endpoint ↔
        ∃ e ∈ Auth.readAs repo "Endpoint" d.endpoint, projectOfId e.1 = projectOfId c.1 ∧
          e.1.name = o.1.targetEndpoint.localId ∧
            Binds repo (itsDomain d repo orgDomain (projectOfId c.1)) (policyOf w.1) w.2 (projectOfId c.1)
              e.1.name e.2)

end Property

section Check

variable {d : BindingDecoders} {repo : Repository} {orgDomain : Option String}

theorem unnamed_eq_none_iff {project space name : String} {refs : List Urn} :
    Validator.unnamed repo orgDomain project space name refs = none ↔ ∃ r ∈ refs, r.localId = name ∧
      r.space = some (spaceSegment repo project space) ∧ Validator.ourDomain orgDomain r = true := by
  have hmem : ∀ r, r ∈ (refs.filter fun r => decide (r.localId = name)) ↔ r ∈ refs ∧ r.localId = name :=
    fun r => by simp
  unfold Validator.unnamed
  cases hrefs : refs.filter fun r => decide (r.localId = name) with
  | nil =>
    rw [hrefs] at hmem
    simp only [reduceCtorEq, false_iff]
    rintro ⟨r, hr, hname, -⟩
    exact absurd ((hmem r).2 ⟨hr, hname⟩) List.not_mem_nil
  | cons first named =>
    rw [hrefs] at hmem
    simp only [ite_eq_left_iff, reduceCtorEq, imp_false, not_not, List.any_eq_true, Bool.and_eq_true,
      decide_eq_true_eq]
    constructor
    · rintro ⟨r, hr, hdomain, hspace⟩
      exact ⟨r, ((hmem r).1 hr).1, ((hmem r).1 hr).2, hspace, hdomain⟩
    · rintro ⟨r, hr, hname, hspace, hdomain⟩
      exact ⟨r, (hmem r).2 ⟨hr, hname⟩, hdomain, hspace⟩

/-- An Endpoint does not refuse a Policy exactly where it binds it by the domain of the load. -/
theorem refusal_eq_none_iff {project endpoint name : String} {spec : EndpointSpec} {policy : Odrl.PolicySpec} :
    Validator.refusal repo orgDomain project endpoint spec name policy = none ↔
      Binds repo (Validator.ourDomain orgDomain) name policy project endpoint spec := by
  unfold Validator.refusal
  by_cases hspace : spec.contextSpace = policy.contextSpaceRef.nameOf
  · rw [if_neg (not_not.2 hspace), Option.orElse_eq_orElse, Option.orElse_eq_or, Option.or_eq_none_iff,
      Option.bind_eq_none_iff]
    simp only [unnamed_eq_none_iff, ite_eq_right_iff, reduceCtorEq, imp_false, Bool.and_eq_true,
      Bool.not_eq_true', not_and, Bool.not_eq_false]
    exact ⟨fun h => ⟨hspace, h.2, h.1⟩, fun h => ⟨h.named, h.app⟩⟩
  · rw [if_pos hspace]
    simp only [reduceCtorEq, false_iff]
    exact fun h => hspace h.space

theorem unboundRule_eq_some {c : ResourceId × Odrl.PolicySpec} {rule : String × Odrl.PolicySpec}
    {w : Validator.UnmadeWrite} (h : Validator.unboundRule d repo orgDomain c rule = some w) :
    ∃ why, w = ⟨c.1, none, .rule rule.1 rule.2.contextSpaceRef.nameOf why⟩ := by
  unfold Validator.unboundRule at h
  dsimp only at h
  split_ifs at h <;> exact ⟨_, (Option.some.inj h).symm⟩

theorem isSome_unboundRule {c : ResourceId × Odrl.PolicySpec} {rule : String × Odrl.PolicySpec}
    (heffect : rule.2.effect.isProhibition = false) (hwrites : Validator.writesEntities rule.2 = true) :
    (Validator.unboundRule d repo orgDomain c rule).isSome = true ↔
      ¬ ∃ e ∈ (Validator.endpoints d repo).entries, (ofLex e.1).1 = projectOfId c.1 ∧
        Binds repo (Validator.ourDomain orgDomain) c.1.name rule.2 (projectOfId c.1) (ofLex e.1).2 e.2 := by
  have hbound : ((Validator.answers d repo orgDomain (projectOfId c.1) c.1.name rule.2).any
      fun a => a.2.2.isNone) = true ↔ ∃ e ∈ (Validator.endpoints d repo).entries,
        (ofLex e.1).1 = projectOfId c.1 ∧
          Binds repo (Validator.ourDomain orgDomain) c.1.name rule.2 (projectOfId c.1) (ofLex e.1).2 e.2 := by
    unfold Validator.answers
    simp only [List.any_map, List.any_eq_true, List.mem_filter, decide_eq_true_eq, Function.comp_apply,
      Option.isNone_iff_eq_none, refusal_eq_none_iff, and_assoc]
  rw [← hbound]
  unfold Validator.unboundRule
  simp only [heffect, hwrites, Bool.not_true, Bool.or_false, Bool.false_eq_true, if_false]
  split_ifs with hany <;> simp [hany]

end Check

section Names

variable {d : BindingDecoders} {repo : Repository} {orgDomain : Option String}

theorem toString_injective {m n : ℕ} (h : toString m = toString n) : m = n := by
  have hdigits : Nat.toDigits 10 m = Nat.toDigits 10 n := by
    simpa [Nat.toString_eq_ofList_toDigits] using congrArg String.toList h
  calc
    m = Nat.ofDigitChars 10 (Nat.toDigits 10 m) 0 := Nat.ofDigitChars_ten_toDigits.symm
    _ = Nat.ofDigitChars 10 (Nat.toDigits 10 n) 0 := by rw [hdigits]
    _ = n := Nat.ofDigitChars_ten_toDigits

/-- A rule is the Policy itself, or one it lists, by its position. -/
theorem rulesOf_cases {name : String} {spec : Odrl.PolicySpec} {rule : String × Odrl.PolicySpec}
    (h : rule ∈ rulesOf name spec) : spec.rules = none ∧ rule = (name, spec) ∨
      spec.rules ≠ none ∧ ∃ specs i, spec.expand = .ok specs ∧ specs[i]? = some rule.2 ∧
        rule.1 = name ++ "#" ++ toString (i + 1) := by
  unfold rulesOf expand at h
  cases hspec : spec.expand with
  | error _ =>
    rw [hspec] at h
    cases h
  | ok specs =>
    rw [hspec] at h
    simp only [Except.map] at h
    split_ifs at h with hnone
    · rw [Option.isNone_iff_eq_none] at hnone
      unfold Odrl.PolicySpec.expand at hspec
      rw [andThen_eq_ok, hnone] at hspec
      obtain rfl := Except.ok.inj hspec.2
      exact Or.inl ⟨hnone, List.mem_singleton.1 h⟩
    · obtain ⟨c, hc, rfl⟩ := List.mem_map.1 h
      rw [Option.isNone_iff_eq_none] at hnone
      exact Or.inr ⟨hnone, specs, c.2, rfl, List.mem_zipIdx_iff_getElem?.1 hc, rfl⟩

/-- The rules of a Policy have names of their own. -/
theorem eq_of_mem_rulesOf {name : String} {spec : Odrl.PolicySpec} {rule rule' : String × Odrl.PolicySpec}
    (hrule : rule ∈ rulesOf name spec) (hrule' : rule' ∈ rulesOf name spec) (h : rule.1 = rule'.1) :
    rule = rule' := by
  rcases rulesOf_cases hrule with ⟨hnone, hr⟩ | ⟨hsome, specs, i, hspecs, hget, hname⟩
  · rcases rulesOf_cases hrule' with ⟨-, hr'⟩ | ⟨hsome, -⟩
    · rw [hr, hr']
    · exact absurd hnone hsome
  · rcases rulesOf_cases hrule' with ⟨hnone, -⟩ | ⟨-, specs', j, hspecs', hget', hname'⟩
    · exact absurd hnone hsome
    · obtain rfl := Except.ok.inj (hspecs.symm.trans hspecs')
      have hsuffix : toString (i + 1) = toString (j + 1) := by
        rw [hname, hname'] at h
        simpa using h
      obtain rfl := Nat.succ.inj (toString_injective hsuffix)
      exact Prod.ext h (Option.some.inj (hget.symm.trans hget'))

end Names

section Reports

variable {d : BindingDecoders} {repo : Repository} {orgDomain : Option String}

/-- The check reports a rule exactly where no Endpoint binds it by the domain of the load. -/
theorem reportsRule_iff {c : ResourceId × Odrl.PolicySpec} (hc : c ∈ policies d repo)
    {rule : String × Odrl.PolicySpec} (hrule : rule ∈ rulesOf c.1.name c.2)
    (heffect : rule.2.effect.isProhibition = false) (hwrites : Validator.writesEntities rule.2 = true) :
    ReportsRule d repo orgDomain c rule ↔
      ¬ ∃ e ∈ (Validator.endpoints d repo).entries, (ofLex e.1).1 = projectOfId c.1 ∧
        Binds repo (Validator.ourDomain orgDomain) c.1.name rule.2 (projectOfId c.1) (ofLex e.1).2 e.2 := by
  rw [← isSome_unboundRule heffect hwrites, Option.isSome_iff_exists]
  constructor
  · rintro ⟨why, hw⟩
    rcases List.mem_append.1 hw with hw | hw
    · obtain ⟨c', hc', hw⟩ := List.mem_flatMap.1 hw
      obtain ⟨rule', hrule', hw⟩ := List.mem_filterMap.1 hw
      obtain ⟨why', heq⟩ := unboundRule_eq_some hw
      injection heq with hid _ hfinding
      injection hfinding with hname _ _
      obtain rfl := eq_of_mem_readAs hc hc' hid
      obtain rfl := eq_of_mem_rulesOf hrule hrule' hname
      exact ⟨_, hw⟩
    · obtain ⟨c', -, hw⟩ := List.mem_flatMap.1 hw
      obtain ⟨o, -, hw⟩ := List.mem_filterMap.1 hw
      obtain ⟨_, -, heq⟩ := Option.map_eq_some_iff.1 hw
      injection heq with _ _ hfinding
      cases hfinding
  · rintro ⟨w, hw⟩
    obtain ⟨why, rfl⟩ := unboundRule_eq_some hw
    exact ⟨why, List.mem_append_left _ (List.mem_flatMap.2 ⟨c, hc, List.mem_filterMap.2 ⟨rule, hrule, hw⟩⟩)⟩

theorem reportsOutput_iff {c : ResourceId × PipelineSpec} (hc : c ∈ pipelines d repo)
    {o : PipelineOutput × ℕ} (ho : o ∈ c.2.outputs.zipIdx) :
    ReportsOutput d repo orgDomain c o ↔ (Validator.unreachable d repo orgDomain c o).isSome = true := by
  rw [Option.isSome_iff_exists]
  constructor
  · rintro ⟨why, hw⟩
    rcases List.mem_append.1 hw with hw | hw
    · obtain ⟨c', -, hw⟩ := List.mem_flatMap.1 hw
      obtain ⟨rule, -, hw⟩ := List.mem_filterMap.1 hw
      obtain ⟨_, heq⟩ := unboundRule_eq_some hw
      injection heq with _ _ hfinding
      cases hfinding
    · obtain ⟨c', hc', hw⟩ := List.mem_flatMap.1 hw
      obtain ⟨o', ho', hw⟩ := List.mem_filterMap.1 hw
      obtain ⟨why', hwhy, heq⟩ := Option.map_eq_some_iff.1 hw
      injection heq with hid _ hfinding
      injection hfinding with _ hindex _ _
      obtain rfl := eq_of_mem_readAs hc' hc hid
      have hget := List.mem_zipIdx_iff_getElem?.1 ho'
      rw [hindex, List.mem_zipIdx_iff_getElem?.1 ho] at hget
      obtain rfl : o = o' := Prod.ext (Option.some.inj hget) hindex.symm
      exact ⟨why', hwhy⟩
  · rintro ⟨why, hwhy⟩
    exact ⟨why, List.mem_append_right _ (List.mem_flatMap.2 ⟨c, hc, List.mem_filterMap.2
      ⟨o, ho, Option.map_eq_some_iff.2 ⟨why, hwhy, rfl⟩⟩⟩)⟩

/-- The target of an output takes its writes exactly where it is declared and binds the first derived Policy
of the output's name. -/
theorem unreachable_eq_none_iff {c : ResourceId × PipelineSpec} {o : PipelineOutput × ℕ} :
    Validator.unreachable d repo orgDomain c o = none ↔ ∃ endpoint,
      (Validator.endpoints d repo).get? (toLex (projectOfId c.1, o.1.targetEndpoint.localId)) = some endpoint ∧
        ∀ p, ((derive d (orgDomain.getD "") c.1.name c.2
          (Validator.spaceOf d repo (projectOfId c.1))).find? fun p =>
            p.1 = writeName d c.1.name o.2) = some p →
          Binds repo (Validator.ourDomain orgDomain) p.1 p.2 (projectOfId c.1) o.1.targetEndpoint.localId
            endpoint := by
  unfold Validator.unreachable
  cases hget : (Validator.endpoints d repo).get? (toLex (projectOfId c.1, o.1.targetEndpoint.localId)) with
  | none => simp [hget]
  | some endpoint => simp [hget, Option.bind_eq_none_iff, refusal_eq_none_iff]

end Reports

section Bound

variable {d : BindingDecoders} {repo : Repository} {orgDomain : Option String}

theorem get?_spaces (k : String ×ₗ String) :
    (spaces d repo).get? k = ((Validator.endpoints d repo).get? k).map EndpointSpec.contextSpace :=
  SortedMap.get?_foldl_insert_map (Auth.readAs repo "Endpoint" d.endpoint) (fun _ => rfl) k

section OfOwnProject

variable (project : String) {endpoint name : String} {policy : Odrl.PolicySpec} {spec : EndpointSpec}
  {judge : Urn → Bool}

theorem contextSpaceRef_ofOwnProject :
    (ofOwnProject project policy).contextSpaceRef = policy.contextSpaceRef := by
  unfold ofOwnProject
  split_ifs <;> rfl

theorem effect_ofOwnProject : (ofOwnProject project policy).effect = policy.effect := by
  unfold ofOwnProject
  split_ifs <;> rfl

/-- A service account holds no role. -/
theorem isEndpointGrant_ofOwnProject {p : String} :
    isEndpointGrant (ofOwnProject project policy) p endpoint = isEndpointGrant policy p endpoint := by
  unfold ofOwnProject
  split_ifs with hbare
  · have hkind : policy.assignee.kind = .serviceAccount := by
      simp only [Bool.and_eq_true, decide_eq_true_eq] at hbare
      exact hbare.1
    simp [isEndpointGrant, hkind]
  · rfl

theorem binds_ofOwnProject {p : String} : Binds repo judge name (ofOwnProject project policy) p endpoint spec ↔
    Binds repo judge name policy p endpoint spec := by
  constructor
  · rintro ⟨hspace, happ, hnamed⟩
    rw [contextSpaceRef_ofOwnProject] at hspace
    rw [isEndpointGrant_ofOwnProject] at happ
    exact ⟨hspace, happ, hnamed⟩
  · rintro ⟨hspace, happ, hnamed⟩
    rw [← contextSpaceRef_ofOwnProject project] at hspace
    rw [← isEndpointGrant_ofOwnProject project] at happ
    exact ⟨hspace, happ, hnamed⟩

end OfOwnProject

/-- The loader reads manifests of the served versions alone, all of one group. -/
theorem group_of_served (hserved : ∀ c ∈ repo.iter, serves c.1.kind c.2.manifest.apiVersion = true)
    {c : ResourceId × LoadedResource} (hc : c ∈ repo.iter) : c.1.group = "joinedcontext.com" := by
  have hid := Repository.fromManifest_of_mem hc
  have hversion := hserved c hc
  rw [← hid]
  show ResourceId.groupOf c.2.manifest.apiVersion = "joinedcontext.com"
  simp only [serves, Bool.or_eq_true, Bool.and_eq_true, beq_iff_eq] at hversion
  rcases hversion with h | ⟨-, h⟩
  · rw [h]
    decide
  · rw [h]
    decide

theorem isSome_appOf (hserved : ∀ c ∈ repo.iter, serves c.1.kind c.2.manifest.apiVersion = true)
    {project endpoint : String} :
    (appOf repo project endpoint).isSome = Validator.isApp repo project endpoint := by
  unfold appOf Validator.isApp
  cases Text.stripPrefix "app-" endpoint with
  | none => rfl
  | some app =>
    have hheld : (repo.iter.any fun c => c.1.kind = "App" && c.1.name = app && c.1.namespace = some project) =
        (repo.resources.get? ⟨"joinedcontext.com", "App", some project, app⟩).isSome := by
      rw [Bool.eq_iff_iff, Option.isSome_iff_exists, List.any_eq_true]
      constructor
      · rintro ⟨c, hc, hid⟩
        simp only [Bool.and_eq_true, decide_eq_true_eq] at hid
        obtain ⟨⟨hkind, hname⟩, hproject⟩ := hid
        refine ⟨c.2, SortedMap.get?_eq_some.2 ?_⟩
        rw [← group_of_served hserved hc, ← hkind, ← hname, ← hproject]
        exact hc
      · rintro ⟨r, hr⟩
        exact ⟨_, SortedMap.get?_eq_some.1 hr, by simp⟩
    simp only [Option.bind_some, Option.any_some, ← hheld]
    split_ifs with h <;> simp [h]

theorem mem_boundPolicies {refs : List Urn} {project segment : String} {named : List (String × Odrl.PolicySpec)}
    {p : String × Odrl.PolicySpec} : p ∈ boundPolicies d repo orgDomain refs project segment named ↔
      p ∈ named ∧ ∃ r ∈ refs, r.localId = policyOf p.1 ∧ r.space = some segment ∧
        itsDomain d repo orgDomain project r = true := by
  unfold boundPolicies
  rw [List.mem_filter]
  refine and_congr_right fun _ => ?_
  simp only [List.any_eq_true, Bool.and_eq_true, decide_eq_true_eq]
  refine exists_congr fun r => and_congr_right fun _ => ?_
  constructor
  · rintro ⟨⟨hdomain, hspace⟩, hname⟩
    exact ⟨hname.symm, hspace, hdomain⟩
  · rintro ⟨hname, hspace, hdomain⟩
    exact ⟨⟨hdomain, hspace⟩, hname.symm⟩

theorem mem_policiesBySpace {project space : String} {p : String × Odrl.PolicySpec} :
    p ∈ (((policiesBySpace d repo orgDomain).get? (toLex (project, space))).getD []).map Prod.snd ↔
      (project, p) ∈ grants d repo orgDomain ∧ p.2.contextSpaceRef.nameOf = space := by
  unfold policiesBySpace
  rw [SortedMap.getD_group, List.mem_map]
  constructor
  · rintro ⟨g, hg, rfl⟩
    simp only [List.mem_filter, decide_eq_true_eq, EmbeddingLike.apply_eq_iff_eq, Prod.mk.injEq] at hg
    obtain ⟨hg, rfl, hspace⟩ := hg
    exact ⟨hg, hspace⟩
  · rintro ⟨hg, hspace⟩
    exact ⟨(project, p), List.mem_filter.2 ⟨hg, by simp [hspace]⟩, rfl⟩

/-- The gateway binds an Endpoint to a permission of its project exactly where it binds it by the domains of
the project. -/
theorem mem_policies_iff (hserved : ∀ c ∈ repo.iter, serves c.1.kind c.2.manifest.apiVersion = true)
    {c : ResourceId × EndpointSpec} {p : String × Odrl.PolicySpec}
    (hp : (projectOfId c.1, p) ∈ grants d repo orgDomain) (heffect : p.2.effect.isProhibition = false) :
    p ∈ (endpointOf d repo orgDomain c).policies ↔
      Binds repo (itsDomain d repo orgDomain (projectOfId c.1)) (policyOf p.1) p.2 (projectOfId c.1) c.1.name
        c.2 := by
  have hbound : p ∈ c.2.policyRefs.elim
      ((((policiesBySpace d repo orgDomain).get? (toLex (projectOfId c.1, c.2.contextSpace))).getD []).map
        Prod.snd)
      (fun refs => boundPolicies d repo orgDomain refs (projectOfId c.1)
        (spaceSegment repo (projectOfId c.1) c.2.contextSpace)
        ((((policiesBySpace d repo orgDomain).get? (toLex (projectOfId c.1, c.2.contextSpace))).getD []).map
          Prod.snd)) ↔
      c.2.contextSpace = p.2.contextSpaceRef.nameOf ∧ ∀ refs, c.2.policyRefs = some refs → ∃ r ∈ refs,
        r.localId = policyOf p.1 ∧ r.space = some (spaceSegment repo (projectOfId c.1) c.2.contextSpace) ∧
          itsDomain d repo orgDomain (projectOfId c.1) r = true := by
    cases c.2.policyRefs with
    | none =>
      simp only [Option.elim_none, mem_policiesBySpace, hp, true_and, reduceCtorEq, false_imp_iff,
        implies_true, and_true]
      exact eq_comm
    | some refs =>
      simp only [Option.elim_some, mem_boundPolicies, mem_policiesBySpace, hp, true_and, Option.some.injEq,
        forall_eq']
      exact and_congr_left fun _ => eq_comm
  unfold endpointOf
  dsimp only
  rw [isSome_appOf hserved]
  split_ifs with happ
  · rw [List.mem_filter, hbound]
    simp only [heffect, Bool.false_or]
    exact ⟨fun h => ⟨h.1.1, fun _ => h.2, h.1.2⟩, fun h => ⟨⟨h.space, h.named⟩, h.app happ⟩⟩
  · rw [hbound]
    exact ⟨fun h => ⟨h.1, fun hyes => absurd hyes happ, h.2⟩, fun h => ⟨h.space, h.named⟩⟩

end Bound

section Main

variable {d : BindingDecoders} {repo : Repository} {orgDomain : Option String}

theorem mem_grants_of_rule {c : ResourceId × Odrl.PolicySpec} (hc : c ∈ policies d repo)
    {rule : String × Odrl.PolicySpec} (hrule : rule ∈ rulesOf c.1.name c.2) :
    (projectOfId c.1, rule.1, ofOwnProject (projectOfId c.1) rule.2) ∈ grants d repo orgDomain :=
  List.mem_append_left _ (List.mem_flatMap.2 ⟨c, hc, List.mem_map.2 ⟨rule, hrule, rfl⟩⟩)

theorem mem_derive {c : ResourceId × PipelineSpec} {o : PipelineOutput × ℕ} (ho : o ∈ c.2.outputs.zipIdx)
    {w : String × Odrl.PolicySpec} (hw : writePolicy d (orgDomain.getD "") c.1.name c.2
      (Validator.spaceOf d repo (projectOfId c.1)) o = some w) :
    w ∈ derive d (orgDomain.getD "") c.1.name c.2 (Validator.spaceOf d repo (projectOfId c.1)) :=
  List.mem_append_left _ (List.mem_filterMap.2 ⟨o, ho, hw⟩)

/-- Both sides derive a Pipeline's Policies from the same spaces. -/
theorem mem_grants_of_derive {c : ResourceId × PipelineSpec} (hc : c ∈ pipelines d repo)
    {w : String × Odrl.PolicySpec} (hw : w ∈ derive d (orgDomain.getD "") c.1.name c.2
      (Validator.spaceOf d repo (projectOfId c.1))) :
    (projectOfId c.1, w.1, ofOwnProject (projectOfId c.1) w.2) ∈ grants d repo orgDomain := by
  have hspaces : (fun endpoint => (spaces d repo).get? (toLex (projectOfId c.1, endpoint))) =
      Validator.spaceOf d repo (projectOfId c.1) := funext fun endpoint => get?_spaces _
  refine List.mem_append_right _ (List.mem_flatMap.2 ⟨_, List.mem_map.2 ⟨c, hc, rfl⟩,
    List.mem_map.2 ⟨w, ?_, rfl⟩⟩)
  rw [hspaces]
  exact hw

/-- The Endpoints of a project that are bound to a permission of it. -/
theorem bound_iff (hserved : ∀ c ∈ repo.iter, serves c.1.kind c.2.manifest.apiVersion = true)
    {project : String} {p : String × Odrl.PolicySpec} (named : String → Prop)
    (hp : (project, p.1, ofOwnProject project p.2) ∈ grants d repo orgDomain)
    (heffect : p.2.effect.isProhibition = false) :
    (∃ e ∈ endpointsFrom d repo orgDomain, e.project = project ∧ named e.name ∧
      (p.1, ofOwnProject project p.2) ∈ e.policies) ↔
    ∃ e ∈ Auth.readAs repo "Endpoint" d.endpoint, projectOfId e.1 = project ∧ named e.1.name ∧
      Binds repo (itsDomain d repo orgDomain project) (policyOf p.1) p.2 project e.1.name e.2 := by
  have hbinds : ∀ e : ResourceId × EndpointSpec, projectOfId e.1 = project →
      ((p.1, ofOwnProject project p.2) ∈ (endpointOf d repo orgDomain e).policies ↔
        Binds repo (itsDomain d repo orgDomain project) (policyOf p.1) p.2 project e.1.name e.2) := by
    rintro e rfl
    rw [mem_policies_iff hserved hp (by rw [effect_ofOwnProject]; exact heffect), binds_ofOwnProject]
  constructor
  · rintro ⟨_, he, hproject, hnamed, hmem⟩
    obtain ⟨e, hread, rfl⟩ := List.mem_map.1 he
    exact ⟨e, hread, hproject, hnamed, (hbinds e hproject).1 hmem⟩
  · rintro ⟨e, he, hproject, hnamed, hb⟩
    exact ⟨_, List.mem_map.2 ⟨e, he, rfl⟩, hproject, hnamed, (hbinds e hproject).2 hb⟩

theorem rules_iff (hserved : ∀ c ∈ repo.iter, serves c.1.kind c.2.manifest.apiVersion = true)
    {c : ResourceId × Odrl.PolicySpec} (hc : c ∈ policies d repo) {rule : String × Odrl.PolicySpec}
    (hrule : rule ∈ rulesOf c.1.name c.2) (heffect : rule.2.effect.isProhibition = false) :
    (∃ e ∈ endpointsFrom d repo orgDomain, e.project = projectOfId c.1 ∧
      (rule.1, ofOwnProject (projectOfId c.1) rule.2) ∈ e.policies) ↔
    ∃ e ∈ Auth.readAs repo "Endpoint" d.endpoint, projectOfId e.1 = projectOfId c.1 ∧
      Binds repo (itsDomain d repo orgDomain (projectOfId c.1)) (policyOf rule.1) rule.2 (projectOfId c.1)
        e.1.name e.2 := by
  have hgrant : (projectOfId c.1, rule.1, ofOwnProject (projectOfId c.1) rule.2) ∈ grants d repo orgDomain :=
    mem_grants_of_rule hc hrule
  simpa only [true_and] using bound_iff hserved (fun _ => True) hgrant heffect

/-- The check reports an output whose target is not declared, or does not bind by the domain of the load the
first Policy of the output's name. -/
theorem outputs_iff (hserved : ∀ c ∈ repo.iter, serves c.1.kind c.2.manifest.apiVersion = true)
    {c : ResourceId × PipelineSpec} (hc : c ∈ pipelines d repo) {o : PipelineOutput × ℕ}
    (ho : o ∈ c.2.outputs.zipIdx) :
    (ReportsOutput d repo orgDomain c o ↔ ¬ ∃ e ∈ endpointsFrom d repo orgDomain,
      e.project = projectOfId c.1 ∧ e.name = o.1.targetEndpoint.localId ∧
        ∃ p, writePolicy d (orgDomain.getD "") c.1.name c.2 (Validator.spaceOf d repo (projectOfId c.1)) o =
          some p ∧ (p.1, ofOwnProject (projectOfId c.1) p.2) ∈ e.policies) ↔
    ∀ endpoint p w,
      (Validator.endpoints d repo).get? (toLex (projectOfId c.1, o.1.targetEndpoint.localId)) = some endpoint →
      ((derive d (orgDomain.getD "") c.1.name c.2 (Validator.spaceOf d repo (projectOfId c.1))).find? fun p =>
        p.1 = writeName d c.1.name o.2) = some p →
      writePolicy d (orgDomain.getD "") c.1.name c.2 (Validator.spaceOf d repo (projectOfId c.1)) o = some w →
        (Binds repo (Validator.ourDomain orgDomain) p.1 p.2 (projectOfId c.1) o.1.targetEndpoint.localId
          endpoint ↔
        ∃ e ∈ Auth.readAs repo "Endpoint" d.endpoint, projectOfId e.1 = projectOfId c.1 ∧
          e.1.name = o.1.targetEndpoint.localId ∧
            Binds repo (itsDomain d repo orgDomain (projectOfId c.1)) (policyOf w.1) w.2 (projectOfId c.1)
              e.1.name e.2) := by
  rw [reportsOutput_iff hc ho, ← Option.ne_none_iff_isSome, not_iff_not, unreachable_eq_none_iff]
  cases hget : (Validator.endpoints d repo).get? (toLex (projectOfId c.1, o.1.targetEndpoint.localId)) with
  | none =>
    have hwrite : writePolicy d (orgDomain.getD "") c.1.name c.2
        (Validator.spaceOf d repo (projectOfId c.1)) o = none := by
      unfold writePolicy Validator.spaceOf
      rw [hget]
      rfl
    simp [hwrite]
  | some endpoint =>
    obtain ⟨w, hw, hname⟩ : ∃ w, writePolicy d (orgDomain.getD "") c.1.name c.2
        (Validator.spaceOf d repo (projectOfId c.1)) o = some w ∧ w.1 = writeName d c.1.name o.2 := by
      unfold writePolicy Validator.spaceOf
      rw [hget]
      exact ⟨_, rfl, rfl⟩
    have heffect : w.2.effect.isProhibition = false := by
      obtain ⟨space, -, rfl⟩ := Option.map_eq_some_iff.1 hw
      rfl
    obtain ⟨p, hp⟩ : ∃ p, ((derive d (orgDomain.getD "") c.1.name c.2
        (Validator.spaceOf d repo (projectOfId c.1))).find? fun p => p.1 = writeName d c.1.name o.2) = some p :=
      Option.isSome_iff_exists.1 (List.find?_isSome.2 ⟨w, mem_derive ho hw, by simp [hname]⟩)
    have hbound := bound_iff hserved (· = o.1.targetEndpoint.localId)
      (mem_grants_of_derive hc (mem_derive ho hw)) heffect
    simp only [hw, hp, Option.some.injEq, exists_eq_left', forall_eq', hbound]
    constructor
    · rintro h _ _ _ rfl rfl rfl
      exact h
    · intro h
      exact h endpoint p w rfl rfl rfl

/-- The write check is the gateway's binding exactly where both readings of the domains bind alike. -/
theorem oneBinding_iff (hserved : ∀ c ∈ repo.iter, serves c.1.kind c.2.manifest.apiVersion = true) :
    OneBinding d repo orgDomain ↔ Alike d repo orgDomain := by
  have hrules : ∀ c ∈ policies d repo, ∀ rule ∈ rulesOf c.1.name c.2, rule.2.effect.isProhibition = false →
      Validator.writesEntities rule.2 = true → ((ReportsRule d repo orgDomain c rule ↔
        ¬ ∃ e ∈ endpointsFrom d repo orgDomain, e.project = projectOfId c.1 ∧
          (rule.1, ofOwnProject (projectOfId c.1) rule.2) ∈ e.policies) ↔
      ((∃ e ∈ (Validator.endpoints d repo).entries, (ofLex e.1).1 = projectOfId c.1 ∧
        Binds repo (Validator.ourDomain orgDomain) c.1.name rule.2 (projectOfId c.1) (ofLex e.1).2 e.2) ↔
      ∃ e ∈ Auth.readAs repo "Endpoint" d.endpoint, projectOfId e.1 = projectOfId c.1 ∧
        Binds repo (itsDomain d repo orgDomain (projectOfId c.1)) (policyOf rule.1) rule.2 (projectOfId c.1)
          e.1.name e.2)) := by
    intro c hc rule hrule heffect hwrites
    rw [reportsRule_iff hc hrule heffect hwrites, rules_iff hserved hc hrule heffect, not_iff_not]
  constructor
  · intro h
    exact ⟨fun c hc rule hrule heffect hwrites =>
        (hrules c hc rule hrule heffect hwrites).1 (h.rules c hc rule hrule heffect hwrites),
      fun c hc o ho => (outputs_iff hserved hc ho).1 (h.outputs c hc o ho)⟩
  · intro h
    exact ⟨fun c hc rule hrule heffect hwrites =>
        (hrules c hc rule hrule heffect hwrites).2 (h.rules c hc rule hrule heffect hwrites),
      fun c hc o ho => (outputs_iff hserved hc ho).2 (h.outputs c hc o ho)⟩

end Main

section OneDomain

variable {d : BindingDecoders} {repo : Repository} {orgDomain : Option String}

theorem get?_endpoints (hkeys : ((Auth.readAs repo "Endpoint" d.endpoint).map fun e =>
    (projectOfId e.1, e.1.name)).Nodup) {project name : String} {spec : EndpointSpec} :
    (Validator.endpoints d repo).get? (toLex (project, name)) = some spec ↔
      ∃ e ∈ Auth.readAs repo "Endpoint" d.endpoint, projectOfId e.1 = project ∧ e.1.name = name ∧ e.2 = spec := by
  have hfold : Validator.endpoints d repo = (((Auth.readAs repo "Endpoint" d.endpoint).map fun e =>
      (toLex (projectOfId e.1, e.1.name), e.2)).foldl (fun table c => table.insert c.1 c.2) SortedMap.empty) := by
    unfold Validator.endpoints
    rw [List.foldl_map]
  have hnodup : (((Auth.readAs repo "Endpoint" d.endpoint).map fun e =>
      (toLex (projectOfId e.1, e.1.name), e.2)).map Prod.fst).Nodup := by
    rw [List.map_map]
    exact hkeys
  rw [hfold, SortedMap.get?_foldl_insert_empty hnodup, List.mem_map]
  refine exists_congr fun e => and_congr_right fun _ => ?_
  simp [and_assoc]

theorem policyOf_eq {name : String} (h : '#' ∉ name.toList) : policyOf name = name := by
  unfold policyOf
  cases hsplit : Text.splitOnce '#' name with
  | none => rfl
  | some parts =>
    exact absurd (Text.splitOnce_eq_some hsplit ▸ List.mem_append_right _ List.mem_cons_self) h

theorem policyOf_rule {c : ResourceId × Odrl.PolicySpec} {rule : String × Odrl.PolicySpec}
    (hrule : rule ∈ rulesOf c.1.name c.2) (hname : '#' ∉ c.1.name.toList) : policyOf rule.1 = c.1.name := by
  rcases rulesOf_cases hrule with ⟨-, rfl⟩ | ⟨-, -, i, -, -, hrule⟩
  · exact policyOf_eq hname
  · have hchars : c.1.name ++ "#" ++ toString (i + 1) =
        String.ofList (c.1.name.toList ++ '#' :: (toString (i + 1)).toList) :=
      String.toList_inj.1 (by simp)
    unfold policyOf
    rw [hrule, hchars, Text.splitOnce_append hname]
    simp

/-- Where outputs have names of their own, the first derived Policy of an output's name is its own. -/
theorem eq_of_find?_derive {orgDomain pipeline : String} {spec : PipelineSpec} {spaceOf : String → Option String}
    {o : PipelineOutput × ℕ} {p w : String × Odrl.PolicySpec} (ho : o ∈ spec.outputs.zipIdx)
    (hnames : ∀ o' ∈ spec.outputs.zipIdx, writeName d pipeline o'.2 = writeName d pipeline o.2 → o' = o)
    (hw : writePolicy d orgDomain pipeline spec spaceOf o = some w)
    (hp : ((derive d orgDomain pipeline spec spaceOf).find? fun p => p.1 = writeName d pipeline o.2) = some p) :
    p = w := by
  have hname : w.1 = writeName d pipeline o.2 := by
    obtain ⟨space, -, rfl⟩ := Option.map_eq_some_iff.1 hw
    rfl
  obtain ⟨q, hq⟩ := Option.isSome_iff_exists.1 (List.find?_isSome.2
    ⟨w, List.mem_filterMap.2 ⟨o, ho, hw⟩, by simp [hname]⟩ :
      ((spec.outputs.zipIdx.filterMap (writePolicy d orgDomain pipeline spec spaceOf)).find? fun p =>
        p.1 = writeName d pipeline o.2).isSome = true)
  unfold derive at hp
  rw [List.find?_append, hq] at hp
  obtain rfl : q = p := Option.some.inj hp
  obtain ⟨o', ho', hq'⟩ := List.mem_filterMap.1 (List.mem_of_find?_eq_some hq)
  have hindex : q.1 = writeName d pipeline o.2 := by simpa using List.find?_some hq
  have hindex' : q.1 = writeName d pipeline o'.2 := by
    obtain ⟨space, -, rfl⟩ := Option.map_eq_some_iff.1 hq'
    rfl
  obtain rfl := hnames o' ho' (hindex'.symm.trans hindex)
  exact Option.some.inj (hq'.symm.trans hw)

/-- Where every project publishes under the domain of the load alone, and names are as the validator admits
them, each read once, both readings bind alike. -/
theorem alike_of_oneDomain (hdomain : ∀ project,
      itsDomain d repo orgDomain project = Validator.ourDomain orgDomain)
    (hkeys : ((Auth.readAs repo "Endpoint" d.endpoint).map fun e => (projectOfId e.1, e.1.name)).Nodup)
    (hpolicies : ∀ c ∈ policies d repo, '#' ∉ c.1.name.toList)
    (hpipelines : ∀ c ∈ pipelines d repo, ∀ o ∈ c.2.outputs.zipIdx,
      '#' ∉ (writeName d c.1.name o.2).toList ∧
        ∀ o' ∈ c.2.outputs.zipIdx, writeName d c.1.name o'.2 = writeName d c.1.name o.2 → o' = o) :
    Alike d repo orgDomain := by
  refine ⟨fun c hc rule hrule _ _ => ?_, fun c hc o ho endpoint p w hget hp hw => ?_⟩
  · rw [hdomain, policyOf_rule hrule (hpolicies c hc)]
    constructor
    · rintro ⟨⟨key, spec⟩, he, hproject, hbinds⟩
      have hget : (Validator.endpoints d repo).get? (toLex ((ofLex key).1, (ofLex key).2)) = some spec :=
        SortedMap.get?_eq_some.2 he
      obtain ⟨e, hread, hkey, hname, rfl⟩ := (get?_endpoints hkeys).1 hget
      rw [← hname] at hbinds
      exact ⟨e, hread, hkey.trans hproject, hbinds⟩
    · rintro ⟨e, hread, hproject, hbinds⟩
      exact ⟨_, SortedMap.get?_eq_some.1 ((get?_endpoints hkeys).2 ⟨e, hread, hproject, rfl, rfl⟩), rfl, hbinds⟩
  · obtain ⟨hhash, hnames⟩ := hpipelines c hc o ho
    have hname : w.1 = writeName d c.1.name o.2 := by
      obtain ⟨space, -, rfl⟩ := Option.map_eq_some_iff.1 hw
      rfl
    rw [hdomain, eq_of_find?_derive ho hnames hw hp, policyOf_eq (hname ▸ hhash)]
    obtain ⟨e, hread, hproject, hendpoint, rfl⟩ := (get?_endpoints hkeys).1 hget
    constructor
    · intro hbinds
      exact ⟨e, hread, hproject, hendpoint, hendpoint ▸ hbinds⟩
    · rintro ⟨e', hread', hproject', hendpoint', hbinds⟩
      have hsame := (get?_endpoints hkeys).2 ⟨e', hread', hproject', hendpoint', rfl⟩
      rw [hget] at hsame
      rw [hendpoint'] at hbinds
      exact Option.some.inj hsame ▸ hbinds

end OneDomain

section TwoOrganizations

def manifest (kind project name : String) (spec : List (String × Value))
    (h : (Value.obj spec).wellFormed = true) : RawManifest :=
  { Mqtt.bareManifest kind project name with spec := .obj spec, spec_wellFormed := h }

/-- The reference to the Policy of the project's space, under the domain of the project's Organization. -/
def ownRef : Urn := ⟨"Policy", "fire.sk:city-air:write", some ⟨"fire.sk", "city-air", "write"⟩⟩

/-- A role that may update the entities of the space. -/
def updating : Odrl.PolicySpec where
  contextSpaceRef := .name "air"
  effect := .permission
  assigner := "did:web:fire.sk"
  assignee := ⟨.role, "keeper"⟩
  operations := [.group .updateOps]
  actions := []
  information := []
  q := none
  scopeQ := none
  geoQ := none
  temporalQ := none
  rules := none
  validity := none

def cityDecoders : BindingDecoders where
  endpoint _ := some { contextSpace := "air", policyRef := some ownRef }
  policy _ := some updating
  pipeline _ := none
  project spec := ((spec.get "organizationRef").bind Value.asStr).map fun organization => ⟨organization, none⟩
  organization spec := (spec.get "domain").bind Value.asStr
  sha256 := id

/-- An installation of two Organizations, and a project of the second. -/
def city : Repository :=
  ((((Repository.empty.add "organizations/town.yaml" (manifest "Organization" "org" "town"
    [("domain", .str "town.sk"), ("installation", .bool true)] (by decide))).add
    "organizations/fire.yaml" (manifest "Organization" "org" "fire" [("domain", .str "fire.sk")] (by decide))).add
    "projects/city/project.yaml" (manifest "Project" "org" "city"
      [("organizationRef", .str "fire")] (by decide))).add
    "projects/city/write.yaml" (manifest "Policy" "city" "write" [] (by decide))).add
    "projects/city/air.yaml" (manifest "Endpoint" "city" "air" [] (by decide))

def writeId : ResourceId := ⟨"joinedcontext.com", "Policy", some "city", "write"⟩

def airId : ResourceId := ⟨"joinedcontext.com", "Endpoint", some "city", "air"⟩

theorem served_city : ∀ c ∈ city.iter, serves c.1.kind c.2.manifest.apiVersion = true := by decide +kernel

theorem oneBinding_city : OneBinding cityDecoders city (loadedDomain none city) ↔
    Alike cityDecoders city (loadedDomain none city) :=
  oneBinding_iff served_city

/-- The Endpoint names the Policy under the domain of its own Organization, which is not the installation's:
the gateway binds the Policy, and the check reports it. -/
theorem not_oneBinding : ¬ OneBinding cityDecoders city (loadedDomain none city) := by
  intro h
  have hpolicy : (writeId, updating) ∈ policies cityDecoders city :=
    mem_readAs.2 ⟨_, SortedMap.get?_eq_some.1 (rfl : city.resources.get? writeId = some _), rfl, rfl, rfl⟩
  have hendpoint : (airId, ⟨"air", some ownRef, none⟩) ∈ Auth.readAs city "Endpoint" cityDecoders.endpoint :=
    mem_readAs.2 ⟨_, SortedMap.get?_eq_some.1 (rfl : city.resources.get? airId = some _), rfl, rfl, rfl⟩
  have hrule : ("write", updating) ∈ rulesOf writeId.name updating :=
    (List.mem_singleton_self _ : ("write", updating) ∈ [("write", updating)])
  have hreports : ReportsRule cityDecoders city (loadedDomain none city) (writeId, updating)
      ("write", updating) := by
    refine (reportsRule_iff hpolicy hrule rfl (by decide)).2 ?_
    rintro ⟨e, he, -, hbinds⟩
    obtain rfl : e = (toLex ("city", "air"), ⟨"air", some ownRef, none⟩) := List.mem_singleton.1 he
    obtain ⟨r, hr, -, -, hdomain⟩ := hbinds.named [ownRef] rfl
    obtain rfl := List.mem_singleton.1 hr
    exact absurd hdomain (by decide +kernel)
  refine (h.rules _ hpolicy _ hrule rfl (by decide)).1 hreports
    ((rules_iff served_city hpolicy hrule rfl).2 ⟨_, hendpoint, rfl, rfl, ?_, ?_⟩)
  · intro happ
    exact absurd happ (by decide +kernel)
  · rintro refs hrefs
    obtain rfl := Option.some.inj hrefs
    exact ⟨ownRef, List.mem_singleton_self _, by decide +kernel, by decide +kernel, by decide +kernel⟩

end TwoOrganizations

end JoinedContext.Gateway.Bindings

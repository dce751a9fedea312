import JoinedContext.Core.Json
import JoinedContext.Library.SortedMap
import Mathlib.Data.Prod.Lex
import Mathlib.Data.String.Basic
import Mathlib.Order.WithBot

/-!
# Manifests

`RawManifest`, the identity it is indexed by, and the loaded `Repository`. `serde_json` keeps an
object in a map sorted by its keys, which a manifest carries as a field: in every object of it the
keys ascend.
-/

namespace JoinedContext

namespace Value

mutual

/-- Whether in every object of a value the keys ascend. -/
def wellFormed : Value → Bool
  | .arr items => wellFormedItems items
  | .obj members => decide ((members.map Prod.fst).Pairwise (· < ·)) && wellFormedMembers members
  | _ => true

def wellFormedItems : List Value → Bool
  | [] => true
  | v :: items => wellFormed v && wellFormedItems items

def wellFormedMembers : List (String × Value) → Bool
  | [] => true
  | (_, v) :: members => wellFormed v && wellFormedMembers members

end

theorem wellFormed_nil : (Value.obj []).wellFormed = true := rfl

theorem wellFormed_of_mem_items : ∀ {items : List Value} {v : Value},
    wellFormedItems items = true → v ∈ items → v.wellFormed = true
  | w :: items, v, h, hv => by
    simp only [wellFormedItems, Bool.and_eq_true] at h
    rcases List.mem_cons.1 hv with rfl | hv
    · exact h.1
    · exact wellFormed_of_mem_items h.2 hv

theorem wellFormedItems_map {α : Type} {f : α → Value} (h : ∀ a, (f a).wellFormed = true) :
    ∀ l : List α, wellFormedItems (l.map f) = true
  | [] => rfl
  | a :: l => by simp [wellFormedItems, h a, wellFormedItems_map h l]

theorem wellFormed_of_mem_members : ∀ {members : List (String × Value)} {c : String × Value},
    wellFormedMembers members = true → c ∈ members → c.2.wellFormed = true
  | (k, w) :: members, c, h, hc => by
    simp only [wellFormedMembers, Bool.and_eq_true] at h
    rcases List.mem_cons.1 hc with rfl | hc
    · exact h.1
    · exact wellFormed_of_mem_members h.2 hc

theorem wellFormedMembers_of_forall : ∀ {members : List (String × Value)},
    (∀ c ∈ members, c.2.wellFormed = true) → wellFormedMembers members = true
  | [], _ => rfl
  | (k, w) :: members, h => by
    simp only [wellFormedMembers, Bool.and_eq_true]
    exact ⟨h (k, w) List.mem_cons_self,
      wellFormedMembers_of_forall fun c hc => h c (List.mem_cons_of_mem _ hc)⟩

end Value

namespace Jcctl

def API_VERSION : String := "joinedcontext.com/v1alpha1"

/-- The version `Pipeline` alone is also served at. -/
def API_VERSION_V1ALPHA2 : String := "joinedcontext.com/v1alpha2"

def MANAGED_ATTRIBUTES : String := "joinedcontext.com/managed-attributes"

def GENERATED_BY : String := "joinedcontext.com/generated-by"

def LEGACY_ORGANIZATION_PATH : String := "org.yaml"

structure RawMetadata where
  name : String
  «namespace» : Option String
  rest : List (String × Value)
  deriving DecidableEq

structure RawManifest where
  apiVersion : String
  kind : String
  metadata : RawMetadata
  spec : Value
  status : Option Value
  rest_wellFormed : (Value.obj metadata.rest).wellFormed = true
  spec_wellFormed : spec.wellFormed = true
  deriving DecidableEq

structure ResourceId where
  group : String
  kind : String
  «namespace» : Option String
  name : String
  deriving DecidableEq

namespace ResourceId

/-- The derived order: the group, then the kind, the namespace (none before any) and the name. -/
def toOrdered (id : ResourceId) : String ×ₗ String ×ₗ WithBot String ×ₗ String :=
  toLex (id.group, toLex (id.kind, toLex (id.namespace, id.name)))

theorem toOrdered_injective : Function.Injective toOrdered := by
  rintro ⟨g, k, n, m⟩ ⟨g', k', n', m'⟩ h
  simp only [toOrdered, EmbeddingLike.apply_eq_iff_eq, Prod.mk.injEq] at h
  obtain ⟨rfl, rfl, rfl, rfl⟩ := h
  rfl

instance : LinearOrder ResourceId := LinearOrder.lift' toOrdered toOrdered_injective

/-- The part of the `apiVersion` before its first slash. -/
def groupOf (apiVersion : String) : String :=
  String.ofList (apiVersion.toList.takeWhile (· ≠ '/'))

def fromManifest (manifest : RawManifest) : ResourceId where
  group := groupOf manifest.apiVersion
  kind := manifest.kind
  «namespace» := manifest.metadata.namespace
  name := manifest.metadata.name

/-- The project a resource is listed under: its namespace, `org` where it has none. -/
def project (id : ResourceId) : String := id.namespace.getD "org"

end ResourceId

structure LoadedResource where
  path : String
  manifest : RawManifest

structure Repository where
  resources : SortedMap ResourceId LoadedResource
  keyed : ∀ id r, resources.get? id = some r → ResourceId.fromManifest r.manifest = id

namespace Repository

/-- The resources in the order of their identities. -/
def iter (repo : Repository) : List (ResourceId × LoadedResource) := repo.resources.entries

/-- The manifest the repository declares under an identity. -/
def declares (repo : Repository) (id : ResourceId) : Option RawManifest :=
  (repo.resources.get? id).map LoadedResource.manifest

def empty : Repository := ⟨SortedMap.empty, fun _ _ h => by simp at h⟩

/-- The repository with a manifest read from a file, under its own identity. -/
def add (repo : Repository) (path : String) (manifest : RawManifest) : Repository where
  resources := repo.resources.insert (ResourceId.fromManifest manifest) ⟨path, manifest⟩
  keyed := by
    intro id r h
    rw [SortedMap.get?_insert] at h
    split_ifs at h with hid
    · cases h
      exact hid.symm
    · exact repo.keyed id r h

theorem fromManifest_of_mem {repo : Repository} {c : ResourceId × LoadedResource}
    (h : c ∈ repo.iter) : ResourceId.fromManifest c.2.manifest = c.1 :=
  repo.keyed _ _ (SortedMap.get?_eq_some.2 h)

end Repository

def isLegacyOrganization (id : ResourceId) (loaded : LoadedResource) : Bool :=
  id.kind == "Organization" && loaded.path == LEGACY_ORGANIZATION_PATH

def claimsInstallation (id : ResourceId) (loaded : LoadedResource) : Bool :=
  id.kind == "Organization" && (isLegacyOrganization id loaded ||
    loaded.manifest.spec.get "installation" == some (.bool true))

/-- The only Organization, else the only one that claims to be the installation's. -/
def installationOrganization (repo : Repository) : Option (ResourceId × LoadedResource) :=
  let organizations := repo.iter.filter fun c => c.1.kind == "Organization"
  match organizations with
  | [only] => some only
  | _ =>
    match organizations.filter fun c => claimsInstallation c.1 c.2 with
    | [one] => some one
    | _ => none

inductive Scope where
  | organization
  | project
  | organizationOrProject
  deriving DecidableEq

/-- A piece of a path template. -/
inductive Piece where
  | text (s : String)
  | project
  | space
  | name
  deriving DecidableEq

structure KindInfo where
  kind : String
  plural : String
  scope : Scope
  pathTemplate : List Piece
  projectPathTemplate : Option (List Piece)
  spacelessPathTemplate : Option (List Piece)

namespace KindInfo

/-- `directory/{name}.yaml` of the organization. -/
def atRoot (directory : String) : List Piece :=
  [.text directory, .text "/", .name, .text ".yaml"]

/-- `projects/{project}/directory/{name}.yaml`. -/
def inProject (directory : String) : List Piece :=
  [.text "projects/", .project, .text "/", .text directory, .text "/", .name, .text ".yaml"]

/-- `projects/{project}/spaces/{space}/directory/{name}.yaml`. -/
def inSpace (directory : String) : List Piece :=
  [.text "projects/", .project, .text "/spaces/", .space, .text "/", .text directory, .text "/",
    .name, .text ".yaml"]

def organization (kind plural : String) (template : List Piece) : KindInfo :=
  ⟨kind, plural, .organization, template, none, none⟩

def project (kind plural : String) (template : List Piece) : KindInfo :=
  ⟨kind, plural, .project, template, none, none⟩

/-- The path of a resource; a value stands for its placeholder, which no name of a project, a space
or a resource contains. -/
def repoPath (info : KindInfo) (project space name : String) : String :=
  let isProject := project != "" && project != "org"
  let template := match info.projectPathTemplate, info.spacelessPathTemplate with
    | projectTemplate, spaceless =>
      if isProject && space == "" && spaceless.isSome then spaceless.getD []
      else if isProject && projectTemplate.isSome then projectTemplate.getD []
      else info.pathTemplate
  template.foldl (fun path piece => path ++ match piece with
    | .text s => s
    | .project => project
    | .space => space
    | .name => name) ""

end KindInfo

open KindInfo in
/-- The catalogue of kinds. -/
def KINDS : List KindInfo :=
  [organization "Organization" "organizations" (atRoot "organizations"),
    organization "Project" "projects" [.text "projects/", .name, .text "/project.yaml"],
    project "ContextSpace" "spaces"
      [.text "projects/", .project, .text "/spaces/", .name, .text "/space.yaml"],
    ⟨"DataModel", "datamodels", .organizationOrProject,
      [.text "datamodels/", .name, .text "/", .name, .text ".yaml"],
      some (inSpace "datamodels"),
      some [.text "projects/", .project, .text "/datamodels/", .name, .text "/", .name,
        .text ".yaml"]⟩,
    project "Mapping" "mappings" (inSpace "datamodels/mappings"),
    project "Policy" "policies" (inSpace "policies"),
    project "ScopeDefinition" "scopedefinitions" (inProject "policies"),
    project "Endpoint" "endpoints" (inSpace "endpoints"),
    project "ModelProjection" "projections" (inSpace "projections"),
    project "SharedSpaceReference" "shared" (inProject "shared"),
    project "ContextSourceRegistration" "csrs" (inSpace "registrations"),
    project "Subscription" "subscriptions" (inSpace "subscriptions"),
    project "ServiceAccount" "serviceaccounts" (inProject "access/serviceaccounts"),
    project "Pipeline" "pipelines"
      [.text "projects/", .project, .text "/pipelines/", .name, .text "/pipeline.yaml"],
    project "DataSource" "datasources" (inProject "datasources"),
    project "App" "apps" [.text "projects/", .project, .text "/apps/", .name, .text "/app.yaml"],
    project "CkanInstance" "ckaninstances" (inProject "ckan"),
    project "KnowledgeSource" "knowledgesources" (inProject "assistant/sources"),
    project "AssistantDeployment" "assistantdeployments" (inProject "assistant/deployments"),
    ⟨"McpServer", "mcpservers", .organizationOrProject, atRoot "mcp", some (inProject "mcp"), none⟩,
    project "MqttBroker" "mqttbrokers" (inProject "mqttbrokers"),
    organization "Blueprint" "blueprints" [.text "blueprints/", .name, .text "/blueprint.yaml"],
    organization "AgentProfile" "agentprofiles" (atRoot "agentprofiles"),
    organization "DataSpaceParticipant" "dataspaceparticipants"
      [.text "dataspace/participant.yaml"],
    project "DataOffer" "dataoffers" (inSpace "dataspace/offers"),
    project "DataAgreement" "dataagreements" (inProject "dataspace/agreements"),
    project "SyncSource" "syncsources" (inProject "sync"),
    organization "Bundle" "bundles" [.text "bundle.yaml"],
    organization "UiSchema" "uischemas"
      [.text "portal/forms/", .name, .text ".uischema.yaml"],
    ⟨"Role", "roles", .organizationOrProject, atRoot "users/roles", some (inProject "roles"), none⟩,
    organization "RoleBinding" "rolebindings" (atRoot "users/assignments"),
    organization "Group" "groups" (atRoot "users/groups"),
    organization "DelegationPolicy" "delegationpolicies" (atRoot "users/delegation"),
    organization "ContextBroker" "contextbrokers" (atRoot "brokers"),
    organization "Environment" "environments" (atRoot "environments"),
    project "Dashboard" "dashboards" (inProject "dashboards"),
    project "Layer" "layers" (inProject "dashboards")]

def byKind (kind : String) : Option KindInfo := KINDS.find? fun k => k.kind == kind

/-- Whether this platform serves a kind at an API version. -/
def serves (kind apiVersion : String) : Bool :=
  apiVersion == API_VERSION || (kind == "Pipeline" && apiVersion == API_VERSION_V1ALPHA2)

structure Schedule where
  interval : Option String
  webhook : Option Bool
  deriving DecidableEq

namespace Schedule

def unitSeconds : Char → Option Nat
  | 's' => some 1
  | 'm' => some 60
  | 'h' => some 3600
  | 'd' => some 86400
  | _ => none

/-- The length of `^([1-9][0-9]*)([smhd])$`; none where it is malformed or fits no `u64`. -/
def intervalSeconds (schedule : Schedule) : Option Nat := do
  let raw ← schedule.interval
  let unit ← unitSeconds (← raw.toList.getLast?)
  let digits := raw.toList.dropLast
  let first ← digits.head?
  guard (first ≠ '0' ∧ digits.all Char.isDigit)
  let n := digits.foldl (fun n c => n * 10 + (c.toNat - '0'.toNat)) 0
  guard (n < 2 ^ 64 ∧ n * unit < 2 ^ 64)
  return n * unit

end Schedule

/-- The Context Space a spec names, by its name or in a typed reference. -/
def extractSpace (spec : Value) : String :=
  match spec.get "contextSpaceRef" with
  | some (.str name) => name
  | some (.obj reference) => ((reference.lookup "name").bind Value.asStr).getD ""
  | _ => ""

end Jcctl

end JoinedContext

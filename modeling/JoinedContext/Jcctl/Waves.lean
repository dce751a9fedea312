import JoinedContext.Jcctl.Manifest

/-!
# Sync waves

The kinds in convergence order, the wave each reconciles in, and the plan of a repository: its
resources by wave, inside a wave in the order of the kinds, inside a kind in that of identities.
-/

namespace JoinedContext.Jcctl

def WAVE_ROOTS : Nat := 0
def WAVE_SPACES : Nat := 1
def WAVE_ACCESS : Nat := 2
def WAVE_EXPOSURE : Nat := 3
def WAVE_FEDERATION : Nat := 4
def WAVE_RUNTIME : Nat := 5

/-- Every reconciled kind in convergence order. -/
def ORDER : List (Nat × String) :=
  [(WAVE_ROOTS, "Organization"), (WAVE_ROOTS, "Group"), (WAVE_ROOTS, "Role"),
    (WAVE_ROOTS, "RoleBinding"), (WAVE_ROOTS, "DelegationPolicy"), (WAVE_ROOTS, "Project"),
    (WAVE_ROOTS, "DataSpaceParticipant"), (WAVE_ROOTS, "AgentProfile"),
    (WAVE_ROOTS, "ContextBroker"), (WAVE_SPACES, "ContextSpace"), (WAVE_SPACES, "DataModel"),
    (WAVE_SPACES, "ModelProjection"), (WAVE_SPACES, "Mapping"), (WAVE_SPACES, "ServiceAccount"),
    (WAVE_ACCESS, "ScopeDefinition"), (WAVE_ACCESS, "Policy"), (WAVE_EXPOSURE, "CkanInstance"),
    (WAVE_EXPOSURE, "Endpoint"), (WAVE_EXPOSURE, "MqttBroker"), (WAVE_FEDERATION, "McpServer"),
    (WAVE_FEDERATION, "Subscription"), (WAVE_FEDERATION, "SharedSpaceReference"),
    (WAVE_FEDERATION, "ContextSourceRegistration"), (WAVE_FEDERATION, "DataOffer"),
    (WAVE_FEDERATION, "DataAgreement"), (WAVE_RUNTIME, "DataSource"), (WAVE_RUNTIME, "Pipeline"),
    (WAVE_RUNTIME, "App"), (WAVE_RUNTIME, "SyncSource"), (WAVE_RUNTIME, "Dashboard"),
    (WAVE_RUNTIME, "Layer"), (WAVE_RUNTIME, "KnowledgeSource"),
    (WAVE_RUNTIME, "AssistantDeployment")]

/-- Position of a kind in the convergence order, none if it is not reconciled. -/
def rankOf (kind : String) : Option Nat := ORDER.findIdx? fun c => c.2 == kind

def waveAt (rank : Nat) : Nat := (ORDER.getD rank (0, "")).1

def waveOf (kind : String) : Option Nat := (rankOf kind).map waveAt

/-- The wave of a reconciled kind with its place in the order. -/
def bucketOf (id : ResourceId) : Nat ×ₗ Nat :=
  toLex (waveAt ((rankOf id.kind).getD 0), (rankOf id.kind).getD 0)

/-- The reconciled ones of some identities, in the order the reconciler is to apply them in. -/
def planned (ids : List ResourceId) : List ResourceId :=
  (SortedMap.group bucketOf (ids.filter fun id => (rankOf id.kind).isSome)).entries.flatMap Prod.snd

/-- The reconciliation order of a repository. -/
def plan (repo : Repository) : List ResourceId := planned (repo.iter.map Prod.fst)

end JoinedContext.Jcctl

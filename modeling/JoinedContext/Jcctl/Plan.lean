import JoinedContext.Jcctl.Diff
import JoinedContext.Jcctl.Waves

/-!
# What `apply` would do

The desired state of a repository, its own manifests and the owner policies generated from its
service accounts, against what the platform lists. `compute` builds one change for each resource of
the two, by wave. The parse of a service account's roles and the digest of a long policy name are
parameters.
-/

namespace JoinedContext.Jcctl

structure Validity where
  notBefore : Option String
  notAfter : Option String

/-- A role of a service account; the operations by their wire names. -/
structure RoleBinding where
  role : String
  contextSpace : Option String
  types : List String
  operations : List String
  validity : Option Validity

/-- What the reconciler uses of the kinds and of `sha2`. -/
structure Codec where
  roles : Value → Option (List RoleBinding)
  sha256 : String → String

def GENERATOR : String := "jcctl/service-accounts"

def policyName (codec : Codec) (account role space : String) : String :=
  let full := "sa-" ++ account ++ "-" ++ role ++ "-" ++ space
  if full.length ≤ 63 then full
  else
    let cut := String.ofList (((full.toList.take 52).rdropWhile (· == '-')))
    cut ++ "-" ++ String.ofList ((codec.sha256 full).toList.take 10)

def annotations : List (String × Value) :=
  [("annotations", .obj [(GENERATED_BY, .str GENERATOR)])]

/-- The window of a grant, where it is bounded on a side. -/
def validityOf (binding : RoleBinding) : List (String × Value) :=
  match binding.validity with
  | some ⟨none, none⟩ => []
  | some ⟨notBefore, notAfter⟩ =>
    [("validity", .obj (notBefore.toList.map (fun t => ("from", .str t)) ++
      notAfter.toList.map fun t => ("to", .str t)))]
  | none => []

def informationOf (binding : RoleBinding) : List (String × Value) :=
  if binding.types = [] then []
  else [("information", .arr [.obj [("entities",
    .arr (binding.types.map fun entityType => .obj [("type", .str entityType)]))]])]

def policySpec (account space orgDomain : String) (binding : RoleBinding) : Value :=
  .obj ([("assignee", .obj [("id", .str account), ("kind", .str "serviceAccount")]),
      ("assigner", .str ("did:web:" ++ orgDomain)), ("contextSpaceRef", .str space)] ++
    informationOf binding ++ [("operations", .arr (binding.operations.map .str))] ++
    validityOf binding)

theorem annotations_wellFormed : (Value.obj annotations).wellFormed = true := by decide

theorem policySpec_wellFormed (account space orgDomain : String) (binding : RoleBinding) :
    (policySpec account space orgDomain binding).wellFormed = true := by
  have hoperations : Value.wellFormedItems (binding.operations.map .str) = true :=
    Value.wellFormedItems_map (fun _ => rfl) _
  have htypes : Value.wellFormedItems (binding.types.map fun entityType =>
      .obj [("type", .str entityType)]) = true := Value.wellFormedItems_map (fun _ => rfl) _
  have hkeys : (["assignee", "assigner", "contextSpaceRef", "information", "operations",
      "validity"] : List String).Pairwise (· < ·) ∧ ("id" : String) < "kind" ∧
      ("from" : String) < "to" := by decide
  simp only [List.pairwise_cons] at hkeys
  obtain ⟨role, contextSpace, types, operations, validity⟩ := binding
  unfold policySpec informationOf validityOf
  rcases validity with _ | ⟨_ | after, _ | before⟩ <;> split_ifs <;>
    simp_all [Value.wellFormed, Value.wellFormedMembers, Value.wellFormedItems]

def ownerPolicy (codec : Codec) (manifest : RawManifest) (orgDomain : String)
    (binding : RoleBinding) (space : String) : RawManifest where
  apiVersion := API_VERSION
  kind := "Policy"
  metadata := {
    name := policyName codec manifest.metadata.name binding.role space
    «namespace» := manifest.metadata.namespace
    rest := annotations }
  spec := policySpec manifest.metadata.name space orgDomain binding
  status := none
  rest_wellFormed := annotations_wellFormed
  spec_wellFormed := policySpec_wellFormed _ _ _ _

/-- The owner policies of a ServiceAccount manifest, in role order. -/
def ownerPolicies (codec : Codec) (manifest : RawManifest) (orgDomain : String) :
    List RawManifest :=
  if manifest.kind ≠ "ServiceAccount" then []
  else ((codec.roles manifest.spec).getD []).filterMap fun binding =>
    binding.contextSpace.map (ownerPolicy codec manifest orgDomain binding)

inductive PlatformError where
  | unavailable (message : String)
  | rejected (id : ResourceId) (message : String)

/-- A live platform the reconciler can read and converge. -/
structure Platform (P : Type) where
  list : P → String → String → Except PlatformError (List RawManifest)
  put : P → RawManifest → Except PlatformError Unit × P
  delete : P → ResourceId → Except PlatformError Unit × P

/-- A platform held in memory, by identity. -/
def InMemory : Platform (SortedMap ResourceId RawManifest) where
  list held project plural := .ok ((held.entries.filter fun c =>
    c.1.project == project && (byKind c.1.kind).any fun k => k.plural == plural).map Prod.snd)
  put held manifest := (.ok (), held.insert (ResourceId.fromManifest manifest) manifest)
  delete held id := (.ok (), held.erase id)

inductive Action where
  | create
  | update
  | delete
  | unchanged
  deriving DecidableEq

structure ResourceChange where
  id : ResourceId
  action : Action
  diff : List FieldDiff
  declared : Option RawManifest
  live : Option RawManifest

/-- The changes by wave, without the advisory flags. -/
structure ChangeSet where
  waves : List (Nat × List ResourceChange)

namespace ChangeSet

/-- Every change in the order `apply` would execute it. -/
def iter (changes : ChangeSet) : List ResourceChange := changes.waves.flatMap Prod.snd

end ChangeSet

def organizationDomain (repo : Repository) : String :=
  (((installationOrganization repo).bind fun c => c.2.manifest.spec.get "domain").bind
    Value.asStr).getD ""

/-- The policies generated for the service accounts of a repository. -/
def generated (codec : Codec) (repo : Repository) : List RawManifest :=
  repo.iter.flatMap fun c => ownerPolicies codec c.2.manifest (organizationDomain repo)

/-- What the repository declares, and what is generated from it where nothing declared is of that
identity. -/
def desired (codec : Codec) (repo : Repository) : SortedMap ResourceId RawManifest :=
  (generated codec repo).foldl (fun m policy => m.orInsert (ResourceId.fromManifest policy) policy)
    (repo.iter.foldl (fun m c => m.insert c.1 c.2.manifest) SortedMap.empty)

/-- The projects worth listing: those the repository names or the platform knows, and `org`. -/
def projects (repo : Repository) (known : List RawManifest) : List String :=
  ((repo.iter.filterMap (·.1.namespace) ++ known.map (·.metadata.name) ++ ["org"]).foldl
    (fun m project => m.insert project ()) (SortedMap.empty : SortedMap String Unit)).keys

def collections (repo : Repository) (known : List RawManifest) : List (String × String) :=
  (projects repo known).flatMap fun project =>
    (KINDS.filter fun kind => (waveOf kind.kind).isSome).map fun kind => (project, kind.plural)

def listAll (list : String → String → Except PlatformError (List RawManifest)) :
    List (String × String) → SortedMap ResourceId RawManifest →
      Except PlatformError (SortedMap ResourceId RawManifest)
  | [], live => .ok live
  | (project, plural) :: rest, live =>
    match list project plural with
    | .ok manifests => listAll list rest
      (manifests.foldl (fun live m => live.insert (ResourceId.fromManifest m) m) live)
    | .error e => .error e

/-- What the platform lists, by identity. -/
def liveOf (list : String → String → Except PlatformError (List RawManifest)) (repo : Repository) :
    Except PlatformError (SortedMap ResourceId RawManifest) :=
  match list "org" "projects" with
  | .ok known => listAll list (collections repo known) SortedMap.empty
  | .error e => .error e

/-- What `apply` would do to a declared resource the platform holds, or does not. -/
def changeOf (id : ResourceId) (declared : RawManifest) : Option RawManifest → ResourceChange
  | none => ⟨id, .create, [], some declared, none⟩
  | some existing =>
    let fields := diff declared existing
    ⟨id, if fields.isEmpty then .unchanged else .update, fields, some declared, some existing⟩

def deletion (c : ResourceId × RawManifest) : ResourceChange := ⟨c.1, .delete, [], none, some c.2⟩

def reconciled (id : ResourceId) : Bool := (waveOf id.kind).isSome

/-- The changes by the wave of their kind, and the wave of a kind that has none. -/
def byWave (unplaced : Nat) (changes : List ResourceChange) : ChangeSet :=
  ⟨(SortedMap.group (fun c : ResourceChange => (waveOf c.id.kind).getD unplaced) changes).entries⟩

/-- The changes that lead from what lives to what is desired: one for each desired resource of a
reconciled kind, then one for each live one of those kinds that is left. -/
def changesOf (desired live : SortedMap ResourceId RawManifest) : ChangeSet :=
  let declared := desired.entries.filter fun c => reconciled c.1
  let left := live.entries.filter fun c => !(declared.map Prod.fst).contains c.1
  byWave 0 (declared.map (fun c => changeOf c.1 c.2 (live.get? c.1)) ++
    (left.filter fun c => reconciled c.1).map deletion)

/-- Computes what `apply` would do. -/
def compute (codec : Codec) (repo : Repository)
    (list : String → String → Except PlatformError (List RawManifest)) :
    Except PlatformError ChangeSet :=
  match liveOf list repo with
  | .ok live => .ok (changesOf (desired codec repo) live)
  | .error e => .error e

variable {codec : Codec} {repo : Repository} {id : ResourceId} {m d l : RawManifest}
  {c : ResourceChange} {desired live : SortedMap ResourceId RawManifest}

theorem mem_byWave {unplaced : Nat} {changes : List ResourceChange} :
    c ∈ (byWave unplaced changes).iter ↔ c ∈ changes := SortedMap.mem_group

/-- A change of the set is that of a desired resource, or the deletion of a live one that nothing
desired replaces. -/
theorem mem_changesOf : c ∈ (changesOf desired live).iter ↔
    reconciled c.id = true ∧
      ((∃ d, desired.get? c.id = some d ∧ c = changeOf c.id d (live.get? c.id)) ∨
        desired.get? c.id = none ∧ ∃ l, live.get? c.id = some l ∧ c = deletion (c.id, l)) := by
  unfold changesOf
  rw [mem_byWave, List.mem_append, List.mem_map, List.mem_map]
  constructor
  · rintro (⟨⟨id, d⟩, hmem, rfl⟩ | ⟨⟨id, l⟩, hmem, rfl⟩)
    · obtain ⟨hd, hrec⟩ := List.mem_filter.1 hmem
      have hid : (changeOf id d (live.get? id)).id = id := by
        cases live.get? id <;> rfl
      rw [hid]
      exact ⟨hrec, Or.inl ⟨d, SortedMap.get?_eq_some.2 hd, rfl⟩⟩
    · obtain ⟨hleft, hrec⟩ := List.mem_filter.1 hmem
      obtain ⟨hl, hnot⟩ := List.mem_filter.1 hleft
      refine ⟨hrec, Or.inr ⟨?_, l, SortedMap.get?_eq_some.2 hl, rfl⟩⟩
      by_contra hsome
      obtain ⟨d, hd⟩ := Option.ne_none_iff_exists'.1 hsome
      have hin : (id, d) ∈ desired.entries.filter fun c => reconciled c.1 :=
        List.mem_filter.2 ⟨SortedMap.get?_eq_some.1 hd, hrec⟩
      simp only [Bool.not_eq_true', List.contains_eq_mem, decide_eq_false_iff_not] at hnot
      exact hnot (List.mem_map_of_mem (f := Prod.fst) hin)
  · rintro ⟨hrec, ⟨d, hd, hc⟩ | ⟨hnone, l, hl, hc⟩⟩
    · left
      exact ⟨(c.id, d), List.mem_filter.2 ⟨SortedMap.get?_eq_some.1 hd, hrec⟩, hc.symm⟩
    · right
      refine ⟨(c.id, l), List.mem_filter.2 ⟨List.mem_filter.2
        ⟨SortedMap.get?_eq_some.1 hl, ?_⟩, hrec⟩, hc.symm⟩
      simp only [Bool.not_eq_true', List.contains_eq_mem, decide_eq_false_iff_not]
      intro hmem
      obtain ⟨⟨id, d⟩, hd, rfl : id = c.id⟩ := List.mem_map.1 hmem
      have := SortedMap.get?_eq_some.2 (List.mem_filter.1 hd).1
      rw [hnone] at this
      simp at this

end JoinedContext.Jcctl

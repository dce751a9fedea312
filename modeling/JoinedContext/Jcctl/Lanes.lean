import JoinedContext.Jcctl.Plan
import Mathlib.Data.List.Dedup

/-!
# Risk lanes

The lane of a change and of a change set, read off the paths of the diff and off the declared and
live manifests. `laneOf_red_iff` says without paths which changes are red.
-/

namespace JoinedContext.Jcctl

/-- The approval lane of a change, the strictest last. -/
inductive Lane where
  | green
  | yellow
  | red
  deriving DecidableEq

namespace Lane

def strictness : Lane → Nat
  | .green => 0
  | .yellow => 1
  | .red => 2

theorem strictness_injective : Function.Injective strictness := by
  intro a b h
  cases a <;> cases b <;> simp [strictness] at h ⊢

instance : LinearOrder Lane := LinearOrder.lift' strictness strictness_injective

end Lane

/-- Kinds whose change is a federation edge or an identity decision. -/
def ALWAYS_RED : List String :=
  ["Organization", "Policy", "ScopeDefinition", "ServiceAccount", "SharedSpaceReference",
    "DataOffer", "DataAgreement", "DataSpaceParticipant", "ContextSourceRegistration", "Role",
    "RoleBinding", "Group", "DelegationPolicy", "Project", "ContextBroker", "MqttBroker"]

structure LaneVerdict where
  lane : Lane
  reason : String

/-- Whether some path of the diff begins with a text. -/
def moved (change : ResourceChange) (path : String) : Bool :=
  change.diff.any fun d => (Text.stripPrefix path d.path).isSome

def specOf (manifest : Option RawManifest) (key : String) : Option Value :=
  manifest.bind fun m => m.spec.get key

def touchesPublicAudience (change : ResourceChange) : Bool :=
  (specOf change.declared "audience").bind Value.asStr == some "public" ||
    change.diff.any fun d => d.path == "spec.audience"

def publicExposure (change : ResourceChange) : Option String :=
  let member := specOf change.declared
  let wasPublic key := (specOf change.live key).bind Value.asStr == some "public"
  if change.id.kind = "App" then
    if (member "visibility").bind Value.asStr == some "public" ||
        ((member "egress").bind Value.asArray).any (fun egress => !egress.isEmpty) ||
        moved change "spec.visibility" || moved change "spec.egress" then
      some "an App anyone opens, or one that sends data out, is red (AP-120, AP-134)"
    else none
  else if change.id.kind = "McpServer" then
    if (member "audience").bind Value.asStr == some "public" || moved change "spec.audience" then
      some "public exposure of an MCP server is red (MF-53, ADR-N-043)"
    else none
  else if change.id.kind = "AssistantDeployment" then
    if ((member "channel").bind Value.asStr).any (fun channel => channel != "internal") ||
        moved change "spec.channel" then
      some "an assistant that answers outside the project is red (MF-52)"
    else none
  else if change.id.kind = "Dashboard" ∨ change.id.kind = "KnowledgeSource" then
    if (member "visibility").bind Value.asStr == some "public" || wasPublic "visibility" then
      some "making a dashboard or a knowledge source public, or withdrawing it, is red (CC-63)"
    else none
  else none

def laneOfAgentProfile (change : ResourceChange) : LaneVerdict :=
  if change.action = .update ∧ (moved change "spec.egress" || moved change "spec.limits") = true then
    ⟨.red, "raising limits or widening egress of an agent profile is red (CC-70, AG-47)"⟩
  else ⟨.yellow, "agent profile changes require domain approval (CC-63, AG-47)"⟩

def greenReason (change : ResourceChange) : Option String :=
  if change.declared.isNone then none
  else if change.id.kind = "ContextSpace" then
    if specOf change.declared "isSandbox" = some (.bool true) then
      some "an unmanaged sandbox space is self-service (CC-67)"
    else none
  else if change.id.kind = "Dashboard" then
    if ((specOf change.declared "visibility").bind Value.asStr).all
        (fun v => v == "private" || v == "project") then
      some "a dashboard nobody outside the project sees is self-service (CC-63)"
    else none
  else none

def laneOf (change : ResourceChange) : LaneVerdict :=
  if change.action = .unchanged then ⟨.green, "nothing changes"⟩
  else if change.action = .delete then ⟨.red, "a deletion is always red (CC-63, CC-19)"⟩
  else if change.id.kind = "Environment" then
    ⟨.red, "an Environment overlay changes hosts and digests (CC-75)"⟩
  else if ALWAYS_RED.contains change.id.kind then
    ⟨.red, "identity, access, federation and lane policy are red (CC-63, CC-70)"⟩
  else if change.id.kind = "Endpoint" ∧ touchesPublicAudience change = true then
    ⟨.red, "public exposure of an endpoint is red (CC-63)"⟩
  else match publicExposure change with
    | some reason => ⟨.red, reason⟩
    | none =>
      if change.id.kind = "AgentProfile" then laneOfAgentProfile change
      else match greenReason change with
        | some reason => ⟨.green, reason⟩
        | none => ⟨.yellow,
            "an additive change to published configuration needs one domain approver (CC-63)"⟩

def stricter (verdict candidate : LaneVerdict) : LaneVerdict :=
  if verdict.lane < candidate.lane then candidate else verdict

/-- The namespaces of what a change set changes. -/
def changedNamespaces (changes : ChangeSet) : List (Option String) :=
  ((changes.iter.filter fun c => c.action ≠ .unchanged).map (·.id.namespace)).dedup

def laneOfChangeset (changes : ChangeSet) : LaneVerdict :=
  let verdict := (changes.iter.map laneOf).foldl stricter ⟨.green, "nothing changes"⟩
  if (changedNamespaces changes).length > 1 ∧ verdict.lane < .red then
    ⟨.red, "a proposal that crosses domains is red (CC-63)"⟩
  else verdict

/-- The part of the `kind: Change` envelope's status that follows from the lane. -/
def phaseOf (verdict : LaneVerdict) : String :=
  if verdict.lane = .green then "Deploying" else "PendingApproval"

variable {change : ResourceChange} {changes : ChangeSet}

theorem lane_foldl_stricter (verdicts : List LaneVerdict) (verdict : LaneVerdict) (lane : Lane) :
    lane ≤ (verdicts.foldl stricter verdict).lane ↔
      lane ≤ verdict.lane ∨ ∃ v ∈ verdicts, lane ≤ v.lane := by
  induction verdicts generalizing verdict with
  | nil => simp
  | cons v verdicts ih =>
    rw [List.foldl_cons, ih, List.exists_mem_cons_iff, ← or_assoc]
    refine or_congr_left ?_
    unfold stricter
    split_ifs with h
    · exact ⟨Or.inr, fun hor => hor.elim (fun hle => hle.trans h.le) id⟩
    · exact ⟨Or.inl, fun hor => hor.elim id fun hle => hle.trans (not_lt.1 h)⟩

theorem red_of_red_le {lane : Lane} (h : Lane.red ≤ lane) : lane = .red := by
  cases lane
  · exact absurd h (by decide)
  · exact absurd h (by decide)
  · rfl

theorem red_le_iff {lane : Lane} : Lane.red ≤ lane ↔ lane = .red :=
  ⟨red_of_red_le, fun h => h ▸ le_rfl⟩

theorem mem_changedNamespaces {ns : Option String} : ns ∈ changedNamespaces changes ↔
    ∃ c ∈ changes.iter, c.action ≠ .unchanged ∧ c.id.namespace = ns := by
  unfold changedNamespaces
  rw [List.mem_dedup, List.mem_map]
  simp [and_assoc]

theorem two_namespaces_iff : 1 < (changedNamespaces changes).length ↔
    ∃ c ∈ changes.iter, ∃ c' ∈ changes.iter, c.action ≠ .unchanged ∧ c'.action ≠ .unchanged ∧
      c.id.namespace ≠ c'.id.namespace := by
  have hnodup : (changedNamespaces changes).Nodup := List.nodup_dedup _
  constructor
  · intro h
    obtain ⟨a, b, rest, hl⟩ : ∃ a b rest, changedNamespaces changes = a :: b :: rest := by
      rcases hl : changedNamespaces changes with _ | ⟨a, _ | ⟨b, rest⟩⟩
      · simp [hl] at h
      · simp [hl] at h
      · exact ⟨a, b, rest, rfl⟩
    rw [hl] at hnodup
    have hab : a ≠ b := fun hab => (List.nodup_cons.1 hnodup).1 (hab ▸ List.mem_cons_self)
    obtain ⟨c, hc, hact, rfl⟩ := mem_changedNamespaces.1 (hl ▸ List.mem_cons_self : a ∈ changedNamespaces changes)
    obtain ⟨c', hc', hact', rfl⟩ := mem_changedNamespaces.1 (hl ▸ by simp : b ∈ changedNamespaces changes)
    exact ⟨c, hc, c', hc', hact, hact', hab⟩
  · rintro ⟨c, hc, c', hc', hact, hact', hne⟩
    by_contra hlen
    have hmem := mem_changedNamespaces.2 ⟨c, hc, hact, rfl⟩
    have hmem' := mem_changedNamespaces.2 ⟨c', hc', hact', rfl⟩
    rcases hl : changedNamespaces changes with _ | ⟨a, _ | ⟨b, rest⟩⟩
    · simp [hl] at hmem
    · simp only [hl, List.mem_singleton] at hmem hmem'
      exact hne (hmem.trans hmem'.symm)
    · simp [hl] at hlen

/-- A change set is red where one of its changes is, or where it changes two namespaces. -/
theorem laneOfChangeset_red_iff : (laneOfChangeset changes).lane = .red ↔
    (∃ c ∈ changes.iter, (laneOf c).lane = .red) ∨
      ∃ c ∈ changes.iter, ∃ c' ∈ changes.iter, c.action ≠ .unchanged ∧ c'.action ≠ .unchanged ∧
        c.id.namespace ≠ c'.id.namespace := by
  have hfold : (((changes.iter.map laneOf).foldl stricter ⟨.green, "nothing changes"⟩).lane = .red) ↔
      ∃ c ∈ changes.iter, (laneOf c).lane = .red := by
    rw [← red_le_iff, lane_foldl_stricter]
    simp [red_le_iff]
  rw [← two_namespaces_iff, ← hfold]
  unfold laneOfChangeset
  simp only []
  split_ifs with h
  · simp [h.1]
  · refine ⟨Or.inl, fun hor => hor.elim id fun hlen => ?_⟩
    by_contra hne
    exact h ⟨hlen, lt_of_not_ge fun hle => hne (red_of_red_le hle)⟩

end JoinedContext.Jcctl

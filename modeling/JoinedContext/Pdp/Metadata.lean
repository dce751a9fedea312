import JoinedContext.Library.SortedMap
import JoinedContext.Odrl.Manifest
import JoinedContext.Pdp.Evaluator
import Mathlib.Data.String.Basic

/-!
# The metadata members a caller's grants pass

Per attribute, the members are united across the caller's grants and those a prohibition lists are
taken back. An answer is stripped of the others, unless the grants pass all that the broker sends.
-/

namespace JoinedContext.Metadata

open Odrl (MetadataMember AttributeCapabilities)

abbrev Members := Finset MetadataMember

def ALL : Members :=
  {.observedAt, .unitCode, .createdAt, .modifiedAt, .modifiedByOrganization, .modifiedByActorKind,
    .modifiedByActor, .provenance, .reason}

/-- The members the broker sends only to a caller holding `readVersions`. -/
def WITH_VERSIONS : Members :=
  {.modifiedByOrganization, .modifiedByActorKind, .modifiedByActor, .provenance, .reason}

/-- The provenance members a version answer keeps without the `provenance` member. -/
def VERSION_PROVENANCE : List String := ["writtenAt", "operation", "organization", "actorKind"]

/-- The keys of an entity that are not attributes. -/
def NOT_ATTRIBUTES : List String :=
  ["id", "type", "@context", "scope", "createdAt", "modifiedAt", "deletedAt"]

theorem mem_ALL (m : MetadataMember) : m ∈ ALL := by cases m <;> decide

/-- One grant's members: per attribute its block names, and for every other attribute. -/
structure Grant where
  named : SortedMap String Members
  rest : Members

def Grant.members (g : Grant) (name : String) : Members := (g.named.get? name).getD g.rest

structure Passed where
  grants : List Grant
  taken : List Grant

section Blocks

def isPublic (policy : Odrl.PolicySpec) : Bool :=
  policy.assignee.kind == .role && policy.assignee.id == "public"

/-- The audience's defaults. -/
def defaults (forPublic : Bool) : Members :=
  {.observedAt, .unitCode, .modifiedAt} ∪
    if forPublic then ∅ else {.modifiedByOrganization, .modifiedByActorKind}

/-- What the blocks of a policy say of each attribute, entry by entry. -/
def blocks (policy : Odrl.PolicySpec) : List (String × AttributeCapabilities) :=
  policy.information.flatMap Odrl.RegistrationInfo.attributes

def extend (name : String) (listed : Members) (named : SortedMap String Members) :
    SortedMap String Members :=
  named.insert name ((named.get? name).getD ∅ ∪ listed)

def grantedEntry (read : SortedMap String Members × Option Members)
    (entry : String × AttributeCapabilities) : SortedMap String Members × Option Members :=
  match entry.2.metadata with
  | none => read
  | some listed =>
    if entry.1 = "*" then (read.1, some (read.2.getD ∅ ∪ listed.toFinset))
    else (extend entry.1 listed.toFinset read.1, read.2)

def neverPublic (members : Members) : Members := members \ {.modifiedByActor, .provenance}

/-- A permission's members. -/
def granted (policy : Odrl.PolicySpec) : Grant :=
  let read := (blocks policy).foldl grantedEntry (SortedMap.empty, none)
  let blocked := policy.information.any fun i => !i.attributes.isEmpty
  let rest := match read.2 with
    | some star => star
    | none => if blocked then defaults (isPublic policy) else ALL
  if isPublic policy then ⟨read.1.mapValues neverPublic, neverPublic rest⟩ else ⟨read.1, rest⟩

def prohibitedEntry (grant : Grant) (entry : String × AttributeCapabilities) : Grant :=
  let listed := (entry.2.metadata.getD []).toFinset
  if entry.1 = "*" then { grant with rest := grant.rest ∪ listed }
  else { grant with named := extend entry.1 listed grant.named }

/-- A prohibition's members: only those its block lists. -/
def prohibited (policy : Odrl.PolicySpec) : Grant :=
  (blocks policy).foldl prohibitedEntry ⟨SortedMap.empty, ∅⟩

end Blocks

/-- A policy as the evaluator reads it, without the blocks of its attributes. -/
def decided (policy : Odrl.PolicySpec) : JoinedContext.PolicySpec where
  effect := policy.effect
  assignee := policy.assignee
  operations := policy.operations
  information := policy.information.map fun i => ⟨i.entities, i.propertyNames, i.relationshipNames⟩
  q := policy.q
  scopeQ := policy.scopeQ
  geoQ := policy.geoQ
  temporalQ := policy.temporalQ
  validity := policy.validity

section Passing

variable (subject : Subject) (policies : List Odrl.PolicySpec) (operation : Operation)
  (versions : Bool) (now : Instant)

def applying : List Odrl.PolicySpec :=
  policies.filter fun p => Evaluator.applies subject operation now (decided p)

/-- What the grants in force pass and take back. -/
def passing : Passed where
  grants := ((applying subject policies operation now).filter fun p =>
    !p.effect.isProhibition).map granted
  taken := ((applying subject policies operation now).filter fun p =>
    p.effect.isProhibition).map prohibited

/-- The members the broker sends. -/
def sent : Members := ALL.filter fun m => versions || m ∉ WITH_VERSIONS

namespace Passed

/-- Every attribute name a block names, and `*` for the others. -/
def names (p : Passed) : List String := (p.grants ++ p.taken).flatMap (·.named.keys) ++ ["*"]

/-- The members passed for an attribute. -/
def members (p : Passed) (name : String) : Members :=
  p.taken.foldl (fun members taken => members \ taken.members name)
    (p.grants.foldl (fun members grant => members ∪ grant.members name) ∅)

/-- What the subject's grants of the operation pass now; `none` when they pass every member the
broker sends. -/
def of : Option Passed :=
  let passed := passing subject policies operation now
  if passed.names.any fun name => decide (¬sent versions ⊆ passed.members name) then some passed
  else none

end Passed

end Passing

section Strip

/-- The members a key of an instance names. -/
def PLAIN : List (MetadataMember × String) :=
  [(.observedAt, "observedAt"), (.unitCode, "unitCode"), (.createdAt, "createdAt"),
    (.modifiedAt, "modifiedAt")]

/-- The members a key of its `modifiedBy` names. -/
def MODIFIED_BY : List (MetadataMember × String) :=
  [(.modifiedByOrganization, "organization"), (.modifiedByActorKind, "actorKind"),
    (.modifiedByActor, "actor")]

def withheld (listed : List (MetadataMember × String)) (members : Members) (key : String) : Bool :=
  listed.any fun m => m.2 == key && decide (m.1 ∉ members)

def strippedModifiedBy (members : Members) (changed : List (String × Value)) :
    List (String × Value) :=
  changed.filter fun m => !withheld MODIFIED_BY members m.1

def keepsProvenance (members : Members) (key : String) : Bool :=
  VERSION_PROVENANCE.contains key || key == "reason" && decide (.reason ∈ members)

def strippedProvenance (members : Members) (provenance : List (String × Value)) :
    List (String × Value) :=
  provenance.filter fun m => keepsProvenance members m.1

/-- One member of an instance, unless it goes. Each step of the source looks one of them up by its
key, which an object has once. -/
def stripMember (members : Members) (key : String) (value : Value) : Option Value :=
  if withheld PLAIN members key then none
  else if key = "modifiedBy" then
    match value with
    | .obj changed =>
      if (strippedModifiedBy members changed).isEmpty then none
      else some (.obj (strippedModifiedBy members changed))
    | value => some value
  else if key = "provenance" ∧ .provenance ∉ members then
    match value with
    | .obj provenance => some (.obj (strippedProvenance members provenance))
    | value => some value
  else some value

/-- Strips one attribute instance; `none` drops it whole: a temporal `values` list whose times are a
member the caller may not read. -/
def stripInstance (members : Members) (parts : List (String × Value)) :
    Option (List (String × Value)) :=
  if (parts.any fun m => m.1 == "values") && decide (.observedAt ∉ members) then none
  else some (Assoc.filterMapValues (fun m => stripMember members m.1 m.2) parts)

def stripItem (members : Members) : Value → Option Value
  | .obj parts => (stripInstance members parts).map .obj
  | value => some value

namespace Passed

variable (p : Passed)

def stripAttribute (name : String) : Value → Option Value
  | .obj parts => (stripInstance (p.members name) parts).map .obj
  | .arr items => some (.arr (items.filterMap (stripItem (p.members name))))
  | value => some value

def stripEntity (entity : List (String × Value)) : List (String × Value) :=
  Assoc.filterMapValues
    (fun m => if m.1 ∈ NOT_ATTRIBUTES then some m.2 else p.stripAttribute m.1 m.2) entity

def stripFeatureMember : String × Value → String × Value
  | ("properties", .obj properties) => ("properties", .obj (p.stripEntity properties))
  | other => other

def stripFeature : Value → Value
  | .obj feature => .obj (feature.map p.stripFeatureMember)
  | value => value

def stripCollectionMember : String × Value → String × Value
  | ("features", .arr features) => ("features", .arr (features.map p.stripFeature))
  | other => other

mutual

/-- Strips every member not passed from an answer: one entity, a list of them, their temporal
evolutions with versions, or a GeoJSON feature collection. -/
def strip : Value → Value
  | .arr items => .arr (stripAll items)
  | .obj object =>
    match object.lookup "features" with
    | some (.arr _) => .obj (object.map p.stripCollectionMember)
    | _ => .obj (p.stripEntity object)
  | value => value

def stripAll : List Value → List Value
  | [] => []
  | item :: rest => strip item :: stripAll rest

end

end Passed

end Strip

section Law

variable {p : Passed} {name : String} {m : MetadataMember}

theorem mem_foldl_union {grants : List Grant} {members : Members} :
    m ∈ grants.foldl (fun members grant => members ∪ grant.members name) members ↔
      m ∈ members ∨ ∃ g ∈ grants, m ∈ g.members name := by
  induction grants generalizing members with
  | nil => simp
  | cons g rest ih =>
    rw [List.foldl_cons, ih, Finset.mem_union, List.exists_mem_cons_iff, or_assoc]

theorem mem_foldl_sdiff {taken : List Grant} {members : Members} :
    m ∈ taken.foldl (fun members t => members \ t.members name) members ↔
      m ∈ members ∧ ∀ t ∈ taken, m ∉ t.members name := by
  induction taken generalizing members with
  | nil => simp
  | cons t rest ih =>
    rw [List.foldl_cons, ih, Finset.mem_sdiff, List.forall_mem_cons, and_assoc]

/-- A member passes where a grant passes it and no prohibition takes it back. -/
theorem mem_members : m ∈ p.members name ↔
    (∃ g ∈ p.grants, m ∈ g.members name) ∧ ∀ t ∈ p.taken, m ∉ t.members name := by
  rw [Passed.members, mem_foldl_sdiff, mem_foldl_union]
  simp

theorem mem_sent {versions : Bool} : m ∈ sent versions ↔ versions = true ∨ m ∉ WITH_VERSIONS := by
  simp [sent, mem_ALL]

/-- The grants of the public never pass who made a change, nor a whole provenance. -/
theorem public_never {policy : Odrl.PolicySpec} (h : isPublic policy = true) (name : String) :
    .modifiedByActor ∉ (granted policy).members name ∧
      .provenance ∉ (granted policy).members name := by
  have hgrant : ∀ m ∈ (granted policy).members name,
      m ∉ ({.modifiedByActor, .provenance} : Members) := by
    intro m hm
    simp only [granted, if_pos h, Grant.members, SortedMap.get?_mapValues] at hm
    rcases hget : ((blocks policy).foldl grantedEntry (SortedMap.empty, none)).1.get? name with
      _ | members
    · rw [hget] at hm
      exact (Finset.mem_sdiff.1 hm).2
    · rw [hget] at hm
      exact (Finset.mem_sdiff.1 hm).2
  exact ⟨fun hm => hgrant _ hm (by decide), fun hm => hgrant _ hm (by decide)⟩

end Law

section Names

/-- No block names the attribute `*`, which stands for those no block names. -/
def Grant.Starless (g : Grant) : Prop := g.named.get? "*" = none

theorem get?_extend {name other : String} {listed : Members} {named : SortedMap String Members}
    (hne : other ≠ name) : (extend name listed named).get? other = named.get? other := by
  rw [extend, SortedMap.get?_insert, if_neg hne]

theorem grantedEntry_starless {read : SortedMap String Members × Option Members}
    {entry : String × AttributeCapabilities} (h : read.1.get? "*" = none) :
    (grantedEntry read entry).1.get? "*" = none := by
  unfold grantedEntry
  split
  · exact h
  · split_ifs with hstar
    · exact h
    · rw [get?_extend (Ne.symm hstar)]
      exact h

theorem foldl_grantedEntry_starless (l : List (String × AttributeCapabilities))
    {read : SortedMap String Members × Option Members} (h : read.1.get? "*" = none) :
    (l.foldl grantedEntry read).1.get? "*" = none := by
  induction l generalizing read with
  | nil => exact h
  | cons entry rest ih => exact ih (grantedEntry_starless h)

theorem granted_starless (policy : Odrl.PolicySpec) : (granted policy).Starless := by
  have hread : ((blocks policy).foldl grantedEntry (SortedMap.empty, none)).1.get? "*" = none :=
    foldl_grantedEntry_starless _ rfl
  unfold Grant.Starless granted
  by_cases hpublic : isPublic policy = true
  · simp only [if_pos hpublic, SortedMap.get?_mapValues, hread, Option.map_none]
  · simp only [if_neg hpublic, hread]

theorem foldl_prohibitedEntry_starless {grant : Grant} (l : List (String × AttributeCapabilities))
    (h : grant.Starless) : (l.foldl prohibitedEntry grant).Starless := by
  induction l generalizing grant with
  | nil => exact h
  | cons entry rest ih =>
    refine ih ?_
    unfold prohibitedEntry
    dsimp only
    split_ifs with hstar
    · exact h
    · exact (get?_extend (Ne.symm hstar)).trans h

theorem prohibited_starless (policy : Odrl.PolicySpec) : (prohibited policy).Starless :=
  foldl_prohibitedEntry_starless _ rfl

theorem Grant.members_of_unnamed {g : Grant} {name : String} (hstar : g.Starless)
    (hname : name ∉ g.named.keys) : g.members name = g.members "*" := by
  have hnone : g.named.get? name = none := by
    simpa [SortedMap.mem_keys] using hname
  rw [Grant.members, Grant.members, hnone, hstar]

/-- The blocks of a Passed that a policy gave. -/
structure Passed.Starless (p : Passed) : Prop where
  grants : ∀ g ∈ p.grants, g.Starless
  taken : ∀ g ∈ p.taken, g.Starless

theorem passing_starless (subject : Subject) (policies : List Odrl.PolicySpec)
    (operation : Operation) (now : Instant) :
    (passing subject policies operation now).Starless where
  grants g hg := by
    obtain ⟨policy, -, rfl⟩ := List.mem_map.1 hg
    exact granted_starless policy
  taken g hg := by
    obtain ⟨policy, -, rfl⟩ := List.mem_map.1 hg
    exact prohibited_starless policy

namespace Passed

variable {p : Passed} {name : String}

/-- An attribute no block names passes what `*` does. -/
theorem members_of_unnamed (hstar : p.Starless) (hname : name ∉ p.names) :
    p.members name = p.members "*" := by
  have hkeys : ∀ g, g ∈ p.grants ∨ g ∈ p.taken → name ∉ g.named.keys := fun g hg hkey =>
    hname (List.mem_append_left _ (List.mem_flatMap.2 ⟨g, List.mem_append.2 hg, hkey⟩))
  ext m
  rw [mem_members, mem_members]
  refine and_congr ?_ ?_
  · refine exists_congr fun g => and_congr_right fun hg => ?_
    rw [(Grant.members_of_unnamed (hstar.grants g hg) (hkeys g (Or.inl hg)))]
  · refine forall₂_congr fun t ht => ?_
    rw [(Grant.members_of_unnamed (hstar.taken t ht) (hkeys t (Or.inr ht)))]

/-- What holds of the names the blocks give holds of every attribute. -/
theorem forall_names_iff (hstar : p.Starless) {P : Members → Prop} :
    (∀ name ∈ p.names, P (p.members name)) ↔ ∀ name, P (p.members name) := by
  refine ⟨fun h name => ?_, fun h name _ => h name⟩
  by_cases hname : name ∈ p.names
  · exact h name hname
  · rw [members_of_unnamed hstar hname]
    exact h "*" (List.mem_append_right _ (List.mem_singleton_self "*"))

/-- Stripping is skipped exactly where every attribute passes every member the broker sends. -/
theorem of_eq_none_iff {subject : Subject} {policies : List Odrl.PolicySpec} {operation : Operation}
    {versions : Bool} {now : Instant} :
    Passed.of subject policies operation versions now = none ↔
      ∀ name, sent versions ⊆ (passing subject policies operation now).members name := by
  rw [← forall_names_iff (passing_starless subject policies operation now)]
  unfold Passed.of
  dsimp only
  split_ifs with hany
  · refine iff_of_false (by simp) fun hall => ?_
    obtain ⟨name, hname, hnot⟩ := List.any_eq_true.1 hany
    exact of_decide_eq_true hnot (hall name hname)
  · refine iff_of_true rfl fun name hname => not_not.1 fun hnot => hany ?_
    exact List.any_eq_true.2 ⟨name, hname, decide_eq_true hnot⟩

end Passed

end Names

end JoinedContext.Metadata

import JoinedContext.Core.Json
import Mathlib.Data.Finset.Basic

/-!
# System members and the projection of an entity

The members every entity carries stay whatever is granted; every other member survives only if a
whitelist names it and no denial does.
-/

namespace JoinedContext

namespace SystemMembers

def entitySystemMembers : List String :=
  ["id", "type", "scope", "@context", "createdAt", "modifiedAt", "deletedAt", "expiresAt"]

def isEntitySystemMember (name : String) : Bool :=
  name ∈ entitySystemMembers || name ∈ ["@id", "@type"]

end SystemMembers

namespace Projection

def brokerSet : List String := ["createdAt", "modifiedAt", "deletedAt"]

/-- Whether a whitelist has to name the member for a write to carry it. -/
def needsGrant (name : String) : Bool :=
  !SystemMembers.isEntitySystemMember name || name ∈ brokerSet

def ungranted (entity : Value) (granted : Finset String) : List String :=
  if granted = ∅ then [] else entity.keys.filter fun name => needsGrant name && name ∉ granted

/-- An entity without every attribute the grants do not name and every one the endpoint hides. -/
def projectEntity (entity : Value) (granted hidden : Finset String) : Value :=
  if granted = ∅ ∧ hidden = ∅ then entity
  else
    match entity with
    | .obj members => .obj (members.filter fun member =>
        SystemMembers.isEntitySystemMember member.1 ||
          ((decide (granted = ∅) || member.1 ∈ granted) && member.1 ∉ hidden))
    | other => other

/-- Only what the whitelist names and no denial does is served, system members apart. -/
theorem mem_keys_projectEntity {entity : Value} {granted hidden : Finset String} {name : String} :
    name ∈ (projectEntity entity granted hidden).keys ↔
      name ∈ entity.keys ∧ (SystemMembers.isEntitySystemMember name = true ∨
        (granted = ∅ ∨ name ∈ granted) ∧ name ∉ hidden) := by
  unfold projectEntity
  split_ifs with h
  · simp [h.1, h.2]
  · rcases entity with _ | _ | _ | _ | _ | members
    · simp [Value.keys, Value.asObject]
    · simp [Value.keys, Value.asObject]
    · simp [Value.keys, Value.asObject]
    · simp [Value.keys, Value.asObject]
    · simp [Value.keys, Value.asObject]
    · simp only [Value.keys_obj, List.mem_map, List.mem_filter, Bool.or_eq_true,
        Bool.and_eq_true, decide_eq_true_eq]
      constructor
      · rintro ⟨member, ⟨hmem, hkept⟩, rfl⟩
        exact ⟨⟨member, hmem, rfl⟩, hkept⟩
      · rintro ⟨⟨member, hmem, rfl⟩, hkept⟩
        exact ⟨member, ⟨hmem, hkept⟩, rfl⟩

theorem ungranted_eq_nil {entity : Value} {granted : Finset String} :
    ungranted entity granted = [] ↔
      granted = ∅ ∨ ∀ name ∈ entity.keys, needsGrant name = true → name ∈ granted := by
  unfold ungranted
  split_ifs with h
  · simp [h]
  · simp [h, List.filter_eq_nil_iff]

end Projection

end JoinedContext

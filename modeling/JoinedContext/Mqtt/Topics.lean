import JoinedContext.Core.Urn
import JoinedContext.Library.Outcome
import JoinedContext.Library.Wildcard

/-!
# Topic filters

The one validator of a role's topic filters and the one matcher of a publish. A filter that passes
the validator is a pattern of levels, and the covering of filters and the matching of topics are
those of the patterns.
-/

namespace JoinedContext.Mqtt

open Names

inductive Error where
  | name (e : NameError)
  | invalid (field reason : String)
deriving DecidableEq

/-- The refusal of `spec.{field}`, with the requirement it enforces. -/
def invalid (field reason : String) : Error :=
  .invalid ("spec." ++ field) (reason ++ " (MF-54)")

/-- The placeholder the broker replaces with the verified client id. -/
def clientId : String := "$\x7bclientid\x7d"

namespace Topics

open Wildcard

def maxFilterBytes : Nat := 128

def maxLevels : Nat := 8

def levels (s : String) : List String := Text.splitAny ['/'] s

def checkLevel (refuse : String → Except Error Unit) (isLast : Bool) (level : String) :
    Except Error Unit :=
  if level = "" then refuse "has an empty level"
  else if '\x00' ∈ level.toList then refuse "holds a NUL"
  else if '#' ∈ level.toList ∧ (level ≠ "#" ∨ ¬ isLast) then
    refuse "uses `#` other than as the whole last level"
  else if '+' ∈ level.toList ∧ level ≠ "+" then refuse "uses `+` other than as a whole level"
  else if Text.contains "$\x7b" level ∧ level ≠ clientId then
    refuse ("uses a placeholder other than " ++ clientId ++ " as a whole level")
  else .ok ()

def check (field filter : String) : Except Error Unit :=
  let refuse := fun why => Except.error (invalid field ("`" ++ filter ++ "` " ++ why))
  let levels := levels filter
  if filter = "" ∨ maxFilterBytes < filter.utf8ByteSize then
    refuse ("is not 1 to " ++ toString maxFilterBytes ++ " bytes long")
  else if Text.startsWith '$' filter ∧ (Text.stripPrefix clientId filter).isNone then
    refuse "names a broker system topic"
  else if maxLevels < levels.length then
    refuse ("has more than " ++ toString maxLevels ++ " levels")
  else if levels.all (· ∈ ["+", "#"]) then refuse "is wildcards alone and reaches every topic"
  else levels.zipIdx.forM fun c => checkLevel refuse (c.2 + 1 = levels.length) c.1

def underClientIdLevels : List String → Bool
  | [] => false
  | level :: rest =>
    if level = clientId then true
    else if level = "+" ∨ level = "#" then false
    else underClientIdLevels rest

/-- Whether a filter reaches only topics under the client's own id: a client id level comes before
any wildcard. -/
def underClientId (filter : String) : Bool := underClientIdLevels (levels filter)

def coversLevels : List String → List String → Bool
  | [], narrow => narrow.isEmpty
  | level :: _, [] => level = "#"
  | level :: wide, part :: narrow =>
    level = "#" || ((if level = "+" then part ≠ "#" else part = level) && coversLevels wide narrow)

/-- Whether every topic `narrow` reaches, `wide` reaches too, for the same client. -/
def covers (wide narrow : String) : Bool := coversLevels (levels wide) (levels narrow)

def matchesLevels (clientid : String) : List String → List String → Bool
  | [], topic => topic.isEmpty
  | level :: _, [] => level = "#"
  | level :: filter, part :: topic =>
    level = "#" ||
      ((if level = "+" then true else if level = clientId then part = clientid else part = level) &&
        matchesLevels clientid filter topic)

/-- Whether the topic is under the filter, the placeholder standing for the level `clientid`. A
wildcard never reaches a `$` topic. -/
def matchesTopic (filter topic clientid : String) : Bool :=
  if Text.startsWith '$' topic ∨ '+' ∈ topic.toList ∨ '#' ∈ topic.toList then false
  else matchesLevels clientid (levels filter) (levels topic)

/-! ## Filters as patterns -/

/-- A level of a filter with the client's id put in. -/
def level (clientid l : String) : Level String :=
  if l = "#" then .rest
  else if l = "+" then .one
  else if l = clientId then .lit clientid
  else .lit l

def pattern (clientid filter : String) : List (Level String) := (levels filter).map (level clientid)

@[simp] theorem level_rest (clientid : String) : level clientid "#" = .rest := rfl

@[simp] theorem level_one (clientid : String) : level clientid "+" = .one := rfl

theorem level_lit (clientid : String) {l : String} (hrest : l ≠ "#") (hone : l ≠ "+") :
    level clientid l = .lit (if l = clientId then clientid else l) := by
  unfold level
  rw [if_neg hrest, if_neg hone]
  split_ifs <;> rfl

theorem level_eq_rest {clientid l : String} : level clientid l = .rest ↔ l = "#" := by
  unfold level
  split_ifs with h <;> simp [h]

/-- The level an id that is no level of the filter stands at is the placeholder. -/
theorem eq_of_level_eq_lit {clientid l part : String} (hl : clientid ≠ l) (hp : clientid ≠ part)
    (h : level clientid part = .lit (if l = clientId then clientid else l)) : part = l := by
  rcases eq_or_ne part "#" with rfl | hrest
  · cases h
  rcases eq_or_ne part "+" with rfl | hone
  · cases h
  rw [level_lit clientid hrest hone, Level.lit.injEq] at h
  split_ifs at h with hpart hclient hclient
  · rw [hpart, hclient]
  · exact (hl h).elim
  · exact (hp h.symm).elim
  · exact h

theorem matchesLevels_iff {clientid : String} : ∀ {filter topic : List String},
    matchesLevels clientid filter topic = true ↔ Matches (filter.map (level clientid)) topic
  | [], topic => by simp [matchesLevels, Matches]
  | l :: filter, topic => by
    rw [List.map_cons]
    rcases eq_or_ne l "#" with rfl | hrest
    · cases topic <;> simp [matchesLevels, Matches]
    rcases eq_or_ne l "+" with rfl | hone
    · cases topic <;> simp [matchesLevels, Matches, matchesLevels_iff]
    rw [level_lit clientid hrest hone]
    cases topic with
    | nil => simp [matchesLevels, Matches, hrest]
    | cons part topic =>
      rw [matchesLevels, Matches, ← matchesLevels_iff, decide_eq_false hrest, Bool.false_or,
        if_neg hone]
      split_ifs <;> simp

theorem covers_of_coversLevels (clientid : String) : ∀ {wide narrow : List String},
    coversLevels wide narrow = true →
      Wildcard.covers (wide.map (level clientid)) (narrow.map (level clientid)) = true
  | [], narrow, h => by
    rw [coversLevels, List.isEmpty_iff] at h
    rw [h]
    rfl
  | l :: wide, [], h => by
    obtain rfl : l = "#" := of_decide_eq_true h
    rfl
  | l :: wide, part :: narrow, h => by
    rw [List.map_cons, List.map_cons]
    rcases eq_or_ne l "#" with rfl | hrest
    · rfl
    have h := (Bool.or_eq_true _ _).mp h
    obtain ⟨hpart, h⟩ := Bool.and_eq_true_iff.1 (h.resolve_left (by simpa using hrest))
    have ih := covers_of_coversLevels clientid h
    rcases eq_or_ne l "+" with rfl | hone
    · have hpart : level clientid part ≠ .rest := level_eq_rest.not.2 (by simpa using hpart)
      simp [Wildcard.covers, ih, hpart]
    · rw [if_neg hone] at hpart
      obtain rfl : part = l := of_decide_eq_true hpart
      simp [level_lit clientid hrest hone, Wildcard.covers, ih]

/-- Under an id that is no level of the filters, their patterns cover only where they do. -/
theorem coversLevels_of_covers {clientid : String} : ∀ {wide narrow : List String},
    clientid ∉ wide → clientid ∉ narrow →
      Wildcard.covers (wide.map (level clientid)) (narrow.map (level clientid)) = true →
        coversLevels wide narrow = true
  | [], narrow, _, _, h => by simpa [coversLevels, Wildcard.covers] using h
  | l :: wide, narrow, hw, hn, h => by
    rw [List.map_cons] at h
    rcases eq_or_ne l "#" with rfl | hrest
    · cases narrow <;> simp [coversLevels]
    obtain ⟨hl, hwide⟩ := not_or.1 (List.mem_cons.not.1 hw)
    cases narrow with
    | nil =>
      rcases eq_or_ne l "+" with rfl | hone
      · cases h
      · rw [level_lit clientid hrest hone] at h
        cases h
    | cons part narrow =>
      obtain ⟨hp, hnarrow⟩ := not_or.1 (List.mem_cons.not.1 hn)
      rw [List.map_cons] at h
      rcases eq_or_ne l "+" with rfl | hone
      · obtain ⟨hpart, hrec⟩ := Bool.and_eq_true_iff.1 h
        have hne : part ≠ "#" := level_eq_rest.not.1 (of_decide_eq_true hpart)
        simp [coversLevels, hne, coversLevels_of_covers hwide hnarrow hrec]
      · rw [level_lit clientid hrest hone] at h
        obtain ⟨hpart, hrec⟩ := Bool.and_eq_true_iff.1 h
        obtain rfl := eq_of_level_eq_lit hl hp (of_decide_eq_true hpart)
        simp [coversLevels, hone, coversLevels_of_covers hwide hnarrow hrec]

end Topics

end JoinedContext.Mqtt

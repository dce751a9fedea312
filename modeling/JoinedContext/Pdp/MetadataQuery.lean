import JoinedContext.Pdp.Stripping
import JoinedContext.Query.Referenced

/-!
# A query by a metadata member

A query that filters or orders by a member stripped for its attribute is refused. The check cuts the
texts of `q` and `orderBy` into words; what the query reads is what the broker's own parser makes of
them, and what its defaults add.
-/

namespace JoinedContext.Metadata

open Odrl (MetadataMember)

section Check

def isSeparator (c : Char) : Bool :=
  c ∈ [';', '|', '(', ')', '!', '=', '<', '>', '~', ',', '"'] || Text.whitespace c

def words (text : String) : List String := (text.toList.splitOnP isSeparator).map String.ofList

/-- The member a path names after its attribute, and the word it is refused by. -/
def memberNamed (member : String) (rest : Option String) : Option (MetadataMember × String) :=
  if member = "observedAt" then some (.observedAt, "observedAt")
  else if member = "unitCode" then some (.unitCode, "unitCode")
  else if member = "createdAt" then some (.createdAt, "createdAt")
  else if member = "modifiedAt" then some (.modifiedAt, "modifiedAt")
  else if member = "modifiedBy" then
    if rest = some "organization" then some (.modifiedByOrganization, "modifiedBy.organization")
    else if rest = some "actorKind" then some (.modifiedByActorKind, "modifiedBy.actorKind")
    else some (.modifiedByActor, "modifiedBy.actor")
  else none

structure Named where
  name : String
  member : MetadataMember
  word : String

def namedMember (word : String) : Option Named :=
  match Text.splitAny ['.'] word with
  | head :: member :: rest =>
    let name := (Text.splitAny ['['] head).headD ""
    (memberNamed member rest.head?).bind fun m =>
      if name = "" then none else some ⟨name, m.1, m.2⟩
  | _ => none

/-- What a `q` or `orderBy` names as `attr.member`. -/
def namedMembers (text : String) : List Named := (words text).filterMap namedMember

def namedTime (value : String) : List Named :=
  if value = "observedAt" then [⟨"*", .observedAt, "observedAt"⟩]
  else if value = "createdAt" then [⟨"*", .createdAt, "createdAt"⟩]
  else if value = "modifiedAt" then [⟨"*", .modifiedAt, "modifiedAt"⟩]
  else []

def namedBy (name value : String) : List Named :=
  if name = "q" ∨ name = "orderBy" then namedMembers value
  else if name = "timeproperty" then namedTime value
  else []

namespace Passed

variable (p : Passed)

/-- Whether a member passes for every attribute, the unnamed ones included. -/
def everywhere (member : MetadataMember) : Bool :=
  p.names.all fun name => decide (member ∈ p.members name)

def strips (named : Named) : Bool :=
  if named.name = "*" then !p.everywhere named.member
  else decide (named.member ∉ p.members named.name)

def refusalDetail (name : String) (named : Named) : String :=
  let what := if named.name = "*" then "\x60" ++ named.word ++ "\x60"
    else "\x60" ++ named.name ++ "." ++ named.word ++ "\x60"
  name ++ " names " ++ what ++ ", a metadata member your access does not pass; ask without it"

/-- The detail of the `400` a query earns that filters or orders by a member stripped for its
attribute: `q`, `orderBy` and a temporal `timeproperty`. -/
def refusal (params : List (String × String)) : Option String :=
  params.findSome? fun pair =>
    ((namedBy pair.1 pair.2).find? p.strips).map (refusalDetail pair.1)

end Passed

end Check

section Reading

/-- What a trailing bracket of a path holds, as the steps of a path. -/
def bracketKeys (bracket : String) : List String :=
  (Text.splitAny ['.', ']'] bracket).filter (· ≠ "")

/-- The attribute a path is about and the steps it takes below an instance of it. An expanded or
compact IRI is the term it ends in; a bracket goes into the value of what comes before it, which for
a bare attribute is no metadata. -/
def readPath (path : String) : String × List String :=
  let last := if Query.contains "://" path then Query.afterLast ['/', '#'] path else path
  let (dotted, bracket) := (Text.splitOnce '[' last).getD (last, "")
  match Text.splitAny ['.'] dotted with
  | [] => ("", [])
  | [head] => (Query.afterLast [':'] head, [])
  | head :: keys => (Query.afterLast [':'] head, keys ++ bracketKeys bracket)

/-- A query: its parameters, the body of one that is posted, and whether it is a temporal one. -/
structure QueryRequest where
  params : List (String × String)
  body : Option Value
  temporal : Bool

def textMember (value : Value) (key : String) : List (String × String) :=
  (((value.get key).bind Value.asStr).map (key, ·)).toList

/-- What a posted query asks, under the names of the parameters. -/
def bodyMembers (body : Value) : List (String × String) :=
  textMember body "q" ++ textMember body "orderBy" ++ (body.get "temporalQ").elim [] fun temporalQ =>
    textMember temporalQ "timerel" ++ textMember temporalQ "timeproperty"

def QueryRequest.asked (r : QueryRequest) : List (String × String) :=
  r.params ++ r.body.elim [] bodyMembers

def TIME_PROPERTIES : List String := ["observedAt", "createdAt", "modifiedAt"]

/-- The query filters or orders by what the path leads to below an attribute. A time property is one
of every attribute, and a temporal query without one is by `observedAt`. -/
inductive Uses (crates : Crates) (r : QueryRequest) : String → List String → Prop where
  | q {text path : String} : ("q", text) ∈ r.asked → crates.parseQ text = true →
    path ∈ crates.attributePaths text → Uses crates r (readPath path).1 (readPath path).2
  | orderBy {text item : String} : ("orderBy", text) ∈ r.asked → item ∈ Text.splitAny [','] text →
    Uses crates r (readPath (Query.directionless item)).1 (readPath (Query.directionless item)).2
  | timeproperty {member : String} (name : String) : ("timeproperty", member) ∈ r.asked →
    member ∈ TIME_PROPERTIES → Uses crates r name [member]
  | observed (name : String) {timerel : String} : r.temporal = true →
    ("timerel", timerel) ∈ r.asked → (∀ member, ("timeproperty", member) ∉ r.asked) →
    Uses crates r name ["observedAt"]

/-- What a path leads to in a JSON value. -/
def follow : List String → Value → Option Value
  | [], value => some value
  | key :: keys, value => (value.get key).bind (follow keys)

/-- Stripping takes what the path leads to out of some instance of the attribute, one that is not
dropped whole and whose `modifiedBy`, if it has one, is not empty. -/
def Taken (p : Passed) (name : String) (keys : List String) : Prop :=
  ∃ parts, (parts.map Prod.fst).Nodup ∧ timesWithheld (p.members name) parts = false ∧
    ("modifiedBy", .obj []) ∉ parts ∧ (follow keys (.obj parts)).isSome = true ∧
    ∀ left, stripInstance (p.members name) parts = some left → follow keys (.obj left) = none

/-- No query uses what stripping would take. -/
def NoOracle (crates : Crates) (p : Passed) (r : QueryRequest) : Prop :=
  (∃ name keys, Uses crates r name keys ∧ Taken p name keys) → (p.refusal r.params).isSome = true

end Reading

section Taking

variable {p : Passed} {name : String} {keys : List String}

/-- Whether a path leads to a member that is not passed. -/
def withheldPath (members : Members) : List String → Bool
  | [] => false
  | [key] => withheld PLAIN members key ||
    key == "modifiedBy" && MODIFIED_BY.any fun m => decide (m.1 ∉ members)
  | key :: next :: _ => withheld PLAIN members key ||
    key == "modifiedBy" && withheld MODIFIED_BY members next ||
    key == "provenance" && decide (.provenance ∉ members) && !keepsProvenance members next

/-- A value the path leads to something in. -/
def leading : List String → Value
  | [] => .null
  | key :: keys => .obj [(key, leading keys)]

theorem follow_leading : ∀ keys : List String, (follow keys (leading keys)).isSome = true
  | [] => rfl
  | key :: keys => by
    simp [follow, leading, follow_leading keys]

theorem stripInstance_eq {members : Members} {parts : List (String × Value)}
    (h : timesWithheld members parts = false) : stripInstance members parts =
      some (Assoc.filterMapValues (fun m => stripMember members m.1 m.2) parts) := by
  rw [stripInstance]
  change (if timesWithheld members parts = true then none else _) = _
  rw [h, if_neg Bool.false_ne_true]

/-- An instance of one member that stripping takes. -/
theorem taken_of_member {key : String} (value : Value) {rest : List String}
    (hvalues : key ≠ "values") (hempty : ¬(key = "modifiedBy" ∧ value = .obj []))
    (hleads : (follow rest value).isSome = true)
    (hleft : (stripMember (p.members name) key value).bind (follow rest) = none) :
    Taken p name (key :: rest) := by
  have htimes : timesWithheld (p.members name) [(key, value)] = false := by
    simp [timesWithheld, hvalues]
  refine ⟨[(key, value)], by simp, htimes, by simpa [eq_comm] using hempty, ?_, fun left hleft' => ?_⟩
  · simpa [follow] using hleads
  · rw [stripInstance_eq htimes, Option.some_inj] at hleft'
    subst hleft'
    rw [follow, Value.get_obj, Assoc.lookup_filterMapValues (by simp)]
    simpa using hleft

theorem plain_ne {members : Members} {key : String} (h : withheld PLAIN members key = true) :
    key ≠ "values" ∧ key ≠ "modifiedBy" := by
  constructor <;> rintro rfl <;> simp [withheld, PLAIN] at h

theorem stripMember_of_withheld {members : Members} {key : String} {value : Value}
    (h : withheld PLAIN members key = true) : stripMember members key value = none := by
  unfold stripMember
  exact if_pos h

theorem withheld_modifiedBy (members : Members) : withheld PLAIN members "modifiedBy" = false := by
  simp [withheld, PLAIN]

theorem withheld_provenance (members : Members) : withheld PLAIN members "provenance" = false := by
  simp [withheld, PLAIN]

theorem stripMember_modifiedBy (members : Members) (changed : List (String × Value)) :
    stripMember members "modifiedBy" (.obj changed) =
      if (strippedModifiedBy members changed).isEmpty then none
      else some (.obj (strippedModifiedBy members changed)) := by
  simp [stripMember, withheld_modifiedBy]

theorem stripMember_provenance {members : Members} (h : .provenance ∉ members)
    (source : List (String × Value)) :
    stripMember members "provenance" (.obj source) =
      some (.obj (strippedProvenance members source)) := by
  simp [stripMember, withheld_provenance, h]

/-- A `modifiedBy` of one member that is not passed goes. -/
theorem taken_of_modifiedBy {next : String} (rest : List String) {path : List String}
    (hnext : withheld MODIFIED_BY (p.members name) next = true)
    (hleads : (follow path (.obj [(next, leading rest)])).isSome = true) :
    Taken p name ("modifiedBy" :: path) := by
  refine taken_of_member (.obj [(next, leading rest)]) (by decide) (by simp) hleads ?_
  simp [stripMember_modifiedBy, strippedModifiedBy, hnext]

theorem taken_of_withheldPath (h : withheldPath (p.members name) keys = true) :
    Taken p name keys := by
  have hplain : ∀ {key : String} {rest : List String}, withheld PLAIN (p.members name) key = true →
      Taken p name (key :: rest) := by
    intro key rest hkey
    obtain ⟨hvalues, hmodified⟩ := plain_ne hkey
    refine taken_of_member (leading rest) hvalues (fun h => hmodified h.1)
      (follow_leading rest) ?_
    rw [stripMember_of_withheld hkey, Option.bind_none]
  match keys with
  | [] => cases h
  | [key] =>
    simp only [withheldPath, Bool.or_eq_true, Bool.and_eq_true, beq_iff_eq] at h
    rcases h with h | ⟨rfl, h⟩
    · exact hplain h
    · obtain ⟨m, hm, hnot⟩ := List.any_eq_true.1 h
      have hnext : withheld MODIFIED_BY (p.members name) m.2 = true :=
        List.any_eq_true.2 ⟨m, hm, by simpa using hnot⟩
      exact taken_of_modifiedBy [] hnext rfl
  | key :: next :: rest =>
    simp only [withheldPath, Bool.or_eq_true, Bool.and_eq_true, beq_iff_eq, decide_eq_true_eq,
      Bool.not_eq_true'] at h
    rcases h with (h | ⟨rfl, h⟩) | ⟨⟨rfl, hprovenance⟩, hnext⟩
    · exact hplain h
    · exact taken_of_modifiedBy rest h (follow_leading (next :: rest))
    · refine taken_of_member (.obj [(next, leading rest)]) (by decide) (by simp)
        (follow_leading (next :: rest)) ?_
      simp [stripMember_provenance hprovenance, strippedProvenance, hnext, follow]

theorem follow_filter (keep : String → Bool) {next : String} {rest : List String}
    {members : List (String × Value)} (h : keep next = true) :
    follow (next :: rest) (.obj (members.filter fun c => keep c.1)) =
      follow (next :: rest) (.obj members) := by
  rw [follow, follow, Value.get_obj, Value.get_obj, Assoc.lookup_filter_key, if_pos h]

/-- What a path of members that are passed leads to stays. -/
theorem follow_stripMember {members : Members} {key : String} {rest : List String} {value : Value}
    (hpath : withheldPath members (key :: rest) = false)
    (hempty : ¬(key = "modifiedBy" ∧ value = .obj []))
    (hleads : (follow rest value).isSome = true) :
    ((stripMember members key value).bind (follow rest)).isSome = true := by
  have hplain : withheld PLAIN members key = false := by
    rcases rest with _ | ⟨next, rest⟩ <;>
      simp only [withheldPath, Bool.or_eq_false_iff] at hpath
    · exact hpath.1
    · exact hpath.1.1
  unfold stripMember
  rw [hplain, if_neg Bool.false_ne_true]
  split_ifs with hmodified hprovenance
  · subst hmodified
    cases value with
    | obj changed =>
      rcases rest with _ | ⟨next, rest⟩
      · have hall : strippedModifiedBy members changed = changed := by
          refine List.filter_eq_self.2 fun c _ => ?_
          simp only [withheldPath, Bool.or_eq_false_iff, beq_self_eq_true, Bool.true_and,
            List.any_eq_false] at hpath
          have hpassed : withheld MODIFIED_BY members c.1 = false :=
            withheld_eq_false fun m hm => by simpa using hpath.2 m hm
          rw [hpassed]
          rfl
        have hne : changed ≠ [] := fun h => hempty ⟨rfl, by rw [h]⟩
        simp [hall, hne, follow]
      · simp only [withheldPath, Bool.or_eq_false_iff, beq_self_eq_true, Bool.true_and] at hpath
        rw [← follow_filter (fun k => !withheld MODIFIED_BY members k)
          (by rw [hpath.1.2]; rfl)] at hleads
        have hne : ¬(strippedModifiedBy members changed).isEmpty = true := fun hnil => by
          rw [List.isEmpty_iff] at hnil
          change (follow _ (.obj (strippedModifiedBy members changed))).isSome = true at hleads
          rw [hnil] at hleads
          cases hleads
        dsimp only
        rw [if_neg hne]
        exact hleads
    | _ => simpa using hleads
  · obtain ⟨rfl, hwithheld⟩ := hprovenance
    cases value with
    | obj source =>
      rcases rest with _ | ⟨next, rest⟩
      · rfl
      · simp only [withheldPath, Bool.or_eq_false_iff, beq_self_eq_true, Bool.true_and,
          decide_eq_true hwithheld, Bool.not_eq_false'] at hpath
        rw [← follow_filter (keepsProvenance members) hpath.2] at hleads
        exact hleads
    | _ => simpa using hleads
  · simpa using hleads

/-- Stripping takes what a path leads to exactly where it leads to a member that is not passed. -/
theorem taken_iff : Taken p name keys ↔ withheldPath (p.members name) keys = true := by
  refine ⟨fun h => ?_, taken_of_withheldPath⟩
  obtain ⟨parts, hnodup, htimes, hempty, hleads, hleft⟩ := h
  by_contra hpath
  rw [Bool.not_eq_true] at hpath
  have hnone := hleft _ (stripInstance_eq htimes)
  rcases keys with _ | ⟨key, rest⟩
  · cases hnone
  · rw [follow, Value.get_obj] at hleads hnone
    rw [Assoc.lookup_filterMapValues hnodup] at hnone
    cases hvalue : parts.lookup key with
    | none =>
      rw [hvalue] at hleads
      cases hleads
    | some value =>
      rw [hvalue, Option.bind_some] at hleads hnone
      have hstays := follow_stripMember hpath (fun h => hempty ?_) hleads
      · rw [hnone] at hstays
        cases hstays
      · rw [← h.1, ← h.2]
        exact Assoc.mem_of_lookup hvalue

end Taking

section Shown

/-- A path whose text is one word, with a short name before the first dot. -/
structure Short (path : String) : Prop where
  chars : ∀ c ∈ path.toList, isSeparator c = false ∧ c ≠ ':' ∧ c ≠ '[' ∧ c ≠ '*'
  nonempty : (readPath path).1 ≠ ""

/-- The uses of a query the check can see: the paths of its `q` and `orderBy` parameters that are
short, and a time property written in one. -/
inductive Seen (crates : Crates) (r : QueryRequest) : String → List String → Prop where
  | q {text path : String} : ("q", text) ∈ r.params → crates.parseQ text = true →
    crates.hasLinkedPaths text = false → path ∈ crates.attributePaths text → Short path →
    Seen crates r (readPath path).1 (readPath path).2
  | orderBy {text item : String} : ("orderBy", text) ∈ r.params → item ∈ Text.splitAny [','] text →
    Short (Query.directionless item) →
    Seen crates r (readPath (Query.directionless item)).1 (readPath (Query.directionless item)).2
  | timeproperty {member : String} (name : String) : ("timeproperty", member) ∈ r.params →
    member ∈ TIME_PROPERTIES → Seen crates r name [member]

/-- Of the paths seen, the check does not read those below `provenance`, and takes the whole of a
`modifiedBy` for its actor. -/
structure Readable (p : Passed) (name : String) (keys : List String) : Prop where
  head : keys.head? ≠ some "provenance"
  whole : keys = ["modifiedBy"] → .modifiedByActor ∉ p.members name

/-- What the broker's parser documents of the paths of a filter: each is written between two of its
separators. -/
def PathsWritten (crates : Crates) : Prop :=
  ∀ text path, crates.parseQ text = true → crates.hasLinkedPaths text = false →
    path ∈ crates.attributePaths text → (∀ c ∈ path.toList, isSeparator c = false) →
    path ∈ words text

/-- A path the text of a parameter filters or orders by. -/
def IsPath (crates : Crates) (pair : String × String) (path : String) : Prop :=
  (pair.1 = "q" ∧ crates.parseQ pair.2 = true ∧ crates.hasLinkedPaths pair.2 = false ∧
    path ∈ crates.attributePaths pair.2) ∨
  (pair.1 = "orderBy" ∧ ∃ item ∈ Text.splitAny [','] pair.2, Query.directionless item = path)

/-- A word of a parameter is a short path of it, and names no part of a `modifiedBy` that there is
not. -/
structure Meant (crates : Crates) (pair : String × String) (word : String) : Prop where
  path : IsPath crates pair word
  short : Short word
  part : ∀ next rest, (readPath word).2 = "modifiedBy" :: next :: rest →
    next ∈ ["organization", "actorKind", "actor"]

/-- A word of a `q` or an `orderBy` spells a member that is not passed without being meant as its
path, as a quoted value may. -/
def Accident (crates : Crates) (p : Passed) (r : QueryRequest) : Prop :=
  ∃ pair ∈ r.params, (pair.1 = "q" ∨ pair.1 = "orderBy") ∧ ∃ word ∈ words pair.2,
    ¬Meant crates pair word ∧ ∃ named, namedMember word = some named ∧ p.strips named = true

/-- A query that uses what stripping would take shows it in a form the check reads, or spells some
other member by accident. -/
def Shown (crates : Crates) (p : Passed) (r : QueryRequest) : Prop :=
  (∃ name keys, Uses crates r name keys ∧ Taken p name keys) →
    (∃ name keys, Seen crates r name keys ∧ Readable p name keys ∧ Taken p name keys) ∨
      Accident crates p r

end Shown

section Words

variable {path : String}

theorem Short.notMem (h : Short path) : ':' ∉ path.toList ∧ '[' ∉ path.toList ∧ '*' ∉ path.toList :=
  ⟨fun hmem => (h.chars _ hmem).2.1 rfl, fun hmem => (h.chars _ hmem).2.2.1 rfl,
    fun hmem => (h.chars _ hmem).2.2.2 rfl⟩

theorem afterLast_eq_self {seps : List Char} {s : String} (h : ∀ c ∈ s.toList, c ∉ seps) :
    Query.afterLast seps s = s := by
  rw [Query.afterLast, Text.splitAny_eq_singleton h]
  rfl

theorem not_contains_scheme (h : ':' ∉ path.toList) : Query.contains "://" path = false := by
  rw [Query.contains, List.any_eq_false]
  intro l hl hprefix
  have hmem : ':' ∈ l := by
    obtain ⟨rest, hrest⟩ := List.isPrefixOf_iff_prefix.1 hprefix
    rw [← hrest]
    simp
  exact h ((List.mem_tails _ _).1 hl |>.subset hmem)

/-- A short path is read at its dots. -/
theorem Short.splitAny_eq (h : Short path) :
    Text.splitAny ['.'] path = (readPath path).1 :: (readPath path).2 := by
  obtain ⟨hcolon, hbracket, -⟩ := h.notMem
  have hhead : ∀ head ∈ Text.splitAny ['.'] path, Query.afterLast [':'] head = head :=
    fun head hmem => afterLast_eq_self fun c hc heq =>
      hcolon (List.mem_singleton.1 heq ▸ Text.mem_of_mem_splitAny hmem hc)
  unfold readPath
  rw [not_contains_scheme hcolon, if_neg Bool.false_ne_true]
  dsimp only
  rw [Text.splitOnce_eq_none hbracket, Option.getD_none]
  dsimp only
  rcases hsplit : Text.splitAny ['.'] path with _ | ⟨head, _ | ⟨key, keys⟩⟩
  · exact absurd hsplit (Text.splitAny_ne_nil _ _)
  · rw [hsplit] at hhead
    simp [hhead head List.mem_cons_self]
  · rw [hsplit] at hhead
    have hnone : bracketKeys "" = [] := by decide
    simp [hhead head List.mem_cons_self, hnone]

theorem Short.head_eq (h : Short path) :
    (Text.splitAny ['['] (readPath path).1).headD "" = (readPath path).1 := by
  have hmem : (readPath path).1 ∈ Text.splitAny ['.'] path := by
    rw [h.splitAny_eq]
    exact List.mem_cons_self
  have hbracket : ∀ c ∈ (readPath path).1.toList, c ∉ ['['] := fun c hc heq => by
    obtain rfl := List.mem_singleton.1 heq
    exact h.notMem.2.1 (Text.mem_of_mem_splitAny hmem hc)
  rw [Text.splitAny_eq_singleton hbracket]
  rfl

theorem Short.name_ne_star (h : Short path) : (readPath path).1 ≠ "*" := fun hstar => by
  have hmem : (readPath path).1 ∈ Text.splitAny ['.'] path := by
    rw [h.splitAny_eq]
    exact List.mem_cons_self
  refine h.notMem.2.2 (Text.mem_of_mem_splitAny hmem ?_)
  rw [hstar]
  decide

/-- A short path names what the step after its attribute is called. -/
theorem Short.namedMember_eq (h : Short path) : namedMember path =
    match (readPath path).2 with
    | [] => none
    | member :: rest =>
      (memberNamed member rest.head?).map fun m => ⟨(readPath path).1, m.1, m.2⟩ := by
  unfold namedMember
  rw [h.splitAny_eq]
  rcases (readPath path).2 with _ | ⟨member, rest⟩
  · rfl
  · dsimp only
    rw [h.head_eq]
    simp only [if_neg h.nonempty]
    cases memberNamed member rest.head? <;> rfl

/-- An item without its direction stands between separators of the whole order. -/
theorem directionless_mem_words {text item : String} (hitem : item ∈ Text.splitAny [','] text)
    (h : Short (Query.directionless item)) : Query.directionless item ∈ words text := by
  obtain ⟨l, hl, rfl⟩ := List.mem_map.1 hitem
  obtain ⟨before, after, htext, hbefore, hafter⟩ := (Text.mem_splitOnP_iff.1 hl).2
  have hpath : (Query.directionless (String.ofList l)).toList =
      (l.dropWhile (· == '!')).takeWhile (· != ';') := by
    simp [Query.directionless, Query.dropBangs]
  refine List.mem_map.2 ⟨_, Text.mem_splitOnP_iff.2 ⟨?_, ?_⟩, String.ofList_toList⟩
  · exact fun c hc => (h.chars c hc).1
  · have hbangs := List.takeWhile_append_dropWhile (p := (· == '!')) (l := l)
    have htail := List.takeWhile_append_dropWhile (p := (· != ';')) (l := l.dropWhile (· == '!'))
    refine ⟨before ++ l.takeWhile (· == '!'), (l.dropWhile (· == '!')).dropWhile (· != ';') ++ after,
      ?_, ?_, ?_⟩
    · rw [hpath, htext]
      conv_lhs => rw [← hbangs, ← htail]
      simp only [List.append_assoc]
    · rw [List.getLast?_append]
      cases hlast : (l.takeWhile (· == '!')).getLast? with
      | none =>
        cases hb : before.getLast? with
        | none => rfl
        | some c =>
          rw [hb] at hbefore
          have hcomma : c = ',' := by simpa using hbefore
          simp [hcomma, isSeparator]
      | some c =>
        have hbang : c = '!' := by
          simpa using List.mem_takeWhile_imp (List.mem_of_getLast? hlast)
        simp [hbang, isSeparator]
    · rw [List.head?_append]
      cases hhead : ((l.dropWhile (· == '!')).dropWhile (· != ';')).head? with
      | none =>
        cases ha : after.head? with
        | none => rfl
        | some c =>
          rw [ha] at hafter
          have hcomma : c = ',' := by simpa using hafter
          simp [hcomma, isSeparator]
      | some c =>
        have hsemicolon : c = ';' := by
          have := List.head?_dropWhile_not (· != ';') (l.dropWhile (· == '!'))
          rw [hhead] at this
          simpa using this
        simp [hsemicolon, isSeparator]

end Words

section Named

variable {p : Passed} {members : Members} {key : String} {rest : List String}

theorem memberNamed_of_plain {m : MetadataMember × String} (h : m ∈ PLAIN)
    (next : Option String) : memberNamed m.2 next = some m := by
  simp only [PLAIN, List.mem_cons, List.not_mem_nil, or_false] at h
  obtain rfl | rfl | rfl | rfl := h <;> rfl

theorem memberNamed_of_withheld (next : Option String) (h : withheld PLAIN members key = true) :
    ∃ m, memberNamed key next = some m ∧ m.1 ∉ members := by
  obtain ⟨m, hm, hnot⟩ := List.any_eq_true.1 h
  simp only [Bool.and_eq_true, beq_iff_eq, decide_eq_true_eq] at hnot
  exact ⟨m, hnot.1 ▸ memberNamed_of_plain hm next, hnot.2⟩

/-- A path to a member that is not passed, one the check reads, is named as such a member. -/
theorem memberNamed_of_withheldPath (hpath : withheldPath members (key :: rest) = true)
    (hhead : key ≠ "provenance")
    (hwhole : key = "modifiedBy" → rest = [] → .modifiedByActor ∉ members) :
    ∃ m, memberNamed key rest.head? = some m ∧ m.1 ∉ members := by
  rcases rest with _ | ⟨next, rest⟩ <;>
    simp only [withheldPath, Bool.or_eq_true, Bool.and_eq_true, beq_iff_eq] at hpath
  · obtain hplain | ⟨rfl, -⟩ := hpath
    · exact memberNamed_of_withheld _ hplain
    · exact ⟨_, rfl, hwhole rfl rfl⟩
  · obtain (hplain | ⟨rfl, hmodified⟩) | ⟨⟨rfl, -⟩, -⟩ := hpath
    · exact memberNamed_of_withheld _ hplain
    · obtain ⟨m, hm, hnot⟩ := List.any_eq_true.1 hmodified
      simp only [Bool.and_eq_true, beq_iff_eq, decide_eq_true_eq] at hnot
      obtain ⟨rfl, hnot⟩ := hnot
      simp only [List.mem_cons, MODIFIED_BY, List.not_mem_nil, or_false] at hm
      obtain rfl | rfl | rfl := hm
      · exact ⟨_, rfl, hnot⟩
      · exact ⟨_, rfl, hnot⟩
      · exact ⟨_, rfl, hnot⟩
    · exact absurd rfl hhead

/-- What the check reads a key as. -/
theorem memberNamed_cases {next : Option String} {m : MetadataMember × String}
    (h : memberNamed key next = some m) : (m ∈ PLAIN ∧ m.2 = key) ∨ (key = "modifiedBy" ∧
      m.1 = if next = some "organization" then .modifiedByOrganization
        else if next = some "actorKind" then .modifiedByActorKind else .modifiedByActor) := by
  unfold memberNamed at h
  split_ifs at h <;> simp_all [PLAIN] <;> simp [← h]

theorem withheldPath_of_memberNamed {m : MetadataMember × String}
    (h : memberNamed key rest.head? = some m) (hnot : m.1 ∉ members)
    (hpart : ∀ next ∈ rest.head?, key = "modifiedBy" →
      next ∈ ["organization", "actorKind", "actor"]) :
    withheldPath members (key :: rest) = true := by
  obtain ⟨hplain, rfl⟩ | ⟨rfl, hm⟩ := memberNamed_cases h
  · have hwithheld : withheld PLAIN members m.2 = true :=
      List.any_eq_true.2 ⟨m, hplain, by simpa using hnot⟩
    rcases rest with _ | ⟨next, rest⟩ <;> simp [withheldPath, hwithheld]
  · rcases rest with _ | ⟨next, rest⟩
    · have hactor : .modifiedByActor ∉ members := by simpa [hm] using hnot
      simp [withheldPath, MODIFIED_BY, hactor]
    · have hnext := hpart next rfl rfl
      simp only [List.mem_cons, List.not_mem_nil, or_false] at hnext
      rw [hm] at hnot
      obtain rfl | rfl | rfl := hnext <;>
        simp_all [withheldPath, withheld, MODIFIED_BY]

end Named

section Refused

variable {crates : Crates} {p : Passed} {r : QueryRequest} {name : String} {keys : List String}

theorem refusal_isSome {params : List (String × String)} : (p.refusal params).isSome = true ↔
    ∃ pair ∈ params, ∃ named ∈ namedBy pair.1 pair.2, p.strips named = true := by
  simp [Passed.refusal, List.findSome?_isSome_iff, Option.isSome_map, List.find?_isSome]

theorem Short.strips_iff {path : String} (h : Short path) {named : Named}
    (hnamed : namedMember path = some named) : named.name = (readPath path).1 ∧
      (p.strips named = true ↔ named.member ∉ p.members (readPath path).1) := by
  rw [h.namedMember_eq] at hnamed
  rcases hkeys : (readPath path).2 with _ | ⟨key, rest⟩
  · rw [hkeys] at hnamed
    cases hnamed
  · rw [hkeys] at hnamed
    obtain ⟨m, -, hm⟩ := Option.map_eq_some_iff.1 hnamed
    have hname : named.name = (readPath path).1 := by rw [← hm]
    refine ⟨hname, ?_⟩
    rw [Passed.strips, hname, if_neg h.name_ne_star, decide_eq_true_eq]

/-- A short word the check reads a member off is refused where the member is not passed. -/
theorem Short.refused {path pname text : String} (h : Short path)
    (hname : pname = "q" ∨ pname = "orderBy") (hpair : (pname, text) ∈ r.params)
    (hword : path ∈ words text) (hread : Readable p (readPath path).1 (readPath path).2)
    (htaken : Taken p (readPath path).1 (readPath path).2) :
    (p.refusal r.params).isSome = true := by
  rw [taken_iff] at htaken
  rcases hkeys : (readPath path).2 with _ | ⟨key, rest⟩
  · rw [hkeys, withheldPath] at htaken
    exact absurd htaken Bool.false_ne_true
  · rw [hkeys] at htaken hread
    obtain ⟨m, hm, hnot⟩ := memberNamed_of_withheldPath htaken
      (fun heq => hread.head (by rw [heq]; rfl)) fun hkey hrest => hread.whole (by rw [hkey, hrest])
    have hnamed : namedMember path = some ⟨(readPath path).1, m.1, m.2⟩ := by
      rw [h.namedMember_eq, hkeys]
      simp [hm]
    refine refusal_isSome.2 ⟨_, hpair, ⟨(readPath path).1, m.1, m.2⟩, ?_,
      ((h.strips_iff hnamed).2).2 hnot⟩
    rw [namedBy, if_pos hname]
    exact List.mem_filterMap.2 ⟨path, hword, hnamed⟩

theorem namedTime_eq {member : String} (h : member ∈ TIME_PROPERTIES) :
    ∃ m ∈ PLAIN, m.2 = member ∧ namedTime member = [⟨"*", m.1, m.2⟩] := by
  simp only [TIME_PROPERTIES, List.mem_cons, List.not_mem_nil, or_false] at h
  obtain rfl | rfl | rfl := h
  · exact ⟨(.observedAt, "observedAt"), by decide, rfl, rfl⟩
  · exact ⟨(.createdAt, "createdAt"), by decide, rfl, rfl⟩
  · exact ⟨(.modifiedAt, "modifiedAt"), by decide, rfl, rfl⟩

theorem everywhere_iff (hstar : p.Starless) {m : MetadataMember} :
    p.everywhere m = true ↔ ∀ name, m ∈ p.members name := by
  rw [← Passed.forall_names_iff hstar (P := fun members => m ∈ members), Passed.everywhere,
    List.all_eq_true]
  simp

theorem namedTime_mem {value : String} {named : Named} (h : named ∈ namedTime value) :
    value ∈ TIME_PROPERTIES ∧ named.name = "*" ∧ (named.member, value) ∈ PLAIN := by
  unfold namedTime at h
  split_ifs at h with hobserved hcreated hmodified
  · obtain rfl := List.mem_singleton.1 h
    exact ⟨by simp [TIME_PROPERTIES, hobserved], rfl, by simp [PLAIN, hobserved]⟩
  · obtain rfl := List.mem_singleton.1 h
    exact ⟨by simp [TIME_PROPERTIES, hcreated], rfl, by simp [PLAIN, hcreated]⟩
  · obtain rfl := List.mem_singleton.1 h
    exact ⟨by simp [TIME_PROPERTIES, hmodified], rfl, by simp [PLAIN, hmodified]⟩
  · cases h

/-- The passed members keep a time property for every attribute, or the one that does not is
stripped of it. -/
theorem strips_time_iff (hstar : p.Starless) {value : String} {named : Named}
    (h : named ∈ namedTime value) :
    p.strips named = true ↔ ∃ name, Taken p name [value] := by
  obtain ⟨htime, hname, hplain⟩ := namedTime_mem h
  rw [Passed.strips, if_pos hname, Bool.not_eq_true', ← Bool.not_eq_true,
    everywhere_iff hstar, not_forall]
  refine exists_congr fun name => ?_
  rw [taken_iff]
  refine ⟨fun hnot => ?_, fun hpath => ?_⟩
  · exact withheldPath_of_memberNamed (memberNamed_of_plain hplain _) hnot (by simp)
  · have hhead : value ≠ "provenance" ∧ value ≠ "modifiedBy" := by
      constructor <;> rintro rfl <;> simp [TIME_PROPERTIES] at htime
    obtain ⟨m, hm, hnot⟩ := memberNamed_of_withheldPath hpath hhead.1
      fun hmodified => absurd hmodified hhead.2
    rw [memberNamed_of_plain hplain, Option.some_inj] at hm
    rwa [← hm] at hnot

theorem refused_of_seen (laws : PathsWritten crates) (hstar : p.Starless)
    (h : Seen crates r name keys) (hread : Readable p name keys) (htaken : Taken p name keys) :
    (p.refusal r.params).isSome = true := by
  cases h with
  | q hpair hparse hlinked hpath hshort =>
    exact hshort.refused (Or.inl rfl) hpair
      (laws _ _ hparse hlinked hpath fun c hc => (hshort.chars c hc).1) hread htaken
  | orderBy hpair hitem hshort =>
    exact hshort.refused (Or.inr rfl) hpair (directionless_mem_words hitem hshort) hread htaken
  | @timeproperty member name hpair hmember =>
    obtain ⟨m, -, hm, hnamed⟩ := namedTime_eq hmember
    have hmem : (⟨"*", m.1, m.2⟩ : Named) ∈ namedTime member := by
      rw [hnamed]
      exact List.mem_singleton_self _
    exact refusal_isSome.2 ⟨_, hpair, _, hmem, (strips_time_iff hstar hmem).2 ⟨name, htaken⟩⟩

/-- What the check refuses a query for, it has seen or mistaken. -/
theorem seen_of_refused (hstar : p.Starless) (h : (p.refusal r.params).isSome = true) :
    (∃ name keys, Seen crates r name keys ∧ Readable p name keys ∧ Taken p name keys) ∨
      Accident crates p r := by
  obtain ⟨⟨pname, text⟩, hpair, named, hnamed, hstrips⟩ := refusal_isSome.1 h
  unfold namedBy at hnamed
  split_ifs at hnamed with hname htime
  · obtain ⟨word, hword, hnamed⟩ := List.mem_filterMap.1 hnamed
    by_cases hmeant : Meant crates (pname, text) word
    swap
    · exact Or.inr ⟨_, hpair, hname, word, hword, hmeant, named, hnamed, hstrips⟩
    left
    have hnot := ((hmeant.short.strips_iff hnamed).2).1 hstrips
    rw [hmeant.short.namedMember_eq] at hnamed
    rcases hkeys : (readPath word).2 with _ | ⟨key, rest⟩
    · rw [hkeys] at hnamed
      cases hnamed
    · rw [hkeys] at hnamed
      obtain ⟨m, hm, hnamed⟩ := Option.map_eq_some_iff.1 hnamed
      rw [← hnamed] at hnot
      have hpath := withheldPath_of_memberNamed hm hnot fun next hnext hkey => by
        rcases rest with _ | ⟨_, rest⟩
        · cases hnext
        · obtain rfl := Option.some_inj.1 hnext
          exact hmeant.part _ rest (by rw [hkeys, hkey])
      refine ⟨(readPath word).1, (readPath word).2, ?_, ⟨fun hhead => ?_, fun hwhole => ?_⟩, ?_⟩
      · rcases hmeant.path with ⟨rfl, hparse, hlinked, hpath⟩ | ⟨rfl, item, hitem, rfl⟩
        · exact .q hpair hparse hlinked hpath hmeant.short
        · exact .orderBy hpair hitem hmeant.short
      · rw [hkeys, List.head?_cons, Option.some_inj] at hhead
        rw [hhead] at hm
        cases hm
      · rw [hkeys, List.cons.injEq] at hwhole
        rw [hwhole.1, hwhole.2] at hm
        cases hm
        exact hnot
      · rw [taken_iff, hkeys]
        exact hpath
  · obtain rfl := htime
    obtain ⟨name, htaken⟩ := (strips_time_iff hstar hnamed).1 hstrips
    have hmember := (namedTime_mem hnamed).1
    refine Or.inl ⟨name, [text], .timeproperty name hpair hmember, ⟨?_, ?_⟩, htaken⟩
    · intro hhead
      cases hhead
      simp [TIME_PROPERTIES] at hmember
    · intro hwhole
      cases hwhole
      simp [TIME_PROPERTIES] at hmember
  · cases hnamed

end Refused

/-- A query cannot learn what stripping would take from it exactly where it shows what it uses. -/
theorem noOracle_iff (crates : Crates) (laws : PathsWritten crates) (subject : Subject)
    (policies : List Odrl.PolicySpec) (operation : Operation) (now : Instant) (r : QueryRequest) :
    NoOracle crates (passing subject policies operation now) r ↔
      Shown crates (passing subject policies operation now) r := by
  have hstar := passing_starless subject policies operation now
  refine ⟨fun h huses => seen_of_refused hstar (h huses), fun h huses => ?_⟩
  rcases h huses with ⟨name, keys, hseen, hread, htaken⟩ | haccident
  · exact refused_of_seen laws hstar hseen hread htaken
  · obtain ⟨⟨pname, text⟩, hpair, hname, word, hword, -, named, hnamed, hstrips⟩ := haccident
    refine refusal_isSome.2 ⟨_, hpair, named, ?_, hstrips⟩
    rw [namedBy, if_pos hname]
    exact List.mem_filterMap.2 ⟨word, hword, hnamed⟩

section Times

/-- The filters of one term, which start with the path they compare. -/
def termCrates : Crates :=
  { bareCrates with
    parseQ := fun _ => true
    attributePaths := fun text => (words text).head?.toList }

/-- A filter by when the level was observed, which the public may not read. -/
def levelTimes : QueryRequest := ⟨[("q", "level.observedAt>1")], none, false⟩

theorem noOracle_levelTimes : NoOracle termCrates unitsPassed levelTimes := by
  have hread : readPath "level.observedAt" = ("level", ["observedAt"]) := by decide +kernel
  have hpaths : termCrates.attributePaths "level.observedAt>1" = ["level.observedAt"] := by
    decide +kernel
  refine (noOracle_iff termCrates (fun text path _ _ hpath _ => ?_) reader [unitRead]
    .queryTemporal 0 levelTimes).2 fun _ => ?_
  · exact List.mem_of_mem_head? (Option.mem_toList.1 hpath)
  · have hshort : Short "level.observedAt" := by
      refine ⟨fun c hc => ?_, by simp [hread]⟩
      have hall : "level.observedAt".toList.all fun c =>
          !isSeparator c && c != ':' && c != '[' && c != '*' := by decide +kernel
      simpa [and_assoc] using List.all_eq_true.1 hall c hc
    have hseen : Seen termCrates levelTimes "level" ["observedAt"] := by
      have hpath : Seen termCrates levelTimes (readPath "level.observedAt").1
          (readPath "level.observedAt").2 :=
        .q List.mem_cons_self rfl rfl (by simp [hpaths]) hshort
      rwa [hread] at hpath
    exact Or.inl ⟨_, _, hseen, ⟨by decide, by decide⟩, taken_iff.2 (by decide +kernel)⟩

/-- The levels of a time before some instant, by the property a query means that names none. -/
def pastLevels : QueryRequest :=
  ⟨[("timerel", "before"), ("timeAt", "2026-11-01T10:00:00Z")], none, true⟩

/-- The query is by when the level was observed, which the public may not read, and is answered. -/
theorem noOracle_not_pastLevels : ¬NoOracle termCrates unitsPassed pastLevels ∧
    unitsPassed.refusal pastLevels.params = none := by
  have hnone : unitsPassed.refusal pastLevels.params = none := by decide +kernel
  refine ⟨fun h => ?_, hnone⟩
  have hrefused := h ⟨"level", ["observedAt"], .observed "level" rfl
    (List.mem_append_left _ List.mem_cons_self) ?_, taken_iff.2 (by decide +kernel)⟩
  · rw [hnone] at hrefused
    cases hrefused
  · intro member hmember
    simp [QueryRequest.asked, pastLevels] at hmember

end Times

end JoinedContext.Metadata

import JoinedContext.Pdp.WriteGuard
import JoinedContext.Query.Codec
import JoinedContext.Query.Referenced
import JoinedContext.Relationships.Batch

/-!
# The division of a batch write

A batch is judged entry by entry: a malformed entry refuses the whole body, and otherwise the
entries the grants permit go on and the others are answered under their ids. Later guards divide
what is left in the same way, and the broker's answer to the rest is merged with the refusals.
-/

namespace JoinedContext.Writes

open Relationships (batchEntryId Divided divide)
open WriteGuard (namesAttribute)

section Problems

structure ProblemDetails where
  status : ℕ
  slug : String
  title : String
  detail : Option String := none
  field : Option String := none
deriving DecidableEq

namespace ProblemDetails

def PROBLEM_TYPE_BASE : String := "https://joinedcontext.com/errors/"

def badRequest : ProblemDetails := { status := 400, slug := "bad-request", title := "Bad Request" }

def forbidden : ProblemDetails :=
  { status := 403, slug := "forbidden", title := "Access Denied by Policy" }

def urnScheme : ProblemDetails :=
  { status := 400, slug := "urn-scheme", title := "Entity Identifier Violates the URN Scheme" }

def withDetail (p : ProblemDetails) (detail : String) : ProblemDetails :=
  { p with detail := some detail }

def withField (p : ProblemDetails) (field : String) : ProblemDetails :=
  { p with field := some field }

def toValue (p : ProblemDetails) : Value :=
  .obj ([("type", .str (PROBLEM_TYPE_BASE ++ p.slug)), ("title", .str p.title),
    ("status", .num p.status 0)] ++ (p.detail.map fun d => ("detail", Value.str d)).toList ++
      (p.field.map fun f => ("field", Value.str f)).toList)

end ProblemDetails

def refusalText : WriteGuard.Refusal → String
  | .malformedId id => "entity id is not a valid NGSI-LD URN: " ++ id
  | .typeOutsideGrant kind => "entity type \x60" ++ kind ++ "\x60 is outside the grant"
  | .idOutsideGrant id => "entity id \x60" ++ id ++ "\x60 is outside the grant"
  | .attributeOutsideGrant name => "attribute \x60" ++ name ++ "\x60 is outside the grant"
  | .scopeOutsideGrant scope => "scope \x60" ++ scope ++ "\x60 is outside the granted scopes"
  | .scopeMissing =>
    "the entity names no scope, and the grant covers only entities inside its scopes"
  | .locationOutsideGrant => "the entity's location lies outside the granted area"
  | .smuggledPolicyAttribute name =>
    "attribute \x60" ++ name ++ "\x60 is access control and does not belong in an entity"

/-- A malformed identifier is a bad request; everything else is a decision that does not say which
rule decided it. -/
def problemOf (refusal : WriteGuard.Refusal) : ProblemDetails :=
  match refusal with
  | .malformedId _ => (ProblemDetails.urnScheme.withField "id").withDetail (refusalText refusal)
  | _ => ProblemDetails.forbidden

abbrev Refused := List (String × ProblemDetails)

end Problems

section Paths

def segments (path : String) : List String := (Text.splitAny ['/'] path).filter (· ≠ "")

/-- The entity a path of a single resource names. -/
def addressedEntity (path : String) : Option String :=
  match segments path with
  | "entities" :: id :: _ => some id
  | "temporal" :: "entities" :: id :: _ => some id
  | _ => none

/-- The single attribute a path addresses. -/
def targetedAttribute (path : String) : Option String :=
  match segments path with
  | ["entities", _, "attrs", attr] => some (Query.decode attr)
  | "temporal" :: "entities" :: _ :: "attrs" :: attr :: _ => some (Query.decode attr)
  | _ => none

end Paths

section Judge

/-- The classes of a space's one model. -/
structure DeclaredTypes where
  model : String
  classes : Finset String

/-- A type written as an IRI is compared by its local name. -/
def DeclaredTypes.declares (declared : DeclaredTypes) (entityType : String) : Bool :=
  decide (entityType ∈ declared.classes) ||
    decide (Query.afterLast ['/', '#', ':'] entityType ∈ declared.classes)

/-- What of an Endpoint a write is judged by. -/
structure Endpoint where
  hiddenAttributes : Finset String
  declaredTypes : Option DeclaredTypes

variable (crates : Crates) (F : Type) [Float64 F] (c : Constraints) (endpoint : Endpoint)

def typeOf (entity : Value) : Option Value := entity.get "type" <|> entity.get "@type"

/-- The types an entity names; `none` where they are no string. -/
def typesOf : Value → Option (List String)
  | .str one => some [one]
  | .arr many => some (many.filterMap Value.asStr)
  | _ => none

def undeclaredType (entity : Value) : Option ProblemDetails :=
  endpoint.declaredTypes.bind fun declared =>
    (typeOf entity).bind fun kind =>
      match typesOf kind with
      | none => some (ProblemDetails.badRequest.withDetail "entity type is not a string")
      | some types => (types.find? fun kind => !declared.declares kind).map fun missing =>
          ProblemDetails.badRequest.withDetail ("entity type \x60" ++ missing ++
            "\x60 is not a class of the space's data model \x60" ++ declared.model ++
            "\x60 (DM-61)")

/-- What an Endpoint does not show cannot be changed through it. -/
def hiddenRefusal (key : String) : Option ProblemDetails :=
  if ∃ hidden ∈ endpoint.hiddenAttributes, namesAttribute key hidden = true then
    some (problemOf (.attributeOutsideGrant key))
  else none

/-- The write of an addressed entity names that entity and no other. -/
def checkAddressed (entity : Value) (addressed : Option String) : Except ProblemDetails Unit :=
  match addressed, entity with
  | some pathId, .obj object =>
    if (object.lookup "id" <|> object.lookup "@id").any (·.asStr != some pathId) then
      .error (ProblemDetails.badRequest.withDetail "the body names another entity than the path")
    else
      match object.lookup "type" <|> object.lookup "@type" with
      | none => .ok ()
      | some kind =>
        (WriteGuard.checkIdentifier pathId (some (kind.asStr.getD ""))).mapError problemOf
  | _, _ => .ok ()

/-- A batch delete is an array of URNs, each an identifier and nothing else. -/
def guarded (entity : Value) : Except WriteGuard.Refusal Unit :=
  match entity.asStr with
  | some raw => do
    WriteGuard.checkIdentifier raw none
    WriteGuard.checkGrantedId crates raw c
  | none =>
    if (entity.get "id").isSome || (entity.get "@id").isSome then
      WriteGuard.check crates F entity c
    else WriteGuard.checkFragment crates F entity c

/-- Checks one entity of a write against the grants and the Endpoint. -/
def refuseEntity (entity : Value) (addressed : Option String) : Except ProblemDetails Unit :=
  match undeclaredType endpoint entity with
  | some problem => .error problem
  | none => do
    checkAddressed entity addressed
    match entity.keys.findSome? (hiddenRefusal endpoint) with
    | some problem => .error problem
    | none => (guarded crates F c entity).mapError problemOf

/-- The batch operations whose entities are judged one by one. -/
def divides (operation : Operation) : Bool :=
  operation ∈ [.createBatch, .upsertBatch, .updateBatch, .mergeBatch, .deleteBatch]

inductive Judged where
  | whole
  | divided (permitted : List Value) (refused : Refused)
deriving DecidableEq

def divideEntries : List Value → List Value → Refused → Except ProblemDetails (List Value × Refused)
  | [], permitted, refused => .ok (permitted, refused)
  | entry :: rest, permitted, refused =>
    match refuseEntity crates F c endpoint entry none with
    | .ok () => divideEntries rest (permitted ++ [entry]) refused
    | .error problem =>
      if problem.status = 400 then .error problem
      else divideEntries rest permitted (refused ++ [((batchEntryId entry).getD "", problem)])

def divideBatch (entries : List Value) : Except ProblemDetails Judged :=
  if entries.any fun entry => (batchEntryId entry).isNone then
    .error (ProblemDetails.badRequest.withDetail
      "every entry of a batch operation names its entity by a string id")
  else
    (divideEntries crates F c endpoint entries [] []).map fun divided =>
      if divided.2 = [] then .whole else .divided divided.1 divided.2

def refuseAll : List Value → Option String → Except ProblemDetails Unit
  | [], _ => .ok ()
  | entity :: rest, addressed => do
    refuseEntity crates F c endpoint entity addressed
    refuseAll rest addressed

/-- Judges a write body: an entity whole, a batch divided per entity unless one of them is
malformed. -/
def judgeWrite (body : Option Value) (path : String) (operation : Operation) :
    Except ProblemDetails Judged :=
  match body with
  | none => .error (ProblemDetails.badRequest.withDetail "request body is not JSON")
  | some payload =>
    let addressed := (addressedEntity path).map Query.decode
    match (targetedAttribute path).elim payload fun name => .obj [(name, payload)] with
    | .arr entries =>
      if divides operation then divideBatch crates F c endpoint entries
      else (refuseAll crates F c endpoint entries addressed).map fun _ => .whole
    | other => (refuseEntity crates F c endpoint other addressed).map fun _ => .whole

end Judge

section Merge

/-- What a later guard makes of the entries still sent: those it keeps, and the refusals of the
others. -/
structure Split where
  kept : List Value
  refused : Refused

/-- A batch on its way: the entries still sent, and what guards have refused of it. -/
structure Sending where
  entries : List Value
  divided : Divided ProblemDetails

namespace Sending

/-- A guard divides what is still sent. A batch nothing is left of is answered at once. -/
def guarded (s : Sending) (split : Split) : Except Refused Sending :=
  if split.refused = [] then .ok { s with entries := split.kept }
  else
    (divide s.divided (split.kept.filterMap batchEntryId) split.refused split.kept.isEmpty).map
      fun divided => ⟨split.kept, divided⟩

def guardedAll : Sending → List Split → Except Refused Sending
  | s, [] => .ok s
  | s, split :: rest => do guardedAll (← s.guarded split) rest

end Sending

/-- A judged batch as the split of its entries. -/
def Judged.split (entries : List Value) : Judged → Split
  | .whole => ⟨entries, []⟩
  | .divided permitted refused => ⟨permitted, refused⟩

def refusalEntries (refused : Refused) : List Value :=
  refused.map fun r => .obj [("entityId", .str r.1), ("error", r.2.toValue)]

/-- What the body of an answer is read as. -/
inductive Payload where
  | tooLarge
  | unread
  | json (value : Value)

structure BrokerAnswer where
  status : ℕ
  payload : Payload

def BrokerAnswer.isSuccess (answer : BrokerAnswer) : Bool :=
  decide (200 ≤ answer.status ∧ answer.status < 300)

/-- A batch answer of its own, or an internal error. -/
inductive Merged where
  | internal
  | result (success errors : List Value)

def batchResult (success errors : List Value) : Merged := .result success errors

def listed (name : String) (result : Value) : List Value :=
  ((result.get name).bind Value.asArray).getD []

def brokerFailure (answer : BrokerAnswer) : Value :=
  match answer.payload with
  | .json (.obj problem) => .obj problem
  | _ => ProblemDetails.toValue
      { status := answer.status, slug := "broker-failure",
        title := "The context broker could not answer" }

/-- What the broker made of the entries forwarded: those it applied and those it did not. -/
def outcome (answer : BrokerAnswer) (forwarded : List String) : List Value × List Value :=
  if answer.isSuccess then
    match answer.payload with
    | .json (.obj result) =>
      if answer.status = 207 then (listed "success" (.obj result), listed "errors" (.obj result))
      else (forwarded.map .str, [])
    | .json (.arr ids) => (ids, [])
    | _ => (forwarded.map .str, [])
  else
    ([], forwarded.map fun id => .obj [("entityId", .str id), ("error", brokerFailure answer)])

/-- The broker's answer to the permitted part of a divided batch with the gateway's refusals beside
it. A multi-status is extended, a success without an id list means that every forwarded id was
applied, and a refusal of the whole part is answered for each of its entities. -/
def mergedBatch (answer : BrokerAnswer) (forwarded : List String) (refused : Refused) : Merged :=
  match answer.payload with
  | .tooLarge => .internal
  | _ =>
    batchResult (outcome answer forwarded).1
      ((outcome answer forwarded).2 ++ refusalEntries refused)

end Merge

section Judging

variable {crates : Crates} {F : Type} [Float64 F] {c : Constraints} {endpoint : Endpoint}
variable {entries : List Value}

/-- An entry that names no id, or that is a bad request. -/
def Malformed (crates : Crates) (F : Type) [Float64 F] (c : Constraints) (endpoint : Endpoint)
    (entry : Value) : Prop :=
  batchEntryId entry = none ∨
    ∃ problem, refuseEntity crates F c endpoint entry none = .error problem ∧ problem.status = 400

/-- What refuses an entry, under its id. -/
def refusalOf (crates : Crates) (F : Type) [Float64 F] (c : Constraints) (endpoint : Endpoint)
    (entry : Value) : Option (String × ProblemDetails) :=
  match refuseEntity crates F c endpoint entry none with
  | .ok () => none
  | .error problem => some ((batchEntryId entry).getD "", problem)

theorem refusalOf_eq_none {entry : Value} : refusalOf crates F c endpoint entry = none ↔
    refuseEntity crates F c endpoint entry none = .ok () := by
  unfold refusalOf
  rcases refuseEntity crates F c endpoint entry none with problem | ⟨⟩ <;> simp

/-- The entries that are not refused, in their order. -/
def permittedOf (crates : Crates) (F : Type) [Float64 F] (c : Constraints) (endpoint : Endpoint)
    (entries : List Value) : List Value :=
  entries.filter fun entry => (refusalOf crates F c endpoint entry).isNone

variable (crates F c endpoint) in
theorem divideEntries_eq : ∀ (entries permitted : List Value) (refused : Refused),
    (∃ problem, divideEntries crates F c endpoint entries permitted refused = .error problem ∧
      problem.status = 400 ∧
      ∃ entry ∈ entries, refuseEntity crates F c endpoint entry none = .error problem) ∨
    (divideEntries crates F c endpoint entries permitted refused =
        .ok (permitted ++ permittedOf crates F c endpoint entries,
          refused ++ entries.filterMap (refusalOf crates F c endpoint)) ∧
      ∀ entry ∈ entries, ∀ problem,
        refuseEntity crates F c endpoint entry none = .error problem → problem.status ≠ 400)
  | [], permitted, refused => by
    right
    simp [divideEntries, permittedOf]
  | entry :: rest, permitted, refused => by
    rw [divideEntries]
    rcases hentry : refuseEntity crates F c endpoint entry none with problem | ⟨⟩
    · have hrefusal : refusalOf crates F c endpoint entry =
          some ((batchEntryId entry).getD "", problem) := by
        rw [refusalOf, hentry]
      dsimp only
      split_ifs with hstatus
      · exact Or.inl ⟨problem, rfl, hstatus, entry, List.mem_cons_self, hentry⟩
      · rcases divideEntries_eq rest permitted
            (refused ++ [((batchEntryId entry).getD "", problem)]) with
          ⟨other, hother, hbad, e, he, hrefuse⟩ | ⟨hok, hgood⟩
        · exact Or.inl ⟨other, hother, hbad, e, List.mem_cons_of_mem _ he, hrefuse⟩
        · refine Or.inr ⟨?_, fun e he p hp => ?_⟩
          · rw [hok]
            simp [permittedOf, hrefusal]
          · rcases List.mem_cons.1 he with rfl | he
            · rw [hentry, Except.error.injEq] at hp
              rwa [← hp]
            · exact hgood e he p hp
    · have hrefusal : refusalOf crates F c endpoint entry = none := refusalOf_eq_none.2 hentry
      dsimp only
      rcases divideEntries_eq rest (permitted ++ [entry]) refused with
        ⟨other, hother, hbad, e, he, hrefuse⟩ | ⟨hok, hgood⟩
      · exact Or.inl ⟨other, hother, hbad, e, List.mem_cons_of_mem _ he, hrefuse⟩
      · refine Or.inr ⟨?_, fun e he p hp => ?_⟩
        · rw [hok]
          simp [permittedOf, hrefusal]
        · rcases List.mem_cons.1 he with rfl | he
          · rw [hentry] at hp
            cases hp
          · exact hgood e he p hp

/-- A batch judged exactly: refused whole for a malformed entry, or each entry either permitted or
refused under its id, both in the order sent. -/
def JudgedExactly (crates : Crates) (F : Type) [Float64 F] (c : Constraints) (endpoint : Endpoint)
    (entries : List Value) : Except ProblemDetails Judged → Prop
  | .error problem => problem.status = 400 ∧ ∃ entry ∈ entries, Malformed crates F c endpoint entry
  | .ok judged => (∀ entry ∈ entries, ¬Malformed crates F c endpoint entry) ∧
      (judged.split entries).kept = permittedOf crates F c endpoint entries ∧
      (judged.split entries).refused = entries.filterMap (refusalOf crates F c endpoint)

variable (crates F c endpoint entries) in
theorem judgedExactly_divideBatch :
    JudgedExactly crates F c endpoint entries (divideBatch crates F c endpoint entries) := by
  unfold divideBatch
  split_ifs with hnone
  · obtain ⟨entry, hentry, hid⟩ := List.any_eq_true.1 hnone
    exact ⟨rfl, entry, hentry, Or.inl (Option.isNone_iff_eq_none.1 hid)⟩
  · have hids : ∀ entry ∈ entries, batchEntryId entry ≠ none := fun entry hentry hid =>
      hnone (List.any_eq_true.2 ⟨entry, hentry, by rw [hid]; rfl⟩)
    rcases divideEntries_eq crates F c endpoint entries [] [] with
      ⟨problem, herror, hbad, entry, hentry, hrefuse⟩ | ⟨hok, hgood⟩
    · rw [herror]
      exact ⟨hbad, entry, hentry, Or.inr ⟨problem, hrefuse, hbad⟩⟩
    · rw [hok]
      have hwell : ∀ entry ∈ entries, ¬Malformed crates F c endpoint entry := by
        rintro entry hentry (hid | ⟨problem, hrefuse, hbad⟩)
        · exact hids entry hentry hid
        · exact hgood entry hentry problem hrefuse hbad
      simp only [Except.map, List.nil_append]
      split_ifs with hrefused
      · refine ⟨hwell, ?_, hrefused.symm⟩
        refine (List.filter_eq_self.2 fun entry hentry => ?_).symm
        simpa using List.filterMap_eq_nil_iff.1 hrefused entry hentry
      · exact ⟨hwell, rfl, rfl⟩

end Judging

section Accounts

variable {crates : Crates} {F : Type} [Float64 F] {c : Constraints} {endpoint : Endpoint}
variable {ids forwarded : List String} {refused : Refused} {s s' : Sending} {split : Split}
variable {entries : List Value}

/-- The ids the entries of a batch name. -/
def entryIds (entries : List Value) : List String := entries.filterMap batchEntryId

/-- A guard neither loses an entry nor names one twice. -/
def Split.Of (split : Split) (entries : List Value) : Prop :=
  (entryIds split.kept ++ split.refused.map Prod.fst).Perm (entryIds entries)

/-- Guards in a row, each of which divides what the one before it kept. -/
def Divides : List Value → List Split → Prop
  | _, [] => True
  | entries, split :: rest => split.Of entries ∧ Divides split.kept rest

/-- Every id of the batch is still sent or is refused, once. -/
def Sending.Accounted (ids : List String) (s : Sending) : Prop :=
  match s.divided with
  | none => (entryIds s.entries).Perm ids
  | some (forwarded, refused) => refused ≠ [] ∧ forwarded.Perm (entryIds s.entries) ∧
      (forwarded ++ refused.map Prod.fst).Perm ids

theorem Sending.Accounted.perm (h : s.Accounted ids) :
    (entryIds s.entries ++ ((s.divided.map Prod.snd).getD []).map Prod.fst).Perm ids := by
  obtain ⟨entries, _ | ⟨forwarded, refused⟩⟩ := s
  · simpa [Accounted] using h
  · exact (h.2.1.symm.append_right _).trans h.2.2

/-- What a guard keeps and refuses is accounted for, and where it keeps nothing every id has been
refused. -/
theorem Sending.Accounted.guarded (h : s.Accounted ids) (hsplit : split.Of s.entries) :
    (∀ refused, s.guarded split = .error refused → (refused.map Prod.fst).Perm ids) ∧
      ∀ s', s.guarded split = .ok s' → s'.Accounted ids ∧ s'.entries = split.kept := by
  have hperm := h.perm
  unfold Sending.guarded
  split_ifs with hrefused
  · refine ⟨nofun, ?_⟩
    rintro _ ⟨⟩
    refine ⟨?_, rfl⟩
    have hkept : (entryIds split.kept).Perm (entryIds s.entries) := by
      simpa [Split.Of, hrefused] using hsplit
    obtain ⟨entries, _ | ⟨forwarded, refused⟩⟩ := s
    · exact hkept.trans h
    · exact ⟨h.1, h.2.1.trans hkept.symm, h.2.2⟩
  · have hall : (entryIds split.kept ++
        (((s.divided.map Prod.snd).getD []) ++ split.refused).map Prod.fst).Perm ids := by
      rw [List.map_append]
      refine List.Perm.trans ?_ ((hsplit.append_right _).trans hperm)
      rw [List.append_assoc]
      exact List.perm_append_comm.append_left _
    unfold divide
    dsimp only
    split_ifs with hempty
    · refine ⟨?_, nofun⟩
      rintro _ ⟨⟩
      simpa [List.isEmpty_iff.1 hempty, entryIds] using hall
    · refine ⟨nofun, ?_⟩
      rintro _ ⟨⟩
      exact ⟨⟨by simp [hrefused], .refl _, hall⟩, rfl⟩

theorem Sending.Accounted.guardedAll : ∀ {splits : List Split} {s : Sending}, s.Accounted ids →
    Divides s.entries splits →
    (∀ refused, s.guardedAll splits = .error refused → (refused.map Prod.fst).Perm ids) ∧
      ∀ s', s.guardedAll splits = .ok s' → s'.Accounted ids
  | [], s, h, _ => by
    refine ⟨nofun, ?_⟩
    rintro _ ⟨⟩
    exact h
  | split :: rest, s, h, hdivides => by
    obtain ⟨hrefused, hkept⟩ := h.guarded hdivides.1
    unfold Sending.guardedAll
    rcases hguarded : s.guarded split with refused | s'
    · refine ⟨?_, nofun⟩
      rintro _ ⟨⟩
      exact hrefused _ hguarded
    · obtain ⟨haccounted, hentries⟩ := hkept s' hguarded
      exact haccounted.guardedAll (hentries ▸ hdivides.2)

/-- What an answer names, as applied or as refused. -/
def Merged.names : Merged → List String
  | .internal => []
  | .result success errors => success.filterMap Value.asStr ++
      errors.filterMap fun e => (e.get "entityId").bind Value.asStr

/-- The broker's answer, where it lists ids of its own, lists each one forwarded once. -/
def Accounts (broker : BrokerAnswer) (forwarded : List String) : Prop :=
  match broker.payload with
  | .tooLarge => False
  | .unread => True
  | .json (.obj result) => broker.status = 207 →
      (Merged.result (listed "success" (.obj result)) (listed "errors" (.obj result))).names.Perm
        forwarded
  | .json (.arr ids) => broker.isSuccess = true → (ids.filterMap Value.asStr).Perm forwarded
  | .json _ => True

theorem names_batchResult (success errors : List Value) (refused : Refused) :
    (batchResult success (errors ++ refusalEntries refused)).names =
      (Merged.result success errors).names ++ refused.map Prod.fst := by
  have hrefused : (refusalEntries refused).filterMap
      (fun e => (e.get "entityId").bind Value.asStr) = refused.map Prod.fst := by
    simp [refusalEntries, List.filterMap_map, Function.comp_def]
  simp [batchResult, Merged.names, hrefused]

theorem names_applied : (Merged.result (forwarded.map .str) []).names = forwarded := by
  simp [Merged.names, List.filterMap_map, Function.comp_def]

theorem names_failed {problem : Value} : (Merged.result []
    (forwarded.map fun id => .obj [("entityId", .str id), ("error", problem)])).names =
      forwarded := by
  simp [Merged.names, List.filterMap_map, Function.comp_def]

theorem accounts_iff {broker : BrokerAnswer} (hread : broker.payload ≠ .tooLarge) :
    (Merged.result (outcome broker forwarded).1 (outcome broker forwarded).2).names.Perm forwarded ↔
      Accounts broker forwarded := by
  unfold outcome
  by_cases hsuccess : broker.isSuccess = true
  · rw [if_pos hsuccess]
    unfold Accounts
    rcases hpayload : broker.payload with _ | _ | value
    · exact absurd hpayload hread
    · simp only [names_applied, List.Perm.refl]
    · cases value with
      | obj result =>
        dsimp only
        split_ifs with hstatus
        · exact ⟨fun h _ => h, fun h => h hstatus⟩
        · exact iff_of_true (by rw [names_applied]) fun h => absurd h hstatus
      | arr ids =>
        simp only [hsuccess, forall_true_left]
        simp [Merged.names]
      | _ => simp only [names_applied, List.Perm.refl]
  · rw [if_neg hsuccess, names_failed]
    refine iff_of_true (.refl _) ?_
    unfold Accounts
    rcases hpayload : broker.payload with _ | _ | value
    · exact absurd hpayload hread
    · trivial
    · cases value with
      | obj result =>
        refine fun hstatus => absurd ?_ hsuccess
        simp [BrokerAnswer.isSuccess, hstatus]
      | arr ids => exact fun h => absurd h hsuccess
      | _ => trivial

/-- The merged answer names every id once exactly where the broker's part of it does. -/
theorem merged_iff {broker : BrokerAnswer} (hrefused : refused ≠ [])
    (hids : (forwarded ++ refused.map Prod.fst).Perm ids) :
    (mergedBatch broker forwarded refused).names.Perm ids ↔ Accounts broker forwarded := by
  by_cases hread : broker.payload = .tooLarge
  · have hnot : ¬Accounts broker forwarded := by simp [Accounts, hread]
    refine iff_of_false (fun hperm => hrefused ?_) hnot
    have hnil : ids = [] := by simpa [mergedBatch, hread, Merged.names] using hperm
    rw [hnil, List.perm_nil, List.append_eq_nil_iff] at hids
    simpa using hids.2
  · have hmerged : mergedBatch broker forwarded refused =
        batchResult (outcome broker forwarded).1
          ((outcome broker forwarded).2 ++ refusalEntries refused) := by
      unfold mergedBatch
      split
      · contradiction
      · rfl
    rw [hmerged, names_batchResult, ← accounts_iff hread]
    rw [← (hids.congr_right _), List.perm_append_right_iff]

variable (crates F c endpoint) in
/-- The entries permitted and the refusals of the others are all the entries, each once. -/
theorem judged_of (hids : ∀ entry ∈ entries, batchEntryId entry ≠ none) :
    Split.Of ⟨permittedOf crates F c endpoint entries,
      entries.filterMap (refusalOf crates F c endpoint)⟩ entries := by
  unfold Split.Of
  induction entries with
  | nil => exact .refl _
  | cons entry rest ih =>
    have ih := ih fun e he => hids e (List.mem_cons_of_mem _ he)
    obtain ⟨id, hid⟩ := Option.ne_none_iff_exists'.1 (hids entry List.mem_cons_self)
    rcases hrefusal : refuseEntity crates F c endpoint entry none with problem | ⟨⟩
    · have hsome : refusalOf crates F c endpoint entry = some (id, problem) := by
        rw [refusalOf, hrefusal, hid]
        rfl
      simp only [permittedOf, entryIds, List.filter_cons, hsome, Option.isNone_some,
        Bool.false_eq_true, if_false, List.filterMap_cons, hid, List.map_cons]
      exact List.perm_middle.trans (ih.cons id)
    · have hnone : refusalOf crates F c endpoint entry = none := refusalOf_eq_none.2 hrefusal
      simp only [permittedOf, entryIds, List.filter_cons, hnone, Option.isNone_none, if_true,
        List.filterMap_cons, hid, List.cons_append]
      exact ih.cons id

/-- The answer to a batch held back in part names every entry once: at once where nothing of it is
left, and otherwise exactly where the broker's answer accounts for what was forwarded. -/
def AnswersEach (entries : List Value) : Except Refused Sending → Prop
  | .error refused => (batchResult [] (refusalEntries refused)).names.Perm (entryIds entries)
  | .ok s => ∀ divided ∈ s.divided, ∀ broker,
      (mergedBatch broker divided.1 divided.2).names.Perm (entryIds entries) ↔
        Accounts broker divided.1

theorem answersEach_guardedAll {splits : List Split} (h : s.Accounted (entryIds entries))
    (hdivides : Divides s.entries splits) : AnswersEach entries (s.guardedAll splits) := by
  obtain ⟨hrefused, hkept⟩ := h.guardedAll hdivides
  rcases hguarded : s.guardedAll splits with refused | s'
  · have hnames := names_batchResult [] [] refused
    rw [List.nil_append] at hnames
    rw [AnswersEach, hnames]
    exact hrefused refused hguarded
  · rintro ⟨forwarded, refused⟩ hdivided broker
    have haccounted := hkept s' hguarded
    rw [Sending.Accounted, Option.mem_def.1 hdivided] at haccounted
    exact merged_iff haccounted.1 haccounted.2.2

/-- A step of a batch delete's plan keeps the entry or refuses its id. -/
theorem perm_planEntry {h : Relationships.HeldDelete} {store : Relationships.Store}
    {answers : Relationships.Answers store} {b b' : Relationships.Batch} {entry : Value}
    (hok : Relationships.planEntry h answers b entry = .ok b') :
    (entryIds b'.permitted ++ b'.refused.map Prod.fst).Perm
      (entryIds b.permitted ++ b.refused.map Prod.fst ++ entryIds [entry]) := by
  have hkept : (entryIds (b.permitted ++ [entry]) ++ b.refused.map Prod.fst).Perm
      (entryIds b.permitted ++ b.refused.map Prod.fst ++ entryIds [entry]) := by
    rw [entryIds, List.filterMap_append, List.append_assoc, List.append_assoc]
    exact List.perm_append_comm.append_left _
  unfold Relationships.planEntry at hok
  rcases hid : entry.asStr with _ | id
  · rw [hid] at hok
    cases hok
    exact hkept
  · rw [hid] at hok
    dsimp only at hok
    rcases hplan : h.plan answers id with problem | steps
    · rw [hplan] at hok
      dsimp only at hok
      split_ifs at hok
      cases hok
      have hentry : entryIds [entry] = [id] := by simp [entryIds, batchEntryId, hid]
      simp [hentry]
    · rw [hplan] at hok
      cases hok
      exact hkept

theorem perm_planAll {h : Relationships.HeldDelete} {store : Relationships.Store}
    {answers : Relationships.Answers store} : ∀ {entries : List Value}
    {b b' : Relationships.Batch}, Relationships.planAll h answers entries b = .ok b' →
      (entryIds b'.permitted ++ b'.refused.map Prod.fst).Perm
        (entryIds b.permitted ++ b.refused.map Prod.fst ++ entryIds entries)
  | [], b, b', hok => by
    cases hok
    simp [entryIds]
  | entry :: rest, b, b', hok => by
    obtain ⟨middle, hentry, hrest⟩ := bind_eq_ok.1 hok
    refine (perm_planAll hrest).trans (((perm_planEntry hentry).append_right _).trans ?_)
    have hcons : entryIds (entry :: rest) = entryIds [entry] ++ entryIds rest := by
      rw [entryIds, entryIds, entryIds, ← List.filterMap_append, List.singleton_append]
    rw [hcons, List.append_assoc]

/-- The rules of a batch delete divide it as a guard does. -/
theorem of_planAll {h : Relationships.HeldDelete} {store : Relationships.Store}
    {answers : Relationships.Answers store} {b : Relationships.Batch}
    (answer : Relationships.Refusal → ProblemDetails)
    (hok : Relationships.planAll h answers entries ⟨[], [], []⟩ = .ok b) :
    Split.Of ⟨b.permitted, b.refused.map fun r => (r.1, answer r.2)⟩ entries := by
  have hperm := perm_planAll hok
  have hnil : entryIds [] = [] := rfl
  rw [hnil, List.map_nil, List.nil_append, List.nil_append] at hperm
  simpa [Split.Of, Function.comp_def] using hperm

end Accounts

/-- Judging a batch is exact, and its answer names every entry once exactly where the broker's
answer to the rest accounts for what was forwarded. -/
theorem division_exact (crates : Crates) (F : Type) [Float64 F] (c : Constraints)
    (endpoint : Endpoint) (entries : List Value) (path name : String) (operation : Operation)
    (hpath : segments path = ["entityOperations", name]) (hdivides : divides operation = true) :
    JudgedExactly crates F c endpoint entries
      (judgeWrite crates F c endpoint (some (.arr entries)) path operation) ∧
    ∀ judged, judgeWrite crates F c endpoint (some (.arr entries)) path operation = .ok judged →
      ∀ guards, Divides (judged.split entries).kept guards →
        AnswersEach entries
          (Sending.guardedAll ⟨entries, none⟩ (judged.split entries :: guards)) := by
  have hjudge : judgeWrite crates F c endpoint (some (.arr entries)) path operation =
      divideBatch crates F c endpoint entries := by
    have htargeted : targetedAttribute path = none := by
      simp [targetedAttribute, hpath]
    simp [judgeWrite, htargeted, hdivides]
  have hexact := judgedExactly_divideBatch crates F c endpoint entries
  rw [hjudge]
  refine ⟨hexact, fun judged hjudged guards hguards => ?_⟩
  rw [hjudged] at hexact
  obtain ⟨hwell, hkept, hrefused⟩ := hexact
  refine answersEach_guardedAll (.refl _) ⟨?_, hguards⟩
  have hof := judged_of crates F c endpoint fun entry hentry hid => hwell entry hentry (Or.inl hid)
  rwa [Split.Of, hkept, hrefused]

section Lamps

def lampEntry (id : String) (more : List (String × Value)) : Value :=
  .obj ([("id", .str id), ("type", .str "Lamp")] ++ more)

/-- Two lamps, of which the second writes what the Endpoint hides. -/
def lampBatch : List Value :=
  [lampEntry "urn:ngsi-ld:Lamp:city:air:1" [],
    lampEntry "urn:ngsi-ld:Lamp:city:air:2" [("key", .obj [("value", .num 4 0)])]]

def keyHidden : Endpoint := ⟨{"key"}, none⟩

def lampsJudged : Except ProblemDetails Judged :=
  judgeWrite bareCrates ℚ default keyHidden (some (.arr lampBatch)) "entityOperations/upsert"
    .upsertBatch

def lampsDivided : Judged :=
  .divided [lampEntry "urn:ngsi-ld:Lamp:city:air:1" []]
    [("urn:ngsi-ld:Lamp:city:air:2", ProblemDetails.forbidden)]

theorem lampsJudged_eq : lampsJudged = .ok lampsDivided := by decide +kernel

/-- The broker applied the lamp it was sent and answers without a body. -/
theorem division_exact_lamps : ∃ divided, (Sending.guardedAll ⟨lampBatch, none⟩
      [lampsDivided.split lampBatch]).toOption.bind Sending.divided = some divided ∧
    (mergedBatch ⟨204, .unread⟩ divided.1 divided.2).names.Perm (entryIds lampBatch) := by
  have hanswers := (division_exact bareCrates ℚ default keyHidden lampBatch
    "entityOperations/upsert" "upsert" .upsertBatch (by decide +kernel) rfl).2 lampsDivided
    lampsJudged_eq [] trivial
  refine ⟨(["urn:ngsi-ld:Lamp:city:air:1"],
    [("urn:ngsi-ld:Lamp:city:air:2", ProblemDetails.forbidden)]), rfl, ?_⟩
  exact (hanswers _ rfl _).2 trivial

/-- A broker whose multi-status names no entity leaves the lamp it was sent out of the answer. -/
theorem division_not_exact_lamps : lampsJudged = .ok lampsDivided ∧
    (Sending.guardedAll ⟨lampBatch, none⟩ [lampsDivided.split lampBatch]).toOption.bind
      Sending.divided = some (["urn:ngsi-ld:Lamp:city:air:1"],
        [("urn:ngsi-ld:Lamp:city:air:2", ProblemDetails.forbidden)]) ∧
    ¬(mergedBatch ⟨207, .json (.obj [("success", .arr []), ("errors", .arr [])])⟩
        ["urn:ngsi-ld:Lamp:city:air:1"]
        [("urn:ngsi-ld:Lamp:city:air:2", ProblemDetails.forbidden)]).names.Perm
      (entryIds lampBatch) := by
  refine ⟨lampsJudged_eq, rfl, by decide +kernel⟩

end Lamps

end JoinedContext.Writes

import JoinedContext.Library.Search
import JoinedContext.Pdp.WriteGuard
import JoinedContext.Relationships.Store
import Mathlib.Data.Finset.Card

/-!
# What the rules of a delete change

A delete is planned before anything changes: the entities that point at what goes are read, page by
page and breadth first, and each is refused, changed or deleted as its end's rule says. The order in
which entities go is the breadth-first order of the ends that cascade.
-/

namespace JoinedContext.Relationships

inductive Refusal where
  | notUri (slot : String)
  | kept (at_ : Referencing) (id : String) (count : ℕ) (ids : List String) (byRule : Bool)
  | tooFar (id : String)
  | mayNotDelete (root : String)
  | stopped (root : String) (done steps : ℕ)
deriving DecidableEq

def reachedPerDelete : ℕ := 500

def pointingPerRead : ℕ := 100

namespace Refusal

def status : Refusal → ℕ
  | .notUri _ => 400
  | .kept .. => 409
  | .tooFar _ => 409
  | .mayNotDelete _ => 403
  | .stopped .. => 502

def detail : Refusal → String
  | .notUri slot =>
    "the relationship `" ++ slot ++
      "` names an object that is no URI: it holds a quote or a backslash"
  | .kept at_ id count _ true =>
    toString count ++ " `" ++ at_.className ++ "` still point at `" ++ id ++ "` through `" ++
      at_.slot ++ "`, and the model's delete rule keeps it while they do; unlink or delete them " ++
      "first (DM-71)"
  | .kept at_ id count _ false =>
    toString count ++ " `" ++ at_.className ++ "` point at `" ++ id ++ "` through `" ++ at_.slot ++
      "`, and the delete rule would change one you may not change; ask someone who may, or " ++
      "unlink it first (DM-71)"
  | .tooFar id =>
    "deleting `" ++ id ++ "` would reach more than " ++ toString reachedPerDelete ++
      " entities through the model's delete rules; delete them in smaller parts first (DM-71)"
  | .mayNotDelete root =>
    "you may not delete `" ++ root ++ "`; its model's delete rules change nothing until you may"
  | .stopped root done steps =>
    "`" ++ root ++ "` is not deleted: the broker refused change " ++ toString (done + 1) ++ " of " ++
      toString steps ++ " its delete rules make, after " ++ toString done ++ " were made (DM-71)"

end Refusal

section Reads

def Store.naming (s : Store) (className slot object : String) : List Entity :=
  s.entities.filter fun e => className ∈ e.types ∧ object ∈ e.names slot

/-- The broker's answers to the reads of a plan, each in an order of the broker's own. -/
structure Answers (s : Store) where
  all : String → String → String → List Entity
  perm : ∀ className slot object, (all className slot object).Perm (s.naming className slot object)

variable {s : Store} (answers : Answers s)

def storing (className slot object : String) (limit offset : ℕ) : Except Refusal (List Entity) :=
  if object = "" ∨ '"' ∈ object.toList ∨ '\\' ∈ object.toList then .error (.notUri slot)
  else .ok (((answers.all className slot object).drop offset).take limit)

/-- Every entity of the class whose end points at the id, page by page. -/
def pointingFrom (at_ : Referencing) (id : String) :
    ℕ → List Entity → Except Refusal (List Entity)
  | 0, all => .ok all
  | pages + 1, all => do
    let page ← storing answers at_.className at_.slot id pointingPerRead all.length
    if page.length < pointingPerRead then return all ++ page
    else if reachedPerDelete < (all ++ page).length then throw (.tooFar id)
    else pointingFrom at_ id pages (all ++ page)

def pointing (at_ : Referencing) (id : String) : Except Refusal (List Entity) :=
  pointingFrom answers at_ id (reachedPerDelete / pointingPerRead + 1) []

end Reads

section Planning

/-- A delete held against the rules, with the decisions of the gateway's policy for its caller. -/
structure HeldDelete where
  crates : Crates
  rules : RelationshipRules
  decide : Operation → Request → Verdict

structure Progress where
  edits : List Unlinking
  deleted : List String
  going : Finset String
  queue : List String

def stateDependent (c : Constraints) : Bool := c.q.isSome || !c.geoAreas.isEmpty

def stepsOf (id slot : String) : Unlink → List Unlinking
  | .deleteAttribute => [.deleteAttribute id slot]
  | .instances removed rewritten =>
    removed.map (.deleteInstance id slot) ++ rewritten.map fun r => .rewrite id slot r.1 r.2
  | _ => []

namespace HeldDelete

variable (h : HeldDelete)

def readGrant (request : Request) : Option Constraints :=
  [Operation.queryEntity, .queryBatch].findSome? fun operation =>
    (h.decide operation request).constraints.filter fun read => !read.empty

def readableIds (className : String) (pointing : List Entity) : List String :=
  match h.readGrant { types := {className} } with
  | none => []
  | some read =>
    if stateDependent read then []
    else (pointing.map Entity.id).filter fun id =>
      (WriteGuard.checkGrantedId h.crates id read).isOk

def kept (at_ : Referencing) (id : String) (pointing : List Entity) (byRule : Bool) : Refusal :=
  .kept at_ id pointing.length (if byRule then h.readableIds at_.className pointing else []) byRule

/-- Refuses the change unless the caller's own grants allow the operation on the entity. -/
def may (operation : Operation) (at_ : Referencing) (other id : String) (pointing : List Entity) :
    Except Refusal Unit :=
  match h.decide operation { types := {at_.className} } with
  | .rewrite granted =>
    if !granted.empty ∧ at_.slot ∉ granted.hidden ∧ !stateDependent granted ∧
        (WriteGuard.checkGrantedId h.crates other granted).isOk then
      .ok ()
    else .error (h.kept at_ id pointing false)
  | .deny => .error (h.kept at_ id pointing false)

def mayDelete (root : String) : Except Refusal Unit :=
  match h.decide .deleteEntity { types := {(Urn.typeOfId root).getD ""} } with
  | .rewrite granted =>
    if !granted.empty ∧ !stateDependent granted ∧
        (WriteGuard.checkGrantedId h.crates root granted).isOk then
      .ok ()
    else .error (.mayNotDelete root)
  | .deny => .error (.mayNotDelete root)

def within (root : String) (p : Progress) : Except Refusal Progress :=
  if reachedPerDelete < p.going.card + p.edits.length then .error (.tooFar root) else .ok p

def touch (root id : String) (at_ : Referencing) (pointing : List Entity) (p : Progress)
    (e : Entity) : Except Refusal Progress :=
  if e.id ∈ p.going then .ok p
  else
    let unlinked := unlink (e.answer at_.slot) at_.slot at_.storedEnd id
    match unlinked with
    | .refused => .error (h.kept at_ id pointing true)
    | .deleteEntity => do
      h.may .deleteEntity at_ e.id id pointing
      within root { p with
        going := insert e.id p.going, queue := p.queue ++ [e.id], deleted := p.deleted ++ [e.id] }
    | .deleteAttribute => do
      h.may .deleteAttrs at_ e.id id pointing
      within root { p with edits := p.edits ++ stepsOf e.id at_.slot unlinked }
    | .instances removed rewritten => do
      if removed ≠ [] then h.may .deleteAttrs at_ e.id id pointing
      if rewritten ≠ [] then h.may .updateAttrs at_ e.id id pointing
      within root { p with edits := p.edits ++ stepsOf e.id at_.slot unlinked }

def touchAll (root id : String) (at_ : Referencing) (pointing : List Entity) :
    List Entity → Progress → Except Refusal Progress
  | [], p => .ok p
  | e :: rest, p => do touchAll root id at_ pointing rest (← h.touch root id at_ pointing p e)

variable {s : Store} (answers : Answers s)

def visitEnds (root id : String) : List Referencing → Progress → Except Refusal Progress
  | [], p => .ok p
  | at_ :: rest, p => do
    let found ← pointing answers at_ id
    visitEnds root id rest (← h.touchAll root id at_ found found p)

def walk (root : String) : ℕ → Progress → Except Refusal Progress
  | 0, p => .ok p
  | fuel + 1, p =>
    match p.queue with
    | [] => .ok p
    | id :: queue => do
      walk root fuel (← h.visitEnds answers root id (h.rules.referencingId id)
        { p with queue := queue })

/-- What the rules of a delete of the root change, in the order they are applied: the attributes and
links first, then the entities deleted with it, farthest first. -/
def plan (root : String) : Except Refusal (List Unlinking) := do
  let p ← h.walk answers root (reachedPerDelete + 1) ⟨[], [], {root}, [root]⟩
  let steps := p.edits ++ p.deleted.reverse.map Unlinking.delete
  if steps ≠ [] then h.mayDelete root
  return steps

end HeldDelete

end Planning

end JoinedContext.Relationships

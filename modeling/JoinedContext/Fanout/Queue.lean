import JoinedContext.Core.Json

/-!
# A connection's queue

Bounded, and coalesced per subscription and entity: a newer notification takes the place of a queued
one about the same pair. A message that finds the queue full is dropped, and the queue marked.
-/

namespace JoinedContext.Fanout

/-- One message a connection's writer sends. -/
inductive Out where
  | notification (subscription entity : String) (body : Value)
  | gap
  | closing (reason : String)
  | refused
deriving DecidableEq

def maxQueued : ℕ := 256

structure Queue where
  items : List Out
  overflowed : Bool
deriving DecidableEq

namespace Queue

def empty : Queue := ⟨[], false⟩

def isAbout (subscription entity : String) : Out → Bool
  | .notification s e _ => s = subscription && e = entity
  | _ => false

/-- The first queued notification of the pair with the new body. -/
def replaceBody (subscription entity : String) (body : Value) : List Out → List Out
  | [] => []
  | out :: rest =>
    if isAbout subscription entity out then .notification subscription entity body :: rest
    else out :: replaceBody subscription entity body rest

def append (q : Queue) (out : Out) : Queue :=
  if maxQueued ≤ q.items.length then { q with overflowed := true }
  else { q with items := q.items ++ [out] }

def push (q : Queue) (out : Out) : Queue :=
  match out with
  | .notification subscription entity body =>
    if q.items.any (isAbout subscription entity) then
      { q with items := replaceBody subscription entity body q.items }
    else q.append out
  | _ => q.append out

/-- Everything queued, and whether the queue overflowed since the last take. -/
def take (q : Queue) : (List Out × Bool) × Queue := ((q.items, q.overflowed), empty)

section Lemmas

variable {q : Queue} {subscription entity : String} {body : Value}

theorem mem_replaceBody : ∀ {items : List Out}, items.any (isAbout subscription entity) = true →
    .notification subscription entity body ∈ replaceBody subscription entity body items
  | [], h => by cases h
  | out :: rest, h => by
    unfold replaceBody
    split_ifs with hout
    · exact List.mem_cons_self
    · rw [List.any_cons, Bool.or_eq_true, or_iff_right hout] at h
      exact List.mem_cons_of_mem _ (mem_replaceBody h)

theorem mem_of_mem_replaceBody {out : Out} : ∀ {items : List Out},
    out ∈ items → isAbout subscription entity out = false →
      out ∈ replaceBody subscription entity body items
  | first :: rest, hmem, hout => by
    unfold replaceBody
    split_ifs with hfirst
    · rcases List.mem_cons.1 hmem with rfl | hmem
      · rw [hout] at hfirst
        cases hfirst
      · exact List.mem_cons_of_mem _ hmem
    · rcases List.mem_cons.1 hmem with rfl | hmem
      · exact List.mem_cons_self
      · exact List.mem_cons_of_mem _ (mem_of_mem_replaceBody hmem hout)

theorem mem_append_or (out : Out) : out ∈ (q.append out).items ∨ (q.append out).overflowed = true := by
  unfold append
  split_ifs
  · exact Or.inr rfl
  · exact Or.inl (List.mem_append_right _ (List.mem_singleton_self _))

theorem mem_append_of_mem {out other : Out} (hmem : out ∈ q.items) :
    out ∈ (q.append other).items := by
  unfold append
  split_ifs
  · exact hmem
  · exact List.mem_append_left _ hmem

theorem overflowed_append {out : Out} (h : q.overflowed = true) :
    (q.append out).overflowed = true := by
  unfold append
  split_ifs
  · rfl
  · exact h

theorem push_notification : q.push (.notification subscription entity body) =
    if q.items.any (isAbout subscription entity) then
      { q with items := replaceBody subscription entity body q.items }
    else q.append (.notification subscription entity body) := rfl

theorem overflowed_push (h : q.overflowed = true) :
    (q.push (.notification subscription entity body)).overflowed = true := by
  rw [push_notification]
  split_ifs
  · exact h
  · exact overflowed_append h

/-- A notification pushed is queued, unless the queue is marked as overflowed. -/
theorem mem_push : .notification subscription entity body ∈
    (q.push (.notification subscription entity body)).items ∨
      (q.push (.notification subscription entity body)).overflowed = true := by
  rw [push_notification]
  split_ifs with habout
  · exact Or.inl (mem_replaceBody habout)
  · exact mem_append_or _

/-- What is queued stays queued, apart from the notification of the same pair. -/
theorem mem_push_of_mem {out : Out} (hmem : out ∈ q.items)
    (hother : isAbout subscription entity out = false) :
    out ∈ (q.push (.notification subscription entity body)).items := by
  rw [push_notification]
  split_ifs
  · exact mem_of_mem_replaceBody hmem hother
  · exact mem_append_of_mem hmem

end Lemmas

end Queue

end JoinedContext.Fanout

import JoinedContext.Fanout.Session
import JoinedContext.Library.Machine

/-!
# What a connection's queue hands on

What a take returns is a function of what was pushed since the last one: one message for each
subscription and entity, at the place of the first push and with the newest body, and every other
message as it came. A push that is dropped marks the queue until the take that announces the gap.
-/

namespace JoinedContext.Fanout

inductive QueueOp where
  | push (out : Out)
  | take
deriving DecidableEq

namespace Queue

def step (q : Queue) : QueueOp → Queue
  | .push out => q.push out
  | .take => q.take.2

/-- What was pushed and not taken yet. -/
def waiting (ops : List QueueOp) : List Out :=
  ops.foldl (fun pushed op => match op with | .push out => pushed ++ [out] | .take => []) []

def pushAll (pushed : List Out) : Queue := pushed.foldl push empty

section Spec

/-- Whether two messages are notifications of one subscription and entity. -/
def sameSlot (out other : Out) : Bool :=
  match out with
  | .notification subscription entity _ => isAbout subscription entity other
  | _ => false

/-- The messages that are the first of their slot, `before` being what came earlier. -/
def firsts (before : List Out) : List Out → List Out
  | [] => []
  | out :: rest =>
    if before.any (sameSlot out) then firsts (before ++ [out]) rest
    else out :: firsts (before ++ [out]) rest

/-- The last message of a slot. -/
def newest (pushed : List Out) (out : Out) : Out :=
  (pushed.reverse.find? (sameSlot out)).getD out

/-- The newest message of each slot, at the place of its first. -/
def coalesced (pushed : List Out) : List Out := (firsts [] pushed).map (newest pushed)

/-- Whether a push finds the queue full and nothing to replace. -/
def drops (q : Queue) (out : Out) : Prop :=
  maxQueued ≤ q.items.length ∧ q.items.any (sameSlot out) = false

/-- Whether one of the pushes on an empty queue is dropped. -/
def Dropped (pushed : List Out) : Prop :=
  ∃ before out after, pushed = before ++ out :: after ∧ (pushAll before).drops out

end Spec

section Slots

variable {out other third : Out} {pushed before items : List Out}

theorem sameSlot_comm (h : sameSlot out other = true) : sameSlot other out = true := by
  cases out <;> cases other <;> simp_all [sameSlot, isAbout]

theorem sameSlot_congr (h : sameSlot out other = true) :
    sameSlot out third = sameSlot other third := by
  cases out <;> cases other <;> cases third <;> simp_all [sameSlot, isAbout]

theorem sameSlot_congr_right (h : sameSlot out other = true) :
    sameSlot third out = sameSlot third other := by
  cases out <;> cases other <;> cases third <;> simp_all [sameSlot, isAbout]

theorem firsts_snoc : ∀ (pushed before : List Out), firsts before (pushed ++ [out]) =
    firsts before pushed ++ if (before ++ pushed).any (sameSlot out) then [] else [out]
  | [], before => by
    by_cases h : before.any (sameSlot out) = true <;> simp [firsts, h]
  | first :: rest, before => by
    rw [List.cons_append, firsts, firsts, firsts_snoc rest, List.append_assoc,
      List.singleton_append]
    split_ifs <;> rfl

theorem mem_firsts : ∀ {pushed before : List Out}, out ∈ firsts before pushed → out ∈ pushed
  | first :: rest, before, h => by
    rw [firsts] at h
    split_ifs at h
    · exact List.mem_cons_of_mem _ (mem_firsts h)
    · rcases List.mem_cons.1 h with rfl | h
      · exact List.mem_cons_self
      · exact List.mem_cons_of_mem _ (mem_firsts h)

/-- A slot with a message has its first one. -/
theorem any_firsts (pushed : List Out) :
    (firsts [] pushed).any (sameSlot out) = pushed.any (sameSlot out) := by
  induction pushed using List.reverseRecOn with
  | nil => rfl
  | append_singleton pushed last ih =>
    rw [firsts_snoc, List.nil_append, List.any_append, ih, List.any_append]
    by_cases hlast : sameSlot out last = true
    · by_cases hheld : pushed.any (sameSlot last) = true
      · have hout : pushed.any (sameSlot out) = true := by
          obtain ⟨o, ho, hs⟩ := List.any_eq_true.1 hheld
          exact List.any_eq_true.2 ⟨o, ho, (sameSlot_congr hlast).trans hs⟩
        simp [hheld, hout]
      · simp [hheld]
    · by_cases hheld : pushed.any (sameSlot last) = true <;> simp [hheld, hlast]

/-- No two of the first messages share a slot. -/
theorem pairwise_firsts (pushed : List Out) :
    (firsts [] pushed).Pairwise fun a b => sameSlot b a = false := by
  induction pushed using List.reverseRecOn with
  | nil => exact List.Pairwise.nil
  | append_singleton pushed last ih =>
    rw [firsts_snoc, List.nil_append]
    split_ifs with h
    · rwa [List.append_nil]
    · refine List.pairwise_append.2 ⟨ih, List.pairwise_singleton _ _, fun a ha b hb => ?_⟩
      rw [List.mem_singleton.1 hb]
      have hall := List.any_eq_false.1 (Bool.eq_false_iff.2 h) a (mem_firsts ha)
      exact Bool.eq_false_iff.2 hall

theorem newest_snoc : newest (pushed ++ [other]) out =
    if sameSlot out other then other else newest pushed out := by
  rw [newest, List.reverse_append, List.reverse_singleton, List.singleton_append, List.find?_cons]
  split_ifs with h <;> simp [h, newest]

theorem sameSlot_newest : sameSlot third (newest pushed out) = sameSlot third out := by
  unfold newest
  cases hfound : pushed.reverse.find? (sameSlot out) with
  | none => rfl
  | some other => exact (sameSlot_congr_right (List.find?_some hfound)).symm

theorem any_coalesced (pushed : List Out) (out : Out) :
    (coalesced pushed).any (sameSlot out) = pushed.any (sameSlot out) := by
  rw [coalesced, List.any_map, ← any_firsts]
  congr 1
  funext o
  exact sameSlot_newest

theorem newest_of_new (h : pushed.any (sameSlot out) = false) : newest pushed out = out := by
  have hnone : pushed.reverse.find? (sameSlot out) = none :=
    List.find?_eq_none.2 fun o ho => List.any_eq_false.1 h o (List.mem_reverse.1 ho)
  rw [newest, hnone]
  rfl

end Slots

section Pushed

variable {q : Queue} {out : Out} {pushed items : List Out}

/-- Where no slot is queued twice, a new body takes the place of the one of its slot. -/
theorem replaceBody_eq {subscription entity : String} {body : Value} :
    ∀ {items : List Out}, items.Pairwise (fun a b => sameSlot b a = false) →
      replaceBody subscription entity body items = items.map fun o =>
        if isAbout subscription entity o then .notification subscription entity body else o
  | [], _ => rfl
  | first :: rest, h => by
    obtain ⟨hfirst, hrest⟩ := List.pairwise_cons.1 h
    rw [replaceBody, List.map_cons]
    split_ifs with habout
    · have hothers : ∀ o ∈ rest, isAbout subscription entity o = false := by
        intro o ho
        by_contra hsame
        have hslot : sameSlot (.notification subscription entity body) o = true :=
          Bool.not_eq_false _ ▸ hsame
        have hboth := (sameSlot_congr hslot).symm.trans habout
        rw [hfirst o ho] at hboth
        cases hboth
      have hsame : rest.map (fun o => if isAbout subscription entity o then
          .notification subscription entity body else o) = rest := by
        refine (List.map_congr_left fun o ho => ?_).trans (List.map_id _)
        simp [hothers o ho]
      rw [hsame]
    · rw [replaceBody_eq hrest]

theorem pairwise_coalesced (pushed : List Out) :
    (coalesced pushed).Pairwise fun a b => sameSlot b a = false := by
  refine List.pairwise_map.2 ((pairwise_firsts pushed).imp fun {a b} h => ?_)
  rw [sameSlot_newest]
  have hb : sameSlot (newest pushed b) a = sameSlot b a := by
    unfold newest
    cases hfound : pushed.reverse.find? (sameSlot b) with
    | none => rfl
    | some other => exact (sameSlot_congr (List.find?_some hfound)).symm
  rw [hb, h]

/-- One more push, coalesced: its message replaces the one of its slot, or comes last. -/
theorem coalesced_snoc : coalesced (pushed ++ [out]) =
    if pushed.any (sameSlot out) then
      (coalesced pushed).map fun o => if sameSlot out o then out else o
    else coalesced pushed ++ [out] := by
  have hstep : ∀ o, newest (pushed ++ [out]) o =
      if sameSlot out (newest pushed o) then out else newest pushed o := by
    intro o
    rw [newest_snoc, sameSlot_newest]
    by_cases h : sameSlot o out = true
    · rw [if_pos h, if_pos (sameSlot_comm h)]
    · rw [if_neg h, if_neg fun h' => h (sameSlot_comm h')]
  rw [coalesced, firsts_snoc, List.nil_append]
  split_ifs with h
  · rw [List.append_nil, coalesced, List.map_map]
    exact List.map_congr_left fun o _ => hstep o
  · rw [List.map_append, coalesced, List.map_singleton]
    congr 1
    · refine List.map_congr_left fun o ho => ?_
      rw [newest_snoc, if_neg fun hsame => h ?_]
      exact List.any_eq_true.2 ⟨o, mem_firsts ho, sameSlot_comm hsame⟩
    · rw [newest_snoc]
      split_ifs
      · rfl
      · rw [newest_of_new (Bool.eq_false_iff.2 h)]

theorem pushAll_snoc : pushAll (pushed ++ [out]) = (pushAll pushed).push out := by
  rw [pushAll, List.foldl_append]
  rfl

/-- A push that is not dropped, on a queue that coalesced what was pushed so far. -/
theorem push_coalesced (h : ¬ (⟨coalesced pushed, false⟩ : Queue).drops out) :
    (⟨coalesced pushed, false⟩ : Queue).push out =
      ⟨coalesced (pushed ++ [out]), false⟩ := by
  have hany := any_coalesced pushed out
  have happend : pushed.any (sameSlot out) = false →
      (⟨coalesced pushed, false⟩ : Queue).append out =
        ⟨coalesced (pushed ++ [out]), false⟩ := by
    intro hnew
    have hroom : ¬ maxQueued ≤ (coalesced pushed).length := fun hfull => h ⟨hfull, hany.trans hnew⟩
    rw [append, if_neg hroom, coalesced_snoc, if_neg (by rw [hnew]; exact Bool.false_ne_true)]
  cases out with
  | notification subscription entity body =>
    rw [push_notification]
    split_ifs with habout
    · have hheld : pushed.any (sameSlot (.notification subscription entity body)) = true :=
        hany.symm.trans habout
      rw [coalesced_snoc, if_pos hheld, replaceBody_eq (pairwise_coalesced pushed)]
      rfl
    · exact happend (hany.symm.trans (Bool.eq_false_iff.2 habout))
  | gap => exact happend (by simp [sameSlot])
  | closing reason => exact happend (by simp [sameSlot])
  | refused => exact happend (by simp [sameSlot])

end Pushed

section Runs

variable {q : Queue} {out : Out} {pushed items : List Out}

theorem dropped_snoc : Dropped (pushed ++ [out]) ↔ Dropped pushed ∨ (pushAll pushed).drops out := by
  constructor
  · rintro ⟨before, o, after, hsplit, hdrops⟩
    rcases List.eq_nil_or_concat after with rfl | ⟨after, last, rfl⟩
    · obtain ⟨rfl, hout⟩ := List.append_inj' hsplit rfl
      rw [List.singleton_inj.1 hout]
      exact Or.inr hdrops
    · rw [List.concat_eq_append, ← List.cons_append, ← List.append_assoc] at hsplit
      exact Or.inl ⟨before, o, after, (List.append_inj' hsplit rfl).1, hdrops⟩
  · rintro (⟨before, o, after, rfl, hdrops⟩ | hdrops)
    · exact ⟨before, o, after ++ [out], by simp, hdrops⟩
    · exact ⟨pushed, out, [], rfl, hdrops⟩

/-- A push marks the queue exactly when it is dropped. -/
theorem overflowed_push_iff :
    (q.push out).overflowed = true ↔ q.overflowed = true ∨ q.drops out := by
  have happend : q.items.any (sameSlot out) = false →
      ((q.append out).overflowed = true ↔ q.overflowed = true ∨ q.drops out) := by
    intro hnew
    unfold append drops
    split_ifs with hfull <;> simp [hfull, hnew]
  cases out with
  | notification subscription entity body =>
    rw [push_notification]
    split_ifs with habout
    · have hslot : q.items.any (sameSlot (.notification subscription entity body)) = true := habout
      simp [drops, hslot]
    · exact happend (Bool.eq_false_iff.2 habout)
  | gap => exact happend (by simp [sameSlot])
  | closing reason => exact happend (by simp [sameSlot])
  | refused => exact happend (by simp [sameSlot])

theorem length_replaceBody {subscription entity : String} {body : Value} : ∀ items : List Out,
    (replaceBody subscription entity body items).length = items.length
  | [] => rfl
  | out :: rest => by
    rw [replaceBody]
    split_ifs
    · rfl
    · rw [List.length_cons, length_replaceBody rest, List.length_cons]

theorem length_push (h : q.items.length ≤ maxQueued) : (q.push out).items.length ≤ maxQueued := by
  have happend : (q.append out).items.length ≤ maxQueued := by
    unfold append
    split_ifs with hfull
    · exact h
    · simp only [List.length_append, List.length_singleton]
      omega
  cases out with
  | notification subscription entity body =>
    rw [push_notification]
    split_ifs
    · exact (length_replaceBody _).trans_le h
    · exact happend
  | gap | closing | refused => exact happend

theorem pushAll_coalesced (pushed : List Out) :
    ¬ Dropped pushed → pushAll pushed = ⟨coalesced pushed, false⟩ := by
  induction pushed using List.reverseRecOn with
  | nil => exact fun _ => rfl
  | append_singleton pushed out ih =>
    rw [dropped_snoc, not_or]
    rintro ⟨hheld, hout⟩
    rw [ih hheld] at hout
    rw [pushAll_snoc, ih hheld]
    exact push_coalesced hout

theorem overflowed_pushAll (pushed : List Out) :
    (pushAll pushed).overflowed = true ↔ Dropped pushed := by
  induction pushed using List.reverseRecOn with
  | nil =>
    refine iff_of_false Bool.false_ne_true ?_
    rintro ⟨before, o, after, h, -⟩
    cases before <;> cases h
  | append_singleton pushed out ih => rw [pushAll_snoc, overflowed_push_iff, ih, dropped_snoc]

theorem length_pushAll (pushed : List Out) : (pushAll pushed).items.length ≤ maxQueued := by
  induction pushed using List.reverseRecOn with
  | nil => exact Nat.zero_le _
  | append_singleton pushed out ih =>
    rw [pushAll_snoc]
    exact length_push ih

theorem waiting_push (ops : List QueueOp) :
    waiting (ops ++ [.push out]) = waiting ops ++ [out] := by
  unfold waiting
  rw [List.foldl_append]
  rfl

theorem waiting_take (ops : List QueueOp) : waiting (ops ++ [.take]) = [] := by
  unfold waiting
  rw [List.foldl_append]
  rfl

/-- A run leaves what the pushes since its last take leave of an empty queue. -/
theorem run_eq_pushAll (ops : List QueueOp) :
    Machine.run step empty ops = pushAll (waiting ops) := by
  induction ops using List.reverseRecOn with
  | nil => rfl
  | append_singleton ops op ih =>
    rw [Machine.run_append, ih]
    cases op with
    | push out => rw [waiting_push, pushAll_snoc]; rfl
    | take => rw [waiting_take]; rfl

/-- Whatever pushes and takes came before, a take hands on what was pushed since the last one,
coalesced, unless one of these was dropped; then the queue is marked, and the session that takes
from it announces the gap. -/
theorem take_coalesced (ops : List QueueOp) (s : Session) :
    let q := Machine.run step empty ops
    (¬ Dropped (waiting ops) → q.take.1 = (coalesced (waiting ops), false)) ∧
      q.items.length ≤ maxQueued ∧
      (q.overflowed = true ↔ Dropped (waiting ops)) ∧
      (Dropped (waiting ops) →
        (s.turn q.take.1).outgoing.getLast? =
            some (Session.gapText ((s.turn (q.items, false)).session.seq + 1)
              ((s.turn (q.items, false)).session.seq + 1)) ∧
          (s.turn q.take.1).ended = some (.closing "overflow")) := by
  intro q
  have hq : q = pushAll (waiting ops) := run_eq_pushAll ops
  have hflag : q.overflowed = true ↔ Dropped (waiting ops) := by rw [hq, overflowed_pushAll]
  refine ⟨fun hkept => ?_, by rw [hq]; exact length_pushAll _, hflag, fun hdropped => ?_⟩
  · rw [hq, pushAll_coalesced _ hkept]
    rfl
  · have htaken : q.take.1 = (q.items, true) := by rw [take, hflag.2 hdropped]
    rw [htaken]
    simp [Session.turn]

end Runs

end Queue

end JoinedContext.Fanout

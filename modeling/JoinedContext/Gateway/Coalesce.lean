import JoinedContext.Library.Machine

/-!
# One frame per cap of an answer's body

The frames of an answer are held until there is a cap of bytes or the body ends, and handed on as
one. What the body is asked for again and again, the inner body answers in turn, so both are
sequences of answers to a poll, and both say what they say in the order of their bytes.
-/

namespace JoinedContext.Coalesce

/-- The most one answer holds. -/
def cap : ℕ := 256 * 1024

/-- The answer to a poll of a body: `T` is what trailers hold, `E` an error. -/
inductive Polled (T E : Type) where
  | pending
  | ended
  | failed (error : E)
  | data (bytes : List UInt8)
  | trailers (trailers : T)
deriving DecidableEq

/-- A body that coalesces. The inner one has nothing to say behind its list yet. -/
structure Body (T E : Type) where
  inner : List (Polled T E)
  held : List UInt8
  trailers : Option T
  ended : Bool

variable {T E : Type}

namespace Body

def new (inner : List (Polled T E)) : Body T E := ⟨inner, [], none, false⟩

/-- Behind the last data: what is held, then the trailers, then the end. -/
def flush (s : Body T E) : Polled T E × Body T E :=
  if s.held ≠ [] then (.data s.held, { s with held := [] })
  else
    match s.trailers with
    | some trailers => (.trailers trailers, { s with trailers := none })
    | none => (.ended, s)

/-- Reads on until there is a frame to hand on. A frame of a cap or more leaves as it is. -/
def readOn (held : List UInt8) : List (Polled T E) → Polled T E × Body T E
  | [] => (.pending, ⟨[], held, none, false⟩)
  | .pending :: rest => (.pending, ⟨rest, held, none, false⟩)
  | .ended :: rest => flush ⟨rest, held, none, true⟩
  | .failed error :: rest => (.failed error, ⟨rest, held, none, false⟩)
  | .data bytes :: rest =>
    if held = [] ∧ cap ≤ bytes.length then (.data bytes, ⟨rest, held, none, false⟩)
    else if cap ≤ (held ++ bytes).length then (.data (held ++ bytes), ⟨rest, [], none, false⟩)
    else readOn (held ++ bytes) rest
  | .trailers trailers :: rest => flush ⟨rest, held, some trailers, false⟩

def pollFrame (s : Body T E) : Polled T E × Body T E :=
  if s.ended ∨ s.trailers.isSome then s.flush else readOn s.held s.inner

/-- The answers to so many polls. -/
def emitted (s : Body T E) (polls : List Unit) : List (Polled T E) :=
  Machine.outputs (fun s _ => s.pollFrame.2) (fun s _ => s.pollFrame.1) s polls

end Body

section Spec

/-- What a body says, byte by byte. -/
inductive Token (T E : Type) where
  | byte (b : UInt8)
  | trailers (trailers : T)
  | failed (error : E)

def Polled.tokens : Polled T E → List (Token T E)
  | .pending => []
  | .ended => []
  | .failed error => [.failed error]
  | .data bytes => bytes.map .byte
  | .trailers t => [.trailers t]

/-- What a sequence of answers says up to its end. -/
def said : List (Polled T E) → List (Token T E)
  | [] => []
  | .ended :: _ => []
  | answer :: rest => answer.tokens ++ said rest

/-- A body says what its inner one says: nothing is lost, repeated or out of order, all is said by
the end, and the end comes. -/
structure Faithful (inner : List (Polled T E)) : Prop where
  in_order : ∀ polls, said ((Body.new inner).emitted polls) <+: said inner
  complete : ∀ polls, .ended ∈ (Body.new inner).emitted polls →
    said ((Body.new inner).emitted polls) = said inner
  ends : .ended ∈ inner → ∃ polls, .ended ∈ (Body.new inner).emitted polls

/-- Whether every error comes when as many bytes as were read since the last frame handed on, fewer
than a cap, are none. -/
def ErrorsClear : ℕ → List (Polled T E) → Prop
  | _, [] => True
  | _, .ended :: _ => True
  | held, .pending :: rest => ErrorsClear held rest
  | held, .failed _ :: rest => held = 0 ∧ ErrorsClear held rest
  | held, .data bytes :: rest =>
    ErrorsClear (if cap ≤ held + bytes.length then 0 else held + bytes.length) rest
  | _, .trailers _ :: rest => ErrorsClear 0 rest

end Spec

section Polls

variable {s : Body T E} {held bytes : List UInt8} {rest : List (Polled T E)} {answer : Polled T E}
  {polls : List Unit}

@[simp] theorem emitted_nil : s.emitted [] = [] := rfl

@[simp] theorem emitted_cons {u : Unit} :
    s.emitted (u :: polls) = s.pollFrame.1 :: s.pollFrame.2.emitted polls := rfl

@[simp] theorem said_nil : said ([] : List (Polled T E)) = [] := rfl

theorem said_cons (h : answer ≠ .ended) : said (answer :: rest) = answer.tokens ++ said rest := by
  cases answer <;> first | rfl | exact absurd rfl h

/-- A body that has ended says nothing more. -/
structure Finished (s : Body T E) : Prop where
  ended : s.ended = true
  held : s.held = []
  trailers : s.trailers = none

theorem Finished.pollFrame (h : Finished s) : s.pollFrame = (.ended, s) := by
  unfold Body.pollFrame Body.flush
  rw [if_pos (Or.inl h.ended), if_neg (by simp [h.held]), h.trailers]

/-- What a body has still to say. -/
def remaining (s : Body T E) : List (Token T E) :=
  s.held.map .byte ++ (s.trailers.toList.map .trailers ++ if s.ended then [] else said s.inner)

theorem Finished.remaining (h : Finished s) : remaining s = [] := by
  simp [Coalesce.remaining, h.held, h.trailers, h.ended]

/-- No error comes while bytes are held. -/
def Clear (s : Body T E) : Prop :=
  s.ended = true ∨ ErrorsClear (if s.trailers.isSome then 0 else s.held.length) s.inner

/-- What one poll keeps: what is said and what remains are what remained. -/
structure Kept (s : Body T E) (polled : Polled T E × Body T E) : Prop where
  clear : Clear polled.2
  told : remaining s = polled.1.tokens ++ remaining polled.2
  finished : polled.1 = .ended → Finished polled.2

theorem kept_flush (hclear : Clear s) (hdone : s.ended = true ∨ s.trailers.isSome = true) :
    Kept s s.flush := by
  obtain ⟨inner, held, trailers, ended⟩ := s
  rcases held with _ | ⟨b, held⟩
  · rcases trailers with _ | t
    · have hended : ended = true := by simpa using hdone
      exact ⟨hclear, rfl, fun _ => ⟨hended, rfl, rfl⟩⟩
    · exact ⟨hclear, rfl, by rintro ⟨⟩⟩
  · have hnext : Clear (⟨inner, [], trailers, ended⟩ : Body T E) := by
      rcases hdone with hended | htrailers
      · exact Or.inl hended
      · simpa [Clear, show trailers.isSome = true from htrailers] using hclear
    exact ⟨hnext, by simp [Body.flush, remaining, Polled.tokens], by rintro ⟨⟩⟩

/-- Data is handed on, with what is held before it, from a cap of bytes on. -/
theorem readOn_data : Body.readOn held (.data bytes :: rest) =
    if cap ≤ held.length + bytes.length then (.data (held ++ bytes), ⟨rest, [], none, false⟩)
    else Body.readOn (held ++ bytes) rest := by
  rw [Body.readOn, List.length_append]
  by_cases hwhole : held = [] ∧ cap ≤ bytes.length
  · obtain ⟨rfl, hcap⟩ := hwhole
    rw [if_pos ⟨rfl, hcap⟩, if_pos (by simpa using hcap), List.nil_append]
  · rw [if_neg hwhole]

theorem kept_readOn : ∀ {inner : List (Polled T E)} {held : List UInt8},
    ErrorsClear held.length inner → Kept ⟨inner, held, none, false⟩ (Body.readOn held inner)
  | [], held, h => ⟨Or.inr h, rfl, by rintro ⟨⟩⟩
  | .pending :: rest, held, h => ⟨Or.inr h, rfl, by rintro ⟨⟩⟩
  | .ended :: rest, held, h => by
    have hflush := kept_flush (s := (⟨rest, held, none, true⟩ : Body T E)) (Or.inl rfl) (Or.inl rfl)
    exact ⟨hflush.clear, hflush.told, hflush.finished⟩
  | .failed error :: rest, held, h => by
    obtain ⟨hheld, hrest⟩ := h
    obtain rfl := List.length_eq_zero_iff.1 hheld
    exact ⟨Or.inr hrest, rfl, by rintro ⟨⟩⟩
  | .trailers t :: rest, held, h => by
    have hflush := kept_flush (s := ⟨rest, held, some t, false⟩) (Or.inr h) (Or.inr rfl)
    exact ⟨hflush.clear, hflush.told, hflush.finished⟩
  | .data bytes :: rest, held, h => by
    unfold ErrorsClear at h
    have htold : remaining ⟨.data bytes :: rest, held, none, false⟩ =
        (held ++ bytes).map .byte ++ said rest := by
      simp [remaining, said, Polled.tokens]
    rw [readOn_data]
    split_ifs at h ⊢
    · exact ⟨Or.inr h, htold, by rintro ⟨⟩⟩
    · rw [← List.length_append] at h
      have hrest := kept_readOn h
      exact ⟨hrest.clear, htold.trans hrest.told, hrest.finished⟩

theorem kept_pollFrame (h : Clear s) : Kept s s.pollFrame := by
  unfold Body.pollFrame
  split_ifs with hdone
  · exact kept_flush h hdone
  · obtain ⟨inner, held, trailers, ended⟩ := s
    obtain ⟨hended, htrailers⟩ := not_or.1 hdone
    obtain rfl := Bool.eq_false_iff.2 hended
    obtain rfl : trailers = none := by simpa using htrailers
    exact kept_readOn (by simpa [Clear] using h)

/-- The body after so many polls. -/
def after (s : Body T E) (polls : List Unit) : Body T E :=
  Machine.run (fun s _ => s.pollFrame.2) s polls

theorem Finished.emitted (h : Finished s) : ∀ polls : List Unit,
    said (s.emitted polls) = [] ∧ Finished (after s polls)
  | [] => ⟨rfl, h⟩
  | _ :: polls => by
    rw [emitted_cons, after, Machine.run_cons, h.pollFrame]
    exact ⟨rfl, (h.emitted polls).2⟩

/-- What is said and what remains are, poll after poll, what the body began with. -/
theorem kept_emitted (h : Clear s) (polls : List Unit) :
    said (s.emitted polls) ++ remaining (after s polls) = remaining s ∧
      (.ended ∈ s.emitted polls → Finished (after s polls)) := by
  induction polls generalizing s with
  | nil => exact ⟨rfl, nofun⟩
  | cons u polls ih =>
    have hpoll := kept_pollFrame h
    have hafter : after s (u :: polls) = after s.pollFrame.2 polls := rfl
    rw [emitted_cons, hafter]
    by_cases hended : s.pollFrame.1 = .ended
    · have hfinished := hpoll.finished hended
      rw [hpoll.told, hended, hfinished.remaining, (hfinished.emitted polls).2.remaining]
      exact ⟨rfl, fun _ => (hfinished.emitted polls).2⟩
    · obtain ⟨htold, hfinal⟩ := ih hpoll.clear
      refine ⟨by rw [said_cons hended, List.append_assoc, htold, ← hpoll.told], fun hmem => ?_⟩
      exact hfinal ((List.mem_cons.1 hmem).resolve_left fun heq => hended heq.symm)

end Polls

section Errors

variable {s : Body T E} {held bytes : List UInt8} {rest : List (Polled T E)} {answer : Polled T E}

/-- Whether some number of polls has an error come before bytes that were read before it. -/
def Broken (s : Body T E) : Prop := ∃ polls, ¬ said (s.emitted polls) <+: remaining s

theorem Broken.of_poll {t : Body T E} (hpoll : s.pollFrame = (answer, t)) (hne : answer ≠ .ended)
    (htold : remaining s = answer.tokens ++ remaining t) (h : Broken t) : Broken s := by
  obtain ⟨polls, hpolls⟩ := h
  refine ⟨() :: polls, fun hprefix => hpolls ?_⟩
  rw [emitted_cons, hpoll, said_cons hne, htold] at hprefix
  exact (List.prefix_append_right_inj _).1 hprefix

/-- A body that answers as another one does breaks as it does. -/
theorem Broken.of_eq {t : Body T E} (hpoll : s.pollFrame = t.pollFrame)
    (hremaining : remaining s = remaining t) (h : Broken t) : Broken s := by
  obtain ⟨polls, hpolls⟩ := h
  rcases polls with _ | ⟨u, polls⟩
  · exact (hpolls List.nil_prefix).elim
  · exact ⟨u :: polls, by rwa [emitted_cons, hpoll, hremaining]⟩

theorem broken_of_not_clear : ∀ {inner : List (Polled T E)} (held : List UInt8),
    ¬ ErrorsClear held.length inner → Broken ⟨inner, held, none, false⟩
  | [], held, h => (h trivial).elim
  | .ended :: rest, held, h => (h trivial).elim
  | .pending :: rest, held, h =>
    have hrest : Broken (⟨rest, held, none, false⟩ : Body T E) := broken_of_not_clear held h
    hrest.of_poll rfl (by rintro ⟨⟩) rfl
  | .failed error :: rest, held, h => by
    rcases held with _ | ⟨b, held⟩
    · have hrest : Broken (⟨rest, [], none, false⟩ : Body T E) :=
        broken_of_not_clear [] fun hrest => h ⟨rfl, hrest⟩
      exact hrest.of_poll rfl (by rintro ⟨⟩) rfl
    · refine ⟨[()], fun hprefix => ?_⟩
      obtain ⟨more, hmore⟩ := hprefix
      cases hmore
  | .trailers t :: rest, held, h => by
    have hrest : Broken (⟨rest, [], none, false⟩ : Body T E) := broken_of_not_clear [] h
    have hlast : Broken (⟨rest, [], some t, false⟩ : Body T E) :=
      hrest.of_poll rfl (by rintro ⟨⟩) rfl
    rcases held with _ | ⟨b, held⟩
    · have hpoll : (⟨.trailers t :: rest, [], none, false⟩ : Body T E).pollFrame =
          (⟨rest, [], some t, false⟩ : Body T E).pollFrame := rfl
      exact Broken.of_eq hpoll rfl hlast
    · exact hlast.of_poll rfl (by rintro ⟨⟩) (by simp [remaining, said, Polled.tokens])
  | .data bytes :: rest, held, h => by
    have hremaining : remaining ⟨.data bytes :: rest, held, none, false⟩ =
        (held ++ bytes).map .byte ++ said rest := by
      simp [remaining, said, Polled.tokens]
    unfold ErrorsClear at h
    split_ifs at h with hcap
    · have hrest : Broken (⟨rest, [], none, false⟩ : Body T E) := broken_of_not_clear [] h
      exact hrest.of_poll (readOn_data.trans (if_pos hcap)) (by rintro ⟨⟩) hremaining
    · rw [← List.length_append] at h
      have hrest : Broken (⟨rest, held ++ bytes, none, false⟩ : Body T E) := broken_of_not_clear _ h
      have hpoll : (⟨.data bytes :: rest, held, none, false⟩ : Body T E).pollFrame =
          (⟨rest, held ++ bytes, none, false⟩ : Body T E).pollFrame :=
        readOn_data.trans (if_neg hcap)
      exact Broken.of_eq hpoll hremaining hrest

/-- A body that was asked often enough answers that its inner one has ended. -/
theorem exists_ended : ∀ {inner : List (Polled T E)} (held : List UInt8), .ended ∈ inner →
    ∃ polls, .ended ∈ (⟨inner, held, none, false⟩ : Body T E).emitted polls
  | [], held, h => nomatch h
  | .ended :: rest, held, _ => by
    rcases held with _ | ⟨b, held⟩
    · exact ⟨[()], List.mem_singleton_self _⟩
    · exact ⟨[(), ()], List.mem_cons_of_mem _ (List.mem_singleton_self _)⟩
  | .pending :: rest, held, h => by
    obtain ⟨polls, hpolls⟩ := exists_ended held ((List.mem_cons.1 h).resolve_left nofun)
    exact ⟨() :: polls, List.mem_cons_of_mem _ hpolls⟩
  | .failed error :: rest, held, h => by
    obtain ⟨polls, hpolls⟩ := exists_ended held ((List.mem_cons.1 h).resolve_left nofun)
    exact ⟨() :: polls, List.mem_cons_of_mem _ hpolls⟩
  | .trailers t :: rest, held, h => by
    obtain ⟨polls, hpolls⟩ := exists_ended [] ((List.mem_cons.1 h).resolve_left nofun)
    rcases held with _ | ⟨b, held⟩
    · exact ⟨() :: polls, List.mem_cons_of_mem _ hpolls⟩
    · exact ⟨() :: () :: polls, List.mem_cons_of_mem _ (List.mem_cons_of_mem _ hpolls)⟩
  | .data bytes :: rest, held, h => by
    have hrest := (List.mem_cons.1 h).resolve_left nofun
    have hpoll : (⟨.data bytes :: rest, held, none, false⟩ : Body T E).pollFrame = _ := readOn_data
    split_ifs at hpoll
    · obtain ⟨polls, hpolls⟩ := exists_ended [] hrest
      refine ⟨() :: polls, ?_⟩
      rw [emitted_cons, hpoll]
      exact List.mem_cons_of_mem _ hpolls
    · obtain ⟨polls, hpolls⟩ := exists_ended (held ++ bytes) hrest
      rcases polls with _ | ⟨u, polls⟩
      · cases hpolls
      · refine ⟨u :: polls, ?_⟩
        rw [emitted_cons, hpoll]
        exact hpolls

/-- A body says what its inner one says exactly when no error comes behind bytes that are held. -/
theorem faithful_iff (inner : List (Polled T E)) : Faithful inner ↔ ErrorsClear 0 inner := by
  constructor
  · intro h
    by_contra hclear
    obtain ⟨polls, hpolls⟩ := broken_of_not_clear [] hclear
    exact hpolls (h.in_order polls)
  · intro h
    have hclear : Clear (Body.new inner) := Or.inr h
    have hall : remaining (Body.new inner) = said inner := rfl
    refine ⟨fun polls => ?_, fun polls hended => ?_, exists_ended []⟩
    · rw [← hall, ← (kept_emitted hclear polls).1]
      exact List.prefix_append _ _
    · obtain ⟨htold, hfinal⟩ := kept_emitted hclear polls
      rw [← hall, ← htold, (hfinal hended).remaining, List.append_nil]

/-- Two bytes, then an error: the error is handed on first. -/
theorem error_before_held : ¬ ∀ inner : List (Polled Unit String), Faithful inner := by
  intro h
  obtain ⟨more, hmore⟩ := (h [.data [0x61, 0x62], .failed "reset"]).in_order [()]
  cases hmore

end Errors

end JoinedContext.Coalesce

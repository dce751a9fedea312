import JoinedContext.Library.Assoc
import JoinedContext.Library.Machine
import Mathlib.Tactic.Common

/-!
# Cached downloads

The anonymous answer of each Endpoint and query is built once however many callers ask for it. A call
finds its entry under the table's lock, waits for its turn at the entry's cell, builds unless another
has, and forgets what failed or is too long, each a step of its own.
-/

namespace JoinedContext.Gateway.DownloadCache

section Source

/-- Times are in milliseconds. -/
def FRESH_FOR : ℕ := 30000

/-- A build nobody finished stops holding its key after this long. -/
def ABANDONED_AFTER : ℕ := 120000

def MAX_HELD : ℕ := 64

def MAX_HELD_BYTES : ℕ := 1024 * 1024

/-- An Endpoint, with its anonymous caller. -/
structure Endpoint (σ : Type) where
  slug : String
  anonymous : σ

/-- The query, the first `Link`, and the wishes to be told about narrowing. -/
structure Request where
  query : Option String := none
  link : Option (List UInt8) := none
  restricted : List (List UInt8) := []

def lowered (byte : UInt8) : UInt8 := if 65 ≤ byte ∧ byte ≤ 90 then byte + 32 else byte

def askedAboutNarrowing (request : Request) : Bool :=
  request.restricted.any fun value => value.map lowered == "true".toUTF8.toList

/-- Everything the answer depends on besides the data. A table is named by its identity: the key keeps
it, so that no other takes its address. -/
structure Key where
  table : ℕ
  slug : String
  query : String
  link : Option (List UInt8)
  narrowing : Bool
deriving DecidableEq

variable {σ : Type} [DecidableEq σ]

/-- A caller's request of an Endpoint, under the table that admitted it. -/
structure Caller (σ : Type) where
  table : ℕ
  endpoint : Endpoint σ
  subject : σ
  request : Request

/-- The key of a request, none for any caller but the Endpoint's anonymous one. -/
def Caller.key (c : Caller σ) : Option Key :=
  if c.subject = c.endpoint.anonymous then
    some ⟨c.table, c.endpoint.slug, c.request.query.getD "", c.request.link,
      askedAboutNarrowing c.request⟩
  else none

/-- A call that was made at a time. -/
structure Asked (σ : Type) where
  id : ℕ
  caller : Caller σ
  time : ℕ

/-- A built answer: the file, whether the view narrowed it, and when it was built; and the call it was
built for. -/
structure Built (σ : Type) where
  bytes : List UInt8
  restricted : Bool
  at_ : ℕ
  by_ : Asked σ

/-- An entry was born for a key. -/
structure Entry (σ : Type) where
  key : Key
  born : ℕ
  built : Option (Built σ) := none

def Entry.fresh (e : Entry σ) (now : ℕ) : Bool :=
  match e.built with
  | some built => now - built.at_ < FRESH_FOR
  | none => now - e.born < ABANDONED_AFTER

end Source

section Runs

variable {σ : Type} [DecidableEq σ]

/-- Where a call is: building for itself, without a key; or at an entry, waiting for its turn, building,
or with what was made, nothing where its own build failed. -/
inductive Stage (σ : Type) where
  | alone
  | waiting (entry : ℕ)
  | building (entry : ℕ)
  | made (entry : ℕ) (built : Option (Built σ))

structure Call (σ : Type) where
  asked : Asked σ
  stage : Stage σ

/-- What a call returned: the answer, none for a failure, of the build of a call that ended at a
time. -/
structure Answer (σ : Type) where
  call : Asked σ
  by_ : Asked σ
  ended : ℕ
  result : Option (List UInt8 × Bool)

structure State (σ : Type) where
  now : ℕ := 0
  table : ℕ := 0
  held : List (Key × ℕ) := []
  entries : List (ℕ × Entry σ) := []
  calls : List (ℕ × Call σ) := []
  next : ℕ := 0
  nextEntry : ℕ := 0
  answers : List (Answer σ) := []

inductive Op (σ : Type) where
  | wait (time : ℕ)
  /-- The Endpoint table is replaced. -/
  | reload
  | ask (caller : Caller σ)
  /-- A call has its turn at its entry's cell. -/
  | turn (id : ℕ)
  /-- A build ends, with nothing where it fails. -/
  | finish (id : ℕ) (result : Option (List UInt8 × Bool))
  /-- A call returns. -/
  | close (id : ℕ)
  /-- A call that waits or builds goes away. -/
  | drop (id : ℕ)

namespace State

variable (s : State σ)

def entryFresh (e : ℕ) : Bool := ((s.entries.lookup e).map fun entry => entry.fresh s.now).getD false

/-- The held entries that are fresh. -/
def retained : List (Key × ℕ) := s.held.filter fun c => s.entryFresh c.2

/-- Whether a call has the cell of an entry. -/
def busy (e : ℕ) : Bool := s.calls.any fun c => match c.2.stage with
  | .building e' => e' = e
  | _ => false

/-- The entry of a key, or a new one, held unless too many are. -/
def enter (asked : Asked σ) (key : Key) : State σ :=
  match s.retained.lookup key with
  | some e => { s with
      held := s.retained
      calls := Assoc.put asked.id ⟨asked, .waiting e⟩ s.calls
      next := s.next + 1 }
  | none => { s with
      held := if s.retained.length < MAX_HELD then Assoc.put key s.nextEntry s.retained else s.retained
      entries := Assoc.put s.nextEntry ⟨key, s.now, none⟩ s.entries
      calls := Assoc.put asked.id ⟨asked, .waiting s.nextEntry⟩ s.calls
      next := s.next + 1
      nextEntry := s.nextEntry + 1 }

/-- Where a build has failed or is too long, its entry is forgotten. -/
def forget (key : Option Key) (e : ℕ) (built : Option (Built σ)) : List (Key × ℕ) :=
  match key with
  | some key =>
    if built.all (fun b => MAX_HELD_BYTES < b.bytes.length) ∧ s.held.lookup key = some e then
      Assoc.without key s.held
    else s.held
  | none => s.held

def moved (id : ℕ) (call : Call σ) (stage : Stage σ) : List (ℕ × Call σ) :=
  Assoc.put id ⟨call.asked, stage⟩ s.calls

def step : Op σ → State σ
  | .wait time => { s with now := s.now + time }
  | .reload => { s with table := s.table + 1 }
  | .ask caller =>
    let asked : Asked σ := ⟨s.next, caller, s.now⟩
    if s.table < caller.table then s
    else match caller.key with
    | some key => s.enter asked key
    | none => { s with calls := Assoc.put s.next ⟨asked, .alone⟩ s.calls, next := s.next + 1 }
  | .turn id =>
    match s.calls.lookup id with
    | some call =>
      match call.stage with
      | .waiting e =>
        match (s.entries.lookup e).bind Entry.built with
        | some built => { s with calls := s.moved id call (.made e (some built)) }
        | none => if s.busy e then s else { s with calls := s.moved id call (.building e) }
      | _ => s
    | none => s
  | .finish id result =>
    match s.calls.lookup id with
    | some call =>
      match call.stage with
      | .alone => { s with
          calls := Assoc.without id s.calls
          answers := ⟨call.asked, call.asked, s.now, result⟩ :: s.answers }
      | .building e =>
        match s.entries.lookup e, result with
        | some entry, some (bytes, restricted) =>
          let built : Built σ := ⟨bytes, restricted, s.now, call.asked⟩
          { s with
            entries := Assoc.put e { entry with built := some built } s.entries
            calls := s.moved id call (.made e (some built)) }
        | _, _ => { s with calls := s.moved id call (.made e none) }
      | _ => s
    | none => s
  | .close id =>
    match s.calls.lookup id with
    | some call =>
      match call.stage with
      | .made e built => { s with
          held := s.forget call.asked.caller.key e built
          calls := Assoc.without id s.calls
          answers := ⟨call.asked, (built.map Built.by_).getD call.asked, (built.map Built.at_).getD s.now,
            built.map fun b => (b.bytes, b.restricted)⟩ :: s.answers }
      | _ => s
    | none => s
  | .drop id =>
    match s.calls.lookup id with
    | some call =>
      match call.stage with
      | .made _ _ => s
      | _ => { s with calls := Assoc.without id s.calls }
    | none => s

end State

end Runs

section Property

variable {σ : Type} [DecidableEq σ]

namespace Stage

/-- The entry a call waits or builds at. -/
def on : Stage σ → Option ℕ
  | .waiting e | .building e => some e
  | .alone | .made _ _ => none

/-- The entry a call builds at. -/
def builds : Stage σ → Option ℕ
  | .building e => some e
  | .alone | .waiting _ | .made _ _ => none

end Stage

/-- A returned answer is the caller's own: a failure and an answer without a key are of its own build,
and any is of a build under its key that ended at most so long before the call was made. -/
structure Answer.Own (a : Answer σ) : Prop where
  failed : a.result = none → a.by_ = a.call
  keyless : a.call.caller.key = none → a.by_ = a.call
  same : a.by_.caller.key = a.call.caller.key
  fresh : a.call.time < a.ended + FRESH_FOR

/-- Every answer is the caller's own, no two builds of a held key are running, and no more than so many
answers are held, none too long but those whose build has yet to return. -/
structure Cached (s : State σ) : Prop where
  answers : ∀ a ∈ s.answers, a.Own
  single : ∀ k e, s.held.lookup k = some e → ∀ i j c d,
    s.calls.lookup i = some c → s.calls.lookup j = some d →
    c.asked.caller.key = some k → d.asked.caller.key = some k →
    c.stage.builds.isSome → d.stage.builds.isSome → i = j
  few : s.held.length ≤ MAX_HELD
  short : ∀ k e entry b, s.held.lookup k = some e → s.entries.lookup e = some entry →
    entry.built = some b → MAX_HELD_BYTES < b.bytes.length →
    ∃ c, s.calls.lookup b.by_.id = some c ∧ c.asked = b.by_ ∧ c.stage = .made e (some b)

/-- A key is entered anew only when no call of it waits or builds. -/
def State.Orderly (s : State σ) : Op σ → Prop
  | .ask caller => ∀ k, caller.key = some k → s.retained.lookup k = none →
      s.retained.length < MAX_HELD →
      ∀ i c, s.calls.lookup i = some c → c.asked.caller.key = some k → c.stage.on = none
  | _ => True

end Property

section Invariant

variable {σ : Type} [DecidableEq σ]

/-- Where a call is, it was placed: at an entry of its key, whose answer is fresh for it. -/
def Call.Placed (c : Call σ) (entries : List (ℕ × Entry σ)) : Prop :=
  match c.stage with
  | .alone => c.asked.caller.key = none
  | .waiting e => ∃ entry, entries.lookup e = some entry ∧ c.asked.caller.key = some entry.key ∧
      ∀ b, entry.built = some b → c.asked.time < b.at_ + FRESH_FOR
  | .building e => ∃ entry, entries.lookup e = some entry ∧ c.asked.caller.key = some entry.key ∧
      entry.built = none
  | .made _ built => c.asked.caller.key.isSome ∧ ∀ b, built = some b →
      b.by_.caller.key = c.asked.caller.key ∧ c.asked.time < b.at_ + FRESH_FOR

/-- The calls are placed, one at most builds at an entry, and those that wait or build under a held key
do so at its entry. -/
structure Sound (s : State σ) : Prop where
  nodup : (s.held.map Prod.fst).Nodup
  held : ∀ k e, s.held.lookup k = some e → ∃ entry, s.entries.lookup e = some entry ∧ entry.key = k
  entries : ∀ e entry, s.entries.lookup e = some entry → e < s.nextEntry ∧
    ∀ b, entry.built = some b → b.by_.caller.key = some entry.key
  ids : ∀ id c, s.calls.lookup id = some c → c.asked.id = id ∧ id < s.next ∧ c.asked.time ≤ s.now
  placed : ∀ id c, s.calls.lookup id = some c → c.Placed s.entries
  builders : ∀ e i j c d, s.calls.lookup i = some c → s.calls.lookup j = some d →
    c.stage.builds = some e → d.stage.builds = some e → i = j
  there : ∀ k e, s.held.lookup k = some e → ∀ i c, s.calls.lookup i = some c →
    c.asked.caller.key = some k → ∀ e', c.stage.on = some e' → e' = e
  few : s.held.length ≤ MAX_HELD
  short : ∀ k e entry b, s.held.lookup k = some e → s.entries.lookup e = some entry →
    entry.built = some b → MAX_HELD_BYTES < b.bytes.length →
    ∃ c, s.calls.lookup b.by_.id = some c ∧ c.asked = b.by_ ∧ c.stage = .made e (some b)
  answers : ∀ a ∈ s.answers, a.Own

variable {s : State σ} {op : Op σ} {id e : ℕ} {call : Call σ} {k : Key}

theorem Sound.start : Sound ({} : State σ) := by
  constructor <;> simp

omit [DecidableEq σ] in
theorem Stage.on_of_builds {stage : Stage σ} (h : stage.builds = some e) : stage.on = some e := by
  cases stage with
  | building e' => exact h
  | _ => cases h

theorem Sound.cached (h : Sound s) : Cached s where
  answers := h.answers
  single k e hheld i j c d hi hj hck hdk hc hd := by
    obtain ⟨ec, hec⟩ := Option.isSome_iff_exists.1 hc
    obtain ⟨ed, hed⟩ := Option.isSome_iff_exists.1 hd
    obtain rfl := h.there k e hheld i c hi hck ec (Stage.on_of_builds hec)
    obtain rfl := h.there k ec hheld j d hj hdk ed (Stage.on_of_builds hed)
    exact h.builders ed i j c d hi hj hec hed
  few := h.few
  short := h.short

theorem lookup_retained (h : Sound s) :
    s.retained.lookup k = (s.held.lookup k).filter fun e => s.entryFresh e :=
  Assoc.lookup_filter h.nodup

theorem held_of_retained (h : Sound s) (hk : s.retained.lookup k = some e) :
    s.held.lookup k = some e ∧ s.entryFresh e = true := by
  rw [lookup_retained h, Option.filter_eq_some_iff] at hk
  exact hk

omit [DecidableEq σ] in
/-- A call's entry is fresh for a call that is made now. -/
theorem lt_of_entryFresh {entry : Entry σ} {b : Built σ} (hfresh : s.entryFresh e = true)
    (hentry : s.entries.lookup e = some entry) (hb : entry.built = some b) :
    s.now < b.at_ + FRESH_FOR := by
  unfold State.entryFresh at hfresh
  rw [hentry, Option.map_some, Option.getD_some, Entry.fresh, hb] at hfresh
  simp only [decide_eq_true_eq] at hfresh
  omega

omit [DecidableEq σ] in
theorem lookup_moved {stage : Stage σ} {i : ℕ} :
    (s.moved id call stage).lookup i = if i = id then some ⟨call.asked, stage⟩ else s.calls.lookup i :=
  Assoc.lookup_put

/-- A call moves on that has nothing made yet, at the entry where it was. -/
theorem Sound.move {stage : Stage σ} (h : Sound s) (hcall : s.calls.lookup id = some call)
    (hplaced : Call.Placed ⟨call.asked, stage⟩ s.entries)
    (hbuilds : ∀ e, stage.builds = some e → ∀ j d, s.calls.lookup j = some d →
      d.stage.builds = some e → j = id)
    (hon : ∀ e, stage.on = some e → call.stage.on = some e)
    (hmade : ∀ e b, call.stage ≠ .made e b) : Sound { s with calls := s.moved id call stage } where
  nodup := h.nodup
  held := h.held
  entries := h.entries
  ids i c hc := by
    rw [lookup_moved] at hc
    split_ifs at hc with hi
    · cases hc
      exact hi ▸ h.ids id call hcall
    · exact h.ids i c hc
  placed i c hc := by
    rw [lookup_moved] at hc
    split_ifs at hc
    · cases hc
      exact hplaced
    · exact h.placed i c hc
  builders e i j c d hc hd hce hde := by
    rw [lookup_moved] at hc hd
    split_ifs at hc hd with hi hj hj
    · rw [hi, hj]
    · cases hc
      exact (hi.trans (hbuilds e hce j d hd hde).symm)
    · cases hd
      exact (hbuilds e hde i c hc hce).trans hj.symm
    · exact h.builders e i j c d hc hd hce hde
  there k e hheld i c hc hkey e' he' := by
    rw [lookup_moved] at hc
    split_ifs at hc
    · cases hc
      exact h.there k e hheld id call hcall hkey e' (hon e' he')
    · exact h.there k e hheld i c hc hkey e' he'
  few := h.few
  short k e entry b hheld hentry hb hlong := by
    obtain ⟨c, hc, hby, hstage⟩ := h.short k e entry b hheld hentry hb hlong
    refine ⟨c, ?_, hby, hstage⟩
    rw [lookup_moved, if_neg, hc]
    rintro rfl
    rw [hcall] at hc
    cases hc
    exact hmade e (some b) hstage
  answers := h.answers

/-- A call goes that has nothing made. -/
theorem Sound.remove (h : Sound s)
    (hmade : ∀ c, s.calls.lookup id = some c → ∀ e b, c.stage ≠ .made e b) :
    Sound { s with calls := Assoc.without id s.calls } := by
  have hlookup : ∀ i c, (Assoc.without id s.calls).lookup i = some c → s.calls.lookup i = some c :=
    fun _ _ => Assoc.lookup_of_without
  refine ⟨h.nodup, h.held, h.entries, fun i c hc => h.ids i c (hlookup i c hc),
    fun i c hc => h.placed i c (hlookup i c hc),
    fun e i j c d hc hd => h.builders e i j c d (hlookup i c hc) (hlookup j d hd),
    fun k e hheld i c hc => h.there k e hheld i c (hlookup i c hc), h.few,
    fun k e entry b hheld hentry hb hlong => ?_, h.answers⟩
  obtain ⟨c, hc, hby, hstage⟩ := h.short k e entry b hheld hentry hb hlong
  refine ⟨c, ?_, hby, hstage⟩
  rw [Assoc.lookup_without, if_neg, hc]
  rintro rfl
  exact hmade c hc e (some b) hstage

theorem Sound.answer (h : Sound s) {a : Answer σ} (ha : a.Own) :
    Sound { s with answers := a :: s.answers } where
  nodup := h.nodup
  held := h.held
  entries := h.entries
  ids := h.ids
  placed := h.placed
  builders := h.builders
  there := h.there
  few := h.few
  short := h.short
  answers b hb := by
    rcases List.mem_cons.1 hb with rfl | hb
    · exact ha
    · exact h.answers b hb

theorem Sound.wait (h : Sound s) (time : ℕ) : Sound (s.step (.wait time)) where
  nodup := h.nodup
  held := h.held
  entries := h.entries
  ids i c hc := by
    obtain ⟨hid, hlt, htime⟩ := h.ids i c hc
    exact ⟨hid, hlt, Nat.le_trans htime (Nat.le_add_right _ _)⟩
  placed := h.placed
  builders := h.builders
  there := h.there
  few := h.few
  short := h.short
  answers := h.answers

theorem Sound.reload (h : Sound s) : Sound (s.step .reload) where
  nodup := h.nodup
  held := h.held
  entries := h.entries
  ids := h.ids
  placed := h.placed
  builders := h.builders
  there := h.there
  few := h.few
  short := h.short
  answers := h.answers

omit [DecidableEq σ] in
theorem not_busy (h : s.busy e = false) {i : ℕ} {c : Call σ} (hc : s.calls.lookup i = some c) :
    c.stage.builds ≠ some e := by
  intro hbuilds
  have hmem := Assoc.mem_of_lookup hc
  have := List.any_eq_false.1 h (i, c) hmem
  cases hstage : c.stage with
  | building e' =>
    rw [hstage] at hbuilds
    cases hbuilds
    simp [hstage] at this
  | _ =>
    rw [hstage] at hbuilds
    cases hbuilds

theorem Sound.turn (h : Sound s) : Sound (s.step (.turn id)) := by
  rw [State.step]
  cases hcall : s.calls.lookup id with
  | none => exact h
  | some call =>
    simp only []
    cases hstage : call.stage with
    | waiting e =>
      have hplaced := h.placed id call hcall
      rw [Call.Placed, hstage] at hplaced
      obtain ⟨entry, hentry, hkey, hfresh⟩ := hplaced
      have hmade : ∀ e b, call.stage ≠ .made e b := fun e b heq => by cases hstage.symm.trans heq
      simp only [hentry, Option.bind_some]
      cases hbuilt : entry.built with
      | some b =>
        refine h.move hcall ⟨by rw [hkey]; rfl, fun b' hb' => ?_⟩ (fun e he => by cases he)
          (fun e he => by cases he) hmade
        cases hb'
        exact ⟨((h.entries e entry hentry).2 b hbuilt).trans hkey.symm, hfresh b hbuilt⟩
      | none =>
        simp only []
        split_ifs with hbusy
        · exact h
        · rw [Bool.not_eq_true] at hbusy
          refine h.move hcall ⟨entry, hentry, hkey, hbuilt⟩ (fun e' he' j d hd hde => ?_)
            (fun e' he' => ?_) hmade
          · cases he'
            exact (not_busy hbusy hd hde).elim
          · cases he'
            rw [hstage]
            rfl
    | _ => exact h

theorem Sound.drop (h : Sound s) : Sound (s.step (.drop id)) := by
  rw [State.step]
  cases hcall : s.calls.lookup id with
  | none => exact h
  | some call =>
    have hremove : (∀ e b, call.stage ≠ .made e b) →
        Sound { s with calls := Assoc.without id s.calls } := fun hmade =>
      h.remove fun c hc => by
        rw [hcall] at hc
        cases hc
        exact hmade
    simp only []
    cases hstage : call.stage with
    | made e b => exact h
    | alone => exact hremove fun e b heq => by cases hstage.symm.trans heq
    | waiting e => exact hremove fun e b heq => by cases hstage.symm.trans heq
    | building e => exact hremove fun e b heq => by cases hstage.symm.trans heq

theorem lt_add_fresh {t now : ℕ} (h : t ≤ now) : t < now + FRESH_FOR := by
  unfold FRESH_FOR
  omega

omit [DecidableEq σ] in
/-- An entry's build leaves its key and the other entries. -/
theorem lookup_built {entries : List (ℕ × Entry σ)} {entry : Entry σ} {b : Built σ}
    (hentry : entries.lookup e = some entry) {e' : ℕ} {entry' : Entry σ}
    (hentry' : entries.lookup e' = some entry') :
    ∃ entry'', (Assoc.put e { entry with built := some b } entries).lookup e' = some entry'' ∧
      entry''.key = entry'.key ∧ (entry''.built = entry'.built ∨ e' = e ∧ entry''.built = some b) := by
  rw [Assoc.lookup_put]
  split_ifs with heq
  · rw [heq] at hentry'
    obtain rfl : entry = entry' := Option.some.inj (hentry.symm.trans hentry')
    exact ⟨_, rfl, rfl, Or.inr ⟨heq, rfl⟩⟩
  · exact ⟨entry', hentry', rfl, Or.inl rfl⟩

/-- A build leaves a call placed that does not build there and that its answer is fresh for. -/
theorem Call.Placed.built {entries : List (ℕ × Entry σ)} {entry : Entry σ} {b : Built σ} {c : Call σ}
    (h : c.Placed entries) (hentry : entries.lookup e = some entry) (hother : c.stage.builds ≠ some e)
    (hfresh : c.asked.time < b.at_ + FRESH_FOR) :
    c.Placed (Assoc.put e { entry with built := some b } entries) := by
  unfold Call.Placed at h ⊢
  cases hstage : c.stage with
  | alone =>
    rw [hstage] at h
    exact h
  | waiting e' =>
    rw [hstage] at h
    obtain ⟨entry', hentry', hkey, hbuilts⟩ := h
    obtain ⟨entry'', hentry'', hkeys, hbuilt⟩ := lookup_built (b := b) hentry hentry'
    refine ⟨entry'', hentry'', hkeys ▸ hkey, fun b' hb' => ?_⟩
    rcases hbuilt with hbuilt | ⟨-, hbuilt⟩
    · exact hbuilts b' (hbuilt ▸ hb')
    · rw [hbuilt] at hb'
      cases hb'
      exact hfresh
  | building e' =>
    rw [hstage] at h
    obtain ⟨entry', hentry', hkey, hnone⟩ := h
    obtain ⟨entry'', hentry'', hkeys, hbuilt⟩ := lookup_built (b := b) hentry hentry'
    refine ⟨entry'', hentry'', hkeys ▸ hkey, ?_⟩
    rcases hbuilt with hbuilt | ⟨rfl, -⟩
    · exact hbuilt.trans hnone
    · exact (hother (by rw [hstage]; rfl)).elim
  | made e' b' =>
    rw [hstage] at h
    exact h

/-- A build's answer is fresh for its own call, and for those that wait. -/
theorem Sound.build (h : Sound s) {entry : Entry σ} {b : Built σ} (hcall : s.calls.lookup id = some call)
    (hstage : call.stage = .building e) (hentry : s.entries.lookup e = some entry)
    (hat : b.at_ = s.now) (hby : b.by_ = call.asked) :
    Sound { s with
      entries := Assoc.put e { entry with built := some b } s.entries
      calls := s.moved id call (.made e (some b)) } := by
  have hplaced := h.placed id call hcall
  rw [Call.Placed, hstage] at hplaced
  obtain ⟨entry', hentry', hkey, -⟩ := hplaced
  obtain rfl : entry = entry' := Option.some.inj (hentry.symm.trans hentry')
  obtain ⟨hid, -, htime⟩ := h.ids id call hcall
  have hnow : ∀ t, t ≤ s.now → t < b.at_ + FRESH_FOR := fun t ht => hat ▸ lt_add_fresh ht
  refine ⟨h.nodup, fun k e' hheld => ?_, fun e' entry' hentry' => ?_, fun i c hc => ?_, fun i c hc => ?_,
    fun e' i j c d hc hd hce hde => ?_, fun k e' hheld i c hc hck e'' he'' => ?_, h.few,
    fun k e' entry' b' hheld hentry' hb' hlong => ?_, h.answers⟩
  · obtain ⟨entry', hentry', hk⟩ := h.held k e' hheld
    obtain ⟨entry'', hentry'', hkeys, -⟩ := lookup_built (b := b) hentry hentry'
    exact ⟨entry'', hentry'', hkeys.trans hk⟩
  · rw [Assoc.lookup_put] at hentry'
    split_ifs at hentry' with heq
    · cases hentry'
      refine ⟨heq ▸ (h.entries e entry hentry).1, fun b' hb' => ?_⟩
      cases hb'
      rw [hby]
      exact hkey
    · exact h.entries e' entry' hentry'
  · rw [lookup_moved] at hc
    split_ifs at hc with hi
    · cases hc
      exact hi ▸ h.ids id call hcall
    · exact h.ids i c hc
  · rw [lookup_moved] at hc
    split_ifs at hc with hi
    · cases hc
      refine ⟨by rw [hkey]; rfl, fun b' hb' => ?_⟩
      cases hb'
      exact ⟨by rw [hby], hnow _ htime⟩
    · have hother : c.stage.builds ≠ some e := fun he =>
        hi (h.builders e i id c call hc hcall he (by rw [hstage]; rfl))
      exact (h.placed i c hc).built hentry hother (hnow _ (h.ids i c hc).2.2)
  · rw [lookup_moved] at hc hd
    split_ifs at hc hd with hi hj hj
    · rw [hi, hj]
    · cases hc
      cases hce
    · cases hd
      cases hde
    · exact h.builders e' i j c d hc hd hce hde
  · rw [lookup_moved] at hc
    split_ifs at hc
    · cases hc
      cases he''
    · exact h.there k e' hheld i c hc hck e'' he''
  · rw [Assoc.lookup_put] at hentry'
    rw [lookup_moved]
    split_ifs at hentry' with heq
    · cases hentry'
      cases hb'
      refine ⟨⟨call.asked, .made e (some b)⟩, if_pos (by rw [hby, hid]), hby.symm, by rw [heq]⟩
    · obtain ⟨c, hc, hcby, hcstage⟩ := h.short k e' entry' b' hheld hentry' hb' hlong
      refine ⟨c, ?_, hcby, hcstage⟩
      rw [if_neg, hc]
      intro hi
      rw [hi, hcall] at hc
      cases hc
      cases hstage.symm.trans hcstage

theorem Sound.finish (h : Sound s) (result : Option (List UInt8 × Bool)) :
    Sound (s.step (.finish id result)) := by
  rw [State.step]
  cases hcall : s.calls.lookup id with
  | none => exact h
  | some call =>
    have hplaced := h.placed id call hcall
    obtain ⟨-, -, htime⟩ := h.ids id call hcall
    simp only []
    cases hstage : call.stage with
    | alone =>
      rw [Call.Placed, hstage] at hplaced
      have hremoved : Sound { s with calls := Assoc.without id s.calls } := h.remove fun c hc e b heq => by
        rw [hcall] at hc
        cases hc
        cases hstage.symm.trans heq
      exact hremoved.answer (a := ⟨call.asked, call.asked, s.now, result⟩)
        ⟨fun _ => rfl, fun _ => rfl, rfl, lt_add_fresh htime⟩
    | building e =>
      have hmade : ∀ e b, call.stage ≠ .made e b := fun e b heq => by cases hstage.symm.trans heq
      rw [Call.Placed, hstage] at hplaced
      obtain ⟨entry, hentry, hkey, hnone⟩ := hplaced
      simp only [hentry]
      cases result with
      | none =>
        exact h.move hcall ⟨by rw [hkey]; rfl, fun b hb => by cases hb⟩ (fun e he => by cases he)
          (fun e he => by cases he) hmade
      | some result => exact h.build hcall hstage hentry rfl rfl
    | _ => exact h

omit [DecidableEq σ] in
theorem mem_forget {key : Option Key} {built : Option (Built σ)} {e' : ℕ}
    (hk : (s.forget key e built).lookup k = some e') : s.held.lookup k = some e' ∧
      (key = some k → built.all (fun b => MAX_HELD_BYTES < b.bytes.length) = true → e' ≠ e) := by
  unfold State.forget at hk
  cases key with
  | none => exact ⟨hk, fun h => by cases h⟩
  | some key =>
    simp only [] at hk
    split_ifs at hk with hforget
    · rw [Assoc.lookup_without] at hk
      split_ifs at hk with heq
      exact ⟨hk, fun h => (heq (Option.some.inj h).symm).elim⟩
    · refine ⟨hk, fun h hlong he => hforget ⟨hlong, ?_⟩⟩
      cases h
      exact he ▸ hk

theorem Sound.close (h : Sound s) : Sound (s.step (.close id)) := by
  rw [State.step]
  cases hcall : s.calls.lookup id with
  | none => exact h
  | some call =>
    have hplaced := h.placed id call hcall
    obtain ⟨hid, -, htime⟩ := h.ids id call hcall
    simp only []
    cases hstage : call.stage with
    | made e built =>
      rw [Call.Placed, hstage] at hplaced
      obtain ⟨hkey, hbuilt⟩ := hplaced
      have hlookup : ∀ i c, (Assoc.without id s.calls).lookup i = some c → s.calls.lookup i = some c :=
        fun _ _ => Assoc.lookup_of_without
      have hsub : (s.forget call.asked.caller.key e built).Sublist s.held := by
        unfold State.forget
        split
        · split_ifs
          · exact List.filter_sublist
          · exact List.Sublist.refl _
        · exact List.Sublist.refl _
      refine ⟨h.nodup.sublist (hsub.map _), fun k e' hk => h.held k e' (mem_forget hk).1, h.entries,
        fun i c hc => h.ids i c (hlookup i c hc), fun i c hc => h.placed i c (hlookup i c hc),
        fun e i j c d hc hd => h.builders e i j c d (hlookup i c hc) (hlookup j d hd),
        fun k e' hk i c hc => h.there k e' (mem_forget hk).1 i c (hlookup i c hc),
        Nat.le_trans hsub.length_le h.few, fun k e' entry b hk hentry hb hlong => ?_, fun a ha => ?_⟩
      · obtain ⟨hheld, hforgot⟩ := mem_forget hk
        obtain ⟨c, hc, hby, hcstage⟩ := h.short k e' entry b hheld hentry hb hlong
        refine ⟨c, ?_, hby, hcstage⟩
        rw [Assoc.lookup_without, if_neg, hc]
        intro heq
        rw [heq, hcall] at hc
        cases hc
        cases hstage.symm.trans hcstage
        obtain ⟨entry', hentry', hek⟩ := h.held k e hheld
        obtain rfl : entry = entry' := Option.some.inj (hentry.symm.trans hentry')
        have hbk := (h.entries e entry hentry).2 b hb
        rw [hek, ← hby] at hbk
        exact hforgot hbk (by simpa using hlong) rfl
      · rcases List.mem_cons.1 ha with rfl | ha
        · cases built with
          | none =>
            exact ⟨fun _ => rfl, fun _ => rfl, rfl, lt_add_fresh htime⟩
          | some b =>
            obtain ⟨hsame, hfresh⟩ := hbuilt b rfl
            refine ⟨fun hfailed => (Option.some_ne_none _ hfailed).elim, fun hnone => ?_, hsame, hfresh⟩
            have hnone : call.asked.caller.key = none := hnone
            rw [hnone] at hkey
            cases hkey
        · exact h.answers a ha
    | _ => exact h

/-- A new call. -/
theorem Sound.add (h : Sound s) {caller : Caller σ} {stage : Stage σ}
    (hplaced : Call.Placed ⟨⟨s.next, caller, s.now⟩, stage⟩ s.entries) (hbuilds : stage.builds = none)
    (hthere : ∀ k e, s.held.lookup k = some e → caller.key = some k → ∀ e', stage.on = some e' → e' = e) :
    Sound { s with
      calls := Assoc.put s.next ⟨⟨s.next, caller, s.now⟩, stage⟩ s.calls
      next := s.next + 1 } := by
  have hcalls : ∀ {i c}, (Assoc.put s.next (⟨⟨s.next, caller, s.now⟩, stage⟩ : Call σ)
      s.calls).lookup i = some c → i = s.next ∧ c = ⟨⟨s.next, caller, s.now⟩, stage⟩ ∨
      s.calls.lookup i = some c := fun {i c} hc => by
    rw [Assoc.lookup_put] at hc
    split_ifs at hc with hi
    · cases hc
      exact Or.inl ⟨hi, rfl⟩
    · exact Or.inr hc
  refine ⟨h.nodup, h.held, h.entries, fun i c hc => ?_, fun i c hc => ?_,
    fun e i j c d hc hd hce hde => ?_, fun k e hk i c hc hck e' he' => ?_, h.few,
    fun k e entry b hk hentry hb hlong => ?_, h.answers⟩
  · rcases hcalls hc with ⟨rfl, rfl⟩ | hc
    · exact ⟨rfl, Nat.lt_succ_self _, Nat.le_refl _⟩
    · obtain ⟨hid, hlt, htime⟩ := h.ids i c hc
      exact ⟨hid, Nat.lt_succ_of_lt hlt, htime⟩
  · rcases hcalls hc with ⟨-, rfl⟩ | hc
    · exact hplaced
    · exact h.placed i c hc
  · rcases hcalls hc with ⟨-, rfl⟩ | hc
    · rw [hbuilds] at hce
      cases hce
    · rcases hcalls hd with ⟨-, rfl⟩ | hd
      · rw [hbuilds] at hde
        cases hde
      · exact h.builders e i j c d hc hd hce hde
  · rcases hcalls hc with ⟨-, rfl⟩ | hc
    · exact hthere k e hk hck e' he'
    · exact h.there k e hk i c hc hck e' he'
  · obtain ⟨c, hc, hby, hstage⟩ := h.short k e entry b hk hentry hb hlong
    refine ⟨c, ?_, hby, hstage⟩
    rw [Assoc.lookup_put, if_neg, hc]
    intro heq
    exact absurd (h.ids _ c hc).2.1 (by omega)

/-- The entries that are fresh stay held. -/
theorem Sound.retain (h : Sound s) : Sound { s with held := s.retained } where
  nodup := Assoc.nodup_filter h.nodup
  held k e hk := h.held k e (held_of_retained h hk).1
  entries := h.entries
  ids := h.ids
  placed := h.placed
  builders := h.builders
  there k e hk := h.there k e (held_of_retained h hk).1
  few := Nat.le_trans (List.length_filter_le _ _) h.few
  short k e entry b hk := h.short k e entry b (held_of_retained h hk).1
  answers := h.answers

/-- A call stays placed when no entry goes. -/
theorem Call.Placed.mono {entries entries' : List (ℕ × Entry σ)} {c : Call σ} (h : c.Placed entries)
    (hentries : ∀ e entry, entries.lookup e = some entry → entries'.lookup e = some entry) :
    c.Placed entries' := by
  unfold Call.Placed at h ⊢
  cases hstage : c.stage with
  | alone =>
    rw [hstage] at h
    exact h
  | made e b =>
    rw [hstage] at h
    exact h
  | waiting e =>
    rw [hstage] at h
    obtain ⟨entry, hentry, hrest⟩ := h
    exact ⟨entry, hentries e entry hentry, hrest⟩
  | building e =>
    rw [hstage] at h
    obtain ⟨entry, hentry, hrest⟩ := h
    exact ⟨entry, hentries e entry hentry, hrest⟩

/-- A new entry, held or not. -/
theorem Sound.entry (h : Sound s) {key : Key} {held : List (Key × ℕ)}
    (hheld : held = s.held ∨ held = Assoc.put key s.nextEntry s.held ∧ s.held.lookup key = none ∧
      s.held.length < MAX_HELD ∧ ∀ i c, s.calls.lookup i = some c → c.asked.caller.key = some key →
        c.stage.on = none) :
    Sound { s with
      held
      entries := Assoc.put s.nextEntry ⟨key, s.now, none⟩ s.entries
      nextEntry := s.nextEntry + 1 } := by
  have hold : ∀ {e entry}, (Assoc.put s.nextEntry ⟨key, s.now, none⟩ s.entries).lookup e = some entry →
      e = s.nextEntry ∧ entry = ⟨key, s.now, none⟩ ∨ s.entries.lookup e = some entry :=
    fun {e entry} he => by
      rw [Assoc.lookup_put] at he
      split_ifs at he with heq
      · cases he
        exact Or.inl ⟨heq, rfl⟩
      · exact Or.inr he
  have hentries : ∀ {e entry}, s.entries.lookup e = some entry →
      (Assoc.put s.nextEntry ⟨key, s.now, none⟩ s.entries).lookup e = some entry := fun {e entry} he => by
    rw [Assoc.lookup_put, if_neg, he]
    intro heq
    exact absurd (h.entries e entry he).1 (by omega)
  have hlookup : ∀ {k e}, held.lookup k = some e → k = key ∧ e = s.nextEntry ∧
      (∀ i c, s.calls.lookup i = some c → c.asked.caller.key = some key → c.stage.on = none) ∨
      s.held.lookup k = some e := fun {k e} hk => by
    rcases hheld with rfl | ⟨rfl, -, -, hnone⟩
    · exact Or.inr hk
    · rw [Assoc.lookup_put] at hk
      split_ifs at hk with heq
      · cases hk
        exact Or.inl ⟨heq, rfl, hnone⟩
      · exact Or.inr hk
  refine ⟨?_, fun k e hk => ?_, fun e entry he => ?_, h.ids, fun i c hc => ?_, h.builders,
    fun k e hk i c hc hck e' he' => ?_, ?_, fun k e entry b hk hentry hb hlong => ?_, h.answers⟩
  · rcases hheld with rfl | ⟨rfl, -⟩
    · exact h.nodup
    · exact Assoc.nodup_put h.nodup
  · rcases hlookup hk with ⟨rfl, rfl, -⟩ | hk
    · exact ⟨_, by rw [Assoc.lookup_put, if_pos rfl], rfl⟩
    · obtain ⟨entry, hentry, hek⟩ := h.held k e hk
      exact ⟨entry, hentries hentry, hek⟩
  · rcases hold he with ⟨rfl, rfl⟩ | he
    · refine ⟨Nat.lt_succ_self _, fun b hb => ?_⟩
      cases hb
    · exact ⟨Nat.lt_succ_of_lt (h.entries e entry he).1, (h.entries e entry he).2⟩
  · exact (h.placed i c hc).mono fun e entry => hentries
  · rcases hlookup hk with ⟨rfl, rfl, hnone⟩ | hk
    · rw [hnone i c hc hck] at he'
      cases he'
    · exact h.there k e hk i c hc hck e' he'
  · rcases hheld with rfl | ⟨rfl, hnone, hroom, -⟩
    · exact h.few
    · show (Assoc.put _ _ _).length ≤ _
      rw [Assoc.length_put, hnone]
      exact hroom
  · rcases hold hentry with ⟨-, rfl⟩ | hkept
    · cases hb
    · rcases hlookup hk with ⟨-, heq, -⟩ | hk
      · exact absurd (h.entries e entry hkept).1 (by omega)
      · exact h.short k e entry b hk hkept hb hlong

theorem Sound.enter (h : Sound s) {caller : Caller σ} {key : Key} (hkey : caller.key = some key)
    (hop : s.Orderly (.ask caller)) : Sound (s.enter ⟨s.next, caller, s.now⟩ key) := by
  unfold State.enter
  cases hheld : s.retained.lookup key with
  | some e =>
    obtain ⟨hk, hfresh⟩ := held_of_retained h hheld
    obtain ⟨entry, hentry, hek⟩ := h.held key e hk
    refine h.retain.add ⟨entry, hentry, hkey.trans (congrArg some hek.symm), fun b hb =>
      lt_of_entryFresh hfresh hentry hb⟩ rfl fun k e' hk' hck e'' he'' => ?_
    obtain rfl : key = k := Option.some.inj (hkey.symm.trans hck)
    cases he''
    exact Option.some.inj (hheld.symm.trans hk')
  | none =>
    have hroomed : (if s.retained.length < MAX_HELD then Assoc.put key s.nextEntry s.retained
        else s.retained) = s.retained ∨ (if s.retained.length < MAX_HELD then
        Assoc.put key s.nextEntry s.retained else s.retained) = Assoc.put key s.nextEntry s.retained ∧
      s.retained.lookup key = none ∧ s.retained.length < MAX_HELD ∧
        ∀ i c, s.calls.lookup i = some c → c.asked.caller.key = some key → c.stage.on = none := by
      split_ifs with hroom
      · exact Or.inr ⟨rfl, hheld, hroom, hop key hkey hheld hroom⟩
      · exact Or.inl rfl
    have hentered := h.retain.entry hroomed
    refine hentered.add ⟨⟨key, s.now, none⟩, by rw [Assoc.lookup_put, if_pos rfl], hkey, fun b hb => ?_⟩
      rfl fun k e' hk' hck e'' he'' => ?_
    · cases hb
    · obtain rfl : key = k := Option.some.inj (hkey.symm.trans hck)
      cases he''
      have hk' : (if s.retained.length < MAX_HELD then Assoc.put key s.nextEntry s.retained
        else s.retained).lookup key = some e' := hk'
      split_ifs at hk'
      · rw [Assoc.lookup_put, if_pos rfl] at hk'
        exact Option.some.inj hk'
      · rw [hheld] at hk'
        cases hk'

theorem Sound.ask (h : Sound s) {caller : Caller σ} (hop : s.Orderly (.ask caller)) :
    Sound (s.step (.ask caller)) := by
  rw [State.step]
  split_ifs
  · exact h
  · cases hkey : caller.key with
    | some key => exact h.enter hkey hop
    | none => exact h.add hkey rfl fun k e _ _ e' he' => by cases he'

theorem Sound.step (h : Sound s) (hop : s.Orderly op) : Sound (s.step op) := by
  cases op with
  | wait time => exact h.wait time
  | reload => exact h.reload
  | ask caller => exact h.ask hop
  | turn id => exact h.turn
  | finish id result => exact h.finish result
  | close id => exact h.close
  | drop id => exact h.drop

end Invariant

section Caches

variable {σ : Type} [DecidableEq σ]

/-- In every run of orderly steps, a cached download is the caller's own answer. -/
theorem cached_of_orderly {ops : List (Op σ)} (h : Machine.Along State.step State.Orderly {} ops) :
    Machine.Along State.step (fun s op => Cached (s.step op)) {} ops :=
  (h.with (fun _ _ hs hop => hs.step hop) Sound.start).mono fun _ _ hs => (hs.1.step hs.2).cached

/-- A request of an Endpoint by its anonymous caller. -/
def anyone : Caller Unit := ⟨0, ⟨"air", ()⟩, (), {}⟩

/-- Two calls, the second of which waits for the build of the first. -/
def waited : List (Op Unit) :=
  [.ask anyone, .turn 0, .ask anyone, .turn 1, .finish 0 (some ([1], false)), .turn 1, .close 0, .close 1]

theorem cached_waited : Machine.Along State.step (fun s op => Cached (s.step op)) {} waited := by
  refine cached_of_orderly ⟨fun k _ _ _ i c hc => ?_, trivial, fun k hk hnone => ?_, trivial, trivial,
    trivial, trivial, trivial, trivial⟩
  · cases hc
  · obtain rfl : (⟨0, "air", "", none, false⟩ : Key) = k := Option.some.inj hk
    exact absurd hnone (by decide)

/-- The build of the first call takes two minutes. -/
def slow : List (Op Unit) :=
  [.ask anyone, .turn 0, .wait 120000, .ask anyone, .turn 1]

theorem not_cached : ¬ Machine.Along State.step (fun s op => Cached (s.step op)) {} slow := by
  rintro ⟨-, -, -, -, hcached, -⟩
  have hone := hcached.single ⟨0, "air", "", none, false⟩ 1 (by decide) 0 1
    ⟨⟨0, anyone, 0⟩, .building 0⟩ ⟨⟨1, anyone, 120000⟩, .building 1⟩ rfl rfl rfl rfl rfl rfl
  exact absurd hone (by decide)

end Caches

end JoinedContext.Gateway.DownloadCache

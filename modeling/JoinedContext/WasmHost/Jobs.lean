import JoinedContext.Library.Assoc
import JoinedContext.Library.Machine
import Mathlib.Algebra.Group.Nat.Defs
import Mathlib.Data.List.Basic
import Mathlib.Tactic.Common

/-!
# Scheduled jobs

Each minute the scheduler starts the jobs that are due and whose last run is not still going. A tick
comes to its due jobs one by one, a run is recorded and then lets go of its mark, each under a lock of
its own, so that the runs' ends fall anywhere between.
-/

namespace JoinedContext.WasmHost.Jobs

section Source

/-- The failures in a row are counted in 32 bits. -/
def U32 : ℕ := 2 ^ 32

structure JobKey where
  app : String
  job : String
deriving DecidableEq

inductive Outcome where
  | succeeded
  | failed (why : String)
  | timedOut
  /-- Not started: the run before it was still going. -/
  | skipped
deriving DecidableEq

/-- Whether the owners are to hear of it. -/
def Outcome.isFailure : Outcome → Bool
  | .failed _ | .timedOut => true
  | .succeeded | .skipped => false

/-- What the scheduler last saw of a job: when the run was due, in minutes, and how it ended. -/
structure Record where
  due : ℕ
  outcome : Outcome
  duration : ℕ
  failuresInARow : ℕ
deriving DecidableEq

structure PlacedJob where
  name : String
  schedule : String

structure Placed where
  id : String
  jobs : List PlacedJob

/-- The outcome of a run: what the App answered, or nothing by its wall time. -/
def outcomeOf : Option (Except String Unit) → Outcome
  | some (.ok ()) => .succeeded
  | some (.error why) => .failed why
  | none => .timedOut

/-- The jobs due at a minute, as their schedules name it; one that is no schedule names none. -/
def dueJobs (cron : String → ℕ → Option Bool) (apps : List Placed) (minute : ℕ) : List JobKey :=
  apps.flatMap fun app => app.jobs.filterMap fun job =>
    if cron job.schedule minute = some true then some ⟨app.id, job.name⟩ else none

abbrev Records : Type := List (JobKey × Record)

/-- The failures in a row kept for a job. -/
def failuresOf (records : Records) (key : JobKey) : ℕ :=
  ((records.lookup key).map Record.failuresInARow).getD 0

def failuresAfter (before : ℕ) : Outcome → ℕ
  | .succeeded => 0
  | .failed _ | .timedOut => (before + 1) % U32
  | .skipped => before

def store (records : Records) (key : JobKey) (due : ℕ) (outcome : Outcome) (duration : ℕ) : Records :=
  Assoc.put key ⟨due, outcome, duration, failuresAfter (failuresOf records key) outcome⟩ records

end Source

section Runs

/-- A job at a minute it was due. -/
abbrev Due : Type := JobKey × ℕ

/-- A record that was stored. -/
structure Stored where
  due : Due
  outcome : Outcome
deriving DecidableEq

/-- The marks and the records, the due jobs the tick has yet to come to and the one it found marked,
the runs that are going and those that were recorded and still hold their marks; and what was due and
what was stored so far, the last first. -/
structure State where
  running : List JobKey := []
  records : Records := []
  todo : List Due := []
  skipping : Option Due := none
  going : List Due := []
  ending : List JobKey := []
  last : Option ℕ := none
  ticked : List Due := []
  stored : List Stored := []

inductive Op where
  /-- A tick begins, at a later minute than the one before. -/
  | tick (apps : List Placed) (minute : ℕ)
  /-- It comes to its next due job. -/
  | next
  /-- It records a skip. -/
  | skip
  /-- A run ends and is recorded. -/
  | finish (due : Due) (answer : Option (Except String Unit)) (duration : ℕ)
  | release (key : JobKey)
  /-- A run's task panics. -/
  | panic (due : Due)

variable (cron : String → ℕ → Option Bool)

def State.step (s : State) : Op → State
  | .tick apps minute =>
    if s.todo = [] ∧ s.skipping = none ∧ s.last.all (· < minute) then
      let due := (dueJobs cron apps minute).map (·, minute)
      { s with todo := due, last := some minute, ticked := due ++ s.ticked }
    else s
  | .next =>
    match s.todo, s.skipping with
    | due :: rest, none =>
      if due.1 ∈ s.running then { s with todo := rest, skipping := some due }
      else { s with todo := rest, running := due.1 :: s.running, going := due :: s.going }
    | _, _ => s
  | .skip =>
    match s.skipping with
    | some due => { s with
        records := store s.records due.1 due.2 .skipped 0
        skipping := none
        stored := ⟨due, .skipped⟩ :: s.stored }
    | none => s
  | .finish due answer duration =>
    if due ∈ s.going then { s with
      records := store s.records due.1 due.2 (outcomeOf answer) duration
      going := s.going.erase due
      ending := due.1 :: s.ending
      stored := ⟨due, outcomeOf answer⟩ :: s.stored }
    else s
  | .release key =>
    if key ∈ s.ending then { s with running := s.running.erase key, ending := s.ending.erase key }
    else s
  | .panic due => { s with going := s.going.erase due }

end Runs

section Property

/-- The outcomes stored for a job, the last first. -/
def outcomesOf (stored : List Stored) (key : JobKey) : List Outcome :=
  (stored.filter fun e => e.due.1 = key).map Stored.outcome

/-- How many runs failed since the last that succeeded. -/
def failuresSince (outcomes : List Outcome) : ℕ :=
  (outcomes.takeWhile fun o => o ≠ .succeeded).countP Outcome.isFailure

/-- Every due minute is to be decided still, or going, or was stored, and once. -/
def Once (ticked todo : List Due) (skipping : Option Due) (going : List Due) (stored : List Stored) :
    Prop :=
  ∀ due, ticked.count due = todo.count due + skipping.toList.count due + going.count due +
    (stored.map Stored.due).count due

/-- The scheduler keeps its record: no job has two runs going, every due minute leads to one
record, the failures in a row are those since the last success, and the record of a job is of the latest
of its minutes that was stored. -/
structure Kept (s : State) : Prop where
  one : (s.going.map Prod.fst).Nodup
  once : Once s.ticked s.todo s.skipping s.going s.stored
  failures : ∀ key, failuresOf s.records key = failuresSince (outcomesOf s.stored key)
  latest : ∀ e ∈ s.stored, ∃ r, s.records.lookup e.due.1 = some r ∧ e.due.2 ≤ r.due ∧
    ⟨(e.due.1, r.due), r.outcome⟩ ∈ s.stored

/-- A due job is skipped only while a run of it is going. -/
def Starts (s : State) : Op → Prop
  | .next => ∀ due rest, s.todo = due :: rest → s.skipping = none → due.1 ∈ s.running →
      due.1 ∈ s.going.map Prod.fst
  | _ => True

/-- A run ends before a later minute of its job is recorded, and while its failures can be counted; no
due minute falls between a run's record and the release of its mark; and no task panics. -/
def State.Orderly (s : State) : Op → Prop
  | .next => ∀ due rest, s.todo = due :: rest → due.1 ∉ s.ending
  | .finish due answer _ => due ∈ s.going →
      (∀ r, s.records.lookup due.1 = some r → r.due ≤ due.2) ∧
      ((outcomeOf answer).isFailure = true → failuresOf s.records due.1 + 1 < U32)
  | .panic due => due ∉ s.going
  | _ => True

end Property

section Records

variable {records : Records} {key k : JobKey} {due duration : ℕ} {outcome : Outcome}

theorem lookup_store : (store records key due outcome duration).lookup k =
    if k = key then some ⟨due, outcome, duration, failuresAfter (failuresOf records key) outcome⟩
    else records.lookup k :=
  Assoc.lookup_put

theorem failuresOf_store : failuresOf (store records key due outcome duration) k =
    if k = key then failuresAfter (failuresOf records key) outcome else failuresOf records k := by
  unfold failuresOf
  rw [lookup_store]
  split_ifs <;> rfl

theorem outcomesOf_cons (e : Stored) (stored : List Stored) (key : JobKey) :
    outcomesOf (e :: stored) key =
      if e.due.1 = key then e.outcome :: outcomesOf stored key else outcomesOf stored key := by
  unfold outcomesOf
  by_cases h : e.due.1 = key
  · rw [List.filter_cons_of_pos (by simpa using h), if_pos h, List.map_cons]
  · rw [List.filter_cons_of_neg (by simpa using h), if_neg h]

/-- A stored outcome counts as the record counts it. -/
theorem failuresSince_cons (outcomes : List Outcome) :
    outcome.isFailure = false ∨ failuresSince outcomes + 1 < U32 →
      failuresSince (outcome :: outcomes) = failuresAfter (failuresSince outcomes) outcome := by
  intro h
  unfold failuresSince
  cases outcome with
  | succeeded => rfl
  | skipped => rfl
  | failed why =>
    have hlt := h.resolve_left (by simp [Outcome.isFailure])
    rw [List.takeWhile_cons_of_pos (by rfl), List.countP_cons_of_pos (by rfl), failuresAfter]
    exact (Nat.mod_eq_of_lt hlt).symm
  | timedOut =>
    have hlt := h.resolve_left (by simp [Outcome.isFailure])
    rw [List.takeWhile_cons_of_pos (by rfl), List.countP_cons_of_pos (by rfl), failuresAfter]
    exact (Nat.mod_eq_of_lt hlt).symm

variable {stored : List Stored} {d : Due}

theorem failures_store (h : ∀ k, failuresOf records k = failuresSince (outcomesOf stored k))
    (hcount : outcome.isFailure = true → failuresOf records d.1 + 1 < U32) (k : JobKey) :
    failuresOf (store records d.1 d.2 outcome duration) k =
      failuresSince (outcomesOf (⟨d, outcome⟩ :: stored) k) := by
  rw [failuresOf_store, outcomesOf_cons]
  rcases eq_or_ne k d.1 with rfl | hne
  · rw [if_pos rfl, if_pos rfl, failuresSince_cons _ ?_, h]
    rw [← h]
    cases hfails : outcome.isFailure with
    | false => exact Or.inl rfl
    | true => exact Or.inr (hcount hfails)
  · rw [if_neg hne, if_neg hne.symm, h]

theorem count_stored_cons (d due : Due) : (((⟨due, outcome⟩ : Stored) :: stored).map Stored.due).count d =
    [due].count d + (stored.map Stored.due).count d := by
  rw [List.map_cons, ← List.singleton_append, List.count_append]

/-- A record no earlier than the one it replaces is the latest. -/
theorem latest_store
    (h : ∀ e ∈ stored, ∃ r, records.lookup e.due.1 = some r ∧ e.due.2 ≤ r.due ∧
      ⟨(e.due.1, r.due), r.outcome⟩ ∈ stored)
    (hle : ∀ r, records.lookup d.1 = some r → r.due ≤ d.2) :
    ∀ e ∈ (⟨d, outcome⟩ : Stored) :: stored,
      ∃ r, (store records d.1 d.2 outcome duration).lookup e.due.1 = some r ∧ e.due.2 ≤ r.due ∧
        ⟨(e.due.1, r.due), r.outcome⟩ ∈ (⟨d, outcome⟩ : Stored) :: stored := by
  intro e he
  rw [lookup_store]
  by_cases hkey : e.due.1 = d.1
  · refine ⟨_, if_pos hkey, ?_, ?_⟩
    · rcases List.mem_cons.1 he with rfl | he
      · exact Nat.le_refl _
      · obtain ⟨r, hr, hdue, -⟩ := h e he
        exact Nat.le_trans hdue (hle r (hkey ▸ hr))
    · rw [hkey]
      exact List.mem_cons_self
  · have hmem := (List.mem_cons.1 he).resolve_left fun heq => hkey (heq ▸ rfl)
    obtain ⟨r, hr, hdue, hstored⟩ := h e hmem
    exact ⟨r, by rw [if_neg hkey, hr], hdue, List.mem_cons_of_mem _ hstored⟩

end Records

section Invariant

/-- The minute is that of a tick that began. -/
def State.Ticked (s : State) (minute : ℕ) : Prop := ∃ last, s.last = some last ∧ minute ≤ last

/-- The marks are those of the runs that are going or hold them still, one each, and what the tick has
yet to decide is of its own minute, the latest. -/
structure Sound (s : State) : Prop where
  nodup : s.running.Nodup
  marked : ∀ key, key ∈ s.running ↔ key ∈ s.going.map Prod.fst ∨ key ∈ s.ending
  apart : (s.going.map Prod.fst ++ s.ending).Nodup
  now : ∀ due, due ∈ s.todo ∨ s.skipping = some due → s.last = some due.2
  going : ∀ due ∈ s.going, s.Ticked due.2
  recorded : ∀ key r, s.records.lookup key = some r → s.Ticked r.due
  kept : Kept s

variable {cron : String → ℕ → Option Bool} {s : State} {op : Op} {due : Due} {key : JobKey}
  {answer : Option (Except String Unit)} {duration : ℕ}

theorem Sound.start : Sound {} where
  nodup := List.nodup_nil
  marked := by simp
  apart := by simp
  now := by simp
  going := by simp
  recorded := by simp
  kept := ⟨by simp, fun _ => rfl, fun _ => rfl, by simp⟩

theorem Sound.tick (h : Sound s) (apps : List Placed) (minute : ℕ) :
    Sound (s.step cron (.tick apps minute)) := by
  rw [State.step]
  split_ifs with hidle
  · obtain ⟨htodo, hskipping, hlast⟩ := hidle
    have hticked : ∀ m, s.Ticked m → m ≤ minute := by
      rintro m ⟨last, hsome, hle⟩
      rw [hsome, Option.all_some, decide_eq_true_eq] at hlast
      omega
    have honce : Once ((dueJobs cron apps minute).map (·, minute) ++ s.ticked)
        ((dueJobs cron apps minute).map (·, minute)) s.skipping s.going s.stored := fun due => by
      have := h.kept.once due
      rw [htodo, List.count_nil] at this
      rw [List.count_append]
      omega
    refine ⟨h.nodup, h.marked, h.apart, fun due hdue => ?_,
      fun due hdue => ⟨minute, rfl, hticked _ (h.going due hdue)⟩,
      fun key r hr => ⟨minute, rfl, hticked _ (h.recorded key r hr)⟩,
      ⟨h.kept.one, honce, h.kept.failures, h.kept.latest⟩⟩
    rcases hdue with hdue | hdue
    · obtain ⟨key, -, rfl⟩ := List.mem_map.1 hdue
      rfl
    · exact absurd hdue (by simp [hskipping])
  · exact h

theorem Sound.next (h : Sound s) : Sound (s.step cron .next) := by
  rw [State.step]
  split
  · rename_i due rest htodo hskipping
    have hcount : ∀ d, s.todo.count d = rest.count d + [due].count d := fun d => by
      rw [htodo, ← List.singleton_append, List.count_append, Nat.add_comm]
    have hnow : s.last = some due.2 := h.now due (Or.inl (htodo ▸ List.mem_cons_self))
    have hrest : ∀ d ∈ rest, s.last = some d.2 := fun d hd =>
      h.now d (Or.inl (htodo ▸ List.mem_cons_of_mem _ hd))
    split_ifs with hmarked
    · have honce : Once s.ticked rest (some due) s.going s.stored := fun d => by
        have := h.kept.once d
        rwa [hcount, hskipping] at this
      refine ⟨h.nodup, h.marked, h.apart, fun d hd => ?_, h.going, h.recorded,
        ⟨h.kept.one, honce, h.kept.failures, h.kept.latest⟩⟩
      rcases hd with hd | hd
      · exact hrest d hd
      · cases hd
        exact hnow
    · have hnot := mt (h.marked due.1).2 hmarked
      rw [not_or] at hnot
      have honce : Once s.ticked rest s.skipping (due :: s.going) s.stored := fun d => by
        have := h.kept.once d
        rw [hcount] at this
        rw [← List.singleton_append, List.count_append]
        omega
      refine ⟨List.nodup_cons.2 ⟨hmarked, h.nodup⟩, fun key => ?_, ?_, fun d hd => ?_,
        fun d hd => ?_, h.recorded, ⟨?_, honce, h.kept.failures, h.kept.latest⟩⟩
      · rw [List.mem_cons, h.marked, List.map_cons, List.mem_cons, or_assoc]
      · exact List.nodup_cons.2 ⟨fun hmem => (List.mem_append.1 hmem).elim hnot.1 hnot.2, h.apart⟩
      · rcases hd with hd | hd
        · exact hrest d hd
        · exact absurd hd (by simp [hskipping])
      · rcases List.mem_cons.1 hd with rfl | hd
        · exact ⟨_, hnow, Nat.le_refl _⟩
        · exact h.going d hd
      · exact List.nodup_cons.2 ⟨hnot.1, h.kept.one⟩
  · exact h

theorem Sound.skip (h : Sound s) : Sound (s.step cron .skip) := by
  rw [State.step]
  split
  · rename_i due hskipping
    have hnow : s.last = some due.2 := h.now due (Or.inr hskipping)
    have hle : ∀ r, s.records.lookup due.1 = some r → r.due ≤ due.2 := fun r hr => by
      obtain ⟨last, hlast, hdue⟩ := h.recorded _ r hr
      rw [hnow] at hlast
      cases hlast
      exact hdue
    have honce : Once s.ticked s.todo none s.going (⟨due, .skipped⟩ :: s.stored) := fun d => by
      have := h.kept.once d
      rw [hskipping, Option.toList_some] at this
      rw [count_stored_cons, Option.toList_none, List.count_nil]
      omega
    refine ⟨h.nodup, h.marked, h.apart, fun d hd => h.now d (hd.imp_right fun hd => by cases hd),
      h.going, fun key r hr => ?_, ⟨h.kept.one, honce,
        failures_store h.kept.failures (by simp [Outcome.isFailure]),
        latest_store h.kept.latest hle⟩⟩
    rw [lookup_store] at hr
    split_ifs at hr
    · cases hr
      exact ⟨_, hnow, Nat.le_refl _⟩
    · exact h.recorded key r hr
  · exact h

theorem Sound.finish (h : Sound s) (hop : s.Orderly (.finish due answer duration)) :
    Sound (s.step cron (.finish due answer duration)) := by
  rw [State.step]
  split_ifs with hgoing
  · obtain ⟨hle, hcount⟩ := hop hgoing
    have hperm := (List.perm_cons_erase hgoing).map Prod.fst
    have hapart : (due.1 :: ((s.going.erase due).map Prod.fst ++ s.ending)).Nodup :=
      (hperm.append_right s.ending).nodup_iff.1 h.apart
    have honce : Once s.ticked s.todo s.skipping (s.going.erase due)
        (⟨due, outcomeOf answer⟩ :: s.stored) := fun d => by
      have := h.kept.once d
      rw [(List.perm_cons_erase hgoing).count_eq, ← List.singleton_append, List.count_append] at this
      rw [count_stored_cons]
      omega
    refine ⟨h.nodup, fun key => ?_, List.nodup_middle.2 hapart, h.now,
      fun d hd => h.going d (List.mem_of_mem_erase hd), fun key r hr => ?_,
      ⟨h.kept.one.sublist (List.erase_sublist.map _), honce,
        failures_store h.kept.failures hcount, latest_store h.kept.latest hle⟩⟩
    · rw [h.marked, hperm.mem_iff, List.map_cons, List.mem_cons, List.mem_cons]
      exact (or_assoc.trans or_left_comm)
    · rw [lookup_store] at hr
      split_ifs at hr
      · cases hr
        exact h.going due hgoing
      · exact h.recorded key r hr
  · exact h

theorem Sound.release (h : Sound s) : Sound (s.step cron (.release key)) := by
  rw [State.step]
  split_ifs with hending
  · obtain ⟨hgoing, hnodup, hdisjoint⟩ := List.nodup_append.1 h.apart
    refine ⟨h.nodup.sublist List.erase_sublist, fun k => ?_,
      h.apart.sublist (List.Sublist.append_left List.erase_sublist _), h.now, h.going, h.recorded,
      ⟨h.kept.one, h.kept.once, h.kept.failures, h.kept.latest⟩⟩
    rw [h.nodup.mem_erase_iff, hnodup.mem_erase_iff, h.marked]
    have hnot : k ∈ s.going.map Prod.fst → k ≠ key := fun hk => hdisjoint k hk key hending
    tauto
  · exact h

theorem Sound.step (h : Sound s) (hop : s.Orderly op) : Sound (s.step cron op) := by
  cases op with
  | tick apps minute => exact h.tick apps minute
  | next => exact h.next
  | skip => exact h.skip
  | finish due answer duration => exact h.finish hop
  | release key => exact h.release
  | panic due =>
    have hsame : s.step cron (.panic due) = s := by
      rw [State.step, List.erase_of_not_mem hop]
    rw [hsame]
    exact h

theorem Sound.starts (h : Sound s) (hop : s.Orderly op) : Starts s op := by
  cases op with
  | next =>
    intro due rest htodo _ hmarked
    exact ((h.marked due.1).1 hmarked).resolve_right (hop due rest htodo)
  | _ => trivial

end Invariant

section Keeps

variable {cron : String → ℕ → Option Bool}

/-- In every run of orderly steps, the scheduler keeps its record, and a job whose runs have ended is
started when it is next due. -/
theorem keeps_of_orderly {ops : List Op} (h : Machine.Along (State.step cron) State.Orderly {} ops) :
    Machine.Along (State.step cron) (fun s op => Kept (s.step cron op) ∧ Starts s op) {} ops :=
  (h.with (fun _ _ hs hop => hs.step hop) Sound.start).mono fun _ _ hs =>
    ⟨(hs.1.step hs.2).kept, hs.1.starts hs.2⟩

/-- One App with one job. -/
def placed : List Placed := [⟨"app", [⟨"job", "* * * * *"⟩]⟩]

/-- A run that fails, and one that succeeds. -/
def twoRuns : List Op :=
  [.tick placed 1, .next, .finish (⟨"app", "job"⟩, 1) (some (.error "no token")) 5,
    .release ⟨"app", "job"⟩, .tick placed 2, .next, .finish (⟨"app", "job"⟩, 2) (some (.ok ())) 5]

def always : String → ℕ → Option Bool := fun _ _ => some true

theorem keeps_twoRuns : Machine.Along (State.step always)
    (fun s op => Kept (s.step always op) ∧ Starts s op) {} twoRuns := by
  refine keeps_of_orderly ⟨trivial, ?_, fun _ => ⟨?_, fun _ => by decide⟩, trivial, trivial, ?_,
    fun _ => ⟨?_, fun hfails => ?_⟩, trivial⟩
  · intro due rest _
    exact List.not_mem_nil
  · intro r hr
    cases hr
  · intro due rest _
    exact List.not_mem_nil
  · intro r hr
    cases hr
    decide
  · cases hfails

/-- A run goes on past the next minute, and ends after its skip. -/
def overlap : List Op :=
  [.tick placed 1, .next, .tick placed 2, .next, .skip, .finish (⟨"app", "job"⟩, 1) (some (.ok ())) 90]

theorem not_keeps : ¬ Machine.Along (State.step always)
    (fun s op => Kept (s.step always op) ∧ Starts s op) {} overlap := by
  rintro ⟨-, -, -, -, -, ⟨hkept, -⟩, -⟩
  obtain ⟨r, hr, hle, -⟩ := hkept.latest ⟨(⟨"app", "job"⟩, 2), .skipped⟩ (by decide)
  have hlookup : ((Machine.run (State.step always) {} overlap).records.lookup ⟨"app", "job"⟩) =
      some ⟨1, .succeeded, 90, 0⟩ := by decide
  cases hlookup.symm.trans hr
  exact absurd hle (by decide)

end Keeps

end JoinedContext.WasmHost.Jobs

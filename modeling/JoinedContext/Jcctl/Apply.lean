import JoinedContext.Jcctl.Plan

/-!
# Converging a platform

`run` writes what `compute` reports wave by wave, up to the first wave a write of which fails, and
then removes what left the repository, the last wave first. Whatever the platform answers, the calls
of a run are those of its waves in their order, and its report is the truth about what the platform
stores. The revision of a checkout is a parameter.
-/

namespace JoinedContext.Jcctl.Apply

structure Options where
  prune : Bool
  confirmDeletions : Bool

/-- Whether a reported deletion may actually be carried out. -/
def Options.deletes (options : Options) : Bool := options.prune && options.confirmDeletions

inductive Outcome where
  | applied
  | unchanged
  | skipped (reason : String)
  | failed (error : PlatformError)

def Outcome.isFailed : Outcome → Bool
  | failed _ => true
  | _ => false

structure ResourceResult where
  id : ResourceId
  action : Action
  outcome : Outcome

structure Report where
  results : List ResourceResult
  revision : Option String

def Report.isSuccessful (report : Report) : Bool :=
  !report.results.any fun r => r.outcome.isFailed

section Source

variable {P : Type} (platform : Platform P)

/-- What comes of a call. -/
def Outcome.of : Except PlatformError Unit → Outcome
  | .ok () => applied
  | .error e => failed e

/-- Writes one resource. -/
def converge (live : P) (c : ResourceChange) : Outcome × P :=
  match c.action with
  | .unchanged => (.unchanged, live)
  | .delete => (.skipped "deletion runs in the prune phase", live)
  | .create | .update =>
    match c.declared with
    | none => (.skipped "no manifest to write", live)
    | some manifest => (.of (platform.put live manifest).1, (platform.put live manifest).2)

/-- Removes one resource, where both flags say so. -/
def remove (options : Options) (live : P) (c : ResourceChange) : Outcome × P :=
  if options.deletes then (.of (platform.delete live c.id).1, (platform.delete live c.id).2)
  else (.skipped "left in place: deletion needs --prune and --confirm-deletions", live)

/-- Some changes one behind the other, with what came of each. -/
def perform (act : P → ResourceChange → Outcome × P) : P → List ResourceChange →
    List ResourceResult × P
  | live, [] => ([], live)
  | live, c :: rest =>
    let more := perform act (act live c).2 rest
    (⟨c.id, c.action, (act live c).1⟩ :: more.1, more.2)

/-- The changes of a wave that are no deletions. -/
def writes (changes : List ResourceChange) : List ResourceChange :=
  changes.filter (·.action ≠ .delete)

def deletions (changes : List ResourceChange) : List ResourceChange :=
  changes.filter (·.action = .delete)

def recordBlocked (failed : ℕ) (changes : List ResourceChange) : List ResourceResult :=
  (writes changes).map fun c =>
    ⟨c.id, c.action, .skipped ("wave " ++ toString failed ++ " did not converge")⟩

/-- The waves in ascending order, to the first one that had a failure. -/
def convergeWaves : Option ℕ → P → List (ℕ × List ResourceChange) → List ResourceResult × P
  | _, live, [] => ([], live)
  | some failed, live, wave :: rest =>
    let more := convergeWaves (some failed) live rest
    (recordBlocked failed wave.2 ++ more.1, more.2)
  | none, live, wave :: rest =>
    let written := perform (converge platform) live (writes wave.2)
    let more := convergeWaves
      (if written.1.any (·.outcome.isFailed) then some wave.1 else none) written.2 rest
    (written.1 ++ more.1, more.2)

/-- Removes what left the repository, in descending wave order. -/
def prune (options : Options) (live : P) (changes : ChangeSet) : List ResourceResult × P :=
  perform (remove platform options) live (changes.waves.reverse.flatMap fun w => deletions w.2)

/-- Converges the platform to the repository. -/
def run (codec : Codec) (revision : Option String) (repo : Repository) (options : Options)
    (live : P) : Except PlatformError Report × P :=
  match compute codec repo (platform.list live) with
  | .error e => (.error e, live)
  | .ok changes =>
    let converged := convergeWaves platform none live changes.waves
    let pruned := prune platform options converged.2 changes
    (.ok ⟨converged.1 ++ pruned.1, revision⟩, pruned.2)

end Source

section Samples

/-- A project the platform holds and nothing declares. -/
def sampleProject : RawManifest where
  apiVersion := API_VERSION
  kind := "Project"
  metadata := ⟨"p", none, []⟩
  spec := .obj []
  status := none
  rest_wellFormed := Value.wellFormed_nil
  spec_wellFormed := Value.wellFormed_nil

def sampleHeld : SortedMap ResourceId RawManifest :=
  SortedMap.empty.insert (ResourceId.fromManifest sampleProject) sampleProject

def sampleCodec : Codec := ⟨fun _ => none, id⟩

theorem run_sample : run InMemory sampleCodec none Repository.empty ⟨true, true⟩ sampleHeld =
    (.ok ⟨[⟨ResourceId.fromManifest sampleProject, .delete, .applied⟩], none⟩, SortedMap.empty) := by
  rfl

end Samples

section Waves

variable {P : Type} {platform : Platform P} {live : P} {wave : ℕ × List ResourceChange}

theorem convergeWaves_blocked (platform : Platform P) (failed : ℕ) (live : P) :
    ∀ waves : List (ℕ × List ResourceChange),
      (convergeWaves platform (some failed) live waves).2 = live ∧
        (convergeWaves platform (some failed) live waves).1 =
          waves.flatMap fun w => recordBlocked failed w.2
  | [] => ⟨rfl, rfl⟩
  | wave :: rest => by
    obtain ⟨hlive, hresults⟩ := convergeWaves_blocked platform failed live rest
    rw [convergeWaves, hlive, hresults]
    exact ⟨rfl, rfl⟩

theorem not_applied_of_blocked {failed : ℕ} {waves : List (ℕ × List ResourceChange)}
    {r : ResourceResult} (h : r ∈ waves.flatMap fun w => recordBlocked failed w.2) :
    r.outcome ≠ .applied := by
  obtain ⟨w, -, hr⟩ := List.mem_flatMap.1 h
  obtain ⟨c, -, rfl⟩ := List.mem_map.1 hr
  nofun

/-- A wave that had a failure is the last one. -/
theorem convergeWaves_cons (rest : List (ℕ × List ResourceChange))
    (h : (perform (converge platform) live (writes wave.2)).1.any (·.outcome.isFailed) = true) :
    convergeWaves platform none live (wave :: rest) =
      ((perform (converge platform) live (writes wave.2)).1 ++
          rest.flatMap fun w => recordBlocked wave.1 w.2,
        (perform (converge platform) live (writes wave.2)).2) := by
  obtain ⟨hlive, hresults⟩ := convergeWaves_blocked platform wave.1
    (perform (converge platform) live (writes wave.2)).2 rest
  simp only [convergeWaves, h, if_true, hlive, hresults]

theorem convergeWaves_cons_of_not_failed (rest : List (ℕ × List ResourceChange))
    (h : (perform (converge platform) live (writes wave.2)).1.any (·.outcome.isFailed) = false) :
    convergeWaves platform none live (wave :: rest) =
      ((perform (converge platform) live (writes wave.2)).1 ++
          (convergeWaves platform none (perform (converge platform) live (writes wave.2)).2 rest).1,
        (convergeWaves platform none (perform (converge platform) live (writes wave.2)).2 rest).2) := by
  simp only [convergeWaves, h, Bool.false_eq_true, if_false]

end Waves

section Calls

inductive Call where
  | put (manifest : RawManifest)
  | delete (id : ResourceId)

/-- A call with what the platform answered. -/
abbrev Answered := Call × Except PlatformError Unit

def refused (a : Answered) : Bool := (Outcome.of a.2).isFailed

variable {P : Type}

/-- A platform that keeps what it is asked to do. -/
def recording (platform : Platform P) : Platform (P × List Answered) where
  list s := platform.list s.1
  put s manifest := ((platform.put s.1 manifest).1, (platform.put s.1 manifest).2,
    s.2 ++ [(.put manifest, (platform.put s.1 manifest).1)])
  delete s id := ((platform.delete s.1 id).1, (platform.delete s.1 id).2,
    s.2 ++ [(.delete id, (platform.delete s.1 id).1)])

/-- What is written of a change. -/
def putOf (c : ResourceChange) : Option Call :=
  if c.action = .create ∨ c.action = .update then c.declared.map .put else none

def deleteOf (options : Options) (c : ResourceChange) : Option Call :=
  if options.deletes then some (.delete c.id) else none

/-- The calls an act makes, and that they are refused where it fails. -/
def Records (act : P × List Answered → ResourceChange → Outcome × (P × List Answered))
    (callOf : ResourceChange → Option Call) : Prop :=
  ∀ s c, ∃ calls : List Answered, (act s c).2.2 = s.2 ++ calls ∧
    calls.map Prod.fst = (callOf c).toList ∧ calls.any refused = (act s c).1.isFailed

variable {platform : Platform P} {options : Options} {cs : List ResourceChange}
  {act : P × List Answered → ResourceChange → Outcome × (P × List Answered)}
  {callOf : ResourceChange → Option Call} {s : P × List Answered}

theorem converge_records (platform : Platform P) :
    Records (converge (recording platform)) putOf := by
  rintro s ⟨id, action, fields, declared, live⟩
  have hnone : ∀ outcome : Outcome, outcome.isFailed = false → ∃ calls : List Answered,
      (outcome, s).2.2 = s.2 ++ calls ∧ calls.map Prod.fst = (none : Option Call).toList ∧
        calls.any refused = (outcome, s).1.isFailed :=
    fun outcome h => ⟨[], by simp, rfl, h.symm⟩
  cases action <;> cases declared
  case create.some manifest | update.some manifest =>
    exact ⟨[(.put manifest, (platform.put s.1 manifest).1)], rfl, by simp [putOf], by
      simp [refused, converge, recording]⟩
  all_goals exact hnone _ rfl

theorem remove_records (platform : Platform P) (options : Options) :
    Records (remove (recording platform) options) (deleteOf options) := by
  intro s c
  unfold remove deleteOf
  split_ifs
  · exact ⟨[(.delete c.id, (platform.delete s.1 c.id).1)], rfl, rfl, by simp [refused, recording]⟩
  · exact ⟨[], by simp, rfl, rfl⟩

theorem perform_records (h : Records act callOf) : ∀ (cs : List ResourceChange)
    (s : P × List Answered), ∃ calls : List Answered,
      (perform act s cs).2.2 = s.2 ++ calls ∧ calls.map Prod.fst = cs.filterMap callOf ∧
        calls.any refused = (perform act s cs).1.any (·.outcome.isFailed)
  | [], s => ⟨[], by simp [perform], rfl, rfl⟩
  | c :: cs, s => by
    obtain ⟨calls, hstate, hcalls, hfailed⟩ := h s c
    obtain ⟨more, hmore, hlater, hrest⟩ := perform_records h cs (act s c).2
    refine ⟨calls ++ more, ?_, ?_, ?_⟩
    · rw [perform, hmore, hstate, List.append_assoc]
    · rw [List.map_append, hcalls, hlater]
      cases hc : callOf c <;> simp [hc]
    · rw [perform, List.any_append, List.any_cons, hfailed, hrest]

theorem filterMap_writes : (writes cs).filterMap putOf = cs.filterMap putOf := by
  unfold writes
  rw [List.filterMap_filter]
  refine List.filterMap_congr fun c _ => ?_
  cases hc : c.action <;> simp [putOf, hc]

/-- The rounds of calls of some waves: a round for each wave to the first in which one is refused. -/
structure Rounds (waves : List (ℕ × List ResourceChange)) (rounds : List (List Answered)) :
    Prop where
  calls : rounds.map (·.map Prod.fst) =
    (waves.take rounds.length).map fun w => w.2.filterMap putOf
  accepted : ∀ round ∈ rounds.dropLast, round.any refused = false
  stopped : rounds.length < waves.length →
    ∃ round, rounds.getLast? = some round ∧ round.any refused = true

theorem convergeWaves_records (platform : Platform P) : ∀ (waves : List (ℕ × List ResourceChange))
    (s : P × List Answered), ∃ rounds, Rounds waves rounds ∧
      (convergeWaves (recording platform) none s waves).2.2 = s.2 ++ rounds.flatten ∧
      rounds.flatten.any refused =
        (convergeWaves (recording platform) none s waves).1.any (·.outcome.isFailed)
  | [], s => ⟨[], ⟨rfl, nofun, nofun⟩, by simp [convergeWaves], rfl⟩
  | wave :: rest, s => by
    obtain ⟨calls, hstate, hcalls, hfailed⟩ := perform_records (converge_records platform)
      (writes wave.2) s
    rw [filterMap_writes] at hcalls
    cases hany : (perform (converge (recording platform)) s (writes wave.2)).1.any
      (·.outcome.isFailed) with
    | true =>
      rw [hany] at hfailed
      rw [convergeWaves_cons rest hany]
      refine ⟨[calls], ⟨?_, nofun, fun _ => ⟨calls, rfl, hfailed⟩⟩, ?_, ?_⟩
      · simp [hcalls]
      · rw [hstate, List.flatten_singleton]
      · rw [List.flatten_singleton, hfailed, List.any_append, hany, Bool.true_or]
    | false =>
      rw [hany] at hfailed
      rw [convergeWaves_cons_of_not_failed rest hany]
      obtain ⟨rounds, hrounds, hmore, hlater⟩ := convergeWaves_records platform rest
        (perform (converge (recording platform)) s (writes wave.2)).2
      refine ⟨calls :: rounds, ⟨?_, ?_, ?_⟩, ?_, ?_⟩
      · simp [hcalls, hrounds.calls]
      · intro round hround
        cases rounds with
        | nil => cases hround
        | cons first rounds =>
          rw [List.dropLast_cons_of_ne_nil (List.cons_ne_nil _ _)] at hround
          rcases List.mem_cons.1 hround with rfl | hround
          · exact hfailed
          · exact hrounds.accepted round hround
      · intro hlt
        obtain ⟨round, hlast, hrefused⟩ := hrounds.stopped (by simpa using hlt)
        exact ⟨round, by rw [List.getLast?_cons, hlast]; rfl, hrefused⟩
      · rw [hmore, hstate, List.flatten_cons, List.append_assoc]
      · rw [List.flatten_cons, List.any_append, List.any_append, hfailed, hlater, hany]

end Calls

section Transparent

variable {P : Type} {platform : Platform P} {options : Options} {s : P × List Answered}
  {act : P → ResourceChange → Outcome × P}
  {act' : P × List Answered → ResourceChange → Outcome × (P × List Answered)}

/-- An act on a recording platform that answers as one on the platform does. -/
def Same (act : P → ResourceChange → Outcome × P)
    (act' : P × List Answered → ResourceChange → Outcome × (P × List Answered)) : Prop :=
  ∀ s c, (act' s c).1 = (act s.1 c).1 ∧ (act' s c).2.1 = (act s.1 c).2

theorem converge_same (platform : Platform P) :
    Same (converge platform) (converge (recording platform)) := by
  rintro s ⟨id, action, fields, declared, live⟩
  cases action <;> cases declared <;> exact ⟨rfl, rfl⟩

theorem remove_same (platform : Platform P) (options : Options) :
    Same (remove platform options) (remove (recording platform) options) := by
  intro s c
  unfold remove
  split_ifs <;> exact ⟨rfl, rfl⟩

theorem perform_same (h : Same act act') : ∀ (cs : List ResourceChange) (s : P × List Answered),
    (perform act' s cs).1 = (perform act s.1 cs).1 ∧
      (perform act' s cs).2.1 = (perform act s.1 cs).2
  | [], _ => ⟨rfl, rfl⟩
  | c :: cs, s => by
    obtain ⟨houtcome, hlive⟩ := h s c
    obtain ⟨hresults, hlast⟩ := perform_same h cs (act' s c).2
    simp only [perform, houtcome, hresults, hlast, hlive, and_self]

theorem convergeWaves_same (platform : Platform P) : ∀ (waves : List (ℕ × List ResourceChange))
    (blocked : Option ℕ) (s : P × List Answered),
      (convergeWaves (recording platform) blocked s waves).1 =
          (convergeWaves platform blocked s.1 waves).1 ∧
        (convergeWaves (recording platform) blocked s waves).2.1 =
          (convergeWaves platform blocked s.1 waves).2
  | [], blocked, _ => by cases blocked <;> exact ⟨rfl, rfl⟩
  | wave :: rest, some failed, s => by
    obtain ⟨hresults, hlive⟩ := convergeWaves_same platform rest (some failed) s
    simp only [convergeWaves, hresults, hlive, and_self]
  | wave :: rest, none, s => by
    obtain ⟨hresults, hlive⟩ := perform_same (converge_same platform) (writes wave.2) s
    simp only [convergeWaves, hresults]
    obtain ⟨hmore, hlast⟩ := convergeWaves_same platform rest
      (if (perform (converge platform) s.1 (writes wave.2)).1.any (·.outcome.isFailed)
        then some wave.1 else none)
      (perform (converge (recording platform)) s (writes wave.2)).2
    rw [hmore, hlast, hlive]
    exact ⟨rfl, rfl⟩

end Transparent

section Reported

variable {P : Type} {platform : Platform P} {options : Options} {live live' : P} {codec : Codec}
  {revision : Option String} {repo : Repository} {report : Report}

/-- The resource and the action of a change, and of what became of it. -/
def ResourceChange.key (c : ResourceChange) : ResourceId × Action := (c.id, c.action)

def ResourceResult.key (r : ResourceResult) : ResourceId × Action := (r.id, r.action)

theorem perform_keys (act : P → ResourceChange → Outcome × P) : ∀ (live : P)
    (cs : List ResourceChange),
      (perform act live cs).1.map ResourceResult.key = cs.map ResourceChange.key
  | _, [] => rfl
  | live, c :: cs => by
    rw [perform, List.map_cons, List.map_cons, perform_keys act]
    rfl

theorem convergeWaves_keys : ∀ (waves : List (ℕ × List ResourceChange)) (blocked : Option ℕ)
    (live : P), (convergeWaves platform blocked live waves).1.map ResourceResult.key =
      (waves.flatMap fun w => writes w.2).map ResourceChange.key
  | [], none, _ => rfl
  | [], some _, _ => rfl
  | wave :: rest, some failed, live => by
    rw [convergeWaves, List.map_append, List.flatMap_cons, List.map_append,
      convergeWaves_keys rest]
    simp [recordBlocked, ResourceResult.key, ResourceChange.key, Function.comp_def]
  | wave :: rest, none, live => by
    rw [convergeWaves, List.map_append, List.flatMap_cons, List.map_append,
      convergeWaves_keys rest, perform_keys]

theorem run_eq_ok : run platform codec revision repo options live = (.ok report, live') ↔
    ∃ changes, compute codec repo (platform.list live) = .ok changes ∧
      report = ⟨(convergeWaves platform none live changes.waves).1 ++
        (prune platform options (convergeWaves platform none live changes.waves).2 changes).1,
          revision⟩ ∧
      live' = (prune platform options (convergeWaves platform none live changes.waves).2
        changes).2 := by
  unfold run
  cases hchanges : compute codec repo (platform.list live) with
  | error e => simp
  | ok changes => simp [eq_comm]

/-- The calls of a run: what is to be written, wave by wave to the first wave in which a call is
refused, and then, where both flags say so, what is to be removed, the last wave first. The report
names every change of the run once, in that order. -/
theorem run_calls (h : run platform codec revision repo options live = (.ok report, live')) :
    ∃ changes rounds removals, compute codec repo (platform.list live) = .ok changes ∧
      run (recording platform) codec revision repo options (live, []) =
        (.ok report, live', rounds.flatten ++ removals) ∧
      Rounds changes.waves rounds ∧
      removals.map Prod.fst = (changes.waves.reverse.flatMap fun w => deletions w.2).filterMap
        (deleteOf options) ∧
      ((rounds.flatten ++ removals).any refused = false ↔ report.isSuccessful = true) ∧
      report.results.map ResourceResult.key = ((changes.waves.flatMap fun w => writes w.2) ++
        changes.waves.reverse.flatMap fun w => deletions w.2).map ResourceChange.key := by
  obtain ⟨changes, hchanges, rfl, rfl⟩ := run_eq_ok.1 h
  obtain ⟨rounds, hrounds, hputs, hfailed⟩ := convergeWaves_records platform changes.waves
    (live, [])
  obtain ⟨hresults, hlive⟩ := convergeWaves_same platform changes.waves none (live, [])
  obtain ⟨removals, hremoved, hremovals, hrefused⟩ := perform_records
    (remove_records platform options) (changes.waves.reverse.flatMap fun w => deletions w.2)
    (convergeWaves (recording platform) none (live, []) changes.waves).2
  obtain ⟨hpruned, hlast⟩ := perform_same (remove_same platform options)
    (changes.waves.reverse.flatMap fun w => deletions w.2)
    (convergeWaves (recording platform) none (live, []) changes.waves).2
  rw [hlive] at hpruned hlast
  refine ⟨changes, rounds, removals, hchanges, ?_, hrounds, hremovals, ?_, ?_⟩
  · refine run_eq_ok.2 ⟨changes, hchanges, ?_, Prod.ext hlast.symm ?_⟩
    · rw [prune, prune, hpruned, hresults]
    · exact (hremoved.trans (by rw [hputs, List.nil_append])).symm
  · rw [List.any_append, hfailed, hrefused, hresults, hpruned, Report.isSuccessful, List.any_append,
      prune, Bool.not_eq_true']
  · rw [List.map_append, convergeWaves_keys, prune, perform_keys, List.map_append]

theorem run_calls_sample : ∃ calls, run (recording InMemory) sampleCodec none Repository.empty
    ⟨true, true⟩ (sampleHeld, []) = (.ok ⟨[⟨ResourceId.fromManifest sampleProject, .delete,
      .applied⟩], none⟩, SortedMap.empty, calls) ∧ calls.any refused = false := by
  obtain ⟨-, rounds, removals, -, hrun, -, -, hrefused, -⟩ := run_calls run_sample
  exact ⟨rounds.flatten ++ removals, hrun, hrefused.2 rfl⟩

end Reported

section Stored

variable {P : Type}

/-- A platform whose calls change what it stores as they answer: one that succeeds stores the
manifest, or nothing, under its identity, and one that fails changes nothing. -/
structure Stores (platform : Platform P) (stored : P → ResourceId → Option RawManifest) :
    Prop where
  put : ∀ live m, (platform.put live m).1 = .ok () → ∀ id, stored (platform.put live m).2 id =
    if id = ResourceId.fromManifest m then some m else stored live id
  put_failed : ∀ live m e, (platform.put live m).1 = .error e →
    stored (platform.put live m).2 = stored live
  delete : ∀ live i, (platform.delete live i).1 = .ok () → ∀ id,
    stored (platform.delete live i).2 id = if id = i then none else stored live id
  delete_failed : ∀ live i e, (platform.delete live i).1 = .error e →
    stored (platform.delete live i).2 = stored live

theorem InMemory_stores : Stores InMemory SortedMap.get? where
  put _ _ _ _ := SortedMap.get?_insert.trans (by split_ifs <;> rfl)
  put_failed _ _ _ h := nomatch h
  delete _ _ _ _ := SortedMap.get?_erase.trans (by split_ifs <;> rfl)
  delete_failed _ _ _ h := nomatch h

/-- What a change leads to. -/
def valueOf (c : ResourceChange) : Option RawManifest :=
  if c.action = .delete then none else c.declared

/-- Whether what is stored under each identity is what a report of some changes tells: what a change
of it that is reported applied leads to, and what it was where none is. -/
def Told (cs : List ResourceChange) (results : List ResourceResult)
    (before after : ResourceId → Option RawManifest) : Prop :=
  ∀ id, (∃ c ∈ cs, c.id = id ∧ ⟨id, c.action, .applied⟩ ∈ results ∧ after id = valueOf c) ∨
    (∀ r ∈ results, r.id = id → r.outcome ≠ .applied) ∧ after id = before id

variable {platform : Platform P} {stored : P → ResourceId → Option RawManifest} {options : Options}
  {cs cs' : List ResourceChange} {results more : List ResourceResult}
  {before between after : ResourceId → Option RawManifest} {c : ResourceChange}
  {act : P → ResourceChange → Outcome × P} {live live' : P} {codec : Codec} {repo : Repository}
  {revision : Option String} {report : Report} {id : ResourceId} {d : RawManifest}

theorem Told.append (h : Told cs results before between) (h' : Told cs' more between after) :
    Told (cs ++ cs') (results ++ more) before after := by
  intro id
  rcases h' id with ⟨c, hc, hid, hr, hvalue⟩ | ⟨hnone, hafter⟩
  · exact .inl ⟨c, List.mem_append_right _ hc, hid, List.mem_append_right _ hr, hvalue⟩
  · rcases h id with ⟨c, hc, hid, hr, hvalue⟩ | ⟨hnone', hbetween⟩
    · exact .inl ⟨c, List.mem_append_left _ hc, hid, List.mem_append_left _ hr,
        hafter.trans hvalue⟩
    · exact .inr ⟨fun r hr => (List.mem_append.1 hr).elim (hnone' r) (hnone r),
        hafter.trans hbetween⟩

theorem Told.of_not_applied (h : ∀ r ∈ results, r.outcome ≠ .applied) :
    Told cs results before before := fun _ => .inr ⟨fun r hr _ => h r hr, rfl⟩

/-- An act that does to what is stored what it says of a change. -/
def Does (stored : P → ResourceId → Option RawManifest)
    (act : P → ResourceChange → Outcome × P) (c : ResourceChange) : Prop := ∀ live,
  ((act live c).1 = .applied → ∀ id, stored (act live c).2 id =
    if id = c.id then valueOf c else stored live id) ∧
  ((act live c).1 ≠ .applied → stored (act live c).2 = stored live)

theorem perform_told (stored : P → ResourceId → Option RawManifest)
    (act : P → ResourceChange → Outcome × P) : ∀ (cs : List ResourceChange) (live : P),
      (∀ c ∈ cs, Does stored act c) →
        Told cs (perform act live cs).1 (stored live) (stored (perform act live cs).2)
  | [], _, _ => .of_not_applied nofun
  | c :: cs, live, h => by
    obtain ⟨hc, hcs⟩ := List.forall_mem_cons.1 h
    obtain ⟨happlied, hnot⟩ := hc live
    have hone : Told [c] [⟨c.id, c.action, (act live c).1⟩] (stored live)
        (stored (act live c).2) := by
      intro id
      by_cases hout : (act live c).1 = .applied
      · by_cases hid : c.id = id
        · exact .inl ⟨c, List.mem_singleton_self c, hid, by simp [hout, hid],
            (happlied hout id).trans (if_pos hid.symm)⟩
        · exact .inr ⟨fun r hr hrid => absurd (by rw [← hrid, List.mem_singleton.1 hr]) hid,
            (happlied hout id).trans (if_neg (Ne.symm hid))⟩
      · exact .inr ⟨fun r hr _ => by rwa [List.mem_singleton.1 hr], congrFun (hnot hout) id⟩
    exact hone.append (perform_told stored act cs _ hcs)

theorem converge_does (h : Stores platform stored)
    (hc : ∀ d, c.declared = some d → ResourceId.fromManifest d = c.id) :
    Does stored (converge platform) c := by
  intro live
  obtain ⟨id, action, fields, declared, held⟩ := c
  have hput : ∀ manifest, ResourceId.fromManifest manifest = id →
      (Outcome.of (platform.put live manifest).1 = .applied → ∀ i,
        stored (platform.put live manifest).2 i = if i = id then some manifest else stored live i) ∧
      (Outcome.of (platform.put live manifest).1 ≠ .applied →
        stored (platform.put live manifest).2 = stored live) := by
    rintro manifest rfl
    cases hanswer : (platform.put live manifest).1 with
    | ok => exact ⟨fun _ => h.put live manifest hanswer, fun hne => absurd rfl hne⟩
    | error e => exact ⟨nofun, fun _ => h.put_failed live manifest e hanswer⟩
  cases action <;> cases declared
  case create.some manifest | update.some manifest => exact hput manifest (hc manifest rfl)
  all_goals exact ⟨nofun, fun _ => rfl⟩

theorem remove_does (h : Stores platform stored) (hc : c.action = .delete) :
    Does stored (remove platform options) c := by
  intro live
  unfold remove valueOf
  rw [if_pos hc]
  split_ifs
  · cases hanswer : (platform.delete live c.id).1 with
    | ok => exact ⟨fun _ => h.delete live c.id hanswer, fun hne => absurd rfl hne⟩
    | error e => exact ⟨nofun, fun _ => h.delete_failed live c.id e hanswer⟩
  · exact ⟨nofun, fun _ => rfl⟩

theorem convergeWaves_told (h : Stores platform stored) :
    ∀ (waves : List (ℕ × List ResourceChange)) (live : P),
      (∀ w ∈ waves, ∀ c ∈ w.2, ∀ d, c.declared = some d → ResourceId.fromManifest d = c.id) →
        Told (waves.flatMap fun w => writes w.2) (convergeWaves platform none live waves).1
          (stored live) (stored (convergeWaves platform none live waves).2)
  | [], _, _ => .of_not_applied nofun
  | wave :: rest, live, hkeyed => by
    obtain ⟨hwave, hrest⟩ := List.forall_mem_cons.1 hkeyed
    have hone := perform_told stored (converge platform) (writes wave.2) live fun c hc =>
      converge_does h (hwave c (List.mem_filter.1 hc).1)
    rw [List.flatMap_cons]
    cases hany : (perform (converge platform) live (writes wave.2)).1.any (·.outcome.isFailed) with
    | true =>
      rw [convergeWaves_cons rest hany]
      exact hone.append (.of_not_applied fun _ hr => not_applied_of_blocked hr)
    | false =>
      rw [convergeWaves_cons_of_not_failed rest hany]
      exact hone.append (convergeWaves_told h rest _ hrest)

theorem desired_spec (h : (desired codec repo).get? id = some d) :
    ResourceId.fromManifest d = id ∧ ∃ c ∈ repo.iter, id.namespace = c.1.namespace := by
  let Good (m : SortedMap ResourceId RawManifest) : Prop := ∀ id d, m.get? id = some d →
    ResourceId.fromManifest d = id ∧ ∃ c ∈ repo.iter, id.namespace = c.1.namespace
  have hinsert : ∀ m, Good m → ∀ d, (∃ c ∈ repo.iter, d.metadata.namespace = c.1.namespace) →
      Good (m.insert (ResourceId.fromManifest d) d) := by
    intro m hm d hd id e he
    rw [SortedMap.get?_insert] at he
    split_ifs at he with hid
    · cases he
      exact ⟨hid.symm, hid ▸ hd⟩
    · exact hm id e he
  have hdeclared : Good (repo.iter.foldl (fun m c => m.insert c.1 c.2.manifest) SortedMap.empty) := by
    refine List.foldlRecOn (motive := Good) _ _ (fun _ _ h => by cases h) fun m hm c hc => ?_
    have hid := Repository.fromManifest_of_mem hc
    rw [← hid]
    exact hinsert m hm _ ⟨c, hc, congrArg ResourceId.namespace hid⟩
  refine List.foldlRecOn (motive := Good) (generated codec repo) _ hdeclared
    (fun m hm policy hpolicy => ?_) id d h
  obtain ⟨c, hc, hpolicy⟩ := List.mem_flatMap.1 hpolicy
  have hnamespace : policy.metadata.namespace = c.1.namespace := by
    rw [← Repository.fromManifest_of_mem hc]
    unfold ownerPolicies at hpolicy
    split_ifs at hpolicy
    · cases hpolicy
    · obtain ⟨binding, -, hbinding⟩ := List.mem_filterMap.1 hpolicy
      obtain ⟨space, -, rfl⟩ := Option.map_eq_some_iff.1 hbinding
      rfl
  unfold SortedMap.orInsert
  split_ifs
  · exact hm
  · exact hinsert m hm policy ⟨c, hc, hnamespace⟩

theorem mem_iter_of_deletions {changes : ChangeSet}
    (h : c ∈ changes.waves.reverse.flatMap fun w => deletions w.2) :
    c ∈ changes.iter ∧ c.action = .delete := by
  obtain ⟨w, hw, hc⟩ := List.mem_flatMap.1 h
  obtain ⟨hc, haction⟩ := List.mem_filter.1 hc
  exact ⟨List.mem_flatMap.2 ⟨w, List.mem_reverse.1 hw, hc⟩, by simpa using haction⟩

theorem mem_iter_of_writes {waves : List (ℕ × List ResourceChange)}
    (h : c ∈ waves.flatMap fun w => writes w.2) :
    c ∈ waves.flatMap Prod.snd ∧ c.action ≠ .delete := by
  obtain ⟨w, hw, hc⟩ := List.mem_flatMap.1 h
  obtain ⟨hc, haction⟩ := List.mem_filter.1 hc
  exact ⟨List.mem_flatMap.2 ⟨w, hw, hc⟩, by simpa using haction⟩

@[simp] theorem changeOf_id (id : ResourceId) (d : RawManifest) (l : Option RawManifest) :
    (changeOf id d l).id = id := by
  cases l <;> rfl

theorem of_unchanged {l : Option RawManifest} (h : (changeOf id d l).action = .unchanged) :
    ∃ x, l = some x ∧ diff d x = [] := by
  cases l with
  | none => cases h
  | some x =>
    change (if (diff d x).isEmpty then Action.unchanged else Action.update) = .unchanged at h
    split_ifs at h with hempty
    exact ⟨x, rfl, List.isEmpty_iff.1 hempty⟩

/-- What a change of a computed set is about, and what it leads to. -/
theorem valueOf_change {live : SortedMap ResourceId RawManifest}
    (h : c ∈ (changesOf (desired codec repo) live).iter) :
    valueOf c = (desired codec repo).get? c.id ∧
      (c.action = .delete ↔ (desired codec repo).get? c.id = none) ∧
      ∀ d, c.declared = some d → ResourceId.fromManifest d = c.id := by
  obtain ⟨-, ⟨d, hd, hc⟩ | ⟨hnone, l, -, hc⟩⟩ := mem_changesOf.1 h
  · have hfields : c.action ≠ .delete ∧ c.declared = some d := by
      rw [hc]
      cases live.get? c.id with
      | none => exact ⟨nofun, rfl⟩
      | some l =>
        refine ⟨?_, rfl⟩
        change (if (diff d l).isEmpty then Action.unchanged else Action.update) ≠ .delete
        split_ifs <;> nofun
    rw [valueOf, if_neg hfields.1, hfields.2, hd]
    refine ⟨rfl, ⟨fun h => absurd h hfields.1, nofun⟩, ?_⟩
    rintro _ ⟨⟩
    exact (desired_spec hd).1
  · rw [hnone]
    refine ⟨?_, ⟨fun _ => rfl, fun _ => ?_⟩, ?_⟩ <;> rw [hc]
    · rfl
    · rfl
    · nofun

theorem compute_eq_ok {list : String → String → Except PlatformError (List RawManifest)}
    {changes : ChangeSet} : compute codec repo list = .ok changes ↔
      ∃ live, liveOf list repo = .ok live ∧ changes = changesOf (desired codec repo) live := by
  unfold compute
  cases liveOf list repo with
  | error e => simp
  | ok live => simp [eq_comm]

theorem run_told_changes (h : Stores platform stored)
    (hrun : run platform codec revision repo options live = (.ok report, live')) :
    ∃ changes, compute codec repo (platform.list live) = .ok changes ∧
      Told changes.iter report.results (stored live) (stored live') := by
  obtain ⟨changes, hchanges, rfl, rfl⟩ := run_eq_ok.1 hrun
  obtain ⟨listed, -, rfl⟩ := compute_eq_ok.1 hchanges
  have hwrites := convergeWaves_told h (changesOf (desired codec repo) listed).waves live
    fun w hw c hc => (valueOf_change (List.mem_flatMap.2 ⟨w, hw, hc⟩)).2.2
  have hremoves := perform_told stored (remove platform options)
    ((changesOf (desired codec repo) listed).waves.reverse.flatMap fun w => deletions w.2)
    (convergeWaves platform none live (changesOf (desired codec repo) listed).waves).2
    fun c hc => remove_does h (mem_iter_of_deletions hc).2
  refine ⟨_, hchanges, fun id => ?_⟩
  rcases hwrites.append hremoves id with ⟨c, hc, hrest⟩ | hnone
  · refine .inl ⟨c, ?_, hrest⟩
    exact (List.mem_append.1 hc).elim (fun hc => (mem_iter_of_writes hc).1)
      fun hc => (mem_iter_of_deletions hc).1
  · exact .inr hnone

/-- What a report tells of an identity: nothing is stored under it if its deletion is reported
applied, what is wanted if another change of it is, and else what was. -/
def Tells (report : Report) (id : ResourceId) (wanted before after : Option RawManifest) : Prop :=
  (⟨id, .delete, .applied⟩ ∈ report.results ∧ wanted = none ∧ after = none) ∨
  (∃ action d, action ≠ .delete ∧ ⟨id, action, .applied⟩ ∈ report.results ∧ wanted = some d ∧
    after = some d) ∨
  (∀ r ∈ report.results, r.id = id → r.outcome ≠ .applied) ∧ after = before

theorem Told.tells {listed : SortedMap ResourceId RawManifest}
    {before after : ResourceId → Option RawManifest}
    (h : Told (changesOf (desired codec repo) listed).iter report.results before after)
    (id : ResourceId) : Tells report id ((desired codec repo).get? id) (before id) (after id) := by
  rcases h id with ⟨c, hc, rfl, hr, hvalue⟩ | hnone
  · obtain ⟨hwants, hdelete, -⟩ := valueOf_change hc
    rw [hwants] at hvalue
    by_cases haction : c.action = .delete
    · exact .inl ⟨haction ▸ hr, hdelete.1 haction, hvalue.trans (hdelete.1 haction)⟩
    · obtain ⟨d, hd⟩ := Option.ne_none_iff_exists'.1 fun hnone => haction (hdelete.2 hnone)
      exact .inr (.inl ⟨c.action, d, haction, hr, hd, hvalue.trans hd⟩)
  · exact .inr (.inr hnone)

/-- Whatever fails, the report of a run is the truth about what is stored. -/
theorem run_told (h : Stores platform stored)
    (hrun : run platform codec revision repo options live = (.ok report, live'))
    (id : ResourceId) :
    Tells report id ((desired codec repo).get? id) (stored live id) (stored live' id) := by
  obtain ⟨changes, hchanges, htold⟩ := run_told_changes h hrun
  obtain ⟨listed, -, rfl⟩ := compute_eq_ok.1 hchanges
  exact htold.tells id

theorem run_told_sample : Tells ⟨[⟨ResourceId.fromManifest sampleProject, .delete, .applied⟩], none⟩
    (ResourceId.fromManifest sampleProject)
    ((desired sampleCodec Repository.empty).get? (ResourceId.fromManifest sampleProject))
    (some sampleProject) none :=
  run_told InMemory_stores run_sample (ResourceId.fromManifest sampleProject)

end Stored

section Settled

variable {codec : Codec} {repo : Repository} {held held' live : SortedMap ResourceId RawManifest}
  {id : ResourceId} {options : Options} {report : Report} {revision : Option String}
  {changes : ChangeSet} {c : ResourceChange} {known : List RawManifest}

/-- A platform that holds every manifest under its identity. -/
def Keyed (held : SortedMap ResourceId RawManifest) : Prop :=
  ∀ id d, held.get? id = some d → ResourceId.fromManifest d = id

/-- The projects a platform holds. -/
def knownOf (held : SortedMap ResourceId RawManifest) : List RawManifest :=
  (held.entries.filter fun c =>
    c.1.project == "org" && (byKind c.1.kind).any fun k => k.plural == "projects").map Prod.snd

theorem mem_keys_foldl {k : String} : ∀ {l : List String} {m : SortedMap String Unit},
    k ∈ (l.foldl (fun m project => m.insert project ()) m).keys ↔ k ∈ l ∨ k ∈ m.keys
  | [], m => by simp
  | p :: l, m => by
    rw [List.foldl_cons, mem_keys_foldl, SortedMap.mem_keys, SortedMap.isSome_insert,
      List.mem_cons, SortedMap.mem_keys, or_assoc, or_left_comm]

theorem project_mem_projects {c : ResourceId × LoadedResource} (hc : c ∈ repo.iter)
    (hid : id.namespace = c.1.namespace) : id.project ∈ projects repo known := by
  unfold projects ResourceId.project
  rw [mem_keys_foldl, hid]
  cases hnamespace : c.1.namespace with
  | none => exact .inl (List.mem_append_right _ (List.mem_singleton_self _))
  | some p => exact .inl (List.mem_append_left _ (List.mem_append_left _
      (List.mem_filterMap.2 ⟨c, hc, hnamespace⟩)))

theorem byKind_of_reconciled (h : reconciled id = true) : ∃ k ∈ KINDS,
    (waveOf k.kind).isSome = true ∧ byKind id.kind = some k := by
  have hall : ∀ c ∈ ORDER, (byKind c.2).isSome = true := by decide
  have hkind : ∃ c ∈ ORDER, c.2 = id.kind := by
    unfold reconciled waveOf rankOf at h
    rw [Option.isSome_map, List.findIdx?_isSome, List.any_eq_true] at h
    obtain ⟨c, hc, heq⟩ := h
    exact ⟨c, hc, by simpa using heq⟩
  obtain ⟨c, hc, hid⟩ := hkind
  obtain ⟨k, hk⟩ := Option.isSome_iff_exists.1 (hid ▸ hall c hc)
  have hfound := List.find?_some hk
  refine ⟨k, List.mem_of_find?_eq_some hk, ?_, hk⟩
  rw [beq_iff_eq] at hfound
  rw [hfound]
  exact h

/-- Whether a collection lists a resource. -/
def lists (id : ResourceId) (coll : String × String) : Bool :=
  id.project == coll.1 && (byKind id.kind).any fun k => k.plural == coll.2

theorem any_lists_iff (h : reconciled id = true) :
    (collections repo known).any (lists id) = true ↔ id.project ∈ projects repo known := by
  obtain ⟨k, hk, hwave, hkind⟩ := byKind_of_reconciled h
  rw [List.any_eq_true]
  unfold collections lists
  constructor
  · rintro ⟨coll, hcoll, hlists⟩
    obtain ⟨p, hp, hcoll⟩ := List.mem_flatMap.1 hcoll
    obtain ⟨k', -, rfl⟩ := List.mem_map.1 hcoll
    rw [Bool.and_eq_true, beq_iff_eq] at hlists
    rwa [hlists.1]
  · intro hproject
    exact ⟨(id.project, k.plural), List.mem_flatMap.2 ⟨id.project, hproject,
      List.mem_map.2 ⟨k, List.mem_filter.2 ⟨hk, hwave⟩, rfl⟩⟩, by simp [hkind]⟩

/-- What a listing of some collections holds. -/
theorem listAll_eq (hheld : Keyed held) : ∀ (colls : List (String × String))
    (live : SortedMap ResourceId RawManifest), ∃ all,
      listAll (InMemory.list held) colls live = .ok all ∧ ∀ id, all.get? id =
        ((if colls.any (lists id) then held.get? id else none) <|> live.get? id)
  | [], live => ⟨live, rfl, fun id => by simp⟩
  | (project, plural) :: colls, live => by
    let chosen := held.entries.filter fun c => lists c.1 (project, plural)
    have hlist : InMemory.list held project plural = .ok (chosen.map Prod.snd) := rfl
    have hfold : (chosen.map Prod.snd).foldl
        (fun live m => live.insert (ResourceId.fromManifest m) m) live =
          chosen.foldl (fun live c => live.insert c.1 c.2) live := by
      rw [List.foldl_map]
      refine List.foldl_ext _ _ _ fun live c hc => ?_
      rw [hheld c.1 c.2 (SortedMap.get?_eq_some.2 (List.mem_filter.1 hc).1)]
    obtain ⟨all, hall, hget⟩ := listAll_eq hheld colls
      (chosen.foldl (fun live c => live.insert c.1 c.2) live)
    refine ⟨all, by simpa only [listAll, hlist, hfold] using hall, fun id => ?_⟩
    have hone : (chosen.foldl (fun live c => live.insert c.1 c.2) live).get? id =
        ((if lists id (project, plural) then held.get? id else none) <|> live.get? id) :=
      SortedMap.get?_foldl_insert_filter (p := fun i => lists i (project, plural))
    rw [hget, hone, List.any_cons]
    cases lists id (project, plural) <;> cases colls.any (lists id) <;> cases held.get? id <;> rfl

theorem get?_liveOf (hheld : Keyed held) (hlive : liveOf (InMemory.list held) repo = .ok live)
    (hid : reconciled id = true) : live.get? id =
      if id.project ∈ projects repo (knownOf held) then held.get? id else none := by
  obtain ⟨all, hall, hget⟩ := listAll_eq hheld (collections repo (knownOf held))
    SortedMap.empty
  have hsame : liveOf (InMemory.list held) repo = .ok all := hall
  obtain rfl : all = live := Except.ok.inj (hsame.symm.trans hlive)
  rw [hget, SortedMap.get?_empty]
  simp only [any_lists_iff hid]
  split_ifs <;> cases held.get? id <;> rfl

theorem perform_applied {P : Type} {act : P → ResourceChange → Outcome × P} : ∀ {live : P}
    {cs : List ResourceChange}, (∀ live, (act live c).1 = .applied) → c ∈ cs →
      ⟨c.id, c.action, .applied⟩ ∈ (perform act live cs).1
  | live, c' :: cs, h, hc => by
    rw [perform]
    rcases List.mem_cons.1 hc with rfl | hc
    · rw [h]
      exact List.mem_cons_self
    · exact List.mem_cons_of_mem _ (perform_applied h hc)

theorem perform_not_failed {P : Type} {act : P → ResourceChange → Outcome × P}
    (h : ∀ live c, (act live c).1.isFailed = false) : ∀ {live : P} {cs : List ResourceChange},
      (perform act live cs).1.any (·.outcome.isFailed) = false
  | _, [] => rfl
  | live, c :: cs => by
    rw [perform, List.any_cons, h, perform_not_failed h]
    rfl

theorem perform_append {P : Type} {act : P → ResourceChange → Outcome × P} : ∀ {live : P}
    {cs cs' : List ResourceChange}, perform act live (cs ++ cs') =
      ((perform act live cs).1 ++ (perform act (perform act live cs).2 cs').1,
        (perform act (perform act live cs).2 cs').2)
  | _, [], _ => rfl
  | live, c :: cs, cs' => by
    rw [List.cons_append, perform, perform_append, perform]
    rfl

/-- Where no write fails, no wave is blocked. -/
theorem convergeWaves_of_not_failed {P : Type} {platform : Platform P}
    (h : ∀ live c, (converge platform live c).1.isFailed = false) :
    ∀ {waves : List (ℕ × List ResourceChange)} {live : P}, convergeWaves platform none live waves =
      perform (converge platform) live (waves.flatMap fun w => writes w.2)
  | [], _ => rfl
  | wave :: rest, live => by
    rw [convergeWaves_cons_of_not_failed rest (perform_not_failed h), List.flatMap_cons,
      perform_append, convergeWaves_of_not_failed h]

theorem inMemory_not_failed (live : SortedMap ResourceId RawManifest) (c : ResourceChange) :
    (converge InMemory live c).1.isFailed = false := by
  obtain ⟨id, action, fields, declared, l⟩ := c
  cases action <;> cases declared <;> rfl

/-- In memory every write and, where both flags say so, every deletion is reported applied. -/
theorem applied_inMemory (hoptions : options.deletes = true)
    (hrun : run InMemory codec revision repo options held = (.ok report, held'))
    (hchanges : compute codec repo (InMemory.list held) = .ok changes) (hc : c ∈ changes.iter)
    (haction : c.action ≠ .unchanged) : ⟨c.id, c.action, .applied⟩ ∈ report.results := by
  obtain ⟨changes', hchanges', rfl, -⟩ := run_eq_ok.1 hrun
  obtain rfl := Except.ok.inj (hchanges.symm.trans hchanges')
  obtain ⟨listed, -, rfl⟩ := compute_eq_ok.1 hchanges
  obtain ⟨w, hw, hcw⟩ := List.mem_flatMap.1 hc
  by_cases hdelete : c.action = .delete
  · refine List.mem_append_right _ (perform_applied (fun live => ?_) (List.mem_flatMap.2
      ⟨w, List.mem_reverse.2 hw, List.mem_filter.2 ⟨hcw, by simpa using hdelete⟩⟩))
    rw [remove, if_pos hoptions]
    rfl
  · refine List.mem_append_left _ ?_
    rw [convergeWaves_of_not_failed inMemory_not_failed]
    refine perform_applied (fun live => ?_) (List.mem_flatMap.2
      ⟨w, hw, List.mem_filter.2 ⟨hcw, by simpa using hdelete⟩⟩)
    obtain ⟨hvalue, hnone, -⟩ := valueOf_change hc
    obtain ⟨d, hd⟩ := Option.ne_none_iff_exists'.1 fun h => hdelete (hnone.2 h)
    rw [valueOf, if_neg hdelete, hd] at hvalue
    unfold converge
    split
    · contradiction
    · contradiction
    all_goals
      rw [hvalue]
      rfl

theorem Keyed.of_tells (hheld : Keyed held) (htells : ∀ id, Tells report id
    ((desired codec repo).get? id) (held.get? id) (held'.get? id)) : Keyed held' := by
  intro id e he
  rcases htells id with ⟨-, -, hgone⟩ | ⟨-, d, -, -, hd, hstored⟩ | ⟨-, hsame⟩
  · cases hgone.symm.trans he
  · obtain rfl := Option.some.inj (hstored.symm.trans he)
    exact (desired_spec hd).1
  · exact hheld id e (hsame.symm.trans he)

/-- Where its change is applied, what is stored is what is wanted or satisfies it. -/
theorem satisfied_of_tells {d : RawManifest} {before after : Option RawManifest}
    (htells : Tells report id (some d) before after)
    (happlied : (changeOf id d before).action ≠ .unchanged →
      ⟨id, (changeOf id d before).action, .applied⟩ ∈ report.results) :
    ∃ x, after = some x ∧ (x = d ∨ diff d x = []) := by
  rcases htells with ⟨-, hgone, -⟩ | ⟨-, e, -, -, he, hstored⟩ | ⟨hnot, rfl⟩
  · cases hgone
  · exact ⟨e, hstored, .inl (Option.some.inj he).symm⟩
  · have hunchanged : (changeOf id d after).action = .unchanged := by
      by_contra haction
      exact hnot _ (happlied haction) rfl rfl
    obtain ⟨x, hx, hdiff⟩ := of_unchanged hunchanged
    exact ⟨x, hx, .inr hdiff⟩

theorem gone_of_tells {before after : Option RawManifest} (htells : Tells report id none before after)
    (happlied : ∀ l, before = some l → ⟨id, .delete, .applied⟩ ∈ report.results) :
    after = none := by
  rcases htells with ⟨-, -, hgone⟩ | ⟨-, e, -, -, he, -⟩ | ⟨hnot, rfl⟩
  · exact hgone
  · cases he
  · by_contra hstored
    obtain ⟨l, hl⟩ := Option.ne_none_iff_exists'.1 hstored
    exact hnot _ (happlied l hl) rfl rfl

/-- After a run in memory that may delete, the next set of changes holds nothing to do but updates
of manifests that differ from themselves, and deletions in projects the first run did not list. -/
theorem run_settles (hheld : Keyed held) (hoptions : options.deletes = true)
    (hrun : run InMemory codec revision repo options held = (.ok report, held'))
    (hnext : compute codec repo (InMemory.list held') = .ok changes) (hc : c ∈ changes.iter) :
    c.action = .unchanged ∨
    (c.action = .update ∧ ∃ d, c.declared = some d ∧ c.live = some d ∧ diff d d ≠ []) ∨
    c.action = .delete ∧ c.id.project ∉ projects repo (knownOf held) := by
  obtain ⟨first, hfirst, htold⟩ := run_told_changes InMemory_stores hrun
  have happlied := fun c hc => applied_inMemory (c := c) hoptions hrun hfirst hc
  obtain ⟨live, hlive, rfl⟩ := compute_eq_ok.1 hfirst
  obtain ⟨live', hlive', rfl⟩ := compute_eq_ok.1 hnext
  obtain ⟨hid, hchange⟩ := mem_changesOf.1 hc
  have hold := get?_liveOf hheld hlive hid
  have hnew := get?_liveOf (hheld.of_tells htold.tells) hlive' hid
  have htells := htold.tells c.id
  rcases hchange with ⟨d, hd, hchange⟩ | ⟨hnone, l, hl, hchange⟩
  · obtain ⟨-, i, hi, hnamespace⟩ := desired_spec hd
    rw [if_pos (project_mem_projects hi hnamespace)] at hold hnew
    rw [hd] at htells
    obtain ⟨x, hx, hsatisfied⟩ := satisfied_of_tells htells fun haction => by
      have hsame := changeOf_id c.id d (held.get? c.id)
      simpa only [hsame] using happlied (changeOf c.id d (held.get? c.id))
        (mem_changesOf.2 ⟨by rwa [hsame], .inl ⟨d, by rwa [hsame], by rw [hsame, hold]⟩⟩) haction
    rw [hnew, hx] at hchange
    by_cases hdiff : diff d x = []
    · exact .inl (by rw [hchange]; simp [changeOf, hdiff])
    · obtain rfl := hsatisfied.resolve_right hdiff
      exact .inr (.inl ⟨by rw [hchange]; simp [changeOf, hdiff], x, by rw [hchange]; rfl,
        by rw [hchange]; rfl, hdiff⟩)
  · refine .inr (.inr ⟨by rw [hchange]; rfl, fun hproject => ?_⟩)
    rw [if_pos hproject] at hold
    rw [hnone] at htells
    have hgone := gone_of_tells htells fun l hstored => happlied (deletion (c.id, l))
      (mem_changesOf.2 ⟨hid, .inr ⟨hnone, l, hold.trans hstored, rfl⟩⟩) nofun
    rw [hnew, hgone, ite_self] at hl
    cases hl

/-- A repository that declares the project, and the change of it where the platform holds it. -/
def sampleRepository : Repository := Repository.empty.add "projects/p/project.yaml" sampleProject

def sampleChange : ResourceChange :=
  changeOf (ResourceId.fromManifest sampleProject) sampleProject (some sampleProject)

theorem run_create : run InMemory sampleCodec none sampleRepository ⟨true, true⟩ SortedMap.empty =
    (.ok ⟨[⟨ResourceId.fromManifest sampleProject, .create, .applied⟩], none⟩, sampleHeld) := by
  rfl

theorem run_settles_sample : sampleChange.action = .unchanged ∨
    (sampleChange.action = .update ∧ ∃ d, sampleChange.declared = some d ∧
      sampleChange.live = some d ∧ diff d d ≠ []) ∨
    sampleChange.action = .delete ∧
      sampleChange.id.project ∉ projects sampleRepository (knownOf SortedMap.empty) := by
  have hheld : Keyed SortedMap.empty := by
    intro id d h
    cases h
  have hnext : compute sampleCodec sampleRepository (InMemory.list sampleHeld) =
      .ok ⟨[(0, [sampleChange])]⟩ := by
    rfl
  exact run_settles hheld rfl run_create hnext List.mem_cons_self

end Settled

end JoinedContext.Jcctl.Apply

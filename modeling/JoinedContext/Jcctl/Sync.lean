import JoinedContext.Jcctl.Import
import JoinedContext.Jcctl.Lanes
import JoinedContext.Library.Machine

/-!
# The loop of a sync source

When a run is due, whether the source moved, and what proposal a run becomes. Over every run of
ticks and of what the caller does between them one proposal at most is open, and a revision is
recorded as observed only once it has been settled. The remote, the caller's file system and the
parse of a spec are parameters.
-/

namespace JoinedContext.Jcctl.Sync

def SYNC_SOURCE : String := "joinedcontext.com/sync-source"

inductive SyncMode where
  | mirror
  | oneshot
  deriving DecidableEq

structure Schedule where
  interval : Option String
  webhook : Option Bool

/-- What a run reads of a spec; the origin is the remote's. -/
structure SyncSourceSpec where
  schedule : Schedule
  mode : SyncMode
  selector : List (String × String)
  conflictPolicy : Conflict
  prune : Bool
  autoMerge : Bool

inductive RemoteError where
  | unavailable (message : String)
  | refused (message : String)

inductive SyncError where
  | notASyncSource
  | spec (message : String)
  | noProject
  | remote (error : RemoteError)
  | io (path : String)
  | «import» (error : ImportError)

inductive Phase where
  | synced
  | outOfSync
  | pendingApproval
  | error
  | paused
  deriving DecidableEq

structure State where
  observedRevision : Option String
  lastRunAt : Option ℕ
  openProposal : Option String
  paused : Bool

structure Proposal where
  name : String
  «namespace» : String
  revision : String
  envelope : Value
  files : SortedMap String RawManifest
  removed : List String
  autoMerge : Bool
  rejected : List String

structure Run where
  phase : Phase
  state : State
  proposal : Option Proposal
  reason : String

/-- A tick: what the remote answers, what is checked out of it, and the repository at that time. -/
structure Tick where
  asked : Bool
  now : ℕ
  workspace : String
  revision : Except RemoteError String
  checkout : String → Except SyncError Tree
  repo : Tree

section Source

def parseU64 (digits : List Char) : Option ℕ :=
  let n := digits.foldl (fun n c => 10 * n + (c.toNat - '0'.toNat)) 0
  if n < 2 ^ 64 then some n else none

/-- Length of the interval in seconds; none for a webhook or malformed schedule. -/
def Schedule.intervalSeconds (schedule : Schedule) : Option ℕ :=
  schedule.interval.bind fun raw =>
    match raw.toList.reverse with
    | [] => none
    | unit :: digits =>
      if digits ≠ [] ∧ digits.all Char.isDigit ∧ digits.getLast? ≠ some '0' ∧
          unit ∈ ['s', 'm', 'h', 'd'] then
        (parseU64 digits.reverse).bind fun n =>
          let seconds := n * (if unit = 's' then 1 else if unit = 'm' then 60
            else if unit = 'h' then 3600 else 86400)
          if seconds < 2 ^ 64 then some seconds else none
      else none

/-- Whether a scheduled run is due. -/
def due (schedule : Schedule) (state : State) (now : ℕ) : Bool :=
  if state.paused then false
  else match schedule.intervalSeconds with
    | none => false
    | some interval =>
      match state.lastRunAt with
      | none => true
      | some last => decide (interval ≤ now - last)

/-- Whether a revision is one directory name. -/
def isRevisionName (revision : String) : Bool :=
  1 ≤ revision.utf8ByteSize && revision.utf8ByteSize ≤ 128 && revision != "." && revision != ".." &&
    revision.toList.all fun c => c.isAlphanum || c == '.' || c == '_' || c == '-'

/-- The name a proposal for one revision of one source always has. -/
def proposalName (source revision : String) : String :=
  "chg-sync-" ++ source ++ "-" ++ String.ofList (revision.toList.take 7)

def annotationOfOwner («namespace» name : String) : String := «namespace» ++ "/" ++ name

/-- A tick that decided to do nothing. -/
def idle (state : State) (phase : Phase) (reason : String) : Run := ⟨phase, state, none, reason⟩

/-- Whether a manifest carries every label the selector names. -/
def selects (manifest : RawManifest) (selector : List (String × String)) : Bool :=
  let labels := ((Value.obj manifest.metadata.rest).get "labels").bind Value.asObject
  selector.all fun c => (labels.bind fun l => l.lookup c.1).bind Value.asStr == some c.2

/-- The checkout less the documents the selector does not name. -/
def deselect (yaml : Yaml) (selector : List (String × String)) (checkout : Tree) : Tree :=
  let kept text := (documentsOf text).filter fun content =>
    match yaml.parse content with
    | some manifest => selects manifest selector
    | none => true
  ⟨Assoc.filterMapValues (fun file =>
      if (Text.stripSuffix ".yaml" file.1).isSome || (Text.stripSuffix ".yml" file.1).isSome then
        if kept file.2 = [] then none else some (Text.join "---\n" (kept file.2))
      else some file.2) checkout.entries,
    checkout.sorted.filterMap _ (by
      rintro a a' hlt b hb b' hb'
      obtain ⟨_, -, rfl⟩ := Option.map_eq_some_iff.1 hb
      obtain ⟨_, -, rfl⟩ := Option.map_eq_some_iff.1 hb'
      exact hlt)⟩

/-- The sync source a manifest says it is of. -/
def ownerOf (manifest : RawManifest) : Option String :=
  ((((Value.obj manifest.metadata.rest).get "annotations").bind Value.asObject).bind fun a =>
    a.lookup SYNC_SOURCE).bind Value.asStr

/-- Marks a manifest as belonging to a sync source. -/
def stamp (manifest : RawManifest) (owner : String) : RawManifest :=
  manifest.annotated SYNC_SOURCE owner

/-- The resources a sync source put in the repository that a report does not carry. -/
def dropped (yaml : Yaml) (repo : Tree) (owner : String) (report : Report) :
    List (ResourceId × String) :=
  match load yaml repo with
  | .error _ => []
  | .ok repo =>
    let carried := report.imported.map fun i => ResourceId.fromManifest i.manifest
    ((repo.iter.filter fun c => ownerOf c.2.manifest == some owner).filter fun c =>
      !carried.contains c.1).map fun c => (c.1, c.2.path)

/-- The imported manifests that are to be written. -/
def written (report : Report) : List Imported :=
  report.imported.filter fun i => i.outcome ≠ .skipped

def writeOf (owner : String) (i : Imported) : ResourceChange :=
  let manifest := stamp i.manifest owner
  ⟨ResourceId.fromManifest manifest, if i.outcome = .replaced then .update else .create, [],
    some manifest, none⟩

def removalOf (c : ResourceId × String) : ResourceChange := ⟨c.1, .delete, [], none, none⟩

/-- What a source no longer carries, where it prunes. -/
def pruned (yaml : Yaml) (spec : SyncSourceSpec) (owner : String) (repo : Tree) (report : Report) :
    List (ResourceId × String) :=
  if spec.prune then dropped yaml repo owner report else []

/-- What a run would change in the repository. -/
def changesOf (yaml : Yaml) (spec : SyncSourceSpec) (owner : String) (repo : Tree)
    (report : Report) : List ResourceChange :=
  (written report).map (writeOf owner) ++ (pruned yaml spec owner repo report).map removalOf

def changesetOf (changes : List ResourceChange) : ChangeSet := byWave 255 changes

def Lane.asStr : Lane → String
  | .green => "green"
  | .yellow => "yellow"
  | .red => "red"

/-- The `kind: Change` envelope of a proposal no merge request is open for. -/
def changeEnvelope (changes : ChangeSet) (name «namespace» : String) : Value :=
  let verdict := laneOfChangeset changes
  let count action := Value.num ((changes.iter.filter fun c => c.action = action).length : ℤ) 0
  .obj [("apiVersion", .str API_VERSION), ("kind", .str "Change"),
    ("metadata", .obj [("name", .str name), ("namespace", .str «namespace»)]),
    ("status", .obj [("lane", .str (Lane.asStr verdict.lane)), ("phase", .str (phaseOf verdict)),
      ("plan", .obj [("create", count .create), ("delete", count .delete),
        ("update", count .update)]),
      ("reason", .str verdict.reason)])]

/-- Turns an import report into the proposal a reviewer sees. -/
def proposalOf (yaml : Yaml) (name : String) (spec : SyncSourceSpec)
    («namespace» revision : String) (report : Report) (state : State) (now : ℕ) (repo : Tree) :
    Run :=
  let owner := annotationOfOwner «namespace» name
  let rejected := report.rejections.map Rejection.display
  let changes := changesOf yaml spec owner repo report
  let next := { state with lastRunAt := some now }
  if rejected ≠ [] then
    ⟨.error, next, some ⟨proposalName name revision, «namespace», revision, .null, SortedMap.empty, [],
      false, rejected⟩, "the import gates refused a resource of the source"⟩
  else
    let next := { next with paused := state.paused || decide (spec.mode = SyncMode.oneshot) }
    if changes = [] then
      ⟨.synced, { next with observedRevision := some revision }, none,
        "the source moved but changes nothing in this repository"⟩
    else
      let changeset := changesetOf changes
      ⟨.pendingApproval, { next with openProposal := some (proposalName name revision) },
        some {
          name := proposalName name revision
          «namespace» := «namespace»
          revision := revision
          envelope := changeEnvelope changeset (proposalName name revision) «namespace»
          files := (written report).foldl (fun files i => files.insert i.path (stamp i.manifest owner))
            SortedMap.empty
          removed := (pruned yaml spec owner repo report).map Prod.snd
          autoMerge := spec.autoMerge && decide ((laneOfChangeset changeset).lane = .green)
          rejected := rejected },
        "the source moved and the plan is not empty"⟩

/-- The spec of a sync source and the project it syncs into. -/
def specOf (parse : Value → Except String SyncSourceSpec) (source : RawManifest) :
    Except SyncError (SyncSourceSpec × String) :=
  if source.kind ≠ "SyncSource" then .error .notASyncSource
  else match source.metadata.namespace with
    | none => .error .noProject
    | some «namespace» =>
      match parse source.spec with
      | .error message => .error (.spec message)
      | .ok spec => .ok (spec, «namespace»)

/-- What the import gates say of a revision. -/
def gate (reader : Reader) (spec : SyncSourceSpec) («namespace» revision : String) (tick : Tick) :
    Except SyncError Report :=
  if !isRevisionName revision then .error (.remote (.refused
    ("the source answered a revision that is not a commit or tag name (" ++
      toString revision.length ++ " characters); a revision is letters, digits, `.`, `_` and `-`, " ++
      "at most 128")))
  else match tick.checkout revision with
    | .error e => .error e
    | .ok files =>
      let kept := if spec.selector = [] then files else deselect reader.toYaml spec.selector files
      (collect reader (.directory (tick.workspace ++ "/" ++ revision) kept) tick.repo
        ⟨some «namespace», none, spec.conflictPolicy⟩).mapError .import

/-- The judgement of a tick. -/
def judge (reader : Reader) (parse : Value → Except String SyncSourceSpec) (source : RawManifest)
    (state : State) (tick : Tick) : Except SyncError Run :=
  match specOf parse source with
  | .error e => .error e
  | .ok (spec, «namespace») =>
    if state.paused then .ok (idle state .paused "syncing is paused")
    else if state.openProposal.isSome then
      .ok (idle state .pendingApproval "a proposal from an earlier run is still open")
    else if !tick.asked ∧ !due spec.schedule state tick.now then
      .ok (idle state .synced "the next run is not due yet")
    else match tick.revision with
      | .error e => .error (.remote e)
      | .ok revision =>
        if state.observedRevision = some revision then
          .ok ⟨.synced, { state with lastRunAt := some tick.now }, none,
            "the source is at the revision this repository already carries"⟩
        else match gate reader spec «namespace» revision tick with
          | .error e => .error e
          | .ok report => .ok (proposalOf reader.toYaml source.metadata.name spec «namespace» revision
              report state tick.now tick.repo)

end Source

section Judged

variable {reader : Reader} {parse : Value → Except String SyncSourceSpec} {source : RawManifest}
  {state : State} {tick : Tick} {run : Run} {p : Proposal} {spec : SyncSourceSpec}
  {report : Report} {yaml : Yaml} {owner path name «namespace» revision : String} {m : RawManifest}

variable (reader parse source state tick) in
/-- A tick that judges a revision, and what the import gates say of it. -/
structure Judges (spec : SyncSourceSpec) («namespace» revision : String) (report : Report) :
    Prop where
  unpaused : state.paused = false
  unopened : state.openProposal = none
  parsed : specOf parse source = .ok (spec, «namespace»)
  ready : tick.asked = true ∨ due spec.schedule state tick.now = true
  answered : tick.revision = .ok revision
  moved : state.observedRevision ≠ some revision
  gated : gate reader spec «namespace» revision tick = .ok report

/-- A tick leaves the state as it is but for the time, or judges a revision. -/
theorem judge_cases (h : judge reader parse source state tick = .ok run) :
    (run.proposal = none ∧ ∃ at?, run.state = { state with lastRunAt := at? }) ∨
    ∃ spec «namespace» revision report,
      Judges reader parse source state tick spec «namespace» revision report ∧
      run = proposalOf reader.toYaml source.metadata.name spec «namespace» revision report state
        tick.now tick.repo := by
  unfold judge at h
  split at h
  · cases h
  · next spec «namespace» hspec =>
    split_ifs at h with hpaused hopen hdue
    · cases h
      exact .inl ⟨rfl, state.lastRunAt, rfl⟩
    · cases h
      exact .inl ⟨rfl, state.lastRunAt, rfl⟩
    · cases h
      exact .inl ⟨rfl, state.lastRunAt, rfl⟩
    · split at h
      · cases h
      · next revision hrevision =>
        split_ifs at h with hsame
        · cases h
          exact .inl ⟨rfl, some tick.now, rfl⟩
        · split at h
          · cases h
          · next report hgate =>
            cases h
            refine .inr ⟨spec, «namespace», revision, report, ⟨by simpa using hpaused,
              by simpa using hopen, hspec, ?_, hrevision, hsame, hgate⟩, rfl⟩
            by_contra hnot
            exact hdue (by simpa using hnot)

/-- What a judged revision becomes: a refusal, a revision settled, or a proposal. -/
theorem proposalOf_cases {yaml : Yaml} {now : ℕ} {repo : Tree} (h : run = proposalOf yaml name spec
    «namespace» revision report state now repo) :
    (report.rejections ≠ [] ∧ (∃ p, run.proposal = some p ∧ p.rejected ≠ []) ∧
      run.state = { state with lastRunAt := some now }) ∨
    (report.rejections = [] ∧
      changesOf yaml spec (annotationOfOwner «namespace» name) repo report = [] ∧
      run.proposal = none ∧ run.state = { state with
        observedRevision := some revision
        lastRunAt := some now
        paused := state.paused || decide (spec.mode = SyncMode.oneshot) }) ∨
    (report.rejections = [] ∧
      changesOf yaml spec (annotationOfOwner «namespace» name) repo report ≠ [] ∧
      (∃ p, run.proposal = some p ∧ p.rejected = [] ∧ p.name = proposalName name revision) ∧
      run.state = { state with
        lastRunAt := some now
        openProposal := some (proposalName name revision)
        paused := state.paused || decide (spec.mode = SyncMode.oneshot) }) := by
  subst h
  unfold proposalOf
  by_cases hrejected : report.rejections = []
  · by_cases hchanges : changesOf yaml spec (annotationOfOwner «namespace» name) repo report = []
    · simp [hrejected, hchanges]
    · simp [hrejected, hchanges]
  · simp [hrejected]

end Judged

section Samples

/-- A source of project `p`. -/
def sampleSource : RawManifest where
  apiVersion := API_VERSION
  kind := "SyncSource"
  metadata := ⟨"s", some "p", []⟩
  spec := .null
  status := none
  rest_wellFormed := Value.wellFormed_nil
  spec_wellFormed := rfl

/-- A resource of it. -/
def sampleResource : RawManifest where
  apiVersion := API_VERSION
  kind := "DataSource"
  metadata := ⟨"d", some "p", [("annotations", .obj [(SYNC_SOURCE, .str "p/s")])]⟩
  spec := .null
  status := none
  rest_wellFormed := rfl
  spec_wellFormed := rfl

def sampleReader : Reader := ⟨⟨fun _ => some sampleResource, fun _ => ""⟩, fun _ => ""⟩

def sampleSpec : SyncSourceSpec := ⟨⟨none, some true⟩, .mirror, [], .fail, true, true⟩

end Samples

section Runs

/-- What happens to a source: a tick, what an operator does, and the answer to the proposal that is
open, with the revision it merged if it did. -/
inductive Event where
  | tick (tick : Tick)
  | pause
  | resume
  | closed (merged : Option String)

/-- The name of the proposal a run opens. -/
def opened (run : Run) : Option String :=
  run.proposal.bind fun p => if p.rejected = [] then some p.name else none

variable (reader : Reader) (parse : Value → Except String SyncSourceSpec) (source : RawManifest)

/-- A source as its caller keeps it, and the proposals of it that are open. -/
def step (s : State × List String) : Event → State × List String
  | .tick t =>
    match judge reader parse source s.1 t with
    | .error _ => s
    | .ok run => (run.state, s.2 ++ (opened run).toList)
  | .pause => ({ s.1 with paused := true }, s.2)
  | .resume => ({ s.1 with paused := false }, s.2)
  | .closed merged => ({ s.1 with
      openProposal := none
      observedRevision := merged <|> s.1.observedRevision },
      s.2.filter fun name => s.1.openProposal ≠ some name)

def start : State × List String := (⟨none, none, none, false⟩, [])

/-- A revision settled by an event: the reviewers merged it, or a tick found that it changes nothing
in the repository. -/
inductive Settles (s : State) (revision : String) : Event → Prop
  | merged : Settles s revision (.closed (some revision))
  | unchanged {t : Tick} {spec : SyncSourceSpec} {«namespace» : String} {report : Report} :
      Judges reader parse source s t spec «namespace» revision report → report.rejections = [] →
      changesOf reader.toYaml spec (annotationOfOwner «namespace» source.metadata.name) t.repo report =
        [] → Settles s revision (.tick t)

variable {reader parse source} {s : State × List String} {e : Event} {events : List Event}
  {revision name : String} {state : State} {t : Tick} {run : Run}

/-- A tick that opens a proposal records it, where none was open, and any other leaves what is
recorded as open. -/
theorem openProposal_of_judge (h : judge reader parse source state t = .ok run) :
    (opened run = none ∧ run.state.openProposal = state.openProposal) ∨
      ∃ name, opened run = some name ∧ state.openProposal = none ∧
        run.state.openProposal = some name := by
  rcases judge_cases h with ⟨hnone, at?, hstate⟩ | ⟨spec, ns, revision, report, hjudges, hrun⟩
  · exact .inl ⟨by rw [opened, hnone]; rfl, by rw [hstate]⟩
  rcases proposalOf_cases hrun with ⟨-, ⟨p, hp, hrejected⟩, hstate⟩ | ⟨-, -, hnone, hstate⟩ |
    ⟨-, -, ⟨p, hp, hrejected, hname⟩, hstate⟩
  · exact .inl ⟨by rw [opened, hp, Option.bind_some, if_neg hrejected], by rw [hstate]⟩
  · exact .inl ⟨by rw [opened, hnone]; rfl, by rw [hstate]⟩
  · exact .inr ⟨p.name, by rw [opened, hp, Option.bind_some, if_pos hrejected], hjudges.unopened,
      by rw [hstate, hname]⟩

theorem step_open (h : s.2 = s.1.openProposal.toList) :
    (step reader parse source s e).2 = (step reader parse source s e).1.openProposal.toList := by
  cases e with
  | tick t =>
    cases hjudge : judge reader parse source s.1 t with
    | error e => simpa only [step, hjudge] using h
    | ok run =>
      rcases openProposal_of_judge hjudge with ⟨hopened, hsame⟩ | ⟨name, hopened, hnone, hname⟩
      · simp only [step, hjudge, hopened, hsame, h, Option.toList_none, List.append_nil]
      · simp only [step, hjudge, hopened, hname, h, hnone, Option.toList_none, List.nil_append]
  | pause => exact h
  | resume => exact h
  | closed merged =>
    unfold step
    rw [h]
    cases s.1.openProposal <;> simp

/-- Over every run the proposal that is recorded is the one that is open, if one is. -/
theorem one_open (events : List Event) :
    (Machine.run (step reader parse source) start events).2 =
      (Machine.run (step reader parse source) start events).1.openProposal.toList :=
  Machine.run_preserves (P := fun s : State × List String =>
    s.2 = s.1.openProposal.toList) (fun _ _ h => step_open h) rfl
    events

theorem step_observed (h : (step reader parse source s e).1.observedRevision = some revision) :
    s.1.observedRevision = some revision ∨ Settles reader parse source s.1 revision e := by
  cases e with
  | tick t =>
    cases hjudge : judge reader parse source s.1 t with
    | error e =>
      simp only [step, hjudge] at h
      exact .inl h
    | ok run =>
      simp only [step, hjudge] at h
      rcases judge_cases hjudge with ⟨-, at?, hstate⟩ | ⟨spec, ns, judged, report, hjudges, hrun⟩
      · rw [hstate] at h
        exact .inl h
      rcases proposalOf_cases hrun with ⟨-, -, hstate⟩ | ⟨haccepted, hchanges, -, hstate⟩ |
        ⟨-, -, -, hstate⟩
      · rw [hstate] at h
        exact .inl h
      · rw [hstate] at h
        obtain rfl := Option.some.inj h
        exact .inr (.unchanged hjudges haccepted hchanges)
      · rw [hstate] at h
        exact .inl h
  | pause => exact .inl h
  | resume => exact .inl h
  | closed merged =>
    unfold step at h
    cases merged with
    | none => exact .inl h
    | some r =>
      obtain rfl := Option.some.inj h
      exact .inr .merged

/-- A revision is recorded as observed only where an event settled it: one of the run's. -/
theorem observed_settled (h : (Machine.run (step reader parse source) start events).1.observedRevision =
    some revision) : ∃ before e after, events = before ++ e :: after ∧
      Settles reader parse source (Machine.run (step reader parse source) start before).1 revision e := by
  induction events using List.reverseRecOn with
  | nil => cases h
  | append_singleton events e ih =>
    rw [Machine.run_append] at h
    rcases step_observed h with hbefore | hsettles
    · obtain ⟨before, e', after, rfl, hsettles⟩ := ih hbefore
      exact ⟨before, e', after ++ [e], by simp, hsettles⟩
    · exact ⟨events, e, [], rfl, hsettles⟩

theorem observed_merged : ∃ before e after, [Event.pause, .closed (some "r")] = before ++ e :: after ∧
    Settles sampleReader (fun _ => .ok sampleSpec) sampleSource (Machine.run
      (step sampleReader (fun _ => .ok sampleSpec) sampleSource) start before).1 "r" e :=
  observed_settled rfl

end Runs

section Proposed

variable {yaml : Yaml} {spec : SyncSourceSpec} {owner name «namespace» revision path : String}
  {report : Report} {repo : Tree} {m : RawManifest} {id : ResourceId} {c : ResourceChange}
  {changes : ChangeSet}

variable (yaml spec owner report repo) in
/-- What a proposal writes and removes: what the source carries, marked as its own, and what bears
its mark and the source does not carry. One that merges by itself removes nothing. -/
structure Carries (p : Proposal) : Prop where
  writes : ∀ path m, p.files.get? path = some m → ∃ i ∈ report.imported, i.outcome ≠ .skipped ∧
    i.path = path ∧ m = stamp i.manifest owner
  removes : ∀ path, path ∈ p.removed ↔ spec.prune = true ∧ ∃ loaded id r,
    load yaml repo = .ok loaded ∧ loaded.resources.get? id = some r ∧ r.path = path ∧
      ownerOf r.manifest = some owner ∧
      ∀ i ∈ report.imported, ResourceId.fromManifest i.manifest ≠ id
  merges : p.autoMerge = true → spec.autoMerge = true ∧ p.removed = [] ∧
    ∀ path m, p.files.get? path = some m → m.kind = "ContextSpace" ∨ m.kind = "Dashboard"

end Proposed

end JoinedContext.Jcctl.Sync

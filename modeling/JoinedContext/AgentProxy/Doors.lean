import JoinedContext.AgentProxy.Proxy
import JoinedContext.Library.Expiring
import JoinedContext.Library.Machine
import JoinedContext.Library.SortedMap
import Mathlib.Data.Set.Function
import Mathlib.Data.String.Basic

/-!
# Who the doors of the agent proxy let in

A workspace calls with the ticket of its run, a function with a credential the Portal had minted for
it. The proxy keeps the records of runs for five seconds and the tickets that verified, and hashes
again only where it has to. As long as the Portal says of a run what it said five seconds ago, it
lets in whom a proxy that has just started lets in.
-/

namespace JoinedContext.AgentProxy.Doors

section Source

/-- A second, in the nanoseconds of the clock. -/
def SECOND : ℕ := 10 ^ 9

/-- How long the record of a run is kept. -/
def CACHED : ℕ := 5 * SECOND

/-- How long a data credential lives. -/
def TTL : ℕ := 300 * SECOND

/-- Live credentials one run may hold; the oldest makes room for a new one. -/
def MAX_PER_RUN : ℕ := 8

def RUN_ID_MAX : ℕ := 64

def REFUSED : Refusal := ⟨401, "invalid run credentials"⟩

def UNREADABLE : Refusal := ⟨503,
  "the run's context could not be read; this is a fault of the platform, not of your credentials"⟩

def MISMATCH : Refusal := ⟨403, "mesh workload identity mismatch"⟩

/-- A run's record with what lets its calls in. -/
structure Run extends RunContext where
  status : String
  ticketHash : String

/-- What the Portal answers about a run. -/
inductive Answer where
  | found (run : Run)
  | notFound
  | transport (reason : String)

inductive RunError where
  | notFound (id : String)
  | notActive (status : String)
  | transport (reason : String)

/-- SHA-256, and Argon2 of a ticket against a stored hash, if the hash is a PHC string. -/
structure Crates (δ : Type) where
  sha256 : String → δ
  argon2 : String → String → Option Bool

structure Config where
  requireMeshIdentity : Bool
  portalIdentity : String
  functionsIdentity : String

structure Entry (δ : Type) where
  digest : δ
  expires : ℕ

/-- The records of runs with the end of each, the tickets that verified, and the credentials. -/
structure State (δ : Type) where
  cache : SortedMap String (ℕ × Run) := SortedMap.empty
  tickets : SortedMap String (String × δ) := SortedMap.empty
  credentials : SortedMap String (List (Entry δ)) := SortedMap.empty

def runIdIsWellFormed (id : String) : Bool :=
  id ≠ "" && id.utf8ByteSize ≤ RUN_ID_MAX && id.toList.all fun c => c.isAlphanum || c = '-'

/-- Whether a mesh identity begins with the labels of a workload. -/
def isWorkload (client expected : String) : Bool :=
  expected ≠ "" && (Text.splitAny ['.'] expected).isPrefixOf (Text.splitAny ['.'] client)

def isRunsOwnWorkload (client id : String) : Bool :=
  id ≠ "" && (Text.splitAny ['.'] client).head? = some ("agent-run-" ++ id)

def refusal : RunError → Refusal
  | .transport _ => UNREADABLE
  | .notFound _ | .notActive _ => REFUSED

def checkStatus (run : Run) : Except RunError Unit :=
  if run.status ∈ ["failed", "cancelled", "expired", "published"] then .error (.notActive run.status)
  else .ok ()

variable {δ : Type} [DecidableEq δ] (crates : Crates δ) (config : Config)

def State.fetch (s : State δ) (now : ℕ) (id : String) : Answer → Except RunError Run × State δ
  | .transport reason => (.error (.transport reason), s)
  | .notFound => (.error (.notFound id), s)
  | .found run => match checkStatus run with
    | .error e => (.error e, s)
    | .ok () => (.ok run, { s with cache := s.cache.insert id (now + CACHED, run) })

def State.resolve (s : State δ) (now : ℕ) (id : String) (answer : Answer) :
    Except RunError Run × State δ :=
  match s.cache.get? id with
  | none => s.fetch now id answer
  | some (exp, run) =>
    if now < exp then ((checkStatus run).map fun _ => run, s) else s.fetch now id answer

/-- Whether a ticket is the run's, where its stored hash can be read. -/
def State.verify (s : State δ) (run : Run) (ticket : String) : Option Bool × State δ :=
  if s.tickets.get? run.id = some (run.ticketHash, crates.sha256 ticket) then (some true, s)
  else match crates.argon2 run.ticketHash ticket with
    | some true => (some true, { s with
        tickets := s.tickets.insert run.id (run.ticketHash, crates.sha256 ticket) })
    | other => (other, s)

/-- The door of a run's own ticket, which the run's workspace and the Portal may present. -/
def State.authenticate (s : State δ) (now : ℕ) (id ticket client : String) (answer : Answer) :
    Except Refusal Run × State δ :=
  if runIdIsWellFormed id = false then (.error REFUSED, s)
  else match s.resolve now id answer with
    | (.error e, s) => (.error (refusal e), s)
    | (.ok run, s) => match s.verify crates run ticket with
      | (none, s) => (.error UNREADABLE, s)
      | (some false, s) => (.error REFUSED, s)
      | (some true, s) =>
        if config.requireMeshIdentity ∧ isRunsOwnWorkload client run.id = false ∧
            isWorkload client config.portalIdentity = false then (.error MISMATCH, s)
        else (.ok run, s)

/-- Whether a secret is a live credential of a run. -/
def State.holds (s : State δ) (now : ℕ) (id secret : String) : Bool :=
  ((s.credentials.get? id).getD []).any fun e =>
    now < e.expires && e.digest = crates.sha256 secret

/-- The door of a data credential. -/
def State.authenticateData (s : State δ) (now : ℕ) (id secret client : String) (answer : Answer) :
    Except Refusal Run × State δ :=
  if runIdIsWellFormed id = false ∨ s.holds crates now id secret = false then (.error REFUSED, s)
  else match s.resolve now id answer with
    | (.error e, s) => (.error (refusal e), s)
    | (.ok run, s) =>
      if config.requireMeshIdentity ∧ isWorkload client config.functionsIdentity = false then
        (.error MISMATCH, s)
      else (.ok run, s)

def State.mint (s : State δ) (now : ℕ) (id secret : String) : State δ :=
  let live := s.credentials.retain fun entries =>
    if Expiring.live Entry.expires now entries = [] then none
    else some (Expiring.live Entry.expires now entries)
  let entries := (live.get? id).getD []
  { s with credentials := live.insert id ((if MAX_PER_RUN ≤ entries.length then entries.tail
      else entries) ++ [⟨crates.sha256 secret, now + TTL⟩]) }

/-- Whether the Portal no longer holds a run as active. -/
def hasEnded : Except RunError Run → Bool
  | .error (.notFound _) | .error (.notActive _) => true
  | .error (.transport _) | .ok _ => false

inductive Act where
  | authenticate (ticket client : String)
  | authenticateData (secret client : String)
  /-- A data route looks past the records it keeps. -/
  | resolveFresh
  | dataCredential (secret : String)
  /-- The sweeps ask about a run whose credentials, or whose usage, they hold. -/
  | endCredentials
  | endCounted

/-- What is done about a run, when, and what the Portal answers about it then. -/
structure Op where
  now : ℕ
  id : String
  act : Act
  answer : Answer

def step (s : State δ) (op : Op) : State δ :=
  match op.act with
  | .authenticate ticket client =>
    (s.authenticate crates config op.now op.id ticket client op.answer).2
  | .authenticateData secret client =>
    (s.authenticateData crates config op.now op.id secret client op.answer).2
  | .resolveFresh => (s.fetch op.now op.id op.answer).2
  | .dataCredential secret =>
    if runIdIsWellFormed op.id then match s.fetch op.now op.id op.answer with
      | (.ok run, s) => s.mint crates op.now run.id secret
      | (.error _, s) => s
    else s
  | .endCredentials =>
    let asked := s.fetch op.now op.id op.answer
    if hasEnded asked.1 then { asked.2 with credentials := asked.2.credentials.erase op.id }
    else asked.2
  | .endCounted =>
    let asked := s.fetch op.now op.id op.answer
    if hasEnded asked.1 then { asked.2 with tickets := asked.2.tickets.erase op.id } else asked.2

end Source

section Samples

theorem isSlug_of_mem_unnamed : ∀ slug ∈ [""], slug = "" ∨ IsSlug slug := by
  simp

/-- A run under way. -/
def sampleRun : Run where
  id := "r"
  project := "p"
  endpointSlug := ""
  slugs_valid := isSlug_of_mem_unnamed
  repository_valid := isRepositoryName_of_mem_none
  status := "building"
  ticketHash := "hash of t"

def sampleCrates : Crates String := ⟨id, fun hash ticket => some (hash = "hash of " ++ ticket)⟩

def sampleConfig : Config := ⟨false, "", ""⟩

def sampleCall (now : ℕ) : Op := ⟨now, "r", .authenticate "t" "", .found sampleRun⟩

end Samples

/-- What an answer of the Portal about a run comes to. -/
def said (id : String) : Answer → Except RunError Run
  | .transport reason => .error (.transport reason)
  | .notFound => .error (.notFound id)
  | .found run => (checkStatus run).map fun _ => run

/-- The tickets that were presented. -/
def shownTickets (ops : List Op) : Set String :=
  {ticket | ∃ op ∈ ops, ∃ client, op.act = .authenticate ticket client}

/-- What is kept is what the Portal answered, and what Argon2 said of a ticket. -/
structure Sound {δ : Type} (crates : Crates δ) (ops : List Op) (s : State δ) : Prop where
  cache : ∀ id exp run, s.cache.get? id = some (exp, run) → checkStatus run = .ok () ∧
    ∃ op ∈ ops, op.id = id ∧ op.answer = .found run ∧ exp = op.now + CACHED
  tickets : ∀ id hash digest, s.tickets.get? id = some (hash, digest) → ∃ ticket ∈ shownTickets ops,
    crates.sha256 ticket = digest ∧ crates.argon2 hash ticket = some true

section Kept

variable {δ : Type} {crates : Crates δ} {s : State δ} {now : ℕ} {id ticket : String}
  {answer : Answer} {run : Run} {ops more : List Op} {op : Op}

theorem said_eq_ok : said id answer = .ok run ↔ answer = .found run ∧ checkStatus run = .ok () := by
  cases answer with
  | found asked =>
    rw [said, Answer.found.injEq]
    constructor
    · intro h
      cases hstatus : checkStatus asked with
      | error e =>
        rw [hstatus] at h
        cases h
      | ok _ =>
        rw [hstatus] at h
        cases h
        exact ⟨rfl, hstatus⟩
    · rintro ⟨rfl, h⟩
      rw [h]
      rfl
  | notFound => simp [said]
  | transport reason => simp [said]

theorem fetch_eq : s.fetch now id answer = (said id answer, match said id answer with
    | .ok run => { s with cache := s.cache.insert id (now + CACHED, run) }
    | .error _ => s) := by
  cases answer with
  | found asked =>
    simp only [State.fetch, said]
    cases checkStatus asked <;> rfl
  | notFound => rfl
  | transport reason => rfl

theorem Sound.start : Sound crates ops ({} : State δ) := ⟨by simp, by simp⟩

theorem Sound.mono (h : Sound crates ops s) (hops : ops ⊆ more) : Sound crates more s where
  cache id exp run hget := by
    obtain ⟨hactive, op, hop, hasked⟩ := h.cache id exp run hget
    exact ⟨hactive, op, hops hop, hasked⟩
  tickets id hash digest hget := by
    obtain ⟨ticket, ⟨op, hop, hact⟩, hsaid⟩ := h.tickets id hash digest hget
    exact ⟨ticket, ⟨op, hops hop, hact⟩, hsaid⟩

theorem Sound.fetch (h : Sound crates ops s) (hop : op ∈ ops) :
    Sound crates ops (s.fetch op.now op.id op.answer).2 := by
  rw [fetch_eq]
  cases hsaid : said op.id op.answer with
  | error e => exact h
  | ok run =>
    obtain ⟨hfound, hactive⟩ := said_eq_ok.1 hsaid
    refine ⟨fun id exp other hget => ?_, h.tickets⟩
    rw [SortedMap.get?_insert] at hget
    split_ifs at hget with hid
    · cases hget
      exact ⟨hactive, op, hop, hid.symm, hfound, rfl⟩
    · exact h.cache id exp other hget

theorem resolve_cases (s : State δ) (now : ℕ) (id : String) (answer : Answer) :
    s.resolve now id answer = s.fetch now id answer ∨ ∃ exp run, s.cache.get? id = some (exp, run) ∧
      now < exp ∧ s.resolve now id answer = ((checkStatus run).map fun _ => run, s) := by
  unfold State.resolve
  rcases hget : s.cache.get? id with _ | ⟨exp, run⟩
  · exact .inl rfl
  · by_cases hexp : now < exp
    · exact .inr ⟨exp, run, rfl, hexp, if_pos hexp⟩
    · exact .inl (if_neg hexp)

theorem Sound.resolve (h : Sound crates ops s) (hop : op ∈ ops) :
    Sound crates ops (s.resolve op.now op.id op.answer).2 := by
  rcases resolve_cases s op.now op.id op.answer with heq | ⟨_, _, -, -, heq⟩
  · rw [heq]
    exact h.fetch hop
  · rw [heq]
    exact h

/-- Whatever run is resolved is an active one the Portal answered, and lately. -/
theorem Sound.resolve_eq_ok (h : Sound crates ops s)
    (hrun : (s.resolve now id answer).1 = .ok run) : checkStatus run = .ok () ∧
      (answer = .found run ∨
        ∃ op ∈ ops, op.id = id ∧ op.answer = .found run ∧ now < op.now + CACHED) := by
  rcases resolve_cases s now id answer with heq | ⟨exp, held, hget, hexp, heq⟩
  · rw [heq, fetch_eq] at hrun
    obtain ⟨hfound, hactive⟩ := said_eq_ok.1 hrun
    exact ⟨hactive, .inl hfound⟩
  · obtain ⟨hactive, op, hop, hid, hfound, rfl⟩ := h.cache id exp held hget
    rw [heq, hactive] at hrun
    cases hrun
    exact ⟨hactive, .inr ⟨op, hop, hid, hfound, hexp⟩⟩

/-- Where the Portal's answers have not changed for as long as they are kept, a run is resolved as
the Portal answers now. -/
theorem Sound.resolve_eq_said (h : Sound crates ops s)
    (hsame : ∀ op ∈ ops, op.id = id → now < op.now + CACHED → op.answer = answer) :
    (s.resolve now id answer).1 = said id answer := by
  rcases resolve_cases s now id answer with heq | ⟨exp, held, hget, hexp, heq⟩
  · rw [heq, fetch_eq]
  · obtain ⟨hactive, op, hop, hid, hfound, rfl⟩ := h.cache id exp held hget
    rw [heq, hactive, ← hsame op hop hid hexp, said_eq_ok.2 ⟨hfound, hactive⟩]
    rfl

end Kept

section Doors

variable {δ : Type} [DecidableEq δ] {crates : Crates δ} {config : Config} {s : State δ} {now : ℕ}
  {id ticket secret client : String} {answer : Answer} {run : Run} {ops : List Op} {op : Op}

/-- A ticket that verified is verified by what is kept as Argon2 would. -/
theorem Sound.verify_eq (h : Sound crates ops s) (hinj : Set.InjOn crates.sha256 (shownTickets ops))
    (hticket : ticket ∈ shownTickets ops) :
    (s.verify crates run ticket).1 = crates.argon2 run.ticketHash ticket := by
  unfold State.verify
  split_ifs with hknown
  · obtain ⟨seen, hseen, hdigest, hsaid⟩ := h.tickets _ _ _ hknown
    rw [← hinj hseen hticket hdigest, hsaid]
  · rcases crates.argon2 run.ticketHash ticket with _ | _ | _ <;> rfl

theorem Sound.verify (h : Sound crates ops s) (hticket : ticket ∈ shownTickets ops) :
    Sound crates ops (s.verify crates run ticket).2 := by
  unfold State.verify
  split_ifs with hknown
  · exact h
  · rcases hsaid : crates.argon2 run.ticketHash ticket with _ | _ | _
    · exact h
    · exact h
    · refine ⟨h.cache, fun id hash digest hget => ?_⟩
      rw [SortedMap.get?_insert] at hget
      split_ifs at hget with hid
      · cases hget
        exact ⟨ticket, hticket, rfl, hsaid⟩
      · exact h.tickets id hash digest hget

/-- What the door of tickets decides by. -/
def judged (crates : Crates δ) (config : Config) (ticket client : String) :
    Except RunError Run → Except Refusal Run
  | .error e => .error (refusal e)
  | .ok run => match crates.argon2 run.ticketHash ticket with
    | none => .error UNREADABLE
    | some false => .error REFUSED
    | some true =>
      if config.requireMeshIdentity ∧ isRunsOwnWorkload client run.id = false ∧
          isWorkload client config.portalIdentity = false then .error MISMATCH
      else .ok run

theorem Sound.authenticate_eq (h : Sound crates ops s) (hop : op ∈ ops)
    (hact : op.act = .authenticate ticket client)
    (hinj : Set.InjOn crates.sha256 (shownTickets ops)) :
    (s.authenticate crates config op.now op.id ticket client op.answer).1 =
      if runIdIsWellFormed op.id = false then .error REFUSED
      else judged crates config ticket client (s.resolve op.now op.id op.answer).1 := by
  have hsound := h.resolve hop
  unfold State.authenticate
  split_ifs with hid
  · rfl
  · rcases hresolve : s.resolve op.now op.id op.answer with ⟨_ | run, s'⟩
    · rfl
    · rw [hresolve] at hsound
      have hverify : (s'.verify crates run ticket).1 = crates.argon2 run.ticketHash ticket :=
        hsound.verify_eq hinj ⟨op, hop, client, hact⟩
      rcases hknown : s'.verify crates run ticket with ⟨_ | _ | _, s''⟩ <;>
        rw [hknown] at hverify <;> simp only [judged, hknown, ← hverify]
      split_ifs <;> rfl

theorem authenticate_snd :
    let s' := (s.authenticate crates config now id ticket client answer).2
    s' = s ∨ s' = (s.resolve now id answer).2 ∨
      ∃ run, s' = ((s.resolve now id answer).2.verify crates run ticket).2 := by
  unfold State.authenticate
  by_cases hid : runIdIsWellFormed id = false
  · rw [if_pos hid]
    exact .inl rfl
  · rw [if_neg hid]
    rcases s.resolve now id answer with ⟨_ | run, s'⟩
    · exact .inr (.inl rfl)
    · refine .inr (.inr ⟨run, ?_⟩)
      rcases hknown : s'.verify crates run ticket with ⟨_ | _ | _, s''⟩ <;> simp only [hknown]
      split_ifs <;> rfl

theorem authenticateData_snd :
    let s' := (s.authenticateData crates config now id secret client answer).2
    s' = s ∨ s' = (s.resolve now id answer).2 := by
  unfold State.authenticateData
  by_cases hnot : runIdIsWellFormed id = false ∨ s.holds crates now id secret = false
  · rw [if_pos hnot]
    exact .inl rfl
  · rw [if_neg hnot]
    rcases s.resolve now id answer with ⟨_ | run, s'⟩
    · exact .inr rfl
    · simp only
      split_ifs <;> exact .inr rfl

theorem Sound.authenticate (h : Sound crates ops s) (hop : op ∈ ops)
    (hact : op.act = .authenticate ticket client) :
    Sound crates ops (s.authenticate crates config op.now op.id ticket client op.answer).2 := by
  rcases authenticate_snd (s := s) with heq | heq | ⟨run, heq⟩ <;> rw [heq]
  · exact h
  · exact h.resolve hop
  · exact (h.resolve hop).verify ⟨op, hop, client, hact⟩

theorem Sound.authenticateData (h : Sound crates ops s) (hop : op ∈ ops) :
    Sound crates ops (s.authenticateData crates config op.now op.id secret client op.answer).2 := by
  rcases authenticateData_snd (s := s) with heq | heq <;> rw [heq]
  · exact h
  · exact h.resolve hop

theorem Sound.step (h : Sound crates ops s) (hop : op ∈ ops) :
    Sound crates ops (step crates config s op) := by
  have hfetch := h.fetch hop
  unfold Doors.step
  cases hact : op.act with
  | authenticate ticket client => exact h.authenticate hop hact
  | authenticateData secret client => exact h.authenticateData hop
  | resolveFresh => exact hfetch
  | dataCredential secret =>
    simp only
    split_ifs
    · rcases hasked : s.fetch op.now op.id op.answer with ⟨_ | run, s'⟩ <;> rw [hasked] at hfetch
      · exact hfetch
      · exact ⟨hfetch.cache, hfetch.tickets⟩
    · exact h
  | endCredentials =>
    simp only
    split_ifs
    · exact ⟨hfetch.cache, hfetch.tickets⟩
    · exact hfetch
  | endCounted =>
    simp only
    split_ifs
    · refine ⟨hfetch.cache, fun id hash digest hget => ?_⟩
      rw [SortedMap.get?_erase] at hget
      split_ifs at hget
      exact hfetch.tickets id hash digest hget
    · exact hfetch

theorem Sound.along {all : List Op} : ∀ (ops : List Op) {s : State δ}, ops ⊆ all →
    Sound crates all s → Sound crates all (Machine.run (Doors.step crates config) s ops)
  | [], _, _, h => h
  | op :: ops, _, hops, h => Sound.along ops
    (fun _ hmem => hops (List.mem_cons_of_mem op hmem)) (h.step (hops List.mem_cons_self))

/-- After any calls and sweeps, the door of tickets answers as that of a proxy that has just started,
where the Portal's answers about the run have not changed for five seconds. -/
theorem authenticate_started (ops : List Op) (op : Op) (hact : op.act = .authenticate ticket client)
    (hinj : Set.InjOn crates.sha256 (shownTickets (op :: ops)))
    (hsame : ∀ o ∈ ops, o.id = op.id → op.now < o.now + CACHED → o.answer = op.answer) :
    ((Machine.run (step crates config) {} ops).authenticate crates config op.now op.id ticket client
        op.answer).1 =
      (({} : State δ).authenticate crates config op.now op.id ticket client op.answer).1 := by
  have hstart : Sound crates (op :: ops) ({} : State δ) := .start
  have hkept : Sound crates (op :: ops) (Machine.run (step crates config) {} ops) :=
    .along ops (List.subset_cons_self op ops) hstart
  have hall : ∀ o ∈ op :: ops, o.id = op.id → op.now < o.now + CACHED → o.answer = op.answer :=
    List.forall_mem_cons.2 ⟨fun _ _ => rfl, hsame⟩
  rw [hkept.authenticate_eq List.mem_cons_self hact hinj,
    hstart.authenticate_eq List.mem_cons_self hact hinj, hkept.resolve_eq_said hall,
    hstart.resolve_eq_said hall]

theorem authenticate_sample : ((Machine.run (step sampleCrates sampleConfig) {}
    [sampleCall 0]).authenticate sampleCrates sampleConfig SECOND "r" "t" ""
      (.found sampleRun)).1 = (({} : State String).authenticate sampleCrates sampleConfig SECOND "r"
        "t" "" (.found sampleRun)).1 :=
  authenticate_started [sampleCall 0] (sampleCall SECOND) rfl Function.injective_id.injOn
    (by simp [sampleCall])

/-- A ticket lets in only what the Portal, less than five seconds ago, answered as an active run with
a hash that takes the ticket. -/
theorem authenticate_recent (ops : List Op) (op : Op) (hact : op.act = .authenticate ticket client)
    (hinj : Set.InjOn crates.sha256 (shownTickets (op :: ops)))
    (hrun : ((Machine.run (step crates config) {} ops).authenticate crates config op.now op.id ticket
      client op.answer).1 = .ok run) :
    (∃ o ∈ op :: ops, o.id = op.id ∧ o.answer = .found run ∧ op.now < o.now + CACHED) ∧
      checkStatus run = .ok () ∧ crates.argon2 run.ticketHash ticket = some true ∧
      (config.requireMeshIdentity = true →
        isRunsOwnWorkload client run.id = true ∨ isWorkload client config.portalIdentity = true) := by
  have hkept : Sound crates (op :: ops) (Machine.run (step crates config) {} ops) :=
    .along ops (List.subset_cons_self op ops) .start
  rw [hkept.authenticate_eq List.mem_cons_self hact hinj] at hrun
  split_ifs at hrun
  cases hresolve : ((Machine.run (step crates config) {} ops).resolve op.now op.id op.answer).1 with
  | error e =>
    rw [hresolve] at hrun
    cases hrun
  | ok held =>
    rw [hresolve] at hrun
    obtain ⟨hactive, hasked⟩ := hkept.resolve_eq_ok hresolve
    rcases hticket : crates.argon2 held.ticketHash ticket with _ | _ | _ <;>
      simp only [judged, hticket] at hrun
    · cases hrun
    · cases hrun
    · split_ifs at hrun with hmesh
      cases hrun
      refine ⟨?_, hactive, hticket, fun hrequired => ?_⟩
      · rcases hasked with hfound | hasked
        · exact ⟨op, List.mem_cons_self, rfl, hfound, Nat.lt_add_of_pos_right (by decide)⟩
        · exact hasked
      · by_contra hnone
        simp only [not_or, Bool.not_eq_true] at hnone
        exact hmesh ⟨hrequired, hnone⟩

theorem recent_sample : (∃ o ∈ [sampleCall SECOND, sampleCall 0], o.id = "r" ∧
      o.answer = .found sampleRun ∧ SECOND < o.now + CACHED) ∧ checkStatus sampleRun = .ok () ∧
    sampleCrates.argon2 sampleRun.ticketHash "t" = some true ∧
    (sampleConfig.requireMeshIdentity = true → isRunsOwnWorkload "" sampleRun.id = true ∨
      isWorkload "" sampleConfig.portalIdentity = true) :=
  authenticate_recent [sampleCall 0] (sampleCall SECOND) rfl Function.injective_id.injOn rfl

end Doors

/-- What was minted for a run since its credentials were last dropped, with the time of each. -/
def remember (id : String) (minted : List (ℕ × String)) (op : Op) : List (ℕ × String) :=
  match op.act with
  | .dataCredential secret =>
    if runIdIsWellFormed op.id = true ∧
        ((said op.id op.answer).toOption.map fun run => run.id) = some id then
      minted ++ [(op.now, secret)]
    else minted
  | .endCredentials => if op.id = id ∧ hasEnded (said op.id op.answer) = true then [] else minted
  | _ => minted

section Minted

variable {δ : Type} {crates : Crates δ} {config : Config} {s : State δ}
  {now clock : ℕ} {id secret client : String} {answer : Answer} {run : Run} {ops : List Op} {op : Op}

def State.held (s : State δ) (id : String) : List (Entry δ) := (s.credentials.get? id).getD []

def entry (crates : Crates δ) (m : ℕ × String) : Entry δ := ⟨crates.sha256 m.2, m.1 + TTL⟩

/-- The live credentials are those of the last eight that were minted. -/
structure Remembers (crates : Crates δ) (minted : String → List (ℕ × String)) (clock : ℕ)
    (s : State δ) : Prop where
  sorted : ∀ id, (minted id).Pairwise fun a b => a.1 ≤ b.1
  past : ∀ id, ∀ m ∈ minted id, m.1 ≤ clock
  live : ∀ id t, clock ≤ t → Expiring.live Entry.expires t (s.held id) =
    Expiring.live Entry.expires t (((minted id).map (entry crates)).rtake MAX_PER_RUN)

theorem Remembers.start : Remembers crates (fun _ => []) clock ({} : State δ) :=
  ⟨fun _ => .nil, by simp, fun _ _ _ => by rw [List.map_nil, List.rtake_nil]; rfl⟩

theorem fetch_credentials : (s.fetch now id answer).2.credentials = s.credentials := by
  rw [fetch_eq]
  cases said id answer <;> rfl

theorem resolve_credentials : (s.resolve now id answer).2.credentials = s.credentials := by
  rcases resolve_cases s now id answer with heq | ⟨_, _, -, -, heq⟩ <;> rw [heq]
  exact fetch_credentials

theorem Remembers.mono {minted : String → List (ℕ × String)} {s' : State δ}
    (h : Remembers crates minted clock s) (hnow : clock ≤ now)
    (hsame : s'.credentials = s.credentials) : Remembers crates minted now s' where
  sorted := h.sorted
  past id m hm := (h.past id m hm).trans hnow
  live id t ht := by
    rw [State.held, hsame]
    exact h.live id t (hnow.trans ht)

theorem held_mint (id' : String) : (s.mint crates now id secret).held id' = if id' = id then
    Expiring.push Entry.expires MAX_PER_RUN now (s.held id) (entry crates (now, secret))
      else Expiring.live Entry.expires now (s.held id') := by
  have hlive : ∀ id, ((s.credentials.retain fun entries =>
      if Expiring.live Entry.expires now entries = [] then none
      else some (Expiring.live Entry.expires now entries)).get? id).getD [] =
        Expiring.live Entry.expires now (s.held id) := by
    intro id
    rw [SortedMap.get?_retain, State.held]
    cases s.credentials.get? id with
    | none => rfl
    | some entries =>
      simp only [Option.bind_some, Option.getD_some]
      split_ifs with hnone
      · exact hnone.symm
      · rfl
  unfold State.mint
  rw [State.held]
  simp only [SortedMap.get?_insert]
  split_ifs with hid <;> simp_all [Expiring.push, entry]

theorem Remembers.mint {minted : String → List (ℕ × String)} (h : Remembers crates minted clock s)
    (hnow : clock ≤ now) : Remembers crates
      (fun id' => if id' = id then minted id' ++ [(now, secret)] else minted id') now
      (s.mint crates now id secret) where
  sorted id' := by
    split_ifs
    · exact List.pairwise_append.2 ⟨h.sorted id', List.pairwise_singleton _ _, fun m hm last hlast =>
        List.mem_singleton.1 hlast ▸ (h.past id' m hm).trans hnow⟩
    · exact h.sorted id'
  past id' m hm := by
    split_ifs at hm
    · rcases List.mem_append.1 hm with hm | hm
      · exact (h.past id' m hm).trans hnow
      · rw [List.mem_singleton.1 hm]
    · exact (h.past id' m hm).trans hnow
  live id' t ht := by
    rw [held_mint]
    split_ifs with hid
    · subst hid
      have hsorted : ((minted id').map (entry crates)).Pairwise fun a b => a.expires ≤ b.expires :=
        List.pairwise_map.2 ((h.sorted id').imp fun hle => Nat.add_le_add_right hle TTL)
      rw [List.map_append, List.map_singleton]
      exact Expiring.live_push (by decide) hsorted (fun t ht => h.live id' t (hnow.trans ht)) t ht
    · rw [Expiring.live_live ht]
      exact h.live id' t (hnow.trans ht)

theorem Remembers.erase {minted : String → List (ℕ × String)} (h : Remembers crates minted clock s) :
    Remembers crates (fun id' => if id' = id then [] else minted id') clock
      { s with credentials := s.credentials.erase id } where
  sorted id' := by
    split_ifs
    · exact .nil
    · exact h.sorted id'
  past id' m hm := by
    split_ifs at hm
    · cases hm
    · exact h.past id' m hm
  live id' t ht := by
    rw [State.held]
    simp only [SortedMap.get?_erase]
    split_ifs
    · rfl
    · exact h.live id' t ht

variable [DecidableEq δ]

theorem verify_credentials {ticket : String} :
    (s.verify crates run ticket).2.credentials = s.credentials := by
  unfold State.verify
  split_ifs
  · rfl
  · rcases crates.argon2 run.ticketHash ticket with _ | _ | _ <;> rfl

theorem authenticate_credentials {ticket : String} :
    (s.authenticate crates config now id ticket client answer).2.credentials = s.credentials := by
  rcases authenticate_snd (s := s) with heq | heq | ⟨run, heq⟩ <;> rw [heq]
  · exact resolve_credentials
  · exact verify_credentials.trans resolve_credentials

theorem authenticateData_credentials : (s.authenticateData crates config now id secret client
    answer).2.credentials = s.credentials := by
  rcases authenticateData_snd (s := s) with heq | heq <;> rw [heq]
  exact resolve_credentials

theorem Remembers.step {minted : String → List (ℕ × String)} (h : Remembers crates minted clock s)
    (hnow : clock ≤ op.now) : Remembers crates (fun id => remember id (minted id) op) op.now
      (step crates config s op) := by
  have hfetch : Remembers crates minted op.now (s.fetch op.now op.id op.answer).2 :=
    h.mono hnow fetch_credentials
  unfold Doors.step remember
  cases hact : op.act with
  | authenticate ticket client => exact h.mono hnow authenticate_credentials
  | authenticateData secret client => exact h.mono hnow authenticateData_credentials
  | resolveFresh => exact hfetch
  | dataCredential secret =>
    simp only
    by_cases hid : runIdIsWellFormed op.id = true
    · rw [fetch_eq] at hfetch ⊢
      cases hsaid : said op.id op.answer with
      | error e => simpa [hid, hsaid, Except.toOption] using hfetch
      | ok run =>
        rw [hsaid] at hfetch
        simp only [hid, if_true, true_and, Except.toOption, Option.map_some, Option.some.injEq,
          eq_comm (a := run.id)]
        exact hfetch.mint le_rfl
    · simpa [hid] using h.mono hnow rfl
  | endCredentials =>
    rw [fetch_eq] at hfetch ⊢
    simp only
    by_cases hended : hasEnded (said op.id op.answer) = true
    · simp only [hended, if_true, and_true, eq_comm (a := op.id)]
      exact hfetch.erase
    · simpa [hended] using hfetch
  | endCounted =>
    simp only
    split_ifs
    · exact hfetch.mono le_rfl rfl
    · exact hfetch

theorem Remembers.along : ∀ (ops : List Op) {minted : String → List (ℕ × String)} {clock : ℕ}
    {s : State δ}, Remembers crates minted clock s → (∀ o ∈ ops, clock ≤ o.now) →
      ops.Pairwise (fun a b => a.now ≤ b.now) → (∀ o ∈ ops, o.now ≤ now) → clock ≤ now →
        Remembers crates (fun id => ops.foldl (remember id) (minted id)) now
          (Machine.run (Doors.step crates config) s ops)
  | [], _, _, _, h, _, _, _, hclock => h.mono hclock rfl
  | op :: ops, _, _, _, h, hfirst, hsorted, hlast, _ => by
    obtain ⟨hmore, hsorted⟩ := List.pairwise_cons.1 hsorted
    obtain ⟨hop, hlast⟩ := List.forall_mem_cons.1 hlast
    exact Remembers.along ops (h.step (hfirst op List.mem_cons_self)) hmore hsorted hlast hop

/-- The secrets that were minted or presented. -/
def secrets (ops : List Op) : Set String :=
  {secret | ∃ op ∈ ops, op.act = .dataCredential secret ∨
    ∃ client, op.act = .authenticateData secret client}

/-- A secret is a credential of a run exactly where it is one of the last eight minted for it since
its credentials were dropped, and has not expired. -/
theorem Remembers.holds_iff {minted : String → List (ℕ × String)}
    (h : Remembers crates minted now s) (hinj : ∀ m ∈ minted id, crates.sha256 m.2 =
      crates.sha256 secret → m.2 = secret) : s.holds crates now id secret = true ↔
        ∃ t, (t, secret) ∈ (minted id).rtake MAX_PER_RUN ∧ now < t + TTL := by
  have hlive := h.live id now le_rfl
  have hmap : ((minted id).map (entry crates)).rtake MAX_PER_RUN =
      ((minted id).rtake MAX_PER_RUN).map (entry crates) := by
    rw [List.rtake, List.rtake, List.length_map, List.map_drop]
  have hholds : s.holds crates now id secret = true ↔
      ∃ e ∈ Expiring.live Entry.expires now (s.held id), e.digest = crates.sha256 secret := by
    simp [State.holds, Expiring.live, State.held, and_assoc]
  rw [hholds, hlive, hmap]
  constructor
  · rintro ⟨e, he, hdigest⟩
    obtain ⟨he, hexpires⟩ := List.mem_filter.1 he
    obtain ⟨m, hm, rfl⟩ := List.mem_map.1 he
    obtain rfl := hinj m (List.drop_subset _ _ hm) hdigest
    exact ⟨m.1, hm, of_decide_eq_true hexpires⟩
  · rintro ⟨t, hmem, hexpires⟩
    exact ⟨entry crates (t, secret), List.mem_filter.2 ⟨List.mem_map_of_mem hmem,
      decide_eq_true hexpires⟩, rfl⟩

end Minted

end JoinedContext.AgentProxy.Doors

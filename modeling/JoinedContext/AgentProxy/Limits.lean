import JoinedContext.Library.Assoc
import JoinedContext.Library.Machine
import Mathlib.Algebra.BigOperators.Group.List.Basic
import Mathlib.Algebra.GroupWithZero.Nat
import Mathlib.Tactic.Common

/-!
# The budgets of runs

What a run has used, and what a day has spent, each under a lock of its own. A budget is checked
before an answer is asked for and counted after it has come, so that a call is a check, an answer and a
count, each a step, and the steps of any number of calls mix.
-/

namespace JoinedContext.AgentProxy.Limits

section Source

/-- The counts are of 64 bits, but for those of calls. -/
def U64 : ℕ := 2 ^ 64

def U32 : ℕ := 2 ^ 32

/-- One minute, in nanoseconds. -/
def WINDOW : ℕ := 60 * 10 ^ 9

structure RunUsage where
  rpmWindow : Option ℕ := none
  rpmCount : ℕ := 0
  tokensConsumed : ℕ := 0
  steps : ℕ := 0
  egressBytes : ℕ := 0

/-- The usage at a time: a window that has passed begins anew. -/
def RunUsage.inWindow (u : RunUsage) (now : ℕ) : RunUsage :=
  if u.rpmWindow.any fun started => now - started < WINDOW then u
  else { u with rpmWindow := some now, rpmCount := 0 }

/-- Whose day a count is of: a consumer's, a person's, or an assistant's deployment's. -/
inductive Spender where
  | consumer (name : String)
  | person (name : String)
  | deployment (name : String)
deriving DecidableEq

/-- The tokens spent on one day. -/
structure DailySpend where
  day : ℕ := 0
  spent : List (Spender × ℕ) := []

/-- The spend of a day: a new day starts every budget at zero. -/
def DailySpend.on (d : DailySpend) (day : ℕ) : DailySpend := if d.day ≠ day then { day } else d

def DailySpend.of (d : DailySpend) (who : Spender) : ℕ := (d.spent.lookup who).getD 0

def DailySpend.add (d : DailySpend) (who : Spender) (tokens : ℕ) : DailySpend :=
  { d with spent := Assoc.put who ((d.of who + tokens) % U64) d.spent }

def consumerOf (kind : String) : String :=
  if kind = "conversation" then "assistant"
  else if kind = "application" then "app-builder"
  else "other"

/-- The caps of a day, none where zero. -/
structure DailyCaps where
  assistant : ℕ
  appBuilder : ℕ
  other : ℕ
  perPerson : ℕ

def DailyCaps.of (caps : DailyCaps) (kind : String) : ℕ :=
  if consumerOf kind = "assistant" then caps.assistant
  else if consumerOf kind = "app-builder" then caps.appBuilder
  else caps.other

structure LimitManager where
  runs : List (String × RunUsage) := []
  daily : DailySpend := {}

namespace LimitManager

variable (m : LimitManager)

def usage (run : String) : RunUsage := (m.runs.lookup run).getD {}

def withUsage (run : String) (u : RunUsage) : LimitManager :=
  { m with runs := Assoc.put run u m.runs }

def checkRpm (run : String) (limit now : ℕ) : Bool × LimitManager :=
  let u := (m.usage run).inWindow now
  if limit ≤ u.rpmCount then (false, m.withUsage run u)
  else (true, m.withUsage run { u with rpmCount := (u.rpmCount + 1) % U32 })

def checkSteps (run : String) (limit : ℕ) : Bool × LimitManager :=
  let u := m.usage run
  if limit = 0 then (true, m)
  else if limit ≤ u.steps then (false, m.withUsage run u)
  else (true, m.withUsage run { u with steps := (u.steps + 1) % U32 })

def tokensLeft (run : String) (limit : ℕ) : ℕ := limit - (m.usage run).tokensConsumed

def checkTokens (run : String) (limit : ℕ) : Bool := m.tokensLeft run limit ≠ 0

def egressRemaining (run : String) (budget : ℕ) : ℕ := budget - (m.usage run).egressBytes

def recordEgress (run : String) (bytes : ℕ) : LimitManager :=
  let u := m.usage run
  m.withUsage run { u with egressBytes := min (u.egressBytes + bytes) (U64 - 1) }

def checkDailyOn (caps : DailyCaps) (kind person : String) (day : ℕ) : Bool × LimitManager :=
  let daily := m.daily.on day
  (!((0 < caps.of kind && caps.of kind ≤ daily.of (.consumer (consumerOf kind))) ||
    (0 < caps.perPerson && caps.perPerson ≤ daily.of (.person person))), { m with daily })

def recordDailyOn (kind person : String) (tokens day : ℕ) : LimitManager :=
  let daily := (m.daily.on day).add (.consumer (consumerOf kind)) tokens
  { m with daily := daily.add (.person person) tokens }

def checkDeploymentDayOn (deployment : String) (cap day : ℕ) : Bool × LimitManager :=
  let daily := m.daily.on day
  (!(cap ≤ daily.of (.deployment deployment)), { m with daily })

def recordDeploymentDayOn (deployment : String) (tokens day : ℕ) : LimitManager :=
  { m with daily := (m.daily.on day).add (.deployment deployment) tokens }

def recordTokens (run : String) (count : ℕ) : LimitManager :=
  let u := m.usage run
  m.withUsage run { u with tokensConsumed := (u.tokensConsumed + count) % U64 }

/-- The usage of a run the Portal no longer holds as active is dropped. -/
def dropRun (run : String) : LimitManager := { m with runs := Assoc.without run m.runs }

end LimitManager

end Source

section Runs

/-- What the runs' records allow, in 64 bits each. -/
structure Budgets where
  maxTokens : String → ℕ
  maxEgress : String → ℕ
  maxResponse : String → ℕ
  maxEgress_lt : ∀ run, maxEgress run < U64

/-- A call that was let through: to the model, or to an outside host, of which so many bytes have been
read once its answer has come. -/
inductive Call where
  | model (run : String)
  | fetch (run : String)
  | fetched (run : String) (bytes : ℕ)
deriving DecidableEq

/-- The counts, the calls on their way, the runs whose usage was dropped, the tokens each answer was
charged with, the bytes read, what was spent on each day, and the latest day read off a clock. -/
structure State where
  limits : LimitManager := {}
  calls : List Call := []
  dropped : List String := []
  answers : List (String × ℕ) := []
  read : List (String × ℕ) := []
  spent : List ((ℕ × Spender) × ℕ) := []
  latest : ℕ := 0

inductive Op where
  | checkRpm (run : String) (limit : Fin U32) (now : ℕ)
  | checkSteps (run : String) (limit : Fin U32)
  | checkTokens (run : String)
  | checkDaily (caps : DailyCaps) (kind person : String) (day : ℕ)
  | checkDeployment (deployment : String) (cap day : ℕ)
  /-- A model call ends with nothing to count. -/
  | abandon (run : String)
  | recordTokens (run : String) (tokens : ℕ)
  | recordDaily (kind person : String) (tokens day : ℕ)
  | recordDeployment (deployment : String) (tokens day : ℕ)
  | checkEgress (run : String)
  /-- An answer within the run's cap is read whole. -/
  | readAnswer (run : String) (bytes : ℕ)
  /-- An answer is refused after so many bytes of it, or breaks off. -/
  | refuseAnswer (run : String) (bytes : ℕ)
  | recordEgress (run : String) (bytes : ℕ)
  | endFinished (run : String)

/-- What a list says of a key, added up. -/
def sumOf {α : Type} [DecidableEq α] (l : List (α × ℕ)) (a : α) : ℕ :=
  ((l.filter fun c => c.1 = a).map Prod.snd).sum

variable (b : Budgets)

def State.step (s : State) : Op → State
  | .checkRpm run limit now => { s with limits := (s.limits.checkRpm run limit now).2 }
  | .checkSteps run limit => { s with limits := (s.limits.checkSteps run limit).2 }
  | .checkTokens run =>
    if s.limits.checkTokens run (b.maxTokens run) then { s with calls := .model run :: s.calls } else s
  | .checkDaily caps kind person day => { s with
      limits := (s.limits.checkDailyOn caps kind person day).2
      latest := max s.latest day }
  | .checkDeployment deployment cap day => { s with
      limits := (s.limits.checkDeploymentDayOn deployment cap day).2
      latest := max s.latest day }
  | .abandon run => { s with calls := s.calls.erase (.model run) }
  | .recordTokens run tokens =>
    if .model run ∈ s.calls then { s with
      limits := s.limits.recordTokens run tokens
      calls := s.calls.erase (.model run)
      answers := (run, tokens) :: s.answers }
    else s
  | .recordDaily kind person tokens day => { s with
      limits := s.limits.recordDailyOn kind person tokens day
      spent := ((day, .person person), tokens) :: ((day, .consumer (consumerOf kind)), tokens) :: s.spent
      latest := max s.latest day }
  | .recordDeployment deployment tokens day => { s with
      limits := s.limits.recordDeploymentDayOn deployment tokens day
      spent := ((day, .deployment deployment), tokens) :: s.spent
      latest := max s.latest day }
  | .checkEgress run =>
    if s.limits.egressRemaining run (b.maxEgress run) ≠ 0 then
      { s with calls := .fetch run :: s.calls }
    else s
  | .readAnswer run bytes =>
    if .fetch run ∈ s.calls ∧ bytes ≤ b.maxResponse run then { s with
      calls := .fetched run bytes :: s.calls.erase (.fetch run)
      read := (run, bytes) :: s.read }
    else s
  | .refuseAnswer run bytes =>
    if .fetch run ∈ s.calls then { s with
      calls := s.calls.erase (.fetch run)
      read := (run, bytes) :: s.read }
    else s
  | .recordEgress run bytes =>
    if .fetched run bytes ∈ s.calls then { s with
      limits := s.limits.recordEgress run bytes
      calls := s.calls.erase (.fetched run bytes) }
    else s
  | .endFinished run => { s with limits := s.limits.dropRun run, dropped := run :: s.dropped }

end Runs

section Property

variable (b : Budgets)

/-- The budgets hold: a run's tokens pass its limit by at most one answer it was charged with, what it
reads passes its budget by at most one answer of its size, and what was spent on the latest day
stands. -/
structure Within (s : State) : Prop where
  tokens : ∀ run, sumOf s.answers run ≤ b.maxTokens run ∨ ∃ answer ∈ s.answers, answer.1 = run ∧
    sumOf s.answers run ≤ b.maxTokens run + answer.2
  egress : ∀ run, sumOf s.read run ≤ b.maxEgress run + b.maxResponse run
  days : ∀ who, sumOf s.spent (s.latest, who) ≤ (s.limits.daily.on s.latest).of who

/-- A step adds to a count more than it can hold. -/
def State.Overflows (s : State) : Op → Prop
  | .checkRpm run limit now => (s.limits.checkRpm run limit now).1 = true ∧
      U32 ≤ ((s.limits.usage run).inWindow now).rpmCount + 1
  | .checkSteps run limit => limit.val ≠ 0 ∧ (s.limits.checkSteps run limit).1 = true ∧
      U32 ≤ (s.limits.usage run).steps + 1
  | .recordTokens run tokens => .model run ∈ s.calls ∧
      U64 ≤ (s.limits.usage run).tokensConsumed + tokens
  | .recordDaily kind person tokens day =>
      U64 ≤ (s.limits.daily.on day).of (.consumer (consumerOf kind)) + tokens ∨
        U64 ≤ (s.limits.daily.on day).of (.person person) + tokens
  | .recordDeployment deployment tokens day =>
      U64 ≤ (s.limits.daily.on day).of (.deployment deployment) + tokens
  | _ => False

/-- Whose call it is, and of which kind. -/
def Call.key : Call → Bool × String
  | .model run => (true, run)
  | .fetch run | .fetched run _ => (false, run)

/-- A call is let through only where no other of its run is on its way and the run's usage was not
dropped, no answer is refused once bytes of it were read, no day is read that is earlier than the one
counted, and an answer's tokens have room beside the limit, and in what is spent on the day. -/
def State.Orderly (s : State) : Op → Prop
  | .checkTokens run => s.limits.checkTokens run (b.maxTokens run) = true →
      (∀ c ∈ s.calls, c.key ≠ (true, run)) ∧ run ∉ s.dropped
  | .checkEgress run => s.limits.egressRemaining run (b.maxEgress run) ≠ 0 →
      (∀ c ∈ s.calls, c.key ≠ (false, run)) ∧ run ∉ s.dropped
  | .refuseAnswer run bytes => .fetch run ∈ s.calls → bytes = 0
  | .checkDaily _ _ _ day | .checkDeployment _ _ day => s.limits.daily.day ≤ day
  | .recordTokens run tokens => b.maxTokens run + tokens ≤ U64
  | .recordDaily kind person tokens day => s.limits.daily.day ≤ day ∧
      sumOf s.spent (day, .consumer (consumerOf kind)) + tokens < U64 ∧
      sumOf s.spent (day, .person person) + tokens < U64
  | .recordDeployment deployment tokens day => s.limits.daily.day ≤ day ∧
      sumOf s.spent (day, .deployment deployment) + tokens < U64
  | _ => True

end Property

section Counts

variable {m : LimitManager} {run r : String} {d : DailySpend} {who w : Spender} {tokens day limit now : ℕ}

theorem sumOf_cons {α : Type} [DecidableEq α] (a : α) (n : ℕ) (l : List (α × ℕ)) (k : α) :
    sumOf ((a, n) :: l) k = (if a = k then n else 0) + sumOf l k := by
  unfold sumOf
  by_cases h : a = k
  · rw [List.filter_cons_of_pos (by simpa using h), if_pos h, List.map_cons, List.sum_cons]
  · rw [List.filter_cons_of_neg (by simpa using h), if_neg h, Nat.zero_add]

theorem sumOf_eq_zero {α : Type} [DecidableEq α] {l : List (α × ℕ)} {k : α}
    (h : ∀ c ∈ l, c.1 ≠ k) : sumOf l k = 0 := by
  unfold sumOf
  rw [List.filter_eq_nil_iff.2 fun c hc => by simpa using h c hc]
  rfl

@[simp] theorem usage_withUsage (u : RunUsage) :
    (m.withUsage run u).usage r = if r = run then u else m.usage r := by
  unfold LimitManager.withUsage LimitManager.usage
  simp only []
  rw [Assoc.lookup_put]
  split_ifs <;> rfl

theorem usage_dropRun (h : r ≠ run) : (m.dropRun run).usage r = m.usage r := by
  unfold LimitManager.dropRun LimitManager.usage
  simp only []
  rw [Assoc.lookup_without, if_neg h]

theorem inWindow_counts (u : RunUsage) (now : ℕ) :
    (u.inWindow now).tokensConsumed = u.tokensConsumed ∧
      (u.inWindow now).egressBytes = u.egressBytes := by
  unfold RunUsage.inWindow
  split_ifs <;> exact ⟨rfl, rfl⟩

theorem checkRpm_counts : ((m.checkRpm run limit now).2.usage r).tokensConsumed =
      (m.usage r).tokensConsumed ∧
    ((m.checkRpm run limit now).2.usage r).egressBytes = (m.usage r).egressBytes := by
  unfold LimitManager.checkRpm
  simp only []
  split_ifs <;> rw [usage_withUsage] <;> split_ifs with h <;>
    simp [h, (inWindow_counts (m.usage run) now).1, (inWindow_counts (m.usage run) now).2]

theorem checkSteps_counts : ((m.checkSteps run limit).2.usage r).tokensConsumed =
      (m.usage r).tokensConsumed ∧
    ((m.checkSteps run limit).2.usage r).egressBytes = (m.usage r).egressBytes := by
  unfold LimitManager.checkSteps
  simp only []
  split_ifs
  · exact ⟨rfl, rfl⟩
  · rw [usage_withUsage]
    split_ifs with h <;> simp [h]
  · rw [usage_withUsage]
    split_ifs with h <;> simp [h]

theorem of_add : (d.add who tokens).of w =
    if w = who then (d.of who + tokens) % U64 else d.of w := by
  unfold DailySpend.add
  rw [DailySpend.of]
  simp only []
  rw [Assoc.lookup_put]
  split_ifs <;> rfl

@[simp] theorem day_on : (d.on day).day = day := by
  unfold DailySpend.on
  split_ifs with h
  · rfl
  · exact not_not.1 h

theorem on_self (h : d.day = day) : d.on day = d := if_neg (not_not.2 h)

theorem of_on_of_ne (h : d.day ≠ day) : (d.on day).of who = 0 := by
  rw [DailySpend.on, if_pos h]
  rfl

end Counts

section Invariant

/-- The bytes a call has read that are not counted. -/
def Call.uncounted (run : String) : Call → ℕ
  | .fetched r bytes => if r = run then bytes else 0
  | .model _ | .fetch _ => 0

def uncounted (calls : List Call) (run : String) : ℕ := (calls.map (Call.uncounted run)).sum

/-- No two calls of a run and a kind are on their way, the counts of a run whose usage was not dropped
are of all its answers, one that is asked for had room when the last was counted, and the day counted
is the latest, with all that was spent on it. -/
structure Sound (b : Budgets) (s : State) : Prop where
  alone : s.calls.Pairwise fun c d => c.key ≠ d.key
  charged : ∀ run, (s.limits.usage run).tokensConsumed ≤ sumOf s.answers run
  tokens : ∀ run ∉ s.dropped, (s.limits.usage run).tokensConsumed = sumOf s.answers run
  asked : ∀ run, .model run ∈ s.calls → sumOf s.answers run < b.maxTokens run
  egress : ∀ run ∉ s.dropped,
    min ((s.limits.usage run).egressBytes + uncounted s.calls run) (U64 - 1) =
      min (sumOf s.read run) (U64 - 1)
  fetching : ∀ run, .fetch run ∈ s.calls → sumOf s.read run < b.maxEgress run
  day : s.limits.daily.day = s.latest
  spent : ∀ who, s.limits.daily.of who = sumOf s.spent (s.latest, who)
  past : ∀ c ∈ s.spent, c.1.1 ≤ s.latest
  within : Within b s

variable {b : Budgets} {s : State} {op : Op} {run : String} {c : Call} {tokens bytes day : ℕ}
  {who : Spender}

theorem Sound.start : Sound b {} where
  alone := List.Pairwise.nil
  charged _ := Nat.le_refl 0
  tokens _ _ := rfl
  asked _ h := by cases h
  egress _ _ := rfl
  fetching _ h := by cases h
  day := rfl
  spent _ := rfl
  past _ h := by cases h
  within := ⟨fun _ => Or.inl (Nat.zero_le _), fun _ => Nat.zero_le _, fun _ => Nat.le_refl 0⟩

theorem uncounted_cons (c : Call) (calls : List Call) :
    uncounted (c :: calls) run = c.uncounted run + uncounted calls run := by
  rw [uncounted, List.map_cons, List.sum_cons, uncounted]

theorem uncounted_erase {calls : List Call} (run : String) (h : c ∈ calls) :
    c.uncounted run + uncounted (calls.erase c) run = uncounted calls run :=
  List.sum_map_erase _ h

theorem uncounted_erase_of_zero {calls : List Call} (h : c.uncounted run = 0) :
    uncounted (calls.erase c) run = uncounted calls run := by
  by_cases hmem : c ∈ calls
  · rw [← uncounted_erase run hmem, h, Nat.zero_add]
  · rw [List.erase_of_not_mem hmem]

theorem uncounted_eq_zero {calls : List Call} (h : ∀ c ∈ calls, c.key ≠ (false, run)) :
    uncounted calls run = 0 := by
  refine List.sum_eq_zero fun n hn => ?_
  obtain ⟨c, hc, rfl⟩ := List.mem_map.1 hn
  cases c with
  | model r => rfl
  | fetch r => rfl
  | fetched r bytes => exact if_neg fun heq => h _ hc (by rw [Call.key, heq])

/-- The calls that are left once one has ended are none of its run and kind. -/
theorem key_ne_of_mem_erase {calls : List Call} (h : calls.Pairwise fun c d => c.key ≠ d.key)
    (hc : c ∈ calls) : ∀ d ∈ calls.erase c, c.key ≠ d.key := by
  have hperm := (List.perm_cons_erase hc).pairwise_iff (R := fun c d : Call => c.key ≠ d.key)
    fun hne => hne.symm
  exact (List.pairwise_cons.1 (hperm.1 h)).1

/-- A change of the runs' usage that is no count of tokens or bytes. -/
theorem Sound.counts (h : Sound b s) {m : LimitManager} (hdaily : m.daily = s.limits.daily)
    (hcounts : ∀ r, (m.usage r).tokensConsumed = (s.limits.usage r).tokensConsumed ∧
      (m.usage r).egressBytes = (s.limits.usage r).egressBytes) :
    Sound b { s with limits := m } where
  alone := h.alone
  charged r := by rw [(hcounts r).1]; exact h.charged r
  tokens r hr := by rw [(hcounts r).1]; exact h.tokens r hr
  asked := h.asked
  egress r hr := by rw [(hcounts r).2]; exact h.egress r hr
  fetching := h.fetching
  day := by rw [hdaily]; exact h.day
  spent := by rw [hdaily]; exact h.spent
  past := h.past
  within := ⟨h.within.tokens, h.within.egress, by rw [hdaily]; exact h.within.days⟩

theorem Sound.checkTokens (h : Sound b s) (hop : s.Orderly b (.checkTokens run)) :
    Sound b (s.step b (.checkTokens run)) := by
  rw [State.step]
  split_ifs with hcheck
  · obtain ⟨halone, hdropped⟩ := hop hcheck
    refine ⟨List.pairwise_cons.2 ⟨fun c hc => (halone c hc).symm, h.alone⟩, h.charged, h.tokens,
      fun r hr => ?_, fun r hr => ?_, fun r hr => ?_, h.day, h.spent, h.past, h.within.tokens,
      h.within.egress, h.within.days⟩
    · rcases List.mem_cons.1 hr with hr | hr
      · cases hr
        have hleft : s.limits.tokensLeft run (b.maxTokens run) ≠ 0 := by
          simpa [LimitManager.checkTokens] using hcheck
        have := h.tokens run hdropped
        rw [LimitManager.tokensLeft] at hleft
        show sumOf s.answers run < b.maxTokens run
        omega
      · exact h.asked r hr
    · rw [uncounted_cons, Call.uncounted, Nat.zero_add]
      exact h.egress r hr
    · exact h.fetching r ((List.mem_cons.1 hr).resolve_left fun heq => by cases heq)
  · exact h

theorem Sound.abandon (h : Sound b s) : Sound b (s.step b (.abandon run)) where
  alone := h.alone.sublist List.erase_sublist
  charged := h.charged
  tokens := h.tokens
  asked r hr := h.asked r (List.mem_of_mem_erase hr)
  egress r hr := by
    rw [State.step, uncounted_erase_of_zero rfl]
    exact h.egress r hr
  fetching r hr := h.fetching r (List.mem_of_mem_erase hr)
  day := h.day
  spent := h.spent
  past := h.past
  within := ⟨h.within.tokens, h.within.egress, h.within.days⟩

theorem Sound.room (h : Sound b s) (hop : s.Orderly b (.recordTokens run tokens))
    (hcall : .model run ∈ s.calls) : (s.limits.usage run).tokensConsumed + tokens < U64 := by
  have hasked := h.asked run hcall
  have hcharged := h.charged run
  have hroom : b.maxTokens run + tokens ≤ U64 := hop
  omega

theorem Sound.recordTokens (h : Sound b s) (hop : s.Orderly b (.recordTokens run tokens)) :
    Sound b (s.step b (.recordTokens run tokens)) := by
  rw [State.step]
  split_ifs with hcall
  · have hroom := h.room hop hcall
    have hasked := h.asked run hcall
    have hconsumed : ∀ r, ((s.limits.recordTokens run tokens).usage r).tokensConsumed =
        (if run = r then tokens else 0) + (s.limits.usage r).tokensConsumed := fun r => by
      rw [LimitManager.recordTokens, usage_withUsage]
      by_cases hr : r = run
      · rw [if_pos hr, if_pos hr.symm, Nat.mod_eq_of_lt hroom, hr, Nat.add_comm]
      · rw [if_neg hr, if_neg fun heq => hr heq.symm, Nat.zero_add]
    have hbytes : ∀ r, ((s.limits.recordTokens run tokens).usage r).egressBytes =
        (s.limits.usage r).egressBytes := fun r => by
      rw [LimitManager.recordTokens, usage_withUsage]
      split_ifs with hr
      · rw [hr]
      · rfl
    refine ⟨h.alone.sublist List.erase_sublist, fun r => ?_, fun r hr => ?_, fun r hr => ?_,
      fun r hr => ?_, fun r hr => h.fetching r (List.mem_of_mem_erase hr), h.day, h.spent, h.past,
      fun r => ?_, h.within.egress, h.within.days⟩
    · rw [hconsumed, sumOf_cons]
      exact Nat.add_le_add_left (h.charged r) _
    · rw [hconsumed, sumOf_cons, h.tokens r hr]
    · have hne : run ≠ r := fun heq => key_ne_of_mem_erase h.alone hcall _ hr (by rw [heq])
      rw [sumOf_cons, if_neg hne, Nat.zero_add]
      exact h.asked r (List.mem_of_mem_erase hr)
    · rw [hbytes, uncounted_erase_of_zero rfl]
      exact h.egress r hr
    · rw [sumOf_cons]
      by_cases heq : run = r
      · refine Or.inr ⟨(run, tokens), List.mem_cons_self, heq, ?_⟩
        rw [if_pos heq, ← heq]
        show tokens + sumOf s.answers run ≤ b.maxTokens run + tokens
        omega
      · rw [if_neg heq, Nat.zero_add]
        exact (h.within.tokens r).imp_right fun ⟨answer, hmem, hrun⟩ =>
          ⟨answer, List.mem_cons_of_mem _ hmem, hrun⟩
  · exact h

theorem Sound.checkEgress (h : Sound b s) (hop : s.Orderly b (.checkEgress run)) :
    Sound b (s.step b (.checkEgress run)) := by
  rw [State.step]
  split_ifs with hcheck
  · obtain ⟨halone, hdropped⟩ := hop hcheck
    refine ⟨List.pairwise_cons.2 ⟨fun c hc => (halone c hc).symm, h.alone⟩, h.charged, h.tokens,
      fun r hr => ?_, fun r hr => ?_, fun r hr => ?_, h.day, h.spent, h.past, h.within.tokens,
      h.within.egress, h.within.days⟩
    · exact h.asked r ((List.mem_cons.1 hr).resolve_left fun heq => by cases heq)
    · rw [uncounted_cons, Call.uncounted, Nat.zero_add]
      exact h.egress r hr
    · rcases List.mem_cons.1 hr with hr | hr
      · cases hr
        -- nothing of the run is on its way, so that all it has read is counted
        have hcounted := h.egress run hdropped
        have hlt := b.maxEgress_lt run
        rw [uncounted_eq_zero halone] at hcounted
        rw [LimitManager.egressRemaining] at hcheck
        show sumOf s.read run < b.maxEgress run
        omega
      · exact h.fetching r hr
  · exact h

theorem Sound.readAnswer (h : Sound b s) : Sound b (s.step b (.readAnswer run bytes)) := by
  rw [State.step]
  split_ifs with hcall
  · obtain ⟨hcall, hcap⟩ := hcall
    have halone := key_ne_of_mem_erase h.alone hcall
    refine ⟨List.pairwise_cons.2 ⟨halone, h.alone.sublist List.erase_sublist⟩, h.charged, h.tokens,
      fun r hr => ?_, fun r hr => ?_, fun r hr => ?_, h.day, h.spent, h.past, h.within.tokens,
      fun r => ?_, h.within.days⟩
    · have hr := (List.mem_cons.1 hr).resolve_left fun heq => by cases heq
      exact h.asked r (List.mem_of_mem_erase hr)
    · have hcounted := h.egress r hr
      rw [uncounted_cons, uncounted_erase_of_zero rfl, sumOf_cons, Call.uncounted]
      show min ((s.limits.usage r).egressBytes + _) _ = _
      omega
    · have hr := (List.mem_cons.1 hr).resolve_left fun heq => by cases heq
      have hne : run ≠ r := fun heq => halone _ hr (by rw [heq])
      rw [sumOf_cons, if_neg hne, Nat.zero_add]
      exact h.fetching r (List.mem_of_mem_erase hr)
    · rw [sumOf_cons]
      split_ifs with heq
      · have := h.fetching run hcall
        rw [← heq]
        omega
      · rw [Nat.zero_add]
        exact h.within.egress r
  · exact h

theorem Sound.refuseAnswer (h : Sound b s) (hop : s.Orderly b (.refuseAnswer run bytes)) :
    Sound b (s.step b (.refuseAnswer run bytes)) := by
  rw [State.step]
  split_ifs with hcall
  · have hread : ∀ r, sumOf ((run, bytes) :: s.read) r = sumOf s.read r := fun r => by
      rw [sumOf_cons, hop hcall, ite_self, Nat.zero_add]
    refine ⟨h.alone.sublist List.erase_sublist, h.charged, h.tokens,
      fun r hr => h.asked r (List.mem_of_mem_erase hr), fun r hr => ?_, fun r hr => ?_, h.day, h.spent,
      h.past, h.within.tokens, fun r => ?_, h.within.days⟩
    · rw [hread, uncounted_erase_of_zero rfl]
      exact h.egress r hr
    · rw [hread]
      exact h.fetching r (List.mem_of_mem_erase hr)
    · rw [hread]
      exact h.within.egress r
  · exact h

theorem Sound.recordEgress (h : Sound b s) : Sound b (s.step b (.recordEgress run bytes)) := by
  rw [State.step]
  split_ifs with hcall
  · have hconsumed : ∀ r, ((s.limits.recordEgress run bytes).usage r).tokensConsumed =
        (s.limits.usage r).tokensConsumed := fun r => by
      rw [LimitManager.recordEgress, usage_withUsage]
      split_ifs with hr
      · rw [hr]
      · rfl
    refine ⟨h.alone.sublist List.erase_sublist, fun r => ?_, fun r hr => ?_,
      fun r hr => h.asked r (List.mem_of_mem_erase hr), fun r hr => ?_,
      fun r hr => h.fetching r (List.mem_of_mem_erase hr), h.day, h.spent, h.past, h.within.tokens,
      h.within.egress, h.within.days⟩
    · rw [hconsumed]
      exact h.charged r
    · rw [hconsumed]
      exact h.tokens r hr
    · have hcounted := h.egress r hr
      have herase := uncounted_erase r hcall
      rw [Call.uncounted] at herase
      rw [LimitManager.recordEgress, usage_withUsage]
      rcases eq_or_ne r run with rfl | hne
      · rw [if_pos rfl] at herase
        rw [if_pos rfl]
        show min (min ((s.limits.usage r).egressBytes + bytes) (U64 - 1) +
          uncounted (s.calls.erase (.fetched r bytes)) r) (U64 - 1) = min (sumOf s.read r) (U64 - 1)
        omega
      · rw [if_neg hne.symm] at herase
        rw [if_neg hne]
        show min ((s.limits.usage r).egressBytes + uncounted (s.calls.erase (.fetched run bytes)) r)
          (U64 - 1) = min (sumOf s.read r) (U64 - 1)
        omega
  · exact h

theorem Sound.endFinished (h : Sound b s) : Sound b (s.step b (.endFinished run)) where
  alone := h.alone
  charged r := by
    by_cases hr : r = run
    · rw [State.step, LimitManager.dropRun, LimitManager.usage]
      simp only []
      rw [Assoc.lookup_without, if_pos hr]
      exact Nat.zero_le _
    · show ((s.limits.dropRun run).usage r).tokensConsumed ≤ _
      rw [usage_dropRun hr]
      exact h.charged r
  tokens r hr := by
    obtain ⟨hne, hr⟩ := not_or.1 fun h => hr (List.mem_cons.2 h)
    show ((s.limits.dropRun run).usage r).tokensConsumed = _
    rw [usage_dropRun hne]
    exact h.tokens r hr
  asked := h.asked
  egress r hr := by
    obtain ⟨hne, hr⟩ := not_or.1 fun h => hr (List.mem_cons.2 h)
    show min (((s.limits.dropRun run).usage r).egressBytes + _) _ = _
    rw [usage_dropRun hne]
    exact h.egress r hr
  fetching := h.fetching
  day := h.day
  spent := h.spent
  past := h.past
  within := ⟨h.within.tokens, h.within.egress, h.within.days⟩

/-- A day no earlier than the one counted begins with what was spent on it. -/
theorem Sound.onDay (h : Sound b s) (hday : s.limits.daily.day ≤ day) :
    Sound b { s with limits := { s.limits with daily := s.limits.daily.on day }, latest := day } := by
  rw [h.day] at hday
  have hspent : ∀ who, (s.limits.daily.on day).of who = sumOf s.spent (day, who) := fun who => by
    by_cases heq : s.limits.daily.day = day
    · rw [on_self heq, h.spent, ← h.day, heq]
    · rw [of_on_of_ne heq, sumOf_eq_zero]
      intro c hc hkey
      have hpast := h.past c hc
      rw [hkey] at hpast
      exact heq (h.day.trans (Nat.le_antisymm hday hpast))
  refine ⟨h.alone, h.charged, h.tokens, h.asked, h.egress, h.fetching, day_on, hspent,
    fun c hc => Nat.le_trans (h.past c hc) hday, h.within.tokens, h.within.egress, fun who => ?_⟩
  rw [on_self day_on]
  exact Nat.le_of_eq (hspent who).symm

/-- What is spent on the day counted is counted. -/
theorem Sound.spend (h : Sound b s) (who : Spender) (tokens : ℕ)
    (hroom : sumOf s.spent (s.latest, who) + tokens < U64) :
    Sound b { s with
      limits := { s.limits with daily := s.limits.daily.add who tokens }
      spent := ((s.latest, who), tokens) :: s.spent } := by
  have hspent : ∀ w, (s.limits.daily.add who tokens).of w =
      sumOf (((s.latest, who), tokens) :: s.spent) (s.latest, w) := fun w => by
    rw [of_add, sumOf_cons, h.spent, h.spent]
    rcases eq_or_ne w who with rfl | hne
    · rw [if_pos rfl, if_pos rfl, Nat.mod_eq_of_lt hroom, Nat.add_comm]
    · rw [if_neg hne, if_neg fun heq => hne (Prod.ext_iff.1 heq).2.symm, Nat.zero_add]
  have hday : (s.limits.daily.add who tokens).day = s.latest := h.day
  refine ⟨h.alone, h.charged, h.tokens, h.asked, h.egress, h.fetching, hday, hspent, fun c hc => ?_,
    h.within.tokens, h.within.egress, fun w => ?_⟩
  · rcases List.mem_cons.1 hc with rfl | hc
    · exact Nat.le_refl _
    · exact h.past c hc
  · rw [on_self hday]
    exact Nat.le_of_eq (hspent w).symm

theorem Sound.recordDaily {kind person : String} (h : Sound b s)
    (hop : s.Orderly b (.recordDaily kind person tokens day)) :
    Sound b (s.step b (.recordDaily kind person tokens day)) := by
  obtain ⟨hday, hconsumer, hperson⟩ := hop
  have hspent := (h.onDay hday).spend _ _ hconsumer
  have hboth := hspent.spend (.person person) tokens (by
    rw [sumOf_cons, if_neg (by simp), Nat.zero_add]
    exact hperson)
  rw [State.step, Nat.max_eq_right (h.day ▸ hday)]
  exact hboth

theorem Sound.step (h : Sound b s) (hop : s.Orderly b op) : Sound b (s.step b op) := by
  cases op with
  | checkRpm run limit now =>
    refine h.counts ?_ fun r => checkRpm_counts
    unfold LimitManager.checkRpm
    simp only []
    split_ifs <;> rfl
  | checkSteps run limit =>
    refine h.counts ?_ fun r => checkSteps_counts
    unfold LimitManager.checkSteps
    simp only []
    split_ifs <;> rfl
  | checkTokens run => exact h.checkTokens hop
  | checkDaily caps kind person day =>
    rw [State.step, Nat.max_eq_right (h.day ▸ hop)]
    exact h.onDay hop
  | checkDeployment deployment cap day =>
    rw [State.step, Nat.max_eq_right (h.day ▸ hop)]
    exact h.onDay hop
  | abandon run => exact h.abandon
  | recordTokens run tokens => exact h.recordTokens hop
  | recordDaily kind person tokens day => exact h.recordDaily hop
  | recordDeployment deployment tokens day =>
    rw [State.step, Nat.max_eq_right (h.day ▸ hop.1)]
    exact (h.onDay hop.1).spend _ _ hop.2
  | checkEgress run => exact h.checkEgress hop
  | readAnswer run bytes => exact h.readAnswer
  | refuseAnswer run bytes => exact h.refuseAnswer hop
  | recordEgress run bytes => exact h.recordEgress
  | endFinished run => exact h.endFinished

/-- A count that is checked in the section that counts it stops at its limit. -/
theorem not_overflows_of_le {count : ℕ} (limit : Fin U32) (h : ¬ limit.val ≤ count) :
    ¬ U32 ≤ count + 1 := by
  have := limit.isLt
  omega

theorem Sound.not_overflows (h : Sound b s) (hop : s.Orderly b op) : ¬ s.Overflows op := by
  cases op with
  | checkRpm run limit now =>
    rintro ⟨hpassed, hover⟩
    refine not_overflows_of_le limit (fun hle => ?_) hover
    rw [LimitManager.checkRpm, if_pos hle] at hpassed
    cases hpassed
  | checkSteps run limit =>
    rintro ⟨hzero, hpassed, hover⟩
    refine not_overflows_of_le limit (fun hle => ?_) hover
    rw [LimitManager.checkSteps, if_neg hzero, if_pos hle] at hpassed
    cases hpassed
  | recordTokens run tokens => exact fun ⟨hcall, hover⟩ => Nat.not_le.2 (h.room hop hcall) hover
  | recordDaily kind person tokens day =>
    obtain ⟨hday, hconsumer, hperson⟩ := hop
    have hspent := (h.onDay hday).spent
    rintro (hover | hover)
    · exact Nat.not_le.2 hconsumer (hspent _ ▸ hover)
    · exact Nat.not_le.2 hperson (hspent _ ▸ hover)
  | recordDeployment deployment tokens day =>
    intro hover
    exact Nat.not_le.2 hop.2 ((h.onDay hop.1).spent _ ▸ hover)
  | _ => exact id

end Invariant

section Runs

variable {b : Budgets}

/-- In every run of orderly steps, the budgets hold and no count overflows. -/
theorem within_of_orderly {ops : List Op}
    (h : Machine.Along (State.step b) (State.Orderly b) {} ops) :
    Machine.Along (State.step b) (fun s op => Within b (s.step b op) ∧ ¬ s.Overflows op) {} ops :=
  (h.with (fun _ _ hs hop => hs.step hop) Sound.start).mono fun _ _ hs =>
    ⟨(hs.1.step hs.2).within, hs.1.not_overflows hs.2⟩

/-- One token, one byte, and answers of one byte. -/
def smallest : Budgets where
  maxTokens _ := 1
  maxEgress _ := 1
  maxResponse _ := 1
  maxEgress_lt _ := by decide

/-- A call to the model and one to a host, each counted, and a day's spend. -/
def oneCallEach : List Op :=
  [.checkTokens "r", .recordTokens "r" 5, .recordDaily "conversation" "ann" 5 7, .checkEgress "r",
    .readAnswer "r" 1, .recordEgress "r" 1]

theorem within_oneCallEach : Machine.Along (State.step smallest)
    (fun s op => Within smallest (s.step smallest op) ∧ ¬ s.Overflows op) {} oneCallEach := by
  refine within_of_orderly ⟨fun _ => ⟨by decide, by decide⟩, ?_, ⟨by decide, by decide, by decide⟩,
    fun _ => ⟨by decide, by decide⟩, trivial, trivial, trivial⟩
  show 1 + 5 ≤ U64
  decide

/-- Two calls are let through while nothing is counted. -/
def together : List Op :=
  [.checkTokens "r", .checkTokens "r", .recordTokens "r" 10, .recordTokens "r" 10]

theorem not_within : ¬ Machine.Along (State.step smallest)
    (fun s op => Within smallest (s.step smallest op) ∧ ¬ s.Overflows op) {} together := by
  rintro ⟨-, -, -, ⟨hwithin, -⟩, -⟩
  have hanswers : (Machine.run (State.step smallest) {} together).answers =
      [("r", 10), ("r", 10)] := by decide
  rcases hwithin.tokens "r" with hlimit | ⟨answer, hmem, -, hanswer⟩
  · exact absurd hlimit (by decide)
  · have hten : answer = ("r", 10) := by
      have := hanswers ▸ hmem
      simpa using this
    rw [hten] at hanswer
    exact absurd hanswer (by decide)

end Runs

end JoinedContext.AgentProxy.Limits

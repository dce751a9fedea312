import JoinedContext.Library.Machine
import JoinedContext.Library.Outcome
import JoinedContext.Mqtt.Broker
import Mathlib

/-!
# The MQTT allowance of a project

A broker joins a project, or is changed, when it fits in what the project's other brokers leave of
its allowance. A total that is within the allowance stays within it, and one above it is not raised.
-/

namespace JoinedContext.Mqtt

section Source

def DEFAULT_BROKERS : ℕ := 1

def DEFAULT_CONNECTIONS : ℕ := 1000

def DEFAULT_MESSAGES_PER_SECOND : ℕ := 10000

def DEFAULT_MAX_MESSAGE_BYTES : ℕ := 64 * 1024

structure MqttHostname where
  name : String

structure MqttAllowance where
  enabled : Bool := false
  brokers : Option ℕ := none
  connections : Option ℕ := none
  messagesPerSecond : Option ℕ := none
  maxMessageBytes : Option ℕ := none
  modes : Option (List MqttMode) := none
  addresses : Option (List MqttAddress) := none
  ports : List ℕ := []
  customHostnames : List MqttHostname := []
  deviceAuth : Option (List MqttDeviceAuth) := none

/-- A sum of two integers below a bound; none where it overflows. -/
def addBelow (bound a b : ℕ) : Option ℕ := if a + b < bound then some (a + b) else none

/-- What brokers use of an allowance. -/
structure MqttUsage where
  brokers : ℕ := 0
  connections : ℕ := 0
  messagesPerSecond : ℕ := 0

/-- The most messages a broker may accept in one second; two integers of 32 bits multiply to one
of 64. -/
def rate (spec : MqttBrokerSpec) : ℕ := spec.limits.maxConnections * spec.limits.messagesPerSecond

/-- Counts one more broker. -/
def MqttUsage.add (u : MqttUsage) (spec : MqttBrokerSpec) : Option MqttUsage := do
  let brokers ← addBelow (2 ^ 32) u.brokers 1
  let connections ← addBelow (2 ^ 64) u.connections spec.limits.maxConnections
  let messagesPerSecond ← addBelow (2 ^ 64) u.messagesPerSecond (rate spec)
  some ⟨brokers, connections, messagesPerSecond⟩

def raise (project : String) : String :=
  "an org admin can raise this in Organization settings > Projects > " ++ project

def orNone (items : List String) : String := if items = [] then "none" else Text.join ", " items

def MqttBrokerSpec.effectiveMode (spec : MqttBrokerSpec) : MqttMode := spec.mode.getD .ingest

/-- None where a sum overflows, else why a broker is refused. -/
abbrev Judged := Option (Option String)

/-- The next judgement where the first refuses nothing. -/
def Judged.next (first second : Judged) : Judged :=
  match first with
  | some none => second
  | refused => refused

namespace MqttAllowance

variable (a : MqttAllowance)

def numbers : List (String × Option ℕ) :=
  [("brokers", a.brokers), ("connections", a.connections),
    ("messagesPerSecond", a.messagesPerSecond), ("maxMessageBytes", a.maxMessageBytes)]

/-- The number in force for a field: zero while MQTT is off. -/
def limit (field : String) : ℕ :=
  if !a.enabled then 0
  else
    let default := match field with
      | "brokers" => DEFAULT_BROKERS
      | "connections" => DEFAULT_CONNECTIONS
      | "messagesPerSecond" => DEFAULT_MESSAGES_PER_SECOND
      | "maxMessageBytes" => DEFAULT_MAX_MESSAGE_BYTES
      | _ => 0
    ((a.numbers.lookup field).bind id).getD default

def effectiveModes : List MqttMode := a.modes.getD [.ingest]

def effectiveAddresses : List MqttAddress := a.addresses.getD [.platform]

def effectiveDeviceAuth : List MqttDeviceAuth := a.deviceAuth.getD [.token]

variable (project : String) (used : MqttUsage) (spec : MqttBrokerSpec)
  (previous : Option MqttBrokerSpec)

def judgeBrokers : Judged :=
  if previous.isSome then some none
  else (addBelow (2 ^ 32) used.brokers 1).map fun count =>
    if a.limit "brokers" < count then
      some ("the project may run " ++ toString (a.limit "brokers") ++ " MQTT brokers (" ++
        toString used.brokers ++ " in use); " ++ raise project ++ " (PF-118)")
    else none

/-- One sum, which an edit that does not raise it is not judged by. -/
def judgeSum (field what : String) (inUse asked : ℕ) (before : Option ℕ) : Judged :=
  if before.all (· < asked) then
    (addBelow (2 ^ 64) inUse asked).map fun sum =>
      if a.limit field < sum then
        some (what ++ " of this broker is " ++ toString asked ++ ", and the project may hold " ++
          toString (a.limit field) ++ " MQTT " ++ field ++ " in all (" ++ toString inUse ++
          " in use, " ++ toString (a.limit field - inUse) ++ " left); " ++ raise project ++
          " (PF-118)")
      else none
  else some none

/-- Why the broker's address is not assigned to the project. -/
def unassigned : Option String :=
  match spec.effectiveAddress with
  | .dedicatedPort => (spec.port.filter (· ∉ a.ports)).map fun port =>
      "spec.port " ++ toString port ++ " is not assigned to project " ++ project ++
        " (its ports: " ++ orNone (a.ports.map toString) ++ ")"
  | .customHostname =>
    (spec.hostname.filter fun name => !a.customHostnames.any (·.name = name)).map fun name =>
      "spec.hostname " ++ name ++ " is not assigned to project " ++ project ++
        " (its hostnames: " ++ orNone (a.customHostnames.map (·.name)) ++ ")"
  | .platform => none

/-- Why the broker's own shape is not one the project may use. -/
def shape : Option String :=
  if a.limit "maxMessageBytes" < spec.limits.maxMessageBytes then
    some ("spec.limits.maxMessageBytes " ++ toString spec.limits.maxMessageBytes ++
      " is above the project's " ++ toString (a.limit "maxMessageBytes") ++ "; " ++
      raise project ++ " (PF-118)")
  else if spec.effectiveMode ∉ a.effectiveModes then
    some ("spec.mode " ++ spec.effectiveMode.word ++ " is not one the project may use (" ++
      Text.join ", " (a.effectiveModes.map MqttMode.word) ++ "); " ++ raise project ++ " (PF-119)")
  else match a.unassigned project spec with
    | some refused => some (refused ++ "; an org admin assigns them in Organization settings > " ++
        "Projects > " ++ project ++ " (PF-119)")
    | none =>
      if spec.effectiveAddress ∉ a.effectiveAddresses then
        some ("the " ++ spec.effectiveAddress.word ++ " address is not one the project may use; " ++
          raise project ++ " (PF-119)")
      else (spec.effectiveDeviceAuth.find? (· ∉ a.effectiveDeviceAuth)).map fun auth =>
        "spec.deviceAuth " ++ auth.word ++ " is not one the project may use (" ++
          Text.join ", " (a.effectiveDeviceAuth.map MqttDeviceAuth.word) ++ "); " ++
          raise project ++ " (PF-119)"

/-- Why a broker may not join a project whose other brokers use `used`. -/
def refusal : Judged :=
  if !a.enabled then
    some (some ("MQTT is off for project " ++ project ++ "; an org admin can turn it on in " ++
      "Organization settings > Projects > " ++ project ++ " (PF-117)"))
  else
    (a.judgeBrokers project used previous).next <|
      (a.judgeSum project "connections" "spec.limits.maxConnections" used.connections
        spec.limits.maxConnections (previous.map (·.limits.maxConnections))).next <|
      (a.judgeSum project "messagesPerSecond" "maxConnections × messagesPerSecond"
        used.messagesPerSecond (rate spec) (previous.map rate)).next <|
      some (a.shape project spec)

end MqttAllowance

end Source

section Histories

/-! ## Histories of a project -/

/-- A broker's manifest that its own rules admit. -/
abbrev ValidSpec := { spec : MqttBrokerSpec // spec.validate = .ok () }

inductive Change where
  | create (spec : ValidSpec)
  | edit (i : ℕ) (spec : ValidSpec)

def usageOf (brokers : List ValidSpec) : Option MqttUsage :=
  brokers.foldlM (fun u spec => u.add spec.val) {}

variable (a : MqttAllowance) (project : String)

/-- A change judged against what the other brokers use. -/
def judge (brokers : List ValidSpec) : Change → Judged
  | .create spec => (usageOf brokers).bind fun used => a.refusal project used spec.val none
  | .edit i spec =>
    match brokers[i]? with
    | none => some none
    | some old => (usageOf (brokers.eraseIdx i)).bind fun used =>
        a.refusal project used spec.val (some old.val)

/-- A change that is not refused is made. -/
def amend (brokers : List ValidSpec) (change : Change) : List ValidSpec :=
  if judge a project brokers change = some none then
    match change with
    | .create spec => brokers ++ [spec]
    | .edit i spec => brokers.set i spec
  else brokers

/-- The totals of an allowance. -/
inductive Total where
  | brokers
  | connections
  | messagesPerSecond
deriving DecidableEq

def Total.field : Total → String
  | brokers => "brokers"
  | connections => "connections"
  | messagesPerSecond => "messagesPerSecond"

def Total.weight (spec : MqttBrokerSpec) : Total → ℕ
  | brokers => 1
  | connections => spec.limits.maxConnections
  | messagesPerSecond => rate spec

def Total.of (t : Total) (brokers : List ValidSpec) : ℕ :=
  (brokers.map fun spec => t.weight spec.val).sum

/-- A total within the allowance stays within it, and one above it is not raised. -/
def Kept (brokers brokers' : List ValidSpec) : Prop := ∀ t : Total,
  (t.of brokers ≤ a.limit t.field → t.of brokers' ≤ a.limit t.field) ∧
    (a.limit t.field < t.of brokers → t.of brokers' ≤ t.of brokers)

/-- A change is judged without an overflow, and keeps the allowance. -/
def Sound (brokers : List ValidSpec) (change : Change) : Prop :=
  (judge a project brokers change).isSome ∧ Kept a brokers (amend a project brokers change)

/-- The brokers are few enough to count. -/
def Counted (brokers : List ValidSpec) : Change → Prop
  | .create _ => brokers.length + (if a.enabled then 1 else 0) < 2 ^ 32
  | .edit i _ => i < brokers.length → brokers.length ≤ 2 ^ 32

end Histories

section Sums

/-! ## The sums of brokers -/

variable {a : MqttAllowance} {project : String} {brokers : List ValidSpec} {spec old : ValidSpec}
  {u : MqttUsage} {bound x y sum : ℕ} {first second : Judged}

theorem addBelow_eq_some : addBelow bound x y = some sum ↔ x + y < bound ∧ x + y = sum := by
  unfold addBelow
  split_ifs with h
  · simp [h]
  · simp [h]

theorem addBelow_of_lt (h : x + y < bound) : addBelow bound x y = some (x + y) := if_pos h

theorem checkLimits_of_validate {spec : MqttBrokerSpec} (h : spec.validate = .ok ()) :
    spec.checkLimits = .ok () := by
  unfold MqttBrokerSpec.validate at h
  obtain ⟨-, h⟩ := andThen_eq_ok.1 h
  obtain ⟨-, h⟩ := andThen_eq_ok.1 h
  exact (andThen_eq_ok.1 h).1

theorem limits_of_validate (spec : ValidSpec) :
    spec.val.limits.maxConnections ≤ maxConnections ∧
      spec.val.limits.messagesPerSecond ≤ maxMessagesPerSecond := by
  have h := checkLimits_of_validate spec.property
  have hceiling : ∀ {field : String} {value ceiling : ℕ},
      (if value = 0 ∨ ceiling < value then refuse ("limits." ++ field)
        (toString value ++ " is outside 1…" ++ toString ceiling) else .ok ()) = .ok () →
      value ≤ ceiling := fun h => by
    split_ifs at h with hbad
    · cases h
    · omega
  obtain ⟨-, h⟩ := andThen_eq_ok.1 h
  obtain ⟨hmessages, h⟩ := andThen_eq_ok.1 h
  obtain ⟨hconnections, -⟩ := andThen_eq_ok.1 h
  exact ⟨hceiling hconnections, hceiling hmessages⟩

theorem rate_le (spec : ValidSpec) : rate spec.val ≤ maxConnections * maxMessagesPerSecond :=
  Nat.mul_le_mul (limits_of_validate spec).1 (limits_of_validate spec).2

@[simp] theorem Total.of_nil (t : Total) : t.of [] = 0 := rfl

@[simp] theorem Total.of_cons (t : Total) (spec : ValidSpec) :
    t.of (spec :: brokers) = t.weight spec.val + t.of brokers := by simp [Total.of]

theorem Total.of_brokers (brokers : List ValidSpec) :
    Total.of .brokers brokers = brokers.length := by
  simp [Total.of, Total.weight]

/-- A usage that few enough brokers came to. -/
def Few (u : MqttUsage) : Prop :=
  u.connections ≤ u.brokers * maxConnections ∧
    u.messagesPerSecond ≤ u.brokers * (maxConnections * maxMessagesPerSecond)

theorem add_eq (spec : ValidSpec) (h : Few u) : u.add spec.val =
    if u.brokers + 1 < 2 ^ 32 then
      some ⟨u.brokers + 1, u.connections + spec.val.limits.maxConnections,
        u.messagesPerSecond + rate spec.val⟩
    else none := by
  have hconnections := (limits_of_validate spec).1
  have hrate := rate_le spec
  unfold MqttUsage.add
  split_ifs with hcount
  · obtain ⟨hc, hm⟩ := h
    unfold maxConnections maxMessagesPerSecond at *
    rw [addBelow_of_lt hcount, addBelow_of_lt (by omega), addBelow_of_lt (by omega)]
    rfl
  · rw [addBelow, if_neg hcount]
    rfl

theorem Few.add (h : Few u) (spec : ValidSpec) :
    Few ⟨u.brokers + 1, u.connections + spec.val.limits.maxConnections,
      u.messagesPerSecond + rate spec.val⟩ := by
  have hconnections := (limits_of_validate spec).1
  have hrate := rate_le spec
  obtain ⟨hc, hm⟩ := h
  constructor
  · dsimp only
    rw [Nat.add_mul, Nat.one_mul]
    omega
  · dsimp only
    rw [Nat.add_mul, Nat.one_mul]
    omega

theorem foldlM_add : ∀ {brokers : List ValidSpec} {u : MqttUsage}, Few u → u.brokers < 2 ^ 32 →
    brokers.foldlM (fun u spec => u.add spec.val) u =
      if u.brokers + brokers.length < 2 ^ 32 then
        some ⟨u.brokers + brokers.length, u.connections + Total.of .connections brokers,
          u.messagesPerSecond + Total.of .messagesPerSecond brokers⟩
      else none
  | [], u, _, hcount => by
    rw [if_pos (by simpa using hcount)]
    rfl
  | spec :: brokers, u, h, hcount => by
    rw [List.foldlM_cons, add_eq spec h]
    split_ifs with hnext hall hall
    · have hrest := @foldlM_add brokers _ (h.add spec) hnext
      rw [List.length_cons] at hall
      rw [if_pos (by dsimp only; omega)] at hrest
      refine hrest.trans ?_
      rw [List.length_cons, Total.of_cons, Total.of_cons, Total.weight, Total.weight]
      simp only [Nat.add_assoc, Nat.add_comm 1]
    · have hrest := @foldlM_add brokers _ (h.add spec) hnext
      rw [List.length_cons] at hall
      rw [if_neg (by dsimp only; omega)] at hrest
      exact hrest
    · rw [List.length_cons] at hall
      omega
    · rfl

/-- What brokers use, unless they are too many to count. -/
theorem usageOf_eq (brokers : List ValidSpec) : usageOf brokers =
    if brokers.length < 2 ^ 32 then
      some ⟨brokers.length, Total.of .connections brokers, Total.of .messagesPerSecond brokers⟩
    else none := by
  have hfold := @foldlM_add brokers {} ⟨Nat.zero_le _, Nat.zero_le _⟩ (by decide)
  simp only [Nat.zero_add] at hfold
  exact hfold

theorem few_of_length : ∀ brokers : List ValidSpec,
    Total.of .connections brokers ≤ brokers.length * maxConnections ∧
      Total.of .messagesPerSecond brokers ≤
        brokers.length * (maxConnections * maxMessagesPerSecond)
  | [] => ⟨Nat.zero_le _, Nat.zero_le _⟩
  | spec :: brokers => by
    have hconnections := (limits_of_validate spec).1
    have hrate := rate_le spec
    obtain ⟨hc, hm⟩ := few_of_length brokers
    rw [Total.of_cons, Total.of_cons, Total.weight, Total.weight, List.length_cons, Nat.add_mul,
      Nat.add_mul]
    omega

end Sums

section Judgements

/-! ## What a judgement that refuses nothing leaves -/

variable {a : MqttAllowance} {project : String} {brokers : List ValidSpec} {spec old : ValidSpec}
  {used : MqttUsage} {previous : Option MqttBrokerSpec} {first second : Judged} {change : Change}

theorem next_eq_some : first.next second = some none ↔ first = some none ∧ second = some none := by
  rcases first with _ | _ | refused
  · simp [Judged.next]
  · simp [Judged.next]
  · simp [Judged.next]

theorem isSome_next (hfirst : first.isSome) (hsecond : second.isSome) :
    (first.next second).isSome := by
  rcases first with _ | _ | refused
  · cases hfirst
  · exact hsecond
  · rfl

theorem isSome_judgeBrokers : (a.judgeBrokers project used previous).isSome ↔
    (previous = none → used.brokers + 1 < 2 ^ 32) := by
  unfold MqttAllowance.judgeBrokers addBelow
  cases previous with
  | some old => simp
  | none => split_ifs <;> simp_all

theorem isSome_judgeSum {field what : String} {inUse asked : ℕ} {before : Option ℕ}
    (h : inUse + asked < 2 ^ 64) :
    (a.judgeSum project field what inUse asked before).isSome := by
  unfold MqttAllowance.judgeSum
  split_ifs
  · rw [addBelow_of_lt h]
    rfl
  · rfl

/-- A sum that is not refused is not raised, or is within the allowance. -/
theorem judgeSum_eq_some {field what : String} {inUse asked : ℕ} {before : Option ℕ}
    (h : a.judgeSum project field what inUse asked before = some none) :
    (∃ held, before = some held ∧ asked ≤ held) ∨ inUse + asked ≤ a.limit field := by
  unfold MqttAllowance.judgeSum at h
  split_ifs at h with hraised
  · obtain ⟨sum, hsum, hrefused⟩ := Option.map_eq_some_iff.1 h
    obtain ⟨-, rfl⟩ := addBelow_eq_some.1 hsum
    split_ifs at hrefused with hlimit
    exact Or.inr (Nat.le_of_not_lt hlimit)
  · cases before with
    | none => simp at hraised
    | some held => exact Or.inl ⟨held, rfl, by simpa using hraised⟩

theorem isSome_refusal (hconnections : used.connections + spec.val.limits.maxConnections < 2 ^ 64)
    (hmessages : used.messagesPerSecond + rate spec.val < 2 ^ 64) :
    (a.refusal project used spec.val previous).isSome ↔
      (a.enabled = true → previous = none → used.brokers + 1 < 2 ^ 32) := by
  unfold MqttAllowance.refusal
  cases henabled : a.enabled with
  | false => simp
  | true =>
    have hrest : ((a.judgeSum project "connections" "spec.limits.maxConnections" used.connections
        spec.val.limits.maxConnections (previous.map (·.limits.maxConnections))).next <|
        (a.judgeSum project "messagesPerSecond" "maxConnections × messagesPerSecond"
          used.messagesPerSecond (rate spec.val) (previous.map rate)).next <|
        some (a.shape project spec.val)).isSome :=
      isSome_next (isSome_judgeSum hconnections) (isSome_next (isSome_judgeSum hmessages) rfl)
    rw [if_neg (by simp), ← isSome_judgeBrokers]
    simp only [forall_const]
    refine ⟨fun h => ?_, fun h => isSome_next h hrest⟩
    cases hfirst : a.judgeBrokers project used previous with
    | none =>
      rw [hfirst] at h
      cases h
    | some _ => rfl

/-- A broker that is not refused raises no total past the allowance. -/
theorem refusal_eq_some (h : a.refusal project used spec.val previous = some none) :
    (previous = none → used.brokers + 1 ≤ a.limit "brokers") ∧
    ((∃ held, previous.map (·.limits.maxConnections) = some held ∧
        spec.val.limits.maxConnections ≤ held) ∨
      used.connections + spec.val.limits.maxConnections ≤ a.limit "connections") ∧
    ((∃ held, previous.map rate = some held ∧ rate spec.val ≤ held) ∨
      used.messagesPerSecond + rate spec.val ≤ a.limit "messagesPerSecond") := by
  unfold MqttAllowance.refusal at h
  split_ifs at h
  · cases h
  obtain ⟨hbrokers, h⟩ := next_eq_some.1 h
  obtain ⟨hconnections, h⟩ := next_eq_some.1 h
  obtain ⟨hmessages, -⟩ := next_eq_some.1 h
  refine ⟨fun hnone => ?_, judgeSum_eq_some hconnections, judgeSum_eq_some hmessages⟩
  unfold MqttAllowance.judgeBrokers at hbrokers
  rw [hnone, if_neg (by simp)] at hbrokers
  obtain ⟨count, hcount, hrefused⟩ := Option.map_eq_some_iff.1 hbrokers
  obtain ⟨-, rfl⟩ := addBelow_eq_some.1 hcount
  split_ifs at hrefused with hlimit
  exact Nat.le_of_not_lt hlimit

/-! ## Changes -/

theorem sums_lt (hcount : brokers.length < 2 ^ 32) (spec : ValidSpec) :
    Total.of .connections brokers + spec.val.limits.maxConnections < 2 ^ 64 ∧
      Total.of .messagesPerSecond brokers + rate spec.val < 2 ^ 64 := by
  have hconnections := (limits_of_validate spec).1
  have hrate := rate_le spec
  obtain ⟨hc, hm⟩ := few_of_length brokers
  unfold maxConnections maxMessagesPerSecond at *
  omega

theorem judge_edit_of_none {i : ℕ} (h : brokers[i]? = none) :
    judge a project brokers (.edit i spec) = some none := by
  unfold judge
  dsimp only
  rw [h]

theorem judge_edit_of_some {i : ℕ} (h : brokers[i]? = some old) :
    judge a project brokers (.edit i spec) = (usageOf (brokers.eraseIdx i)).bind fun used =>
      a.refusal project used spec.val (some old.val) := by
  unfold judge
  dsimp only
  rw [h]

/-- A change is judged exactly where the brokers can be counted. -/
theorem isSome_judge : (judge a project brokers change).isSome ↔ Counted a brokers change := by
  have hjudged : ∀ (others : List ValidSpec) (spec : ValidSpec) (previous : Option MqttBrokerSpec),
      ((usageOf others).bind fun used => a.refusal project used spec.val previous).isSome ↔
        others.length < 2 ^ 32 ∧
          (a.enabled = true → previous = none → others.length + 1 < 2 ^ 32) := by
    intro others spec previous
    rw [usageOf_eq]
    split_ifs with hcount
    · obtain ⟨hconnections, hmessages⟩ := sums_lt hcount spec
      rw [Option.bind_some, isSome_refusal hconnections hmessages, and_iff_right hcount]
    · exact iff_of_false nofun fun h => hcount h.1
  cases change with
  | create spec =>
    unfold judge Counted
    rw [hjudged]
    cases a.enabled with
    | false => simp
    | true =>
      simp only [forall_const, if_true]
      omega
  | edit i spec =>
    unfold Counted
    cases hold : brokers[i]? with
    | none =>
      have hlength := List.getElem?_eq_none_iff.1 hold
      rw [judge_edit_of_none hold]
      exact iff_of_true rfl fun h => by omega
    | some old =>
      obtain ⟨hlength, -⟩ := List.getElem?_eq_some_iff.1 hold
      rw [judge_edit_of_some hold, hjudged, List.length_eraseIdx_of_lt hlength]
      constructor
      · intro h _
        omega
      · intro h
        have := h hlength
        exact ⟨by omega, fun _ => nofun⟩

theorem Total.of_append (t : Total) (spec : ValidSpec) :
    t.of (brokers ++ [spec]) = t.of brokers + t.weight spec.val := by simp [Total.of]

/-- A broker's total and those of the others are the whole, before and after an edit. -/
theorem Total.of_edit (t : Total) {i : ℕ} (hold : brokers[i]? = some old) (spec : ValidSpec) :
    t.of brokers = t.of (brokers.eraseIdx i) + t.weight old.val ∧
      t.of (brokers.set i spec) = t.of (brokers.eraseIdx i) + t.weight spec.val := by
  obtain ⟨hlength, rfl⟩ := List.getElem?_eq_some_iff.1 hold
  have hperm : ∀ {l l' : List ValidSpec}, l.Perm l' → t.of l = t.of l' := fun h =>
    (h.map _).sum_eq
  have hbefore := hperm (List.getElem_cons_eraseIdx_perm hlength)
  have hafter := hperm (List.set_perm_cons_eraseIdx hlength spec)
  rw [Total.of_cons] at hbefore hafter
  omega

theorem kept_refl : Kept a brokers brokers := fun _ => ⟨id, fun _ => le_rfl⟩

/-- A change that is made keeps the allowance. -/
theorem kept_amend : Kept a brokers (amend a project brokers change) := by
  unfold amend
  split_ifs with hjudge
  · cases change with
    | create spec =>
      unfold judge at hjudge
      obtain ⟨used, husage, hrefusal⟩ := Option.bind_eq_some_iff.1 hjudge
      rw [usageOf_eq] at husage
      split_ifs at husage
      cases husage
      obtain ⟨hbrokers, hconnections, hmessages⟩ := refusal_eq_some hrefusal
      intro t
      have hkept : t.of brokers + t.weight spec.val ≤ a.limit t.field := by
        cases t with
        | brokers =>
          rw [Total.of_brokers]
          exact hbrokers rfl
        | connections => exact hconnections.resolve_left nofun
        | messagesPerSecond => exact hmessages.resolve_left nofun
      dsimp only
      rw [Total.of_append]
      exact ⟨fun _ => hkept, fun h => by omega⟩
    | edit i spec =>
      cases hold : brokers[i]? with
      | none =>
        dsimp only
        rw [List.set_eq_of_length_le (List.getElem?_eq_none_iff.1 hold)]
        exact kept_refl
      | some old =>
        rw [judge_edit_of_some hold] at hjudge
        obtain ⟨used, husage, hrefusal⟩ := Option.bind_eq_some_iff.1 hjudge
        rw [usageOf_eq] at husage
        split_ifs at husage
        cases husage
        obtain ⟨-, hconnections, hmessages⟩ := refusal_eq_some hrefusal
        intro t
        obtain ⟨hbefore, hafter⟩ := t.of_edit hold spec
        dsimp only
        -- A sum that an edit does not raise is no greater, and one that it raises is within.
        have hkept : t.weight spec.val ≤ t.weight old.val ∨
            t.of (brokers.eraseIdx i) + t.weight spec.val ≤ a.limit t.field := by
          cases t with
          | brokers => exact Or.inl le_rfl
          | connections =>
            refine hconnections.imp_left ?_
            rintro ⟨held, hheld, hle⟩
            cases hheld
            exact hle
          | messagesPerSecond =>
            refine hmessages.imp_left ?_
            rintro ⟨held, hheld, hle⟩
            cases hheld
            exact hle
        omega
  · exact kept_refl

theorem sound_iff (brokers : List ValidSpec) (change : Change) :
    Sound a project brokers change ↔ Counted a brokers change := by
  unfold Sound
  rw [isSome_judge, and_iff_left kept_amend]

/-- Over a history no total passes the allowance, or what it was when it was past it. -/
theorem total_run_le (t : Total) : ∀ (changes : List Change) (brokers : List ValidSpec),
    t.of (Machine.run (amend a project) brokers changes) ≤
      max (a.limit t.field) (t.of brokers)
  | [], brokers => le_max_right _ _
  | change :: changes, brokers => by
    rw [Machine.run_cons]
    have hrest := total_run_le t changes (amend a project brokers change)
    have hstep := @kept_amend a project brokers change t
    omega

/-- A history keeps the allowance and overflows nothing exactly where the brokers can be counted at
each of its changes; no total of it is ever raised past the allowance. -/
theorem allowance_iff (a : MqttAllowance) (project : String) (brokers : List ValidSpec)
    (changes : List Change) :
    (Machine.Along (amend a project) (Sound a project) brokers changes ↔
      Machine.Along (amend a project) (Counted a) brokers changes) ∧
    ∀ t : Total, t.of (Machine.run (amend a project) brokers changes) ≤
      max (a.limit t.field) (t.of brokers) :=
  ⟨⟨Machine.Along.mono fun brokers change => (sound_iff brokers change).1,
    Machine.Along.mono fun brokers change => (sound_iff brokers change).2⟩,
    fun t => total_run_le t changes brokers⟩

/-- A camera's broker of one connection. -/
def cameraBroker : MqttBrokerSpec where
  roles := [{ name := "camera", publish := ["cams/$\x7bclientid\x7d/#"] }]
  limits := { maxConnections := 1 }

theorem cameraBroker_valid : cameraBroker.validate = .ok () := by
  decide +kernel

/-- The greatest allowance that can be written. -/
def most : MqttAllowance where
  enabled := true
  brokers := some (2 ^ 32 - 1)
  connections := some (2 ^ 32 - 1)
  messagesPerSecond := some (2 ^ 32 - 1)

/-- A broker after as many as the count holds is judged by a sum that overflows. -/
theorem brokers_overflow : ¬Machine.Along (amend most "helsinki") (Sound most "helsinki")
    (List.replicate (2 ^ 32 - 1) ⟨cameraBroker, cameraBroker_valid⟩)
    [.create ⟨cameraBroker, cameraBroker_valid⟩] := by
  rintro ⟨⟨hjudged, -⟩, -⟩
  have hcounted := isSome_judge.1 hjudged
  unfold Counted at hcounted
  dsimp only at hcounted
  rw [List.length_replicate, if_pos (by rfl)] at hcounted
  omega

end Judgements

end JoinedContext.Mqtt

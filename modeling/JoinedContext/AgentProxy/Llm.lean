import JoinedContext.Core.Json
import JoinedContext.Library.Assoc
import JoinedContext.Library.Lines
import JoinedContext.Library.Utf8
import Mathlib.Algebra.Order.Field.Basic
import Mathlib.Data.Rat.Cast.Order
import Mathlib.Tactic.Common
import Mathlib.Tactic.Linarith
import Mathlib.Tactic.NormNum
import Mathlib.Tactic.Push

/-!
# A run's model call

The body is given the run's thinking and held to what is left of the run's tokens before the
provider is asked; what the provider answers is read for its usage, whole or as a stream, and
counted. The limits are read as unsigned integers of 64 bits, so that one written otherwise is
neither raised, lowered nor counted.
-/

namespace JoinedContext.AgentProxy.Llm

section Source

/-- `as_u64`. -/
def asU64 : Value → Option ℕ
  | .num (.ofNat n) 0 => if n < 2 ^ 64 then some n else none
  | _ => none

/-- A sum of two integers of 64 bits; none where it overflows. -/
def add (a b : ℕ) : Option ℕ := if a + b < 2 ^ 64 then some (a + b) else none

/-- Each effort and the thinking budget it is on messages. -/
def BUDGETS : List (String × ℕ) := [("low", 2048), ("medium", 8192), ("high", 24576)]

/-- The output a stream is counted for when its request names none. -/
def STREAM_OUTPUT_UNSAID : ℕ := 8192

/-- The longest line of a stream that is kept. -/
def STREAM_LINE_MAX : ℕ := 2 ^ 20

def MODEL_ANSWER_BYTES : ℕ := 1024 * 1024

def isMessages (rest : String) : Bool := (Text.stripSuffix "messages" rest).isSome

/-- A body as an upstream that reads no `provider` is sent it. -/
def routed (body : Value) (routes : Bool) : Value :=
  match body with
  | .obj map => if routes then .obj map else .obj (Assoc.without "provider" map)
  | body => body

def withModel (body : Value) (model : String) : Value :=
  match body with
  | .obj map => if model = "" then .obj map else .obj (Assoc.put "model" (.str model) map)
  | body => body

def withReasoning (body : Value) (rest effort : String) : Option Value :=
  match BUDGETS.lookup effort, body with
  | some budget, .obj map =>
    if isMessages rest then
      if (map.lookup "thinking").isSome then some (.obj map)
      else do
        let maxTokens := ((map.lookup "max_tokens").bind asU64).getD 0
        let maxTokens ← add maxTokens budget
        some (.obj (Assoc.put "thinking"
          (.obj [("budget_tokens", .num budget 0), ("type", .str "enabled")])
          (Assoc.put "max_tokens" (.num maxTokens 0) map)))
    else if (map.lookup "reasoning").isSome || (map.lookup "reasoning_effort").isSome then
      some (.obj map)
    else some (.obj (Assoc.put "reasoning" (.obj [("effort", .str effort)]) map))
  | _, body => some body

/-- One output field lowered to what is left, and whether the body names one. -/
def lower (left : ℕ) (held : List (String × Value) × Bool) (field : String) :
    List (String × Value) × Bool :=
  match (held.1.lookup field).bind asU64 with
  | some asked => (if left < asked then Assoc.put field (.num left 0) held.1 else held.1, true)
  | none => held

def OUTPUT_FIELDS : List String := ["max_tokens", "max_completion_tokens"]

def withinBudget (body : Value) (left : ℕ) : Value :=
  match body with
  | .obj map =>
    let (map, named) := OUTPUT_FIELDS.foldl (lower left) (map, false)
    if !named && left < STREAM_OUTPUT_UNSAID then
      .obj (Assoc.put "max_tokens" (.num left 0) map)
    else .obj map
  | body => body

def wantsStream (body : Value) : Bool := body.get "stream" = some (.bool true)

/-- A streamed chat completion asks for its usage. -/
def withStreamUsage (body : Value) (rest : String) : Value :=
  if isMessages rest then body
  else match body with
    | .obj map =>
      match (map.lookup "stream_options").getD (.obj []) with
      | .obj options => .obj (Assoc.put "stream_options"
          (.obj (Assoc.orPut "include_usage" (.bool true) options)) map)
      | _ => .obj map
    | body => body

/-- What a stream without a usage is counted as: the output it was allowed and a quarter of its
body's bytes. -/
def uncountedStream (body : Value) (bytes : ℕ) : Option ℕ :=
  add (((body.get "max_tokens").bind asU64).getD STREAM_OUTPUT_UNSAID) (bytes / 4)

/-- The total, the input, the output and the cached input of one usage. -/
def counts (usage : Value) : Option ℕ × ℕ × ℕ × ℕ :=
  let count := fun keys : List String => keys.findSome? fun key => (usage.get key).bind asU64
  let details := (usage.get "prompt_tokens_details").bind (Value.get "cached_tokens")
  let cached := (details.bind asU64 <|> count ["cache_read_input_tokens"]).getD 0
  (count ["total_tokens"], (count ["prompt_tokens", "input_tokens"]).getD 0,
    (count ["completion_tokens", "output_tokens"]).getD 0, cached)

/-- What the lines of a stream came to so far. -/
structure Seen where
  total : Option ℕ := none
  input : ℕ := 0
  output : ℕ := 0
  cached : ℕ := 0

abbrev StreamUsage := Lines.Reader ℕ Seen

variable (parse : String → Option Value)

/-- The usage a line of a stream reports. -/
def usageOfLine (line : List ℕ) : Option Value := do
  let line ← Text.fromUtf8 line
  let data ← Text.stripPrefix "data:" (Text.trim line)
  let value ← parse (Text.trim data)
  value.get "usage" <|> (value.get "message").bind (Value.get "usage")

def readLine (seen : Seen) (line : List ℕ) : Seen :=
  match usageOfLine parse line with
  | none => seen
  | some usage =>
    let (total, input, output, cached) := counts usage
    { total := if total.isSome then total else seen.total
      input := max seen.input input
      output := max seen.output output
      cached := max seen.cached cached }

def StreamUsage.feed : StreamUsage → List ℕ → StreamUsage :=
  Lines.feed 10 STREAM_LINE_MAX (readLine parse)

/-- None where the sum overflows. -/
def StreamUsage.tokens (usage : StreamUsage) : Option (Option ℕ) :=
  match usage.seen.total with
  | some total => some (some total)
  | none => do
    let sum ← add usage.seen.input usage.seen.output
    some (if 0 < sum then some sum else none)

/-- What comes back of a call. -/
inductive Reply where
  | unreachable
  | redirected
  /-- The status is a success or not; the pieces of the body, and whether it came to its end. -/
  | answered (success : Bool) (chunks : List (List ℕ)) (whole : Bool)

structure Call where
  rest : String
  /-- The run's reasoning effort, its model, and what is left of its tokens. -/
  effort : Option String
  model : String
  left : Fin (2 ^ 64)
  /-- Whether the upstream reads `provider`. -/
  routes : Bool
  body : Value
  /-- The length of the body as it is sent. -/
  bytes : Fin (2 ^ 63)
  reply : Reply

/-- The body the provider is asked with, before a stream asks for its usage. -/
def Call.capped (c : Call) : Option Value := do
  let body := withModel (routed c.body c.routes) c.model
  let body ← match c.effort with
    | some effort => withReasoning body c.rest effort
    | none => some body
  some (withinBudget body c.left)

/-- What a stream is counted as: its usage, or what it was allowed. -/
def streamCount (uncounted : ℕ) : Option ℕ → Bool → ℕ
  | some tokens, true => tokens
  | seen, _ => max (seen.getD 0) uncounted

/-- What an answer is counted as. -/
def charge (streamed : Bool) (uncounted : ℕ) : Reply → Option ℕ
  | .unreachable => some 0
  | .redirected => some 0
  | .answered success chunks whole =>
    if streamed && success then do
      let tokens ← (chunks.foldl (StreamUsage.feed parse) ⟨[], {}⟩).tokens
      some (streamCount uncounted tokens whole)
    else
      -- An answer that is too long or breaks off leaves nothing to read.
      let answer := if whole && chunks.flatten.length ≤ MODEL_ANSWER_BYTES then
        (Text.fromUtf8 chunks.flatten).bind parse else none
      match answer.bind (Value.get "usage") with
      | some usage => do
        let (total, input, output, _) := counts usage
        let sum ← add input output
        some (total.getD sum)
      | none => some 0

/-- The body a call asks the provider with, and what it is charged; none where a sum overflows. -/
def handler (c : Call) : Option (Value × ℕ) := do
  let body ← c.capped
  let streamed := wantsStream body
  let sent := if streamed then withStreamUsage body c.rest else body
  let uncounted ← uncountedStream sent c.bytes
  let tokens ← charge parse streamed uncounted c.reply
  some (sent, tokens)

end Source

section Asked

/-! ## What a body asks for -/

/-- What a JSON number is, however it is written. -/
def number : Value → Option ℚ
  | .num mantissa exponent => some (mantissa * 10 ^ exponent)
  | _ => none

/-- A count that is no less than the output a body allows: any limit it names, or what it is taken
to allow when it names none. -/
structure Covers (sent : Value) (count : ℕ) : Prop where
  named : ∀ field ∈ OUTPUT_FIELDS, ∀ limit, (sent.get field).bind number = some limit →
    limit ≤ count
  unsaid : (∀ field ∈ OUTPUT_FIELDS, (sent.get field).bind number = none) →
    STREAM_OUTPUT_UNSAID ≤ count

/-- The thinking a call is given on messages. -/
def Call.thinks (c : Call) : Option ℕ :=
  if isMessages c.rest ∧ c.body.asObject.isSome ∧ c.body.get "thinking" = none then
    c.effort.bind fun effort => BUDGETS.lookup effort
  else none

/-- What a call asks for in a field, with its thinking. -/
def Call.asked (c : Call) (field : String) : Option Value :=
  match c.thinks with
  | some budget => if field = "max_tokens" then
      some (.num (((c.body.get "max_tokens").bind asU64).getD 0 + budget : ℕ) 0)
    else c.body.get field
  | none => c.body.get field

def Call.limit (c : Call) (field : String) : Option ℚ := (c.asked field).bind number

/-- The call names no limit that is read and is given what is left as one. -/
def Call.Unsaid (c : Call) : Prop :=
  c.body.asObject.isSome ∧ (∀ field ∈ OUTPUT_FIELDS, (c.asked field).bind asU64 = none) ∧
    c.left < STREAM_OUTPUT_UNSAID

variable {c : Call} {body sent : Value} {key field : String} {left n a : ℕ} {x : Value}

@[simp] theorem asU64_num (n : ℕ) : asU64 (.num n 0) = if n < 2 ^ 64 then some n else none := rfl

@[simp] theorem number_num (n : ℕ) : number (.num n 0) = some (n : ℚ) := by simp [number]

theorem number_of_asU64 (h : asU64 x = some a) : number x = some (a : ℚ) := by
  unfold asU64 at h
  split at h
  · split_ifs at h
    cases h
    exact number_num _
  · cases h

theorem add_eq_some {a b sum : ℕ} (h : add a b = some sum) : a + b < 2 ^ 64 ∧ a + b = sum := by
  unfold add at h
  split_ifs at h with hsum
  cases h
  exact ⟨hsum, rfl⟩

theorem get_routed (h : key ≠ "provider") (routes : Bool) :
    (routed body routes).get key = body.get key := by
  cases body with
  | obj map =>
    rw [routed]
    split_ifs
    · rfl
    · rw [Value.get_obj, Value.get_obj, Assoc.lookup_without, if_neg h]
  | _ => rfl

theorem get_withModel (h : key ≠ "model") (model : String) :
    (withModel body model).get key = body.get key := by
  cases body with
  | obj map =>
    rw [withModel]
    split_ifs
    · rfl
    · rw [Value.get_obj, Value.get_obj, Assoc.lookup_put, if_neg h]
  | _ => rfl

theorem get_withStreamUsage (h : key ≠ "stream_options") (rest : String) :
    (withStreamUsage body rest).get key = body.get key := by
  unfold withStreamUsage
  split_ifs
  · rfl
  · cases body with
    | obj map =>
      dsimp only
      split
      · rw [Value.get_obj, Value.get_obj, Assoc.lookup_put, if_neg h]
      · rfl
    | _ => rfl

theorem isSome_routed (routes : Bool) :
    (routed body routes).asObject.isSome = body.asObject.isSome := by
  cases body with
  | obj map =>
    rw [routed]
    split_ifs <;> rfl
  | _ => rfl

theorem isSome_withModel (model : String) :
    (withModel body model).asObject.isSome = body.asObject.isSome := by
  cases body with
  | obj map =>
    rw [withModel]
    split_ifs <;> rfl
  | _ => rfl

/-- A body that is given no thinking keeps its members. -/
theorem withReasoning_of_none {rest effort : String}
    (h : isMessages rest → body.asObject.isSome → body.get "thinking" = none →
      BUDGETS.lookup effort = none) :
    ∃ body', withReasoning body rest effort = some body' ∧
      body'.asObject.isSome = body.asObject.isSome ∧
      ∀ key, key ≠ "reasoning" → body'.get key = body.get key := by
  unfold withReasoning
  cases hbudget : BUDGETS.lookup effort with
  | none => exact ⟨body, rfl, rfl, fun _ _ => rfl⟩
  | some budget =>
    cases body with
    | obj map =>
      dsimp only
      split_ifs with hmessages hthinking hreasoning
      · exact ⟨_, rfl, rfl, fun _ _ => rfl⟩
      · rw [h hmessages rfl (Option.not_isSome_iff_eq_none.1 hthinking)] at hbudget
        cases hbudget
      · exact ⟨_, rfl, rfl, fun _ _ => rfl⟩
      · refine ⟨_, rfl, rfl, fun key hkey => ?_⟩
        rw [Value.get_obj, Value.get_obj, Assoc.lookup_put, if_neg hkey]
    | _ => exact ⟨_, rfl, rfl, fun _ _ => rfl⟩

/-- A body that is given thinking asks for it on top of its limit. -/
theorem withReasoning_of_some {rest effort : String} {budget : ℕ} (hmessages : isMessages rest)
    (hobject : body.asObject.isSome) (hthinking : body.get "thinking" = none)
    (hbudget : BUDGETS.lookup effort = some budget) :
    ∃ body' : ℕ → Value, withReasoning body rest effort =
        (add (((body.get "max_tokens").bind asU64).getD 0) budget).map body' ∧
      ∀ sum, (body' sum).asObject.isSome ∧ (body' sum).get "max_tokens" = some (.num sum 0) ∧
        ∀ key, key ≠ "thinking" → key ≠ "max_tokens" → (body' sum).get key = body.get key := by
  cases body with
  | obj map =>
    unfold withReasoning
    rw [hbudget]
    dsimp only
    rw [if_pos hmessages, if_neg (by rw [Value.get_obj] at hthinking; simp [hthinking])]
    refine ⟨fun sum => _, Option.bind_eq_bind ▸ Option.map_eq_bind.symm, fun sum => ⟨rfl, ?_, ?_⟩⟩
    · rw [Value.get_obj, Assoc.lookup_put, if_neg (by decide), Assoc.lookup_put, if_pos rfl]
    · intro key hthinking hmax
      rw [Value.get_obj, Assoc.lookup_put, if_neg hthinking, Assoc.lookup_put, if_neg hmax]
      rfl
  | _ => cases hobject

def lowered (left : ℕ) (x : Value) : Value :=
  if (asU64 x).any (left < ·) then .num left 0 else x

theorem lookup_lower (held : List (String × Value) × Bool) :
    ((lower left held field).1).lookup key =
      if key = field then (held.1.lookup field).map (lowered left) else held.1.lookup key := by
  unfold lower
  cases hasked : (held.1.lookup field).bind asU64 with
  | none =>
    dsimp only
    split_ifs with hkey
    · subst hkey
      cases hx : held.1.lookup key with
      | none => rfl
      | some x =>
        rw [hx, Option.bind_some] at hasked
        rw [Option.map_some, lowered, hasked]
        rfl
    · rfl
  | some asked =>
    obtain ⟨x, hx, hasked⟩ := Option.bind_eq_some_iff.1 hasked
    dsimp only
    split_ifs with hless hkey hkey
    · rw [Assoc.lookup_put, if_pos hkey, hx, Option.map_some, lowered, hasked, Option.any_some,
        if_pos (by simpa using hless)]
    · rw [Assoc.lookup_put, if_neg hkey]
    · rw [hkey, hx, Option.map_some, lowered, hasked, Option.any_some,
        if_neg (by simpa using hless)]
    · rfl

theorem named_lower (held : List (String × Value) × Bool) : (lower left held field).2 =
    (held.2 || ((held.1.lookup field).bind asU64).isSome) := by
  unfold lower
  cases (held.1.lookup field).bind asU64 with
  | none => simp
  | some asked => simp

/-- What the output fields of a body are once it is held to what is left. -/
theorem get_withinBudget :
    (withinBudget body left).get "max_tokens" =
      (if body.asObject.isSome ∧ (∀ field ∈ OUTPUT_FIELDS, (body.get field).bind asU64 = none) ∧
        left < STREAM_OUTPUT_UNSAID then some (.num left 0)
      else (body.get "max_tokens").map (lowered left)) ∧
    (withinBudget body left).get "max_completion_tokens" =
      (body.get "max_completion_tokens").map (lowered left) ∧
    ∀ key, key ∉ OUTPUT_FIELDS → (withinBudget body left).get key = body.get key := by
  cases body with
  | obj map =>
    let held := lower left (lower left (map, false) "max_tokens") "max_completion_tokens"
    have hwithin : withinBudget (.obj map) left = if !held.2 && left < STREAM_OUTPUT_UNSAID then
        .obj (Assoc.put "max_tokens" (.num left 0) held.1) else .obj held.1 := rfl
    have hnamed : (!held.2) = true ↔
        ∀ field ∈ OUTPUT_FIELDS, ((Value.obj map).get field).bind asU64 = none := by
      rw [named_lower, named_lower, lookup_lower, if_neg (by decide)]
      simp [OUTPUT_FIELDS]
    have hmax : held.1.lookup "max_tokens" = (map.lookup "max_tokens").map (lowered left) := by
      rw [lookup_lower, if_neg (by decide), lookup_lower, if_pos rfl]
    have hcompletion : held.1.lookup "max_completion_tokens" =
        (map.lookup "max_completion_tokens").map (lowered left) := by
      rw [lookup_lower, if_pos rfl, lookup_lower, if_neg (by decide)]
    have hother : ∀ key, key ∉ OUTPUT_FIELDS → held.1.lookup key = map.lookup key := by
      intro key hkey
      simp only [OUTPUT_FIELDS, List.mem_cons, List.not_mem_nil, or_false, not_or] at hkey
      rw [lookup_lower, if_neg hkey.2, lookup_lower, if_neg hkey.1]
    rw [hwithin]
    by_cases hunsaid : (∀ field ∈ OUTPUT_FIELDS, ((Value.obj map).get field).bind asU64 = none) ∧
        left < STREAM_OUTPUT_UNSAID
    · rw [if_pos (by rw [Bool.and_eq_true, hnamed, decide_eq_true_iff]; exact hunsaid),
        if_pos ⟨rfl, hunsaid⟩]
      refine ⟨?_, ?_, fun key hkey => ?_⟩
      · rw [Value.get_obj, Assoc.lookup_put, if_pos rfl]
      · rw [Value.get_obj, Assoc.lookup_put, if_neg (by decide), hcompletion]
        rfl
      · have hne : key ≠ "max_tokens" := fun heq => hkey (by simp [heq, OUTPUT_FIELDS])
        rw [Value.get_obj, Assoc.lookup_put, if_neg hne, hother key hkey]
        rfl
    · rw [if_neg (by rw [Bool.and_eq_true, hnamed, decide_eq_true_iff]; exact hunsaid),
        if_neg fun h => hunsaid h.2]
      exact ⟨hmax, hcompletion, hother⟩
  | null => exact ⟨rfl, rfl, fun _ _ => rfl⟩
  | bool _ => exact ⟨rfl, rfl, fun _ _ => rfl⟩
  | num _ _ => exact ⟨rfl, rfl, fun _ _ => rfl⟩
  | str _ => exact ⟨rfl, rfl, fun _ _ => rfl⟩
  | arr _ => exact ⟨rfl, rfl, fun _ _ => rfl⟩

/-- What a call is sent with: its fields held to what is left, or what is left as its limit. -/
structure Sent (c : Call) (sent : Value) : Prop where
  maxTokens : c.Unsaid → sent.get "max_tokens" = some (.num c.left.val 0)
  said : ¬c.Unsaid → sent.get "max_tokens" = (c.asked "max_tokens").map (lowered c.left)
  completion : sent.get "max_completion_tokens" =
    (c.asked "max_completion_tokens").map (lowered c.left)
  stream : sent.get "stream" = c.body.get "stream"

/-- The sum with the thinking does not overflow. -/
def Call.Thought (c : Call) : Prop := ∀ budget, c.thinks = some budget →
  ((c.body.get "max_tokens").bind asU64).getD 0 + budget < 2 ^ 64

theorem sent_withinBudget (hobject : body.asObject.isSome = c.body.asObject.isSome)
    (hfields : ∀ field ∈ OUTPUT_FIELDS, body.get field = c.asked field)
    (hstream : body.get "stream" = c.body.get "stream") :
    Sent c (withinBudget body c.left) := by
  obtain ⟨hmax, hcompletion, hother⟩ := @get_withinBudget body c.left
  have hunsaid : (body.asObject.isSome ∧
      (∀ field ∈ OUTPUT_FIELDS, (body.get field).bind asU64 = none) ∧
      c.left < STREAM_OUTPUT_UNSAID) ↔ c.Unsaid := by
    unfold Call.Unsaid
    rw [hobject]
    exact and_congr_right fun _ => and_congr_left fun _ =>
      forall₂_congr fun field hfield => by rw [hfields field hfield]
  refine ⟨fun h => ?_, fun h => ?_, ?_, ?_⟩
  · rw [hmax, if_pos (hunsaid.2 h)]
  · rw [hmax, if_neg (hunsaid.not.2 h), hfields _ (by decide)]
  · rw [hcompletion, hfields _ (by decide)]
  · rw [hother _ (by decide), hstream]

theorem get_addressed (c : Call) {key : String} (h : key ≠ "provider") (h' : key ≠ "model") :
    (withModel (routed c.body c.routes) c.model).get key = c.body.get key := by
  rw [get_withModel h', get_routed h]

theorem isSome_addressed (c : Call) :
    (withModel (routed c.body c.routes) c.model).asObject.isSome = c.body.asObject.isSome := by
  rw [isSome_withModel, isSome_routed]

theorem outputFields_free : ∀ field ∈ OUTPUT_FIELDS, field ≠ "provider" ∧ field ≠ "model" ∧
    field ≠ "reasoning" ∧ field ≠ "thinking" := by decide

theorem get_addressed_of_mem (c : Call) {field : String} (h : field ∈ OUTPUT_FIELDS) :
    (withModel (routed c.body c.routes) c.model).get field = c.body.get field :=
  get_addressed c (outputFields_free field h).1 (outputFields_free field h).2.1

/-- A call that does not think is capped to what is left. -/
theorem capped_of_thinks_none {c : Call} (hthinks : c.thinks = none) :
    ∃ body, c.capped = some body ∧ Sent c body := by
  have hfields : ∀ field, c.asked field = c.body.get field := fun field => by
    rw [Call.asked, hthinks]
  unfold Call.capped
  cases heffort : c.effort with
  | none =>
    refine ⟨_, rfl, sent_withinBudget (isSome_addressed c) (fun field hmem => ?_) ?_⟩
    · rw [hfields, get_addressed_of_mem c hmem]
    · exact get_addressed c (by decide) (by decide)
  | some effort =>
    have hnone : isMessages c.rest →
        (withModel (routed c.body c.routes) c.model).asObject.isSome →
        (withModel (routed c.body c.routes) c.model).get "thinking" = none →
        BUDGETS.lookup effort = none := fun hmessages hsome hthinking => by
      rw [isSome_addressed] at hsome
      rw [get_addressed c (by decide) (by decide)] at hthinking
      rw [Call.thinks, if_pos ⟨hmessages, hsome, hthinking⟩, heffort] at hthinks
      exact hthinks
    obtain ⟨body, hbody, hsome, hkept⟩ := withReasoning_of_none hnone
    refine ⟨withinBudget body c.left, by dsimp only; rw [hbody]; rfl, ?_⟩
    refine sent_withinBudget (hsome.trans (isSome_addressed c)) (fun field hmem => ?_) ?_
    · rw [hfields, hkept field (outputFields_free field hmem).2.2.1, get_addressed_of_mem c hmem]
    · rw [hkept _ (by decide), get_addressed c (by decide) (by decide)]

/-- A call that thinks is capped unless its answer and its thinking sum to too much. -/
theorem capped_of_thinks_some {c : Call} {budget : ℕ} (hthinks : c.thinks = some budget) :
    (((c.body.get "max_tokens").bind asU64).getD 0 + budget < 2 ^ 64 →
      ∃ body, c.capped = some body ∧ Sent c body) ∧
    (¬((c.body.get "max_tokens").bind asU64).getD 0 + budget < 2 ^ 64 → c.capped = none) := by
  have hbudgeted := hthinks
  rw [Call.thinks] at hthinks
  split_ifs at hthinks with hmessages
  obtain ⟨effort, heffort, hbudget⟩ := Option.bind_eq_some_iff.1 hthinks
  obtain ⟨body, hbody, hkept⟩ := withReasoning_of_some hmessages.1
    ((isSome_addressed c).trans hmessages.2.1)
    ((get_addressed c (by decide) (by decide)).trans hmessages.2.2) hbudget
  rw [get_addressed c (by decide) (by decide)] at hbody
  unfold Call.capped
  rw [heffort]
  unfold add at hbody
  refine ⟨fun hsum => ?_, fun hsum => ?_⟩
  · rw [if_pos hsum, Option.map_some] at hbody
    obtain ⟨hsome, hmax, hother⟩ := hkept (((c.body.get "max_tokens").bind asU64).getD 0 + budget)
    refine ⟨withinBudget (body _) c.left, by dsimp only; rw [hbody]; rfl, ?_⟩
    refine sent_withinBudget (hsome.trans hmessages.2.1.symm) (fun field hmem => ?_) ?_
    · rw [Call.asked, hbudgeted]
      dsimp only
      split_ifs with hmost
      · rw [hmost, hmax]
      · rw [hother field (outputFields_free field hmem).2.2.2 hmost, get_addressed_of_mem c hmem]
    · rw [hother _ (by decide) (by decide), get_addressed c (by decide) (by decide)]
  · rw [if_neg hsum, Option.map_none] at hbody
    dsimp only
    rw [hbody]
    rfl

/-- The body a call is capped to, unless the sum with its thinking overflows. -/
theorem capped_spec (c : Call) : (c.Thought → ∃ body, c.capped = some body ∧ Sent c body) ∧
    (¬c.Thought → c.capped = none) := by
  cases hthinks : c.thinks with
  | none =>
    have hthought : c.Thought := fun budget h => by
      rw [hthinks] at h
      cases h
    exact ⟨fun _ => capped_of_thinks_none hthinks, fun h => (h hthought).elim⟩
  | some budget =>
    have hthought : c.Thought ↔
        ((c.body.get "max_tokens").bind asU64).getD 0 + budget < 2 ^ 64 := by
      unfold Call.Thought
      rw [hthinks]
      simp
    rw [hthought]
    exact capped_of_thinks_some hthinks

end Asked

section Limits

/-! ## The limits of a body that is sent -/

variable {c : Call} {sent x : Value} {field : String} {left a n : ℕ}

/-- The limits a call names are held to what is left: one that is not read is not past it, or is
replaced by it. -/
structure Held (c : Call) : Prop where
  written : ∀ field ∈ OUTPUT_FIELDS, ∀ x, c.asked field = some x → asU64 x = none →
    ∀ limit, number x = some limit → limit ≤ c.left.val ∨ field = "max_tokens" ∧ c.Unsaid
  object : c.body.asObject = none → STREAM_OUTPUT_UNSAID ≤ c.left

theorem number_lowered_of_asU64 (h : asU64 x = some a) :
    number (lowered left x) = some (min (a : ℚ) left) := by
  rw [lowered, h, Option.any_some]
  split_ifs with hless
  · have hless : left ≤ a := by simpa using (of_decide_eq_true hless).le
    rw [number_num, min_eq_right (by exact_mod_cast hless)]
  · have hless : a ≤ left := by simpa using hless
    rw [number_of_asU64 h, min_eq_left (by exact_mod_cast hless)]

theorem lowered_of_none (h : asU64 x = none) : lowered left x = x := by
  rw [lowered, h]
  rfl

theorem mem_outputFields : field ∈ OUTPUT_FIELDS ↔
    field = "max_tokens" ∨ field = "max_completion_tokens" := by
  simp [OUTPUT_FIELDS]

/-- A limit of a call goes out as it is lowered. -/
theorem Sent.get_field (h : Sent c sent) (hfield : field ∈ OUTPUT_FIELDS)
    (hsaid : field = "max_tokens" → ¬c.Unsaid) :
    sent.get field = (c.asked field).map (lowered c.left) := by
  rcases mem_outputFields.1 hfield with rfl | rfl
  · exact h.said (hsaid rfl)
  · exact h.completion

theorem Sent.number_field (h : Sent c sent) (hheld : Held c) (hfield : field ∈ OUTPUT_FIELDS)
    (hsaid : field = "max_tokens" → ¬c.Unsaid) :
    (sent.get field).bind number =
      (c.limit field).map fun limit => min limit (c.left.val : ℚ) := by
  rw [h.get_field hfield hsaid, Call.limit]
  cases hasked : c.asked field with
  | none => rfl
  | some x =>
    rw [Option.map_some, Option.bind_some, Option.bind_some]
    cases hread : asU64 x with
    | some a =>
      rw [number_lowered_of_asU64 hread, number_of_asU64 hread, Option.map_some]
    | none =>
      rw [lowered_of_none hread]
      cases hnumber : number x with
      | none => rfl
      | some limit =>
        have hleft := (hheld.written field hfield x hasked hread limit hnumber).resolve_right
          fun hunsaid => hsaid hunsaid.1 hunsaid.2
        rw [Option.map_some, min_eq_left hleft]

theorem Call.limit_of_asU64 (h : (c.asked field).bind asU64 = some a) :
    c.limit field = some (a : ℚ) := by
  obtain ⟨x, hasked, hread⟩ := Option.bind_eq_some_iff.1 h
  rw [Call.limit, hasked, Option.bind_some, number_of_asU64 hread]

/-- A call that names no limit at all is given one, unless what is left is enough. -/
theorem Call.unsaid_of_none (hheld : Held c) (h : ∀ field ∈ OUTPUT_FIELDS, c.limit field = none)
    (hleft : c.left < STREAM_OUTPUT_UNSAID) : c.Unsaid := by
  refine ⟨?_, fun field hfield => ?_, hleft⟩
  · by_contra hobject
    have := hheld.object (Option.not_isSome_iff_eq_none.1 hobject)
    omega
  · by_contra hread
    obtain ⟨a, hread⟩ := Option.ne_none_iff_exists'.1 hread
    have := h field hfield
    rw [Call.limit_of_asU64 hread] at this
    cases this

theorem Call.get_of_not_object (h : c.body.asObject = none) (field : String) :
    c.asked field = none := by
  have hthinks : c.thinks = none := if_neg fun hthinks => by simp [h] at hthinks
  have hget : c.body.get field = none := by
    cases hbody : c.body with
    | obj map =>
      rw [hbody] at h
      cases h
    | _ => rfl
  rw [Call.asked, hthinks, hget]

/-- A body allows no more than what is left exactly where its limits are held. -/
theorem covers_left (h : Sent c sent) : Covers sent c.left ↔ Held c := by
  constructor
  · intro hcovers
    refine ⟨fun field hfield x hasked hread limit hnumber => ?_, fun hobject => ?_⟩
    · by_cases hunsaid : field = "max_tokens" ∧ c.Unsaid
      · exact Or.inr hunsaid
      · refine Or.inl (hcovers.named field hfield limit ?_)
        rw [h.get_field hfield fun hmax hunsaid' => hunsaid ⟨hmax, hunsaid'⟩, hasked,
          Option.map_some, lowered_of_none hread, Option.bind_some, hnumber]
    · refine hcovers.unsaid fun field hfield => ?_
      have hsaid : ¬c.Unsaid := fun hunsaid => by simp [Call.Unsaid, hobject] at hunsaid
      rw [h.get_field hfield fun _ => hsaid, Call.get_of_not_object hobject]
      rfl
  · intro hheld
    refine ⟨fun field hfield limit hlimit => ?_, fun hnone => ?_⟩
    · by_cases hunsaid : field = "max_tokens" ∧ c.Unsaid
      · rw [hunsaid.1, h.maxTokens hunsaid.2, Option.bind_some, number_num] at hlimit
        cases hlimit
        exact le_rfl
      · rw [h.number_field hheld hfield fun hmax hunsaid' => hunsaid ⟨hmax, hunsaid'⟩] at hlimit
        obtain ⟨limit', -, rfl⟩ := Option.map_eq_some_iff.1 hlimit
        exact min_le_right _ _
    · by_contra hleft
      have hsaid : ¬c.Unsaid := fun hunsaid => by
        have := hnone "max_tokens" (by decide)
        rw [h.maxTokens hunsaid] at this
        cases this
      refine hsaid (Call.unsaid_of_none hheld (fun field hfield => ?_) (not_le.1 hleft))
      have := hnone field hfield
      rw [h.number_field hheld hfield fun _ => hsaid] at this
      simpa using this

/-- A call that is given what is left as its limit allows that. -/
theorem covers_of_unsaid (h : Sent c sent) (hheld : Held c) (hunsaid : c.Unsaid) :
    Covers sent n ↔ c.left.val ≤ n := by
  have hmax : (sent.get "max_tokens").bind number = some (c.left.val : ℚ) := by
    rw [h.maxTokens hunsaid, Option.bind_some, number_num]
  constructor
  · intro hcovers
    exact_mod_cast hcovers.named _ (by decide) _ hmax
  · intro hleft
    have hleft : (c.left.val : ℚ) ≤ n := by exact_mod_cast hleft
    refine ⟨fun field hfield limit hlimit => ?_, fun hnone => ?_⟩
    · exact le_trans (((covers_left h).2 hheld).named field hfield limit hlimit) hleft
    · rw [hnone _ (by decide)] at hmax
      cases hmax

/-- Another call allows the limits it names, as far as there is something left. -/
theorem covers_of_said (h : Sent c sent) (hheld : Held c) (hsaid : ¬c.Unsaid) :
    Covers sent n ↔
      (∀ field ∈ OUTPUT_FIELDS, ∀ limit, c.limit field = some limit →
        min limit (c.left.val : ℚ) ≤ n) ∧
      ((∀ field ∈ OUTPUT_FIELDS, c.limit field = none) → STREAM_OUTPUT_UNSAID ≤ n) := by
  have hfield := fun field hfield => @Sent.number_field c sent field h hheld hfield fun _ => hsaid
  constructor
  · intro hcovers
    refine ⟨fun field hmem limit hlimit => hcovers.named field hmem _ ?_, fun hnone =>
      hcovers.unsaid fun field hmem => ?_⟩
    · rw [hfield field hmem, hlimit, Option.map_some]
    · rw [hfield field hmem, hnone field hmem, Option.map_none]
  · rintro ⟨hnamed, hunsaid⟩
    refine ⟨fun field hmem limit hlimit => ?_, fun hnone => hunsaid fun field hmem => ?_⟩
    · rw [hfield field hmem] at hlimit
      obtain ⟨limit', hlimit', rfl⟩ := Option.map_eq_some_iff.1 hlimit
      exact hnamed field hmem limit' hlimit'
    · have := hnone field hmem
      rw [hfield field hmem] at this
      simpa using this

/-- A call asks for no output. -/
def Call.AsksNothing (c : Call) : Prop :=
  c.left.val = 0 ∨ ¬c.Unsaid ∧ (∃ field ∈ OUTPUT_FIELDS, (c.limit field).isSome) ∧
    ∀ field ∈ OUTPUT_FIELDS, ∀ limit, c.limit field = some limit → limit ≤ 0

theorem covers_zero (h : Sent c sent) (hheld : Held c) : Covers sent 0 ↔ c.AsksNothing := by
  unfold Call.AsksNothing
  by_cases hunsaid : c.Unsaid
  · rw [covers_of_unsaid h hheld hunsaid]
    simp [hunsaid]
  · rw [covers_of_said h hheld hunsaid, Nat.cast_zero]
    constructor
    · rintro ⟨hnamed, hnone⟩
      by_cases hleft : c.left.val = 0
      · exact Or.inl hleft
      · refine Or.inr ⟨hunsaid, ?_, fun field hmem limit hlimit => ?_⟩
        · by_contra hnamed'
          push Not at hnamed'
          have := hnone fun field hmem => by simpa using hnamed' field hmem
          exact absurd this (by decide)
        · have hpos : (0 : ℚ) < c.left.val := by
            exact_mod_cast Nat.pos_of_ne_zero hleft
          exact (min_le_iff.1 (hnamed field hmem limit hlimit)).resolve_right (not_le.2 hpos)
    · rintro (hleft | ⟨-, ⟨field, hmem, hsome⟩, hnamed⟩)
      · refine ⟨fun field hmem limit _ => ?_, fun hnone => ?_⟩
        · rw [hleft, Nat.cast_zero]
          exact min_le_right _ _
        · refine (hunsaid (Call.unsaid_of_none hheld hnone ?_)).elim
          rw [hleft]
          decide
      · refine ⟨fun field hmem limit hlimit => min_le_of_left_le (hnamed field hmem limit hlimit),
          fun hnone => ?_⟩
        rw [hnone field hmem] at hsome
        cases hsome

/-- What a stream is counted as without a usage, by what a call asks. -/
def Call.estimate (c : Call) : ℕ :=
  ((c.asked "max_tokens").bind asU64).getD STREAM_OUTPUT_UNSAID + c.bytes / 4

theorem uncountedStream_of_unsaid (h : Sent c sent) (hunsaid : c.Unsaid) :
    uncountedStream sent c.bytes = some (c.left.val + c.bytes / 4) := by
  have hbytes := c.bytes.isLt
  have hleft : c.left.val < 8192 := hunsaid.2.2
  rw [uncountedStream, h.maxTokens hunsaid, Option.bind_some, asU64_num, if_pos c.left.isLt,
    Option.getD_some, add, if_pos (by omega)]

theorem asU64_lowered (left : Fin (2 ^ 64)) : asU64 (lowered left x) =
    (asU64 x).map fun a => min a left.val := by
  cases hread : asU64 x with
  | none => rw [lowered_of_none hread, hread, Option.map_none]
  | some a =>
    rw [lowered, hread, Option.any_some]
    split_ifs with hless
    · have hless : left.val < a := by simpa using hless
      rw [asU64_num, if_pos left.isLt, Option.map_some, Nat.min_eq_right hless.le]
    · have hless : a ≤ left.val := by simpa using hless
      rw [hread, Option.map_some, Nat.min_eq_left hless]

/-- What a call is counted as when it is not given what is left. -/
theorem uncountedStream_of_said (h : Sent c sent) (hsaid : ¬c.Unsaid) :
    uncountedStream sent c.bytes = add ((((c.asked "max_tokens").bind asU64).map fun a =>
      min a c.left.val).getD STREAM_OUTPUT_UNSAID) (c.bytes / 4) := by
  have hread : (sent.get "max_tokens").bind asU64 =
      ((c.asked "max_tokens").bind asU64).map fun a => min a c.left.val := by
    rw [h.said hsaid]
    cases c.asked "max_tokens" with
    | none => rfl
    | some x => rw [Option.map_some, Option.bind_some, Option.bind_some, asU64_lowered]
  rw [uncountedStream, hread]

/-- No sum of a call's count overflows. -/
def Call.Counted (c : Call) : Prop := ∀ a, (c.asked "max_tokens").bind asU64 = some a →
  min a c.left.val + c.bytes / 4 < 2 ^ 64

theorem counted_iff (h : Sent c sent) :
    (uncountedStream sent c.bytes).isSome ↔ c.Counted := by
  have hbytes := c.bytes.isLt
  by_cases hunsaid : c.Unsaid
  · rw [uncountedStream_of_unsaid h hunsaid]
    refine iff_of_true rfl fun a ha => ?_
    rw [hunsaid.2.1 _ (by decide)] at ha
    cases ha
  · rw [uncountedStream_of_said h hunsaid, Call.Counted]
    cases (c.asked "max_tokens").bind asU64 with
    | none =>
      refine iff_of_true ?_ nofun
      rw [Option.map_none, Option.getD_none, add,
        if_pos (by unfold STREAM_OUTPUT_UNSAID; omega)]
      rfl
    | some a => simp [add]

/-- A stream that is counted by what it was allowed, or by what it reported, covers it where each
limit, or what is left, is in the estimate or the report. -/
theorem covers_max (h : Sent c sent) (hheld : Held c) {uncounted : ℕ}
    (huncounted : uncountedStream sent c.bytes = some uncounted) (seen : ℕ) :
    Covers sent (max seen uncounted) ↔ ∀ field ∈ OUTPUT_FIELDS, ∀ limit,
      c.limit field = some limit → min limit (c.left.val : ℚ) ≤ (max seen c.estimate : ℕ) := by
  by_cases hunsaid : c.Unsaid
  · have hread : (c.asked "max_tokens").bind asU64 = none := hunsaid.2.1 _ (by decide)
    rw [uncountedStream_of_unsaid h hunsaid] at huncounted
    cases huncounted
    rw [covers_of_unsaid h hheld hunsaid]
    refine iff_of_true (by omega) fun field _ limit _ => ?_
    have hestimate : c.left.val ≤ max seen c.estimate := by
      have := hunsaid.2.2
      rw [Call.estimate, hread, Option.getD_none]
      omega
    exact min_le_of_right_le (by exact_mod_cast hestimate)
  · rw [uncountedStream_of_said h hunsaid] at huncounted
    obtain ⟨-, rfl⟩ := add_eq_some huncounted
    rw [covers_of_said h hheld hunsaid]
    have hsame : ∀ limit : ℚ, min limit (c.left.val : ℚ) ≤ (max seen
        ((((c.asked "max_tokens").bind asU64).map fun a => min a c.left.val).getD
          STREAM_OUTPUT_UNSAID + c.bytes / 4) : ℕ) ↔
        min limit (c.left.val : ℚ) ≤ (max seen c.estimate : ℕ) := fun limit => by
      rw [Call.estimate]
      cases (c.asked "max_tokens").bind asU64 with
      | none => rfl
      | some a =>
        rw [Option.map_some, Option.getD_some, Option.getD_some]
        by_cases hless : a ≤ c.left.val
        · rw [Nat.min_eq_left hless]
        · -- Past what is left, either count covers all of it.
          have hleft : c.left.val ≤ max seen (min a c.left.val + c.bytes / 4) := by omega
          have hleft' : c.left.val ≤ max seen (a + c.bytes / 4) := by omega
          exact iff_of_true (min_le_of_right_le (by exact_mod_cast hleft))
            (min_le_of_right_le (by exact_mod_cast hleft'))
    simp only [hsame]
    refine and_iff_left fun hnone => ?_
    have hread : (c.asked "max_tokens").bind asU64 = none := by
      by_contra hread
      obtain ⟨a, hread⟩ := Option.ne_none_iff_exists'.1 hread
      have := hnone "max_tokens" (by decide)
      rw [Call.limit_of_asU64 hread] at this
      cases this
    rw [hread, Option.map_none, Option.getD_none]
    omega

end Limits

section Charges

/-! ## What a call is charged -/

variable (parse : String → Option Value)

/-- The usages an answer reports: of a stream those on its ended lines, each as far as a line is
kept, and of another answer that comes to its end its own. -/
def reports (streamed : Bool) : Reply → List Value
  | .answered success chunks whole =>
    if streamed && success then
      (Lines.ended 10 STREAM_LINE_MAX chunks.flatten).filterMap (usageOfLine parse)
    else if whole then
      (((Text.fromUtf8 chunks.flatten).bind parse).bind (Value.get "usage")).toList
    else []
  | _ => []

/-- The last total that is given. -/
def totalOf (usages : List Value) : Option ℕ :=
  (usages.filterMap fun usage => (counts usage).1).getLast?

def inputOf (usages : List Value) : ℕ := (usages.map fun usage => (counts usage).2.1).foldr max 0

def outputOf (usages : List Value) : ℕ :=
  (usages.map fun usage => (counts usage).2.2.1).foldr max 0

/-- What the usages come to: the total when one is given, else the input and the output. -/
def figure (usages : List Value) : Option ℕ :=
  match totalOf usages with
  | some total => some total
  | none =>
    if 0 < inputOf usages + outputOf usages then some (inputOf usages + outputOf usages) else none

def Call.reports (c : Call) : List Value := Llm.reports parse (wantsStream c.body) c.reply

/-- Whether an answer is read whole, and no stream. -/
def Call.Collected (c : Call) : Prop :=
  ∃ success chunks, c.reply = .answered success chunks true ∧
    (wantsStream c.body && success) = false ∧ chunks.flatten.length ≤ MODEL_ANSWER_BYTES

/-- Whether an answer is passed on as a stream. -/
def Call.Streamed (c : Call) (whole : Bool) : Prop :=
  ∃ success chunks, c.reply = .answered success chunks whole ∧
    (wantsStream c.body && success) = true

/-- The answer broke off. -/
def BrokeOff : Reply → Prop
  | .answered _ _ whole => whole = false
  | _ => True

variable {parse} {c : Call} {sent : Value} {usages : List Value} {n : ℕ}

@[simp] theorem inputOf_cons (usage : Value) :
    inputOf (usage :: usages) = max (counts usage).2.1 (inputOf usages) := rfl

@[simp] theorem outputOf_cons (usage : Value) :
    outputOf (usage :: usages) = max (counts usage).2.2.1 (outputOf usages) := rfl

theorem totalOf_cons (usage : Value) :
    totalOf (usage :: usages) = (totalOf usages).or (counts usage).1 := by
  unfold totalOf
  rw [List.filterMap_cons]
  cases (counts usage).1 with
  | none => rw [Option.or_none]
  | some total =>
    rw [List.getLast?_cons]
    cases (usages.filterMap fun usage => (counts usage).1).getLast? <;> rfl

theorem readLine_of_some {seen : Seen} {line : List ℕ} {usage : Value}
    (h : usageOfLine parse line = some usage) : readLine parse seen line =
      { total := if (counts usage).1.isSome then (counts usage).1 else seen.total
        input := max seen.input (counts usage).2.1
        output := max seen.output (counts usage).2.2.1
        cached := max seen.cached (counts usage).2.2.2 } := by
  rw [readLine, h]

theorem readLine_of_none {seen : Seen} {line : List ℕ} (h : usageOfLine parse line = none) :
    readLine parse seen line = seen := by
  rw [readLine, h]

theorem foldl_readLine (lines : List (List ℕ)) (seen : Seen) :
    (lines.foldl (readLine parse) seen).total =
      (totalOf (lines.filterMap (usageOfLine parse))).or seen.total ∧
    (lines.foldl (readLine parse) seen).input =
      max seen.input (inputOf (lines.filterMap (usageOfLine parse))) ∧
    (lines.foldl (readLine parse) seen).output =
      max seen.output (outputOf (lines.filterMap (usageOfLine parse))) := by
  induction lines generalizing seen with
  | nil => simp [totalOf, inputOf, outputOf]
  | cons line rest ih =>
    obtain ⟨htotal, hinput, houtput⟩ := ih (readLine parse seen line)
    rw [List.foldl_cons, htotal, hinput, houtput]
    cases husage : usageOfLine parse line with
    | none => rw [readLine_of_none husage, List.filterMap_cons_none husage]; simp
    | some usage =>
      rw [readLine_of_some husage, List.filterMap_cons_some husage, totalOf_cons, inputOf_cons,
        outputOf_cons]
      refine ⟨?_, by rw [max_assoc], by rw [max_assoc]⟩
      rw [Option.or_assoc]
      cases (counts usage).1 <;> rfl

/-- A stream comes to the figure of what it reports, unless its sum overflows. -/
theorem tokens_feed (chunks : List (List ℕ)) :
    (chunks.foldl (StreamUsage.feed parse) ⟨[], {}⟩).tokens =
      if (totalOf ((Lines.ended 10 STREAM_LINE_MAX chunks.flatten).filterMap
          (usageOfLine parse))).isSome ∨
        inputOf ((Lines.ended 10 STREAM_LINE_MAX chunks.flatten).filterMap (usageOfLine parse)) +
          outputOf ((Lines.ended 10 STREAM_LINE_MAX chunks.flatten).filterMap
            (usageOfLine parse)) < 2 ^ 64 then
        some (figure ((Lines.ended 10 STREAM_LINE_MAX chunks.flatten).filterMap
          (usageOfLine parse)))
      else none := by
  have hseen := @Lines.foldl_feed _ _ _ 10 STREAM_LINE_MAX (readLine parse) chunks {}
  obtain ⟨htotal, hinput, houtput⟩ :=
    @foldl_readLine parse (Lines.ended 10 STREAM_LINE_MAX chunks.flatten) {}
  unfold StreamUsage.tokens StreamUsage.feed
  rw [hseen, htotal, hinput, houtput]
  generalize (Lines.ended 10 STREAM_LINE_MAX chunks.flatten).filterMap (usageOfLine parse) = usages
  unfold figure
  cases totalOf usages with
  | some total => simp
  | none =>
    simp only [Option.none_or, Nat.zero_max, Option.isSome_none, Bool.false_eq_true, false_or, add]
    by_cases hsum : inputOf usages + outputOf usages < 2 ^ 64
    · rw [if_pos hsum, if_pos hsum]
      rfl
    · rw [if_neg hsum, if_neg hsum]
      rfl

/-- No sum of what a call reports overflows. -/
def Call.Summed (parse : String → Option Value) (c : Call) : Prop :=
  (c.Collected → inputOf (c.reports parse) + outputOf (c.reports parse) < 2 ^ 64) ∧
    ∀ whole, c.Streamed whole → (totalOf (c.reports parse)).isSome ∨
      inputOf (c.reports parse) + outputOf (c.reports parse) < 2 ^ 64

/-- An answer that is read whole is charged what it reports, or nothing. -/
theorem charge_of_collected (uncounted : ℕ) (h : c.Collected) :
    charge parse (wantsStream c.body) uncounted c.reply =
      if inputOf (c.reports parse) + outputOf (c.reports parse) < 2 ^ 64 then
        some ((figure (c.reports parse)).getD 0)
      else none := by
  obtain ⟨success, chunks, hreply, hstreamed, hfits⟩ := h
  unfold Call.reports
  rw [hreply, charge, reports, hstreamed]
  simp only [Bool.false_eq_true, if_false, Bool.true_and, decide_eq_true hfits, if_true]
  cases ((Text.fromUtf8 chunks.flatten).bind parse).bind (Value.get "usage") with
  | none => rfl
  | some usage =>
    obtain ⟨hinput, houtput⟩ : inputOf [usage] = (counts usage).2.1 ∧
        outputOf [usage] = (counts usage).2.2.1 := ⟨Nat.max_zero _, Nat.max_zero _⟩
    have htotal : totalOf [usage] = (counts usage).1 := by rw [totalOf_cons]; rfl
    simp only [Option.toList_some, figure, hinput, houtput, htotal, add]
    by_cases hsum : (counts usage).2.1 + (counts usage).2.2.1 < 2 ^ 64
    · rw [if_pos hsum, if_pos hsum]
      cases (counts usage).1 with
      | some total => rfl
      | none =>
        split_ifs with hpos
        · rfl
        · have hzero : (counts usage).2.1 + (counts usage).2.2.1 = 0 := by omega
          rw [hzero]
          rfl
    · rw [if_neg hsum, if_neg hsum]
      rfl

/-- A stream is charged what it reports; one that reports nothing or breaks off no less than what
it is counted as. -/
theorem charge_of_streamed (uncounted : ℕ) {whole : Bool} (h : c.Streamed whole) :
    charge parse (wantsStream c.body) uncounted c.reply =
      if (totalOf (c.reports parse)).isSome ∨
          inputOf (c.reports parse) + outputOf (c.reports parse) < 2 ^ 64 then
        some (streamCount uncounted (figure (c.reports parse)) whole)
      else none := by
  obtain ⟨success, chunks, hreply, hstreamed⟩ := h
  unfold Call.reports
  rw [hreply, charge, reports, if_pos hstreamed, if_pos hstreamed, tokens_feed]
  split_ifs <;> rfl

/-- Another call is charged nothing. -/
theorem charge_of_lost (uncounted : ℕ) (hcollected : ¬c.Collected)
    (hstreamed : ∀ whole, ¬c.Streamed whole) :
    charge parse (wantsStream c.body) uncounted c.reply = some 0 := by
  cases hreply : c.reply with
  | unreachable => rfl
  | redirected => rfl
  | answered success chunks whole =>
    rw [charge, if_neg fun h => hstreamed whole ⟨success, chunks, hreply, h⟩]
    have hread : ¬(whole && decide (chunks.flatten.length ≤ MODEL_ANSWER_BYTES)) = true := by
      intro h
      rw [Bool.and_eq_true, decide_eq_true_iff] at h
      obtain ⟨rfl, hfits⟩ := h
      refine hcollected ⟨success, chunks, hreply, ?_, hfits⟩
      simpa using fun h => hstreamed true ⟨success, chunks, hreply, h⟩
    rw [if_neg hread]
    rfl

/-- What a call is charged covers what its provider reported, or the output it allowed. -/
structure Charged (parse : String → Option Value) (c : Call) (sent : Value) (charge : ℕ) :
    Prop where
  reported : ∀ n, figure (c.reports parse) = some n → n ≤ charge
  unreported : figure (c.reports parse) = none ∨ BrokeOff c.reply → Covers sent charge

/-- A call is capped and charged: no sum overflows, the body allows no more than what is left, the
charge covers it, and how its answer is cut into pieces does not change that. -/
def Met (parse : String → Option Value) (c : Call) : Prop :=
  ∃ sent charge, handler parse c = some (sent, charge) ∧ Covers sent c.left ∧
    Charged parse c sent charge ∧
    ∀ success chunks whole, c.reply = .answered success chunks whole →
      ∀ chunks' : List (List ℕ), chunks'.flatten = chunks.flatten →
        handler parse { c with reply := .answered success chunks' whole } = handler parse c

/-- The calls whose charge covers them. -/
structure Covered (parse : String → Option Value) (c : Call) : Prop where
  /-- An answer that is read whole reports a usage. -/
  collected : c.Collected → figure (c.reports parse) = none → c.AsksNothing
  /-- A stream that does not, or breaks off, came far enough or is estimated high enough. -/
  streamed : ∀ whole, c.Streamed whole → figure (c.reports parse) = none ∨ whole = false →
    ∀ field ∈ OUTPUT_FIELDS, ∀ limit, c.limit field = some limit →
      min limit (c.left.val : ℚ) ≤ (max ((figure (c.reports parse)).getD 0) c.estimate : ℕ)
  /-- What is not read cost nothing. -/
  lost : ¬c.Collected → (∀ whole, ¬c.Streamed whole) →
    (∀ n, figure (c.reports parse) = some n → n = 0) ∧
      (figure (c.reports parse) = none ∨ BrokeOff c.reply → c.AsksNothing)

structure Sound (parse : String → Option Value) (c : Call) : Prop where
  thought : c.Thought
  held : Held c
  counted : c.Counted
  summed : c.Summed parse
  covered : Covered parse c

theorem Sent.stream_usage (h : Sent c sent) (rest : String) (streamed : Bool) :
    Sent c (if streamed then withStreamUsage sent rest else sent) := by
  cases streamed with
  | false => exact h
  | true =>
    rw [if_pos rfl]
    refine ⟨fun hunsaid => ?_, fun hsaid => ?_, ?_, ?_⟩
    · rw [get_withStreamUsage (by decide), h.maxTokens hunsaid]
    · rw [get_withStreamUsage (by decide), h.said hsaid]
    · rw [get_withStreamUsage (by decide), h.completion]
    · rw [get_withStreamUsage (by decide), h.stream]

/-- A call goes out as its body is sent, counted and charged, unless a sum overflows. -/
theorem handler_eq (h : c.Thought) : ∃ sent, Sent c sent ∧
    handler parse c = (uncountedStream sent c.bytes).bind fun uncounted =>
      (charge parse (wantsStream c.body) uncounted c.reply).map fun tokens => (sent, tokens) := by
  obtain ⟨body, hcapped, hsent⟩ := (capped_spec c).1 h
  have hstream : wantsStream body = wantsStream c.body := by
    rw [wantsStream, wantsStream, hsent.stream]
  refine ⟨_, hsent.stream_usage c.rest (wantsStream body), ?_⟩
  rw [handler, hcapped]
  simp only [Option.bind_eq_bind, Option.bind_some, Option.map_eq_bind, hstream]
  rfl

theorem handler_of_not_thought (h : ¬c.Thought) : handler parse c = none := by
  rw [handler, (capped_spec c).2 h]
  rfl

/-- The pieces an answer is cut into do not matter. -/
theorem handler_chunks {success whole : Bool} {chunks chunks' : List (List ℕ)}
    (hreply : c.reply = .answered success chunks whole) (h : chunks'.flatten = chunks.flatten) :
    handler parse { c with reply := .answered success chunks' whole } = handler parse c := by
  have hcharge : ∀ streamed uncounted, charge parse streamed uncounted
      (.answered success chunks' whole) = charge parse streamed uncounted c.reply := by
    intro streamed uncounted
    rw [hreply, charge, charge, tokens_feed, tokens_feed, h]
  unfold handler
  simp only [hcharge]
  rfl

theorem Streamed_notCollected {whole : Bool} (h : c.Streamed whole) : ¬c.Collected := by
  rintro ⟨success, chunks, hreply, hcollected, -⟩
  obtain ⟨success', chunks', hreply', hstreamed⟩ := h
  rw [hreply] at hreply'
  cases hreply'
  rw [hcollected] at hstreamed
  cases hstreamed

theorem Streamed_brokeOff {whole : Bool} (h : c.Streamed whole) :
    BrokeOff c.reply ↔ whole = false := by
  obtain ⟨success, chunks, hreply, -⟩ := h
  rw [hreply]
  rfl

theorem Streamed_whole {whole whole' : Bool} (h : c.Streamed whole) (h' : c.Streamed whole') :
    whole' = whole := by
  obtain ⟨success, chunks, hreply, -⟩ := h
  obtain ⟨success', chunks', hreply', -⟩ := h'
  rw [hreply] at hreply'
  cases hreply'
  rfl

theorem charged_iff_collected (uncounted : ℕ) (hsent : Sent c sent) (hheld : Held c)
    (hcollected : c.Collected) :
    (∃ tokens, charge parse (wantsStream c.body) uncounted c.reply = some tokens ∧
      Charged parse c sent tokens) ↔ c.Summed parse ∧ Covered parse c := by
  have hstreamed : ∀ whole, ¬c.Streamed whole := fun _ h => Streamed_notCollected h hcollected
  have hwhole : ¬BrokeOff c.reply := by
    obtain ⟨success, chunks, hreply, -⟩ := hcollected
    rw [hreply]
    exact nofun
  have hsummed : c.Summed parse ↔
      inputOf (c.reports parse) + outputOf (c.reports parse) < 2 ^ 64 :=
    ⟨fun h => h.1 hcollected, fun h => ⟨fun _ => h, fun _ h' => (hstreamed _ h').elim⟩⟩
  rw [charge_of_collected uncounted hcollected, hsummed]
  split_ifs with hsum
  · rw [and_iff_right hsum]
    constructor
    · rintro ⟨tokens, heq, hcharged⟩
      cases heq
      refine ⟨fun _ hnone => (covers_zero hsent hheld).1 ?_,
        fun whole h => (hstreamed whole h).elim, fun h => (h hcollected).elim⟩
      have hcovers := hcharged.unreported (Or.inl hnone)
      rwa [hnone] at hcovers
    · intro hcovered
      refine ⟨_, rfl, fun n hn => ?_, fun h => ?_⟩
      · rw [hn]
        exact le_rfl
      · have hnone := h.resolve_right hwhole
        rw [hnone]
        exact (covers_zero hsent hheld).2 (hcovered.collected hcollected hnone)
  · exact iff_of_false (fun ⟨_, heq, _⟩ => by cases heq) fun h => hsum h.1

/-- What was not reported to the end is the greater of the report and the count. -/
theorem streamCount_of_unreported {uncounted : ℕ} {reported : Option ℕ} {whole : Bool}
    (h : reported = none ∨ whole = false) :
    streamCount uncounted reported whole = max (reported.getD 0) uncounted := by
  rcases h with rfl | rfl
  · rfl
  · cases reported <;> rfl

theorem charged_iff_streamed {uncounted : ℕ} (hsent : Sent c sent) (hheld : Held c)
    (huncounted : uncountedStream sent c.bytes = some uncounted) {whole : Bool}
    (hwhole : c.Streamed whole) :
    (∃ tokens, charge parse (wantsStream c.body) uncounted c.reply = some tokens ∧
      Charged parse c sent tokens) ↔ c.Summed parse ∧ Covered parse c := by
  have hcollected : ¬c.Collected := Streamed_notCollected hwhole
  have hbroke := Streamed_brokeOff hwhole
  have hsummed : c.Summed parse ↔ ((totalOf (c.reports parse)).isSome ∨
      inputOf (c.reports parse) + outputOf (c.reports parse) < 2 ^ 64) :=
    ⟨fun h => h.2 whole hwhole, fun h => ⟨fun h' => (hcollected h').elim, fun _ _ => h⟩⟩
  rw [charge_of_streamed uncounted hwhole, hsummed]
  split_ifs with hsum
  · rw [and_iff_right hsum]
    constructor
    · rintro ⟨tokens, heq, hcharged⟩
      cases heq
      refine ⟨fun h => (hcollected h).elim, fun whole' hwhole' hlost => ?_,
        fun _ hnot => (hnot whole hwhole).elim⟩
      rw [Streamed_whole hwhole hwhole'] at hlost
      have hcovers := hcharged.unreported (hlost.imp_right hbroke.2)
      rw [streamCount_of_unreported hlost] at hcovers
      exact (covers_max hsent hheld huncounted _).1 hcovers
    · intro hcovered
      refine ⟨_, rfl, fun n hn => ?_, fun h => ?_⟩
      · rw [hn]
        cases whole with
        | true => exact le_rfl
        | false => exact le_max_left n uncounted
      · have hlost := h.imp_right hbroke.1
        rw [streamCount_of_unreported hlost]
        exact (covers_max hsent hheld huncounted _).2 (hcovered.streamed whole hwhole hlost)
  · exact iff_of_false (fun ⟨_, heq, _⟩ => by cases heq) fun h => hsum h.1

theorem charged_iff_lost (uncounted : ℕ) (hsent : Sent c sent) (hheld : Held c)
    (hcollected : ¬c.Collected) (hstreamed : ∀ whole, ¬c.Streamed whole) :
    (∃ tokens, charge parse (wantsStream c.body) uncounted c.reply = some tokens ∧
      Charged parse c sent tokens) ↔ c.Summed parse ∧ Covered parse c := by
  have hsummed : c.Summed parse :=
    ⟨fun h => (hcollected h).elim, fun whole h => (hstreamed whole h).elim⟩
  rw [charge_of_lost uncounted hcollected hstreamed, and_iff_right hsummed]
  constructor
  · rintro ⟨tokens, heq, hcharged⟩
    cases heq
    refine ⟨fun h => (hcollected h).elim, fun whole h => (hstreamed whole h).elim,
      fun _ _ => ⟨fun n hn => ?_, fun h => ?_⟩⟩
    · exact Nat.le_zero.1 (hcharged.reported n hn)
    · exact (covers_zero hsent hheld).1 (hcharged.unreported h)
  · intro hcovered
    obtain ⟨hzero, hnothing⟩ := hcovered.lost hcollected hstreamed
    exact ⟨0, rfl, fun n hn => (hzero n hn).le, fun h =>
      (covers_zero hsent hheld).2 (hnothing h)⟩

/-- A call whose sums fit is charged enough exactly where its charge covers it. -/
theorem charged_iff {uncounted : ℕ} (hsent : Sent c sent) (hheld : Held c)
    (huncounted : uncountedStream sent c.bytes = some uncounted) :
    (∃ tokens, charge parse (wantsStream c.body) uncounted c.reply = some tokens ∧
      Charged parse c sent tokens) ↔ c.Summed parse ∧ Covered parse c := by
  by_cases hcollected : c.Collected
  · exact charged_iff_collected uncounted hsent hheld hcollected
  by_cases hstreamed : ∃ whole, c.Streamed whole
  · obtain ⟨whole, hwhole⟩ := hstreamed
    exact charged_iff_streamed hsent hheld huncounted hwhole
  · exact charged_iff_lost uncounted hsent hheld hcollected (not_exists.1 hstreamed)

/-- A call is capped and charged exactly where it is sound. -/
theorem met_iff (parse : String → Option Value) (c : Call) : Met parse c ↔ Sound parse c := by
  by_cases hthought : c.Thought
  · obtain ⟨sent, hsent, hhandler⟩ := @handler_eq parse c hthought
    by_cases hcounted : c.Counted
    · obtain ⟨uncounted, huncounted⟩ := Option.isSome_iff_exists.1 ((counted_iff hsent).2 hcounted)
      rw [huncounted, Option.bind_some] at hhandler
      constructor
      · rintro ⟨sent', tokens, hmet, hleft, hcharged, -⟩
        rw [hhandler] at hmet
        obtain ⟨tokens', hcharge, heq⟩ := Option.map_eq_some_iff.1 hmet
        cases heq
        have hheld := (covers_left hsent).1 hleft
        obtain ⟨hsummed, hcovered⟩ :=
          (charged_iff hsent hheld huncounted).1 ⟨tokens, hcharge, hcharged⟩
        exact ⟨hthought, hheld, hcounted, hsummed, hcovered⟩
      · intro hsound
        obtain ⟨tokens, hcharge, hcharged⟩ :=
          (charged_iff hsent hsound.held huncounted).2 ⟨hsound.summed, hsound.covered⟩
        rw [hcharge, Option.map_some] at hhandler
        exact ⟨sent, tokens, hhandler, (covers_left hsent).2 hsound.held, hcharged,
          fun _ _ _ hreply _ hflat => handler_chunks hreply hflat⟩
    · have hnone : uncountedStream sent c.bytes = none := by
        rw [← Option.not_isSome_iff_eq_none, counted_iff hsent]
        exact hcounted
      rw [hnone, Option.bind_none] at hhandler
      refine iff_of_false ?_ fun hsound => hcounted hsound.counted
      rintro ⟨sent', tokens, hmet, -⟩
      rw [hhandler] at hmet
      cases hmet
  · refine iff_of_false ?_ fun hsound => hthought hsound.thought
    rintro ⟨sent', tokens, hmet, -⟩
    rw [handler_of_not_thought hthought] at hmet
    cases hmet

/-- A completion that asks for a million tokens in exponent form, with ten thousand left. -/
def exponent : Call where
  rest := "v1/chat/completions"
  effort := none
  model := "m"
  left := 10000
  routes := true
  body := .obj [("max_tokens", .num 1 6), ("model", .str "m")]
  bytes := 30
  reply := .answered true [Text.utf8Bytes "{}"] true

def emptyAnswer (text : String) : Option Value := if text = "{}" then some (.obj []) else none

/-- It is sent as it is, past what is left. -/
theorem exponent_uncapped : ¬Met emptyAnswer exponent := by
  rintro ⟨sent, tokens, hhandler, hcovers, -⟩
  have hthought : exponent.Thought := fun budget h => by cases h
  obtain ⟨sent', hsent', heq⟩ := @handler_eq emptyAnswer exponent hthought
  rw [hhandler] at heq
  obtain ⟨uncounted, -, heq⟩ := Option.bind_eq_some_iff.1 heq.symm
  obtain ⟨tokens', -, heq⟩ := Option.map_eq_some_iff.1 heq
  cases heq
  have hsaid : ¬exponent.Unsaid := fun h => absurd h.2.2 (by decide)
  have hsent : sent.get "max_tokens" = some (.num 1 6) := hsent'.said hsaid
  have hnamed := hcovers.named "max_tokens" (by decide) (10 ^ 6) (by
    rw [hsent, Option.bind_some, number]
    norm_num)
  have hleft : exponent.left.val = 10000 := rfl
  rw [hleft] at hnamed
  norm_num at hnamed

end Charges

end JoinedContext.AgentProxy.Llm

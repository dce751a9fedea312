import JoinedContext.Auth.Token
import JoinedContext.Library.Tally
import JoinedContext.Library.Text
import Mathlib.Data.Prod.Lex
import Mathlib.Data.String.Basic

/-!
# The counts of the Usage tab

Each answered call of an Endpoint's surface is counted for the kind of its caller, and what was
counted is posted every few minutes and kept where the post fails. Over every order of calls, posts
and answers what the Portal took and what is kept are what was answered.
-/

namespace JoinedContext.Gateway.Usage

/-- Distinct triples one replica keeps between two posts. -/
def MAX_KEYS : ℕ := 10000

def CALLERS : List String := ["person", "workload", "agent", "anonymous"]

/-- An Endpoint, a surface of it and a kind of caller, in the order of the lines of a post. -/
abbrev Key := String ×ₗ String ×ₗ String

section Source

/-- The kind of caller a verified token names. -/
def caller : Option Auth.Claims → String
  | none => "anonymous"
  | some claims =>
    let azp := claims.azp.getD ""
    if (Text.stripPrefix "mcp-" azp).isSome || Text.contains "://" azp || azp == "jc-assistant" then
      "agent"
    else match claims.preferredUsername with
      | some name =>
        if (Text.stripPrefix "service-account-" name).isNone then "person" else "workload"
      | none => "workload"

/-- The surfaces by the first segment of their routes. -/
def SURFACES : List (String × String) :=
  [("ngsi-ld", "ngsi-ld"), ("odata", "odata"), ("ogc", "ogc"), ("sta", "sta"), ("ical", "ical"),
    ("feed", "feed"), ("mcp", "mcp"), ("ws", "websocket"), ("file.csv", "download")]

/-- The surface a matched route belongs to. -/
def surface (route : String) : Option String :=
  (Text.stripPrefix "/api/endpoint/\x7bslug\x7d/" route).bind fun rest =>
    SURFACES.lookup (((Text.splitAny ['/'] rest).head?).getD "")

/-- A call as it was answered, with the claims of its token where the layer that verifies it was
reached. -/
structure Call where
  endpoint : String
  route : String
  status : UInt16
  claims : Option Auth.Claims

/-- What a call is counted under, if it is. -/
def counted (call : Call) : Option Key :=
  (surface call.route).bind fun surface =>
    if 400 ≤ call.status.toNat ∨ call.endpoint = "" ∨ call.endpoint = "-" then none
    else some (toLex (call.endpoint, toLex (surface, caller call.claims)))

inductive Event where
  | call (c : Call)
  | flush
  | answer (a : Tally.Answer)

/-- What an event does to the tally. -/
def Event.tallied : Event → Option (Tally.Event Key)
  | call c => (counted c).map .count
  | flush => some .flush
  | answer a => some (.answer a)

def step (s : Tally.State Key) (e : Event) : Tally.State Key :=
  match e.tallied with
  | none => s
  | some e => Tally.step MAX_KEYS (2 ^ 64 - 1) s e

/-- The calls of some events that are counted under a key. -/
def calls (k : Key) (events : List Event) : ℕ :=
  events.countP fun
    | .call c => counted c = some k
    | _ => false

end Source

section Calls

variable {call : Call} {k : Key}

theorem caller_mem (claims : Option Auth.Claims) : caller claims ∈ CALLERS := by
  unfold caller
  grind [CALLERS]

/-- What is counted is an answer that was not refused, under one of the surfaces and of the kinds of
caller, whatever the route and the token. -/
theorem counted_mem (h : counted call = some k) : call.status.toNat < 400 ∧
    (ofLex (ofLex k).2).1 ∈ SURFACES.map Prod.snd ∧ (ofLex (ofLex k).2).2 ∈ CALLERS := by
  obtain ⟨surface, hsurface, h⟩ := Option.bind_eq_some_iff.1 h
  obtain ⟨rest, -, hlookup⟩ := Option.bind_eq_some_iff.1 hsurface
  split_ifs at h with hnot
  obtain rfl := Option.some.inj h
  exact ⟨by omega, List.mem_map.2 ⟨_, Assoc.mem_of_lookup hlookup, rfl⟩, caller_mem _⟩

end Calls

section Runs

variable {events : List Event} {k : Key}

theorem run_tallied : ∀ (events : List Event) (s : Tally.State Key), Machine.run step s events =
    Machine.run (Tally.step MAX_KEYS (2 ^ 64 - 1)) s (events.filterMap Event.tallied)
  | [], _ => rfl
  | e :: events, s => by
    rw [Machine.run_cons, run_tallied events]
    unfold step
    cases he : e.tallied with
    | none => rw [List.filterMap_cons_none he]
    | some t => rw [List.filterMap_cons_some he, Machine.run_cons]

theorem calls_eq (events : List Event) (k : Key) :
    calls k events = Tally.counted k (events.filterMap Event.tallied) := by
  unfold calls Tally.counted List.count
  rw [List.filterMap_filterMap, List.countP_filterMap]
  refine List.countP_congr fun e _ => ?_
  cases e with
  | flush => simp [Event.tallied, Tally.Event.key]
  | answer a => simp [Event.tallied, Tally.Event.key]
  | call c => cases hcounted : counted c <;> simp [Event.tallied, hcounted, Tally.Event.key]

/-- Whatever the posts and their answers, no call is received or held twice but those of posts that
were received and put back all the same. -/
theorem usage_le (events : List Event) (k : Key) :
    (Machine.run step Tally.start events).received k + (Machine.run step Tally.start events).held k ≤
      calls k events + (Machine.run step Tally.start events).doubled k := by
  have hle := Tally.run_le MAX_KEYS (2 ^ 64 - 1) (events.filterMap Event.tallied) Tally.start k
  rw [run_tallied, calls_eq]
  simpa [Tally.start, Tally.State.held, Tally.State.inFlight, SortedMap.empty] using hle

/-- Where no answer is lost, at most as many triples are called as a replica keeps, and the calls
fit into a counter, every call that is answered is received or kept, once. -/
theorem usage_eq (K : Finset Key) (hK : K.card ≤ MAX_KEYS)
    (hkeys : ∀ c k, .call c ∈ events → counted c = some k → k ∈ K) (hcap : events.length < 2 ^ 64)
    (hlost : .answer .lost ∉ events) (k : Key) :
    (Machine.run step Tally.start events).received k + (Machine.run step Tally.start events).held k =
      calls k events := by
  have hroomy : Tally.Roomy K (2 ^ 64 - 1) (events.filterMap Event.tallied).length Tally.start :=
    Tally.start_roomy.mono (by
      have := List.length_filterMap_le Event.tallied events
      omega)
  rw [run_tallied, calls_eq, Tally.run_eq hK hroomy]
  · simp [Tally.start, Tally.State.held, Tally.State.inFlight, SortedMap.empty]
  · intro k hk
    obtain ⟨t, ht, hkey⟩ := List.mem_filterMap.1 hk
    obtain ⟨e, he, htallied⟩ := List.mem_filterMap.1 ht
    cases e with
    | flush => cases htallied; cases hkey
    | answer a => cases htallied; cases hkey
    | call c =>
      obtain ⟨k', hcounted, rfl⟩ := Option.map_eq_some_iff.1 htallied
      cases hkey
      exact hkeys c k he hcounted
  · intro hmem
    obtain ⟨e, he, htallied⟩ := List.mem_filterMap.1 hmem
    cases e with
    | flush => cases htallied
    | answer a => cases htallied; exact hlost he
    | call c => obtain ⟨_, _, hnot⟩ := Option.map_eq_some_iff.1 htallied; cases hnot

/-- A read of an Endpoint over OData by nobody signed in. -/
def sample : Call := ⟨"noise", "/api/endpoint/{slug}/odata/v4", 200, none⟩

def sampleKey : Key := toLex ("noise", toLex ("odata", "anonymous"))

theorem counted_sample : counted sample = some sampleKey := by decide

/-- A post that is refused, then one that is taken with what came in between. -/
def sampleEvents : List Event :=
  [.call sample, .flush, .call sample, .answer .refused, .flush, .answer .taken]

theorem usage_sample : (Machine.run step Tally.start sampleEvents).received sampleKey +
    (Machine.run step Tally.start sampleEvents).held sampleKey = calls sampleKey sampleEvents :=
  usage_eq {sampleKey} (by simp [MAX_KEYS]) (fun c k hc hk => by
    have hsample : c = sample := by simpa [sampleEvents] using hc
    rw [hsample, counted_sample] at hk
    exact Finset.mem_singleton.2 (Option.some.inj hk).symm)
    (by simp [sampleEvents]) (by simp [sampleEvents]) sampleKey

example : calls sampleKey sampleEvents = 2 := by decide

end Runs

end JoinedContext.Gateway.Usage

import JoinedContext.AgentProxy.Proxy
import JoinedContext.Core.Json

/-!
# The data door

A run's context call is forwarded to the gateway under the run's endpoint. The door judges the path
it has decoded, and the gateway reads the URL it is written into: the two agree where no character
of the path means anything to the URL's parser.
-/

namespace JoinedContext.AgentProxy

/-- The MCP tools that only read. -/
def READ_TOOLS : List String :=
  ["batch_query", "batch_query_temporal", "describe_access", "describe_schema", "get_attribute",
    "get_attribute_value", "get_entity", "get_subscription", "get_type", "list_attribute_details",
    "list_attributes", "list_subscriptions", "list_type_details", "list_types", "query_entities",
    "query_temporal", "retrieve_temporal"]

def FORBIDDEN_CLIENT_HEADERS : List String :=
  ["authorization", "cookie", "ngsild-tenant", "x-userinfo", "x-access-token",
    "x-allowed-scope-ids", "x-endpoint-slug", "x-consumer-identity"]

/-- The tool a JSON-RPC message calls, if it is a call that names one. -/
def toolOf (message : Value) : Option String :=
  ((message.get "params").bind fun params => params.get "name").bind Value.asStr

def reads (message : Value) : Bool :=
  ((message.get "method").bind Value.asStr != some "tools/call") ||
    (toolOf message).any fun tool => READ_TOOLS.contains tool

/-- Whether an MCP body, one message or a batch, calls no tool but a read one. -/
def readsOnly : Option Value → Bool
  | some (.arr messages) => messages.all reads
  | some (.obj members) => reads (.obj members)
  | _ => false

/-- Why the run has no token. -/
inductive GrantError where
  | missing | refused | unavailable
deriving DecidableEq

/-- What the rest of the proxy answers for a request. -/
structure Answers where
  authenticated : Except Refusal RunContext
  overRate : RunContext → Except Refusal Unit
  /-- The run's record asked of the Portal once more. -/
  resolveFresh : String → Option RunContext
  token : String → Except GrantError String
  /-- The body, unless it is past the proxy's cap. -/
  body : Except Refusal (List UInt8)
  /-- The body as JSON. -/
  fromSlice : List UInt8 → Option Value

/-- A request of a data door: the run's primary endpoint, or one by its slug. -/
structure DataRequest where
  method : Method
  slug : Option String := none
  rest : String
  query : Option (List Char) := none
  headers : List (String × String) := []
  slug_ne : slug ≠ some "" := by decide
  query_plain : ∀ q ∈ query, Url.PlainQuery q := by simp

/-- The request the door sends, with the run and the endpoint it was judged for. -/
structure Forwarded where
  run : RunContext
  slug : String
  method : Method
  /-- What follows the authority of the URL. -/
  target : List Char
  headers : List (String × String)
  token : String
  body : List UInt8

def isStale (run : RunContext) : Option String → Bool
  | some slug => slug ∉ run.slugs
  | none => run.endpointSlug = ""

def freshRun (answers : Answers) (run : RunContext) (slug : Option String) : RunContext :=
  if isStale run slug then (answers.resolveFresh run.id).getD run else run

def endpointOf (run : RunContext) : Option String → Except Refusal String
  | none =>
    if run.endpointSlug = "" then
      .error ⟨409, "this run reads no endpoint yet: open one in the conversation first"⟩
    else .ok run.endpointSlug
  | some slug =>
    if slug ∈ run.slugs then .ok slug
    else .error ⟨403, "endpoint '" ++ slug ++ "' is not an endpoint of this run"⟩

/-- The methods and the paths a run that only reads is let through with. -/
def checkMethod (run : RunContext) (method : Method) (rest : String) : Except Refusal Unit :=
  if run.allowsWrite then .ok ()
  else if method ∈ [.patch, .put, .delete] then
    .error ⟨403, "write operations not permitted on read-only run"⟩
  else if method = .post ∧ rest ≠ "mcp" ∧ (Text.stripSuffix "/query" rest).isNone ∧
      rest ≠ "entityOperations/query" then
    .error ⟨403, "mutating POST requests not permitted on read-only run"⟩
  else .ok ()

def tokenOf (answers : Answers) (run : RunContext) : Except Refusal String :=
  (answers.token run.id).mapError fun
    | .missing => ⟨401, "this run holds no identity of the person who started it: it was not " ++
        "started from a signed-in session, or its grant has ended (ADR-N-038)"⟩
    | .refused => ⟨401, "the session of the person who started this run has ended, and so has " ++
        "the run's access to data (ADR-N-038)"⟩
    | .unavailable => ⟨503, "the proxy could not obtain a token for this endpoint"⟩

/-- The URL of a call on an endpoint, after the authority. -/
def targetUrl (base : Address) (slug rest : String) (query : Option (List Char)) : List Char :=
  Url.write base.path ++ "/api/endpoint/".toList ++ slug.toList ++
    '/' :: rest.toList.dropWhile (· == '/') ++ Url.writeQuery query

def forwardedHeaders (headers : List (String × String)) : List (String × String) :=
  headers.filter fun header =>
    header.1 ∉ FORBIDDEN_CLIENT_HEADERS ∧ (Text.stripPrefix "x-jc-" header.1).isNone ∧
      header.1 ≠ "host"

def forward (base : Address) (answers : Answers) (req : DataRequest) : Except Refusal Forwarded := do
  let run ← answers.authenticated
  answers.overRate run
  refuseIf (escapes req.rest) 403 "path traversal not permitted"
  let run := freshRun answers run req.slug
  let slug ← endpointOf run req.slug
  checkMethod run req.method req.rest
  let token ← tokenOf answers run
  let body ← answers.body
  refuseIf (req.rest = "mcp" ∧ run.allowsWrite = false ∧ readsOnly (answers.fromSlice body) = false)
    403 "mutation tools not permitted on read-only run"
  return {
    run, slug, token, body
    method := req.method
    target := targetUrl base slug req.rest req.query
    headers := forwardedHeaders req.headers }

/-- The path every call on an endpoint is under. -/
def endpointPrefix (base : Address) (slug : String) : List Segment :=
  base.path ++ ["api".toList, "endpoint".toList, slug.toList]

/-- The messages of an MCP body call no tool but read ones. -/
def CallsReadToolsOnly (body : Option Value) : Prop :=
  ∃ messages, (body = some (.arr messages) ∨ ∃ members, body = some (.obj members) ∧
    messages = [.obj members]) ∧
    ∀ message ∈ messages, (message.get "method").bind Value.asStr = some "tools/call" →
      ∃ tool ∈ READ_TOOLS, toolOf message = some tool

/-- The request sent is the one judged: a run that only reads sends a read, an MCP call of read
tools or an entity query, and the URL is read as the endpoint's with the path that was judged and
the query that came with it. -/
structure ForwardsJudged (base : Address) (answers : Answers) (req : DataRequest) (sent : Forwarded) :
    Prop where
  reads : sent.run.allowsWrite = false → sent.method ∈ [.get, .head, .options] ∨
    sent.method = .post ∧
      ((Url.parse sent.target).path = endpointPrefix base sent.slug ++ ["mcp".toList] ∧
          CallsReadToolsOnly (answers.fromSlice sent.body) ∨
        (Url.parse sent.target).path.getLast? = some "query".toList)
  url : Url.parse sent.target =
    ⟨endpointPrefix base sent.slug ++ segmentsOf req.rest, req.query, none⟩

/-- No character of the path means anything to the URL's parser. -/
structure Kept (rest : String) (query : Option (List Char)) : Prop where
  inside : ∀ c ∈ rest.toList, c ∉ ['?', '#', '\t', '\n', '\r']
  last : query = none → ∀ c, rest.toList.getLast? = some c → Url.trimmed c = false

section Forward

variable {base : Address} {answers : Answers} {req : DataRequest} {sent : Forwarded}

theorem readsOnly_iff {body : Option Value} : readsOnly body = true ↔ CallsReadToolsOnly body := by
  have hreads : ∀ message, reads message = true ↔
      ((message.get "method").bind Value.asStr = some "tools/call" →
        ∃ tool ∈ READ_TOOLS, toolOf message = some tool) := fun message => by
    unfold reads
    rw [Bool.or_eq_true, bne_iff_ne, Option.any_eq_true, Ne, ← imp_iff_not_or]
    refine imp_congr_right fun _ => exists_congr fun tool => ?_
    rw [List.contains_iff_mem, and_comm]
  unfold CallsReadToolsOnly
  constructor
  · intro h
    match body, h with
    | some (.arr messages), h =>
      exact ⟨messages, Or.inl rfl, fun m hm => (hreads m).1 (List.all_eq_true.1 h m hm)⟩
    | some (.obj members), h =>
      exact ⟨_, Or.inr ⟨members, rfl, rfl⟩, fun m hm => (hreads m).1 (List.mem_singleton.1 hm ▸ h)⟩
  · rintro ⟨messages, rfl | ⟨members, rfl, rfl⟩, h⟩
    · exact List.all_eq_true.2 fun m hm => (hreads m).2 (h m hm)
    · exact (hreads _).2 (h _ (List.mem_singleton_self _))

/-- What is known of a request the door sends. -/
theorem forward_eq_ok (h : forward base answers req = .ok sent) :
    escapes req.rest = false ∧ (∃ slug, endpointOf sent.run req.slug = .ok slug ∧ slug = sent.slug) ∧
      checkMethod sent.run req.method req.rest = .ok () ∧
      (req.rest = "mcp" → sent.run.allowsWrite = false →
        readsOnly (answers.fromSlice sent.body) = true) ∧
      sent.method = req.method ∧ sent.target = targetUrl base sent.slug req.rest req.query := by
  unfold forward at h
  obtain ⟨run, -, h⟩ := bind_eq_ok.1 h
  obtain ⟨-, h⟩ := andThen_eq_ok.1 h
  obtain ⟨hescapes, h⟩ := andThen_eq_ok.1 h
  obtain ⟨slug, hslug, h⟩ := bind_eq_ok.1 h
  obtain ⟨hmethod, h⟩ := andThen_eq_ok.1 h
  obtain ⟨token, -, h⟩ := bind_eq_ok.1 h
  obtain ⟨body, -, h⟩ := bind_eq_ok.1 h
  obtain ⟨hreads, h⟩ := andThen_eq_ok.1 h
  obtain rfl := Except.ok.inj h
  rw [refuseIf_eq_ok] at hescapes hreads
  refine ⟨by simpa using hescapes, ⟨slug, hslug, rfl⟩, hmethod, fun hmcp hwrite => ?_, rfl, rfl⟩
  by_contra hnot
  exact hreads ⟨hmcp, hwrite, by simpa using hnot⟩

theorem isSlug_of_endpointOf {run : RunContext} {asked : Option String} {slug : String}
    (h : endpointOf run asked = .ok slug) (hne : asked ≠ some "") : IsSlug slug := by
  cases asked with
  | none =>
    unfold endpointOf at h
    split_ifs at h with hempty
    obtain rfl := Except.ok.inj h
    exact (run.slugs_valid _ List.mem_cons_self).resolve_left hempty
  | some asked =>
    simp only [endpointOf] at h
    split_ifs at h with hmem
    obtain rfl := Except.ok.inj h
    refine (run.slugs_valid asked ?_).resolve_left fun heq => hne (heq ▸ rfl)
    unfold RunContext.slugs at hmem
    split_ifs at hmem
    · exact List.mem_singleton.1 hmem ▸ List.mem_cons_self
    · exact List.mem_cons_of_mem _ hmem

/-- The URL is the endpoint's path and the judged one, written out. -/
theorem targetUrl_eq {slug rest : String} {query : Option (List Char)}
    (h : escapes rest = false) : targetUrl base slug rest query =
      Url.write (endpointPrefix base slug ++ segmentsOf rest) ++ Url.writeQuery query := by
  have hrest : rest.toList.dropWhile (· == '/') = rest.toList := by
    have hstart := not_startsWith_of_not_escapes h
    unfold Text.startsWith at hstart
    cases hl : rest.toList with
    | nil => rfl
    | cons c l =>
      rw [hl] at hstart
      exact List.dropWhile_cons_of_neg (by simpa using hstart)
  have hprefix : Url.write ["api".toList, "endpoint".toList, slug.toList] =
      "/api/endpoint/".toList ++ slug.toList := by
    simp [Url.write]
  unfold targetUrl endpointPrefix
  rw [Url.write_append, Url.write_append, write_segmentsOf, hprefix, hrest]
  simp

theorem plain_endpointPrefix {slug : String} (h : IsSlug slug) :
    ∀ s ∈ endpointPrefix base slug, Url.Plain s := by
  unfold endpointPrefix
  intro s hs
  rw [List.mem_append] at hs
  rcases hs with hs | hs
  · exact base.plain s hs
  · simp only [List.mem_cons, List.not_mem_nil, or_false] at hs
    rcases hs with rfl | rfl | rfl
    · exact Url.plain_of_all (by decide) (by decide)
    · exact Url.plain_of_all (by decide) (by decide)
    · exact plain_of_isSlug h

/-- The judged path is the one the gateway reads exactly where it is kept. -/
theorem parse_targetUrl_iff (base : Address) {slug : String} (hslug : IsSlug slug) (h : escapes req.rest = false) :
    Url.parse (targetUrl base slug req.rest req.query) =
        ⟨endpointPrefix base slug ++ segmentsOf req.rest, req.query, none⟩ ↔
      Kept req.rest req.query := by
  have hlast : ∀ c, (Url.write (endpointPrefix base slug ++ segmentsOf req.rest)).getLast? = some c →
      c = '/' ∨ req.rest.toList.getLast? = some c := fun c hc => by
    rw [Url.write_append, write_segmentsOf, List.getLast?_append_cons, List.getLast?_cons] at hc
    cases hrest : req.rest.toList.getLast? with
    | none =>
      rw [hrest] at hc
      exact Or.inl (Option.some.inj hc).symm
    | some d =>
      rw [hrest] at hc
      exact Or.inr hc
  rw [targetUrl_eq h]
  constructor
  · intro hparse
    have hinside : ∀ c ∈ req.rest.toList, c ∉ ['?', '#', '\t', '\n', '\r'] := fun c hc hmem => by
      have hslash : c ≠ '/' := fun heq => absurd (heq ▸ hmem) (by decide)
      obtain ⟨s, hs, hcs⟩ := Url.mem_splitOnP_of_mem hc hslash
      have hpath : s ∈ (Url.parse (Url.write (endpointPrefix base slug ++ segmentsOf req.rest) ++
          Url.writeQuery req.query)).path := by
        rw [hparse]
        exact List.mem_append_right _ hs
      have := Url.not_special_of_mem_parse hpath hcs
      simp only [List.mem_cons, List.not_mem_nil, or_false] at hmem
      rcases hmem with rfl | rfl | rfl | rfl | rfl <;> exact absurd this (by decide)
    refine ⟨hinside, fun hquery c hc => ?_⟩
    by_contra htrim
    rw [Bool.not_eq_false] at htrim
    have hwrite : (Url.write (endpointPrefix base slug ++ segmentsOf req.rest)).getLast? = some c := by
      rw [Url.write_append, write_segmentsOf, List.getLast?_append_cons, List.getLast?_cons, hc]
      rfl
    rw [hquery, show Url.writeQuery none = [] from rfl, List.append_nil] at hparse
    exact Url.parse_path_ne hwrite htrim (congrArg Url.path hparse)
  · intro hkept
    refine Url.parse_write (fun hnil => segmentsOf_ne_nil _ (List.append_eq_nil_iff.1 hnil).2)
      (fun s hs => ?_) req.query_plain fun hquery c hc => ?_
    · rcases List.mem_append.1 hs with hs | hs
      · exact plain_endpointPrefix hslug s hs
      · exact plain_of_not_escapes h hkept.inside hs
    · rcases hlast c hc with rfl | hc
      · decide
      · exact hkept.last hquery c hc

/-- What a request of a run that only reads is let through with. -/
theorem checkMethod_eq_ok {run : RunContext} {method : Method} {rest : String}
    (hwrite : run.allowsWrite = false) : checkMethod run method rest = .ok () ↔
      method ∉ [.patch, .put, .delete] ∧ (method = .post → rest = "mcp" ∨
        (Text.stripSuffix "/query" rest).isSome ∨ rest = "entityOperations/query") := by
  unfold checkMethod
  rw [hwrite, if_neg Bool.false_ne_true]
  split_ifs with hmutates hpost
  · simp [hmutates]
  · refine iff_of_false (by simp) fun h => ?_
    obtain ⟨hmethod, hmcp, hquery, hrest⟩ := hpost
    rcases h.2 hmethod with h | h | h
    · exact hmcp h
    · rw [Option.isNone_iff_eq_none.1 hquery] at h
      cases h
    · exact hrest h
  · refine iff_of_true rfl ⟨hmutates, fun hmethod => ?_⟩
    by_contra hnot
    simp only [not_or, Option.not_isSome_iff_eq_none] at hnot
    exact hpost ⟨hmethod, hnot.1, by simp [hnot.2.1], hnot.2.2⟩

theorem getLast?_segmentsOf {rest before : String} (h : Text.stripSuffix "/query" rest = some before) :
    (segmentsOf rest).getLast? = some "query".toList := by
  rw [Text.stripSuffix_eq_some] at h
  have hsplit : segmentsOf rest = segmentsOf before ++ ["query".toList] := by
    have htext : rest.toList = before.toList ++ '/' :: "query".toList := by
      rw [h]
      rfl
    unfold segmentsOf
    rw [htext, List.splitOnP_append_cons _ _ rfl]
    rfl
  rw [hsplit, List.getLast?_append_cons]
  rfl

/-- The door sends what it judged exactly where the path is kept and a run that only reads uses a
method the door knows. -/
theorem forwardsJudged_iff (h : forward base answers req = .ok sent) :
    ForwardsJudged base answers req sent ↔ Kept req.rest req.query ∧
      (sent.run.allowsWrite = false → req.method ∈ [.get, .head, .options, .post]) := by
  obtain ⟨hescapes, ⟨slug, hslug, rfl⟩, hcheck, hmcp, hmethod, htarget⟩ := forward_eq_ok h
  have hurl := parse_targetUrl_iff base (isSlug_of_endpointOf hslug req.slug_ne) hescapes
  rw [← htarget] at hurl
  constructor
  · intro hsent
    refine ⟨hurl.1 hsent.url, fun hwrite => ?_⟩
    rw [← hmethod]
    rcases hsent.reads hwrite with hread | ⟨hpost, -⟩
    · exact List.mem_append_left [.post] hread
    · rw [hpost]
      decide
  · rintro ⟨hkept, hknown⟩
    have hparse := hurl.2 hkept
    refine ⟨fun hwrite => ?_, hparse⟩
    rw [checkMethod_eq_ok hwrite] at hcheck
    rw [hmethod, hparse]
    have hmem := hknown hwrite
    simp only [List.mem_cons, List.not_mem_nil, or_false] at hmem
    rcases hmem with hget | hhead | hoptions | hpost
    · exact Or.inl (by simp [hget])
    · exact Or.inl (by simp [hhead])
    · exact Or.inl (by simp [hoptions])
    · refine Or.inr ⟨hpost, ?_⟩
      rcases hcheck.2 hpost with hrest | hrest | hrest
      · exact Or.inl ⟨by rw [hrest]; rfl, readsOnly_iff.1 (hmcp hrest hwrite)⟩
      · obtain ⟨before, hbefore⟩ := Option.isSome_iff_exists.1 hrest
        refine Or.inr ?_
        rw [List.getLast?_append, getLast?_segmentsOf hbefore]
        rfl
      · refine Or.inr ?_
        rw [List.getLast?_append, hrest, getLast?_segmentsOf
          (show Text.stripSuffix "/query" _ = some "entityOperations" by decide +kernel)]
        rfl

end Forward

section McpQuery

/-- A run of one endpoint that does not write. -/
def readingRun : RunContext where
  id := "r1"
  project := "p"
  endpointSlug := "abcdefghijklmnopqrstuvwxyz"
  slugs_valid := by
    intro slug hslug
    rw [List.mem_singleton.1 hslug]
    have hletters : ("abcdefghijklmnopqrstuvwxyz".toList.all fun c =>
        decide ('a' ≤ c ∧ c ≤ 'z' ∨ '2' ≤ c ∧ c ≤ '7')) = true := by decide +kernel
    exact Or.inr ⟨by decide, fun c hc => of_decide_eq_true (List.all_eq_true.1 hletters c hc)⟩
  repository_valid := isRepositoryName_of_mem_none

/-- The proxy's answers for that run, with a body of one call of a tool that writes. -/
def readingAnswers : Answers where
  authenticated := .ok readingRun
  overRate := fun _ => .ok ()
  resolveFresh := fun _ => none
  token := fun _ => .ok "token"
  body := .ok []
  fromSlice := fun _ => some (.obj [("method", .str "tools/call"),
    ("params", .obj [("name", .str "delete_entity")])])

theorem forwardsJudged_entities : ∃ sent,
    forward {} readingAnswers { method := .get, rest := "entities" } = .ok sent ∧
      (ForwardsJudged {} readingAnswers { method := .get, rest := "entities" } sent ↔
        Kept "entities" none ∧ (sent.run.allowsWrite = false →
          Method.get ∈ [.get, .head, .options, .post])) :=
  ⟨_, rfl, forwardsJudged_iff rfl⟩

/-- The path `mcp?/query` ends as a query does, and the gateway reads it as `mcp`. -/
theorem not_forwardsJudged : ∃ sent,
    forward {} readingAnswers { method := .post, rest := "mcp?/query" } = .ok sent ∧
      ¬ ForwardsJudged {} readingAnswers { method := .post, rest := "mcp?/query" } sent := by
  refine ⟨_, rfl, fun h => ?_⟩
  have hurl := h.url
  revert hurl
  decide +kernel

end McpQuery

end JoinedContext.AgentProxy

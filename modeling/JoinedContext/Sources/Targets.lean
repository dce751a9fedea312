import JoinedContext.Core.Address
import JoinedContext.Library.Scan
import JoinedContext.Sources.Secrets

/-!
# Where a connection may lead

The checks `jc-core` holds the texts of a connection to: which runner variables a text reads, and
which hosts its URLs and its host fields name.
-/

namespace JoinedContext.Sources

/-- The runner variables a typed URL may name. -/
def URL_VARIABLES : List String :=
  ["JC_GATEWAY_HOST", "JC_GATEWAY_URL", "JC_TOKEN_URL", "JC_ORG_DOMAIN"]

def TOKEN_SERVICES : List String :=
  ["pipeline-tokens", "pipeline-runner-tokens", "wasm-host-tokens"]

/-- Why a text reads the runner's environment, if it does. -/
def refusedRunnerRead (url : String) : Option String :=
  let afterName := fun tail : List Char => (tail.dropWhile (· != '}')).tail
  (Scan.scan ['$', '{'] afterName url.toList).findSome? fun tail =>
    match Text.splitOnce '}' (String.ofList tail) with
    | some (name, _) => if URL_VARIABLES.contains name then none else some runnerRead
    | none => some runnerRead
where
  runnerRead : String :=
    "a URL names no runner variable but JC_GATEWAY_HOST, JC_GATEWAY_URL, JC_TOKEN_URL or " ++
      "JC_ORG_DOMAIN: the runner fills \x60$\x7b…\x7d\x60 from an environment that holds every " ++
      "project's credentials; write a literal \x60$\x7b\x60 as \x60%24\x7b\x60 (PL-16)"

def platformBroker (host : String) : Bool :=
  let labels := Text.splitAny ['.'] host
  startsWith "mqtt-" (labels.headD "") && labels[2]?.all (· == "svc")

/-- The host of a `host:port`, an IPv6 address without its brackets, in lower case and without the
dot of a fully qualified name. -/
def hostOf (hostPort : String) : String :=
  let host := match Text.stripPrefix "[" hostPort with
    | some v6 => (Text.splitAny [']'] v6).headD ""
    | none => (Text.splitAny [':'] hostPort).headD ""
  toAsciiLowercase (String.ofList (host.toList.rdropWhile (· == '.')))

def isAsciiHexdigit (c : Char) : Bool := (IpAddr.digitOf 16 c).isSome

/-- A host whose every label is a number, decimal or with `0x`: a C resolver reads it as an
address. -/
def numericHost (host : String) : Bool :=
  host != "" && (Text.splitAny ['.'] host).all fun label =>
    label != "" && (label.toList.all Char.isDigit ||
      (Text.stripPrefix "0x" label).any fun hex => hex.toList.all isAsciiHexdigit)

/-- Whether a host is an address written out, and not one of the public internet. -/
def refusedLiteral (host : String) : Bool :=
  match IpAddr.parse host with
  | some ip => !ip.isPublic
  | none => numericHost host

def refusedHost (hostPort : String) : Option String :=
  if Text.contains "$\x7b!" hostPort then
    some ("the host of a URL is written out, never taken from a message, so where a step " ++
      "connects is known before it runs (PL-07)")
  else
    let host := hostOf hostPort
    if host.toList.contains '%' then
      some "a host is written without percent-encoding (PL-07)"
    else if TOKEN_SERVICES.contains ((Text.splitAny ['.'] host).headD "") then
      some ("a pipeline does not connect to a token Service: it mints tokens for every " ++
        "project's pipelines (PL-07)")
    else if platformBroker host then
      some ("a pipeline reads a platform broker by spec.mqtt.brokerRef, which names one of its " ++
        "own project, never by its Service name (PL-76)")
    else if host == "localhost" || endsWith ".localhost" host || host == "localhost.localdomain" ||
        host == "ip6-localhost" || host == "ip6-loopback" then some own
    else if refusedLiteral host then some own
    else none
where
  own : String :=
    "a pipeline does not connect to the runner's own pod or a private address: the runner's " ++
      "stream API and token sidecar answer there for every project (PL-07)"

/-- What ends the authority of a URL in a text. -/
def authorityEnd (c : Char) : Bool :=
  c ∈ ['/', '?', '#', '"', '\'', '\x60'] || Text.whitespace c

/-- The `host:port` of an authority, past the last `@` of its userinfo. -/
def hostPortOf (authority : List Char) : String :=
  match Text.rsplitOnce '@' (String.ofList authority) with
  | some (_, host) => host
  | none => String.ofList authority

/-- Why a URL somewhere in a text leads inside, if one does. -/
def refusedTarget (text : String) : Option String :=
  let pastAuthority := fun after : List Char => after.dropWhile (!authorityEnd ·)
  (Scan.scan [':', '/', '/'] pastAuthority text.toList).findSome? fun after =>
    refusedHost (hostPortOf (after.takeWhile (!authorityEnd ·)))

/-- The key a path of the document ends in. -/
def lastKey (path : String) : String :=
  (Text.splitAny ['['] ((Text.splitAny ['.'] path).getLast?.getD "")).headD ""

def namesHosts (key : String) : Bool :=
  ["address", "addresses", "seed_brokers", "hosts"].contains key || endsWith "_addresses" key

/-- The hosts of a field that lists them, separated by commas, but for those written as URLs. -/
def listedHosts (text : String) : List String :=
  ((Text.splitAny [','] text).map Text.trim).filter fun part =>
    part != "" && !Text.contains "://" part

/-- Why a `host:port` field of an input leads inside, if it does. -/
def refusedAddress (path text : String) : Option String :=
  if namesHosts (lastKey path) then (listedHosts text).findSome? refusedHost else none

def inName (c : Char) : Bool := c != '}' && c != ':'

/-- Every name a `${NAME}` or `${NAME:default}` of a text interpolates. -/
def interpolatedIn (text : String) : List String :=
  (Scan.scan ['$', '{'] (List.dropWhile inName) text.toList).map fun tail =>
    String.ofList (tail.takeWhile inName)

/-- The variable of a text that is nothing but one interpolation. -/
def isExactVarInterpolation (s : String) : Option String := do
  let inner ← Text.stripPrefix "$\x7b" s
  let var ← Text.stripSuffix "\x7d" inner
  if var != "" && var.toList.all (fun c => c ∉ ['$', '{', '}', ' ']) then some var else none

/-! ## What the checks see -/

theorem unbordered_dollar : Scan.Unbordered ['$', '{'] := by
  intro p q h
  simpa [List.suffix_cons_iff] using h

theorem unbordered_scheme : Scan.Unbordered [':', '/', '/'] := by
  intro p q h
  simpa [List.suffix_cons_iff] using h

theorem plain_of_mem_urlVariables :
    ∀ name ∈ URL_VARIABLES, '}' ∉ name.toList ∧ '$' ∉ name.toList ∧ ':' ∉ name.toList := by
  decide

/-- A text that is not refused reads no variable but the permitted ones, and names each of them
whole. -/
theorem exists_of_refusedRunnerRead {text : String} {tail : List Char}
    (h : refusedRunnerRead text = none) (htail : ['$', '{'] ++ tail <:+ text.toList) :
    ∃ name ∈ URL_VARIABLES, ∃ after, tail = name.toList ++ '}' :: after := by
  unfold refusedRunnerRead at h
  rw [List.findSome?_eq_none_iff] at h
  have hnamed : ∀ q ∈ Scan.scan ['$', '{'] (fun tail => (tail.dropWhile (· != '}')).tail) text.toList,
      ∃ name ∈ URL_VARIABLES, ∃ after, q = name.toList ++ '}' :: after := fun q hq => by
    have hnone := h q hq
    split at hnone
    · rename_i name after hsplit
      split_ifs at hnone with hname
      refine ⟨name, by simpa using hname, after.toList, ?_⟩
      rw [← Text.splitOnce_eq_some hsplit, String.toList_ofList]
    · cases hnone
  refine hnamed tail (Scan.mem_scan_of_notMem unbordered_dollar
    (fun q => (List.tail_suffix _).trans (List.dropWhile_suffix _)) (fun q hq => ?_) htail)
  obtain ⟨name, hname, after, rfl⟩ := hnamed q hq
  obtain ⟨hbrace, hdollar, -⟩ := plain_of_mem_urlVariables name hname
  refine ⟨name.toList ++ ['}'], ?_, by simpa using hdollar⟩
  rw [List.dropWhile_append_of_pos fun c hc => by simpa using fun heq : c = '}' => hbrace (heq ▸ hc)]
  simp

/-- Where no name holds a `$`, every variable of a text is among the names it interpolates. -/
theorem mem_interpolatedIn {text : String} {tail : List Char}
    (hnames : ∀ name ∈ interpolatedIn text, '$' ∉ name.toList)
    (htail : ['$', '{'] ++ tail <:+ text.toList) :
    String.ofList (tail.takeWhile inName) ∈ interpolatedIn text := by
  refine List.mem_map.2 ⟨tail, ?_, rfl⟩
  refine Scan.mem_scan_of_notMem unbordered_dollar (fun q => List.dropWhile_suffix inName)
    (fun q hq => ?_) htail
  have hname := hnames _ (List.mem_map_of_mem hq)
  rw [String.toList_ofList] at hname
  exact ⟨q.takeWhile inName, List.takeWhile_append_dropWhile.symm, hname⟩

theorem eq_of_isExactVarInterpolation {s var : String} (h : isExactVarInterpolation s = some var) :
    s = "$\x7b" ++ var ++ "\x7d" := by
  unfold isExactVarInterpolation at h
  obtain ⟨inner, hinner, h⟩ := Option.bind_eq_some_iff.1 h
  obtain ⟨rest, hrest, h⟩ := Option.bind_eq_some_iff.1 h
  split_ifs at h
  obtain rfl := Option.some.inj h
  rw [Text.stripPrefix_eq_some] at hinner
  rw [Text.stripSuffix_eq_some] at hrest
  rw [← String.toList_inj, String.toList_append, String.toList_append, hinner, hrest,
    List.append_assoc]

/-- A URL that begins before the authority of another one has ended. -/
def RunTogether (text after : List Char) : Prop :=
  ∃ lead, [':', '/', '/'] ++ (lead ++ ([':', '/', '/'] ++ after)) <:+ text ∧
    ∀ c ∈ lead, authorityEnd c = false

/-- A text that is not refused names no refused host in a URL that stands alone, read up to what
ends an authority in a text. -/
theorem refusedHost_of_refusedTarget {text : String} {after : List Char}
    (h : refusedTarget text = none) (hafter : [':', '/', '/'] ++ after <:+ text.toList)
    (halone : ¬RunTogether text.toList after) :
    refusedHost (hostPortOf (after.takeWhile (!authorityEnd ·))) = none := by
  unfold refusedTarget at h
  rw [List.findSome?_eq_none_iff] at h
  have hskip : ∀ q : List Char, q.dropWhile (!authorityEnd ·) <:+ q := fun q =>
    List.dropWhile_suffix _
  rcases Scan.mem_scan unbordered_scheme (by simp) hskip hafter with hmem | ⟨q, hq, hsuffix, hpassed⟩
  · exact h after hmem
  · obtain ⟨lead, rfl, -, hlead⟩ := Scan.exists_lead hsuffix hpassed
    exact (halone ⟨lead, Scan.suffix_of_mem_scanFrom hskip hq, by simpa using hlead⟩).elim

theorem refusedHost_of_refusedAddress {path text : String} (h : refusedAddress path text = none)
    (hkey : namesHosts (lastKey path) = true) : ∀ part ∈ listedHosts text, refusedHost part = none := by
  rw [refusedAddress, if_pos hkey, List.findSome?_eq_none_iff] at h
  exact h

end JoinedContext.Sources

import JoinedContext.Sources.Checked

/-!
# The sandbox of a data source

What a data source must not reach once the runner has it: a variable, a file, a host or a secret
that is not its project's. Its checks hold it to most of this. What they leave to the author are the
secret fields of an input inside another one, the variables of a file's path, and the hosts that no
walk over the texts comes to.
-/

namespace JoinedContext.Sources

variable {checks : Checks} {runner : Runner} {files : String}

/-- The host and port of a URL, of what follows its scheme. -/
def urlHost (after : List Char) : String :=
  hostPortOf (after.takeWhile fun c => c ∉ ['/', '?', '#'])

namespace DataSourceSpec

variable {spec : DataSourceSpec}

/-- An input of the source: its own, or one nested in it at any depth. -/
def HasInput (spec : DataSourceSpec) (x : Input) : Prop :=
  ∃ name input, spec.sourceType = .runner name ∧ spec.input = some input ∧ Nested (name, input) x

/-- The texts the runner fills the variables of: those of the input, or of a typed connection. -/
def filled (spec : DataSourceSpec) : List String :=
  (spec.input.toList ++ spec.blocks.map Prod.snd).flatMap Value.texts

/-- The variables a source may read. -/
def permitted (spec : DataSourceSpec) : List String :=
  if spec.runnerName.isSome then spec.envVars else URL_VARIABLES

/-- A string of the input under its key. -/
def HasText (spec : DataSourceSpec) (key text : String) : Prop :=
  ∃ input, spec.input = some input ∧ HasString "input" input key text

/-- A text that may be a URL: any string of the input, or a URL of a typed connection. -/
def HasUrl (spec : DataSourceSpec) (text : String) : Prop :=
  text ∈ spec.urls ∨ ∃ key, spec.HasText key text

/-- A data source in its sandbox. -/
structure Sandboxed (runner : Runner) (files : String) (spec : DataSourceSpec) : Prop where
  reads : ∀ text ∈ spec.filled, ∀ name, Reads text name → name ∈ spec.permitted
  secrets : ∀ x, spec.HasInput x → ∀ path ∈ secretFields x.1, ∀ target,
    FieldAt (segmentsOf path) x.2 target → HoldsSecret spec.envVars target
  admitted : ∀ x, spec.HasInput x → x.1 ∉ REFUSED_INPUTS
  files : ∀ x, spec.HasInput x → ∀ file, runner.Opens x file →
    ∀ env, Below files (Interpolate.expand env file)
  urls : ∀ text, spec.HasUrl text → ∀ after, [':', '/', '/'] ++ after <:+ text.toList →
    ¬runner.NamesInside (urlHost after)
  hosts : ∀ key text, spec.HasText key text → runner.hostFields key = true →
    ∀ part ∈ listedHosts text, ¬runner.NamesInside part

/-- A URL that is not read to the end of its authority: a quote or a blank ends it for the check, or
it begins inside the authority of another one. -/
def CutShort (text after : List Char) : Prop :=
  (after.takeWhile (!authorityEnd ·) ≠ after.takeWhile fun c => c ∉ ['/', '?', '#']) ∨
    RunTogether text after

/-- What the checks of a data source leave to its author. -/
structure LeftToAuthor (runner : Runner) (files : String) (spec : DataSourceSpec) : Prop where
  secrets : ∀ x y, spec.HasInput x → Child x y → ∀ path ∈ secretFields y.1, ∀ target,
    FieldAt (segmentsOf path) y.2 target → HoldsSecret spec.envVars target
  checked : ∀ x, spec.HasInput x → ∀ file, runner.Opens x file →
    file ∈ (checkedFiles x).map Prod.snd → Interpolate.literal file = true
  unchecked : ∀ x, spec.HasInput x → ∀ file, runner.Opens x file →
    file ∉ (checkedFiles x).map Prod.snd → ∀ env, Below files (Interpolate.expand env file)
  urls : ∀ text, spec.HasUrl text → ∀ after, [':', '/', '/'] ++ after <:+ text.toList →
    CutShort text.toList after → ¬runner.NamesInside (urlHost after)
  hosts : ∀ key text, spec.HasText key text → runner.hostFields key = true →
    namesHosts (lastKey key) = false → ∀ part ∈ listedHosts text, ¬runner.NamesInside part

/-! ## What the checks hold -/

theorem runnerName_eq_some {name : String} :
    spec.runnerName = some name ↔ spec.sourceType = .runner name := by
  unfold runnerName
  split <;> simp_all

theorem blocks_of_runner {name : String} (h : spec.validateReadingFiles checks files = .ok ())
    (hsource : spec.sourceType = .runner name) : ∀ block ∈ spec.blocks, block.2 = .null := by
  have hpresent := present_of_validateType (validateReadingFiles_eq_ok h).1
  rw [hsource, blockOf, present] at hpresent
  simp only [List.append_eq_nil_iff, ite_eq_right_iff, List.cons_ne_nil, imp_false,
    Bool.not_eq_true, Option.isSome_eq_false_iff, Option.isNone_iff_eq_none] at hpresent
  obtain ⟨⟨⟨hmqtt, hhttp⟩, hsocket⟩, hgtfs⟩ := hpresent
  simp [blocks, hmqtt, hhttp, hsocket, hgtfs]

theorem mem_permitted_of_reads (h : spec.validateReadingFiles checks files = .ok ()) :
    ∀ text ∈ spec.filled, ∀ name, Reads text name → name ∈ spec.permitted := by
  intro text htext name hreads
  obtain ⟨v, hv, hmem⟩ := List.mem_flatMap.1 htext
  rw [List.mem_append, Option.mem_toList, List.mem_map] at hv
  cases hname : spec.runnerName with
  | none =>
    have hinput : spec.input = none := input_eq_none h fun n hn => by
      rw [runnerName_eq_some.2 hn] at hname
      cases hname
    rcases hv with hv | ⟨block, hblock, rfl⟩
    · rw [hinput] at hv
      cases hv
    · rw [permitted, hname]
      exact mem_urlVariables_of_reads hmem (refusedRunnerRead_of_mem_blocks h block hblock) hreads
  | some n =>
    have hsource := runnerName_eq_some.1 hname
    rcases hv with hv | ⟨block, hblock, rfl⟩
    · have hchecked := runnerChecked h hsource hv
      rw [permitted, hname]
      exact mem_of_reads (fun n hn => hchecked.names n (List.mem_flatMap.2 ⟨text, hmem, hn⟩))
        hchecked.plain hreads
    · rw [blocks_of_runner h hsource block hblock] at hmem
      simp [Value.texts] at hmem

theorem hosts_of_hasText (h : spec.validateReadingFiles checks files = .ok ()) {key text : String}
    (htext : spec.HasText key text) :
    refusedTarget text = none ∧
      (namesHosts (lastKey key) = true → ∀ part ∈ listedHosts text, refusedHost part = none) := by
  obtain ⟨input, hinput, hstring⟩ := htext
  cases hname : spec.runnerName with
  | none =>
    have hnone : spec.input = none := input_eq_none h fun n hn => by
      rw [runnerName_eq_some.2 hn] at hname
      cases hname
    rw [hnone] at hinput
    cases hinput
  | some n =>
    have hchecked := runnerChecked h (runnerName_eq_some.1 hname) hinput
    obtain ⟨path, hpath, hkey⟩ := exists_of_hasString hstring "spec.input" (by decide)
    have hvalid : validateInputString checks path text = .ok () :=
      forM_eq_ok.1 hchecked.strings _ hpath
    rw [validateInputString, andThen_eq_ok, andThen_eq_ok,
      elim_refuse_eq_ok fun _ => refuseInvalid_ne_ok, Option.or_eq_none_iff] at hvalid
    refine ⟨hvalid.2.1.1, fun hnames => ?_⟩
    exact refusedHost_of_refusedAddress hvalid.2.1.2 (hkey ▸ hnames)

theorem refusedTarget_of_hasUrl (h : spec.validateReadingFiles checks files = .ok ()) {text : String}
    (htext : spec.HasUrl text) : refusedTarget text = none := by
  rcases htext with hurl | ⟨key, htext⟩
  · exact refusedTarget_of_mem_urls h text hurl
  · exact (hosts_of_hasText h htext).1

/-- A path that reads a variable leads out of every folder in some environment. -/
theorem exists_not_below {file : String} (h : Interpolate.literal file = false) :
    ∃ env, ¬Below files (Interpolate.expand env file) := by
  obtain ⟨before, after, hexpand⟩ := Interpolate.exists_expand_eq h "/../"
  refine ⟨fun _ => some "/../", fun hbelow => hbelow.2 ?_⟩
  have hslash : ∀ s t : String, Text.splitAny ['/'] (s ++ "/" ++ t) =
      Text.splitAny ['/'] s ++ Text.splitAny ['/'] t := fun s t =>
    Text.splitAny_append (List.mem_singleton_self '/') s t
  have hsplit : before ++ "/../" ++ after = before ++ "/" ++ (".." ++ "/" ++ after) := by
    rw [← String.toList_inj]
    simp
  have hup : Text.splitAny ['/'] ".." = [".."] := by decide
  rw [hexpand, hsplit, hslash, hslash, hup]
  simp

/-- The URL and host rules hold wherever a walk comes to the host as the runner reads it. -/
theorem not_namesInside_of_url (h : spec.validateReadingFiles checks files = .ok ()) {text : String}
    {after : List Char} (htext : spec.HasUrl text)
    (hafter : [':', '/', '/'] ++ after <:+ text.toList) (hcut : ¬CutShort text.toList after) :
    ¬runner.NamesInside (urlHost after) := by
  rw [CutShort, not_or, not_not] at hcut
  have hhost := refusedHost_of_refusedTarget (refusedTarget_of_hasUrl h htext) hafter hcut.2
  rw [hcut.1] at hhost
  exact runner.not_namesInside hhost

/-- A checked data source is in its sandbox exactly where what its checks leave to the author is. -/
theorem sandboxed_iff_of_checked (h : spec.validateReadingFiles checks files = .ok ()) :
    Sandboxed runner files spec ↔ LeftToAuthor runner files spec := by
  constructor
  · intro hsandboxed
    refine ⟨fun x y hx hchild => ?_, fun x hx file hfile hmem => ?_, fun x hx file hfile _ =>
      hsandboxed.files x hx file hfile, fun text htext after hafter _ =>
      hsandboxed.urls text htext after hafter, fun key text htext hkey _ =>
      hsandboxed.hosts key text htext hkey⟩
    · obtain ⟨name, input, hsource, hinput, hnested⟩ := hx
      exact hsandboxed.secrets y ⟨name, input, hsource, hinput, hnested.tail hchild⟩
    · by_contra hvar
      obtain ⟨env, hout⟩ := exists_not_below (Bool.not_eq_true _ ▸ hvar)
      exact hout (hsandboxed.files x hx file hfile env)
  · intro hleft
    have htree : ∀ x, spec.HasInput x → x.1 ∉ REFUSED_INPUTS ∧ validateFiles x files = .ok () := by
      rintro x ⟨name, input, hsource, hinput, hnested⟩
      have hchecked := runnerChecked h hsource hinput
      obtain ⟨hvalid, hrefused⟩ := validateInputTree_of_nested hchecked.tree hnested
      exact ⟨hrefused hchecked.admitted, validateFiles_of_validateInputTree hvalid⟩
    refine ⟨mem_permitted_of_reads h, fun x hx => ?_, fun x hx => (htree x hx).1,
      fun x hx file hfile env => ?_, fun text htext after hafter => ?_,
      fun key text htext hkey part hpart => ?_⟩
    · obtain ⟨name, input, hsource, hinput, hnested⟩ := hx
      rcases Relation.ReflTransGen.cases_tail hnested with rfl | ⟨outer, houter, hchild⟩
      · exact (runnerChecked h hsource hinput).secrets
      · exact hleft.secrets outer x ⟨name, input, hsource, hinput, houter⟩ hchild
    · by_cases hmem : file ∈ (Sources.checkedFiles x).map Prod.snd
      · rw [Interpolate.expand_of_literal (hleft.checked x hx file hfile hmem)]
        obtain ⟨c, hc, rfl⟩ := List.mem_map.1 hmem
        exact below_of_validateFiles (htree x hx).2 c hc
      · exact hleft.unchecked x hx file hfile hmem env
    · by_cases hcut : CutShort text.toList after
      · exact hleft.urls text htext after hafter hcut
      · exact not_namesInside_of_url h htext hafter hcut
    · cases hnames : namesHosts (lastKey key) with
      | true =>
        exact runner.not_namesInside ((hosts_of_hasText h htext).2 hnames part hpart)
      | false => exact hleft.hosts key text htext hkey hnames part hpart

/-- A data source that validates in a project is in its sandbox exactly where what the checks leave
to the author is. -/
theorem sandboxed_iff (checks : Checks) (runner : Runner) (metadata : ObjectMeta) (project : String)
    (spec : DataSourceSpec) (hproject : metadata.namespace = some project)
    (hvalid : spec.validateSpec checks metadata = .ok ()) :
    Sandboxed runner (projectFolder project) spec ↔
      LeftToAuthor runner (projectFolder project) spec := by
  rw [validateSpec, andThen_eq_ok, hproject] at hvalid
  exact sandboxed_iff_of_checked hvalid.2

def sampleKafka (password : String) : Value :=
  .obj [("addresses", .arr [.str "broker.example.org:9092"]), ("topics", .arr [.str "rides"]),
    ("sasl", .obj [("mechanism", .str "PLAIN"), ("user", .str "feed"),
      ("password", .str password)])]

/-- The children of a broker input: a file of the project, and a feed with a password. -/
def sampleChildren (password : String) : List Value :=
  [.obj [("csv", .obj [("paths", .arr [.str "/data/espoo/stops.csv"])])],
    .obj [("kafka", sampleKafka password)]]

def sampleFeeds (password : String) : DataSourceSpec where
  sourceType := .runner "broker"
  mqtt := none
  http := none
  webSocket := none
  gtfsRt := none
  tls := none
  input := some (.obj [("inputs", .arr (sampleChildren password))])
  secrets := [⟨"feed-kafka", some "password", some "KAFKA_PASSWORD"⟩]
  personalFields := []

def sampleChecks : Checks := ⟨fun _ _ => .ok (), fun _ _ _ => .ok (), fun _ => []⟩

def sampleRunner : Runner where
  fileFields name := if readsFiles name then ["path", "paths"] else []
  hostFields := namesHosts
  resolve := IpAddr.parse
  resolve_parse h := h
  resolve_numeric h hnone := by
    rw [hnone] at h
    cases h

def sampleMeta : ObjectMeta := ⟨"rides", some "espoo"⟩

set_option maxRecDepth 8000 in
theorem sandboxed_feeds :
    (sampleFeeds "$\x7bKAFKA_PASSWORD\x7d").validateSpec sampleChecks sampleMeta = .ok () ∧
      (Sandboxed sampleRunner "/data/espoo/" (sampleFeeds "$\x7bKAFKA_PASSWORD\x7d") ↔
        LeftToAuthor sampleRunner "/data/espoo/" (sampleFeeds "$\x7bKAFKA_PASSWORD\x7d")) := by
  have hvalid : (sampleFeeds "$\x7bKAFKA_PASSWORD\x7d").validateSpec sampleChecks sampleMeta =
      .ok () := by decide +kernel
  exact ⟨hvalid, sandboxed_iff sampleChecks sampleRunner sampleMeta "espoo" _ rfl hvalid⟩

set_option maxRecDepth 8000 in
theorem not_sandboxed : ¬∀ (checks : Checks) (runner : Runner) (metadata : ObjectMeta)
    (project : String) (spec : DataSourceSpec), metadata.namespace = some project →
      spec.validateSpec checks metadata = .ok () →
        Sandboxed runner (projectFolder project) spec := by
  intro h
  have hsandboxed := h sampleChecks sampleRunner sampleMeta "espoo" (sampleFeeds "hunter2") rfl
    (by decide +kernel)
  have hnested : (sampleFeeds "hunter2").HasInput ("kafka", sampleKafka "hunter2") := by
    refine ⟨"broker", _, rfl, rfl, .single ⟨[("kafka", sampleKafka "hunter2")], ?_, ?_, by decide⟩⟩
    · have hchildren : nestedValues ("broker", .obj [("inputs", .arr (sampleChildren "hunter2"))]) =
          sampleChildren "hunter2" := by decide +kernel
      rw [hchildren]
      exact List.mem_cons_of_mem _ List.mem_cons_self
    · exact List.mem_cons_self
  obtain ⟨var, hvar, heq⟩ := hsandboxed.secrets _ hnested "sasl.password" (by decide +kernel)
    (.str "hunter2") (by
      rw [show segmentsOf "sasl.password" = ["sasl", "password"] by decide]
      exact .field (by decide) rfl (.field (by decide) rfl .here))
  obtain rfl : var = "KAFKA_PASSWORD" := by simpa [envVars, sampleFeeds] using hvar
  exact absurd (Value.str.inj heq) (by decide)

end DataSourceSpec

end JoinedContext.Sources

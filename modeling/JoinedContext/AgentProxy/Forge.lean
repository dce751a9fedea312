import JoinedContext.AgentProxy.Proxy
import JoinedContext.Core.Json
import JoinedContext.Library.Assoc

/-!
# The forge door

A run reads and writes its directory, creates its branch and its pull request, and reads what it
proposed, all with the platform's own token. The door judges the path it has decoded, pins the body of
a write to the run, and looks once more at the URL as it is parsed.
-/

namespace JoinedContext.AgentProxy

abbrev Members := List (String × Value)

/-- The configured forge: where it is, and the configuration repository's owner and name. Its own
path is not that of the interface below it. -/
structure Forge where
  base : Address := {}
  owner : Segment
  name : Segment
  clean : ∀ s ∈ base.path ++ [owner, name], Clean s
  base_ne : base.path.head? ≠ some "api".toList := by simp

def CONTENT_WRITES : List Method := [.post, .put, .delete]

/-- The body fields a `contents/` write may carry. -/
def CONTENT_FIELDS : List String := ["content", "sha", "message", "branch", "author", "committer"]

/-- The segments no run writes or reads below. -/
def HIDDEN : List Segment := [".gitea".toList, ".github".toList]

structure ForgeRequest where
  method : Method
  rest : String
  query : List Char := []

/-- What the rest of the proxy answers for a request. -/
structure ForgeAnswers where
  authenticated : Except Refusal RunContext
  body : Except Refusal (List UInt8)
  /-- The body as JSON, or why it is none. -/
  fromSlice : List UInt8 → Except String Value

/-- The operations the door knows. -/
inductive Operation where
  | file (path : String)
  | createBranch
  | createPull
  | inspect
deriving DecidableEq

def operationOf (method : Method) (rest : String) : Except Refusal Operation :=
  match Text.stripPrefix "contents/" rest with
  | some path => .ok (.file path)
  | none =>
    if rest = "branches" ∧ method = .post then .ok .createBranch
    else if rest = "pulls" ∧ method = .post then .ok .createPull
    else if ((Text.stripPrefix "pulls/" rest).isSome ∨ (Text.stripPrefix "commits/" rest).isSome) ∧
        method = .get then .ok .inspect
    else .error ⟨403, "forge operation not permitted"⟩

def isAsciiWhitespace (b : UInt8) : Bool := b ∈ [9, 10, 12, 13, 32]

def objectBody (answers : ForgeAnswers) (bytes : List UInt8) : Except Refusal Members :=
  if bytes.all isAsciiWhitespace then .ok []
  else match answers.fromSlice bytes with
    | .ok (.obj members) => .ok members
    | .ok _ => .error ⟨400, "this forge operation takes a JSON object as its body"⟩
    | .error error => .error ⟨400, "the body is not JSON: " ++ error⟩

/-- A directory without the slashes it ends in; none where nothing is left of it. -/
def directoryOf (pathPrefix : String) : Option (List Char) :=
  let trimmed := pathPrefix.toList.rdropWhile (· == '/')
  if trimmed = [] then none else some trimmed

/-- The run's agent, as author and committer. -/
def agentOf (run : RunContext) : Value :=
  .obj [("name", .str ("agent:app-builder@" ++ run.project)),
    ("email", .str ("agent-builder@" ++ run.project ++ ".local"))]

/-- The message with the proposer's trailer, unless it has one. -/
def withTrailer (run : RunContext) (members : Members) : Members :=
  let message := ((members.lookup "message").bind Value.asStr).getD "agent commit"
  if Text.contains "Co-Proposed-By:" message then members
  else Assoc.put "message" (.str (message ++ "\n\nCo-Proposed-By: " ++ run.createdBy)) members

/-- A `contents/` write's body pinned to the run. -/
def pinnedWrite (answers : ForgeAnswers) (run : RunContext) (bytes : List UInt8) :
    Except Refusal Members := do
  let members ← objectBody answers bytes
  match (members.map Prod.fst).find? fun key => key ∉ CONTENT_FIELDS with
  | some field => .error ⟨400, "a file write carries only content, sha and message; '" ++ field ++
      "' is refused"⟩
  | none => .ok (withTrailer run (Assoc.put "committer" (agentOf run)
      (Assoc.put "author" (agentOf run) (Assoc.put "branch" (.str run.branch) members))))

/-- The pair a file read's query adds, if it asks for the run's own branch. -/
def readRefOf (query : List Char) (branch : String) : Except Refusal (List (String × String)) :=
  let pairs := Url.queryPairs query
  match pairs.find? fun pair => pair.1 ≠ "ref" ∨ pair.2 ≠ branch ∨ branch = "" with
  | some (key, value) => .error ⟨403, "a file read takes only ref=" ++ branch ++
      ", the run's own branch; '" ++ key ++ "=" ++ value ++ "' is refused"⟩
  | none => .ok (if pairs = [] then [] else [("ref", branch)])

/-- What an operation sends besides the path: the pinned body, and the pairs added to the query. -/
structure Prepared where
  pinned : Option Members := none
  added : List (String × String) := []

def noDirectory : Refusal :=
  ⟨403, "this run has no application directory, so it reaches no file in the forge"⟩

def requireDirectory (run : RunContext) : Except Refusal (List Char) :=
  match directoryOf run.pathPrefix with
  | some directory => .ok directory
  | none => .error noDirectory

/-- The file's path is checked, below the directory and under nothing hidden. -/
def checkFile (directory : List Char) (path : String) : Except Refusal Unit := do
  refuseIf (escapes path ∨ ¬ (directory ++ ['/']).isPrefixOf path.toList) 403
    "file path outside assigned application directory"
  refuseIf ((segmentsOf path).any HIDDEN.contains) 403
    "a run never writes under .gitea/ or .github/: the build is the Portal's (AP-100)"

def prepareFile (answers : ForgeAnswers) (run : RunContext) (req : ForgeRequest)
    (bytes : List UInt8) : Except Refusal Prepared :=
  if req.method ∈ CONTENT_WRITES then do
    let members ← pinnedWrite answers run bytes
    return { pinned := some members }
  else do
    let added ← readRefOf req.query run.branch
    return { added }

def prepareBranch (answers : ForgeAnswers) (run : RunContext) (bytes : List UInt8) :
    Except Refusal Prepared := do
  let members ← objectBody answers bytes
  refuseIf ((members.lookup "new_branch_name").bind Value.asStr ≠ some run.branch) 403
    "cannot create branches other than run assigned branch"
  return { pinned := some members }

def preparePull (answers : ForgeAnswers) (run : RunContext) (bytes : List UInt8) :
    Except Refusal Prepared := do
  let members ← objectBody answers bytes
  return { pinned := some (Assoc.put "head" (.str run.branch) members) }

def prepare (answers : ForgeAnswers) (run : RunContext) (req : ForgeRequest) (bytes : List UInt8) :
    Operation → Except Refusal Prepared
  | .file path => do
    let directory ← requireDirectory run
    checkFile directory path
    prepareFile answers run req bytes
  | .createBranch => do
    let _ ← requireDirectory run
    prepareBranch answers run bytes
  | .createPull => do
    let _ ← requireDirectory run
    preparePull answers run bytes
  | .inspect => do
    refuseIf (escapes req.rest) 403
      "a forge read names its pull request or commit, and no path out of it"
    return {}

/-- The run's one repository: its project's own, or the configuration repository. -/
def repositoryOf (forge : Forge) (run : RunContext) : Except Refusal (List Segment) :=
  run.repository.elim (.ok [forge.owner, forge.name]) fun name =>
    if name = "" ∨ name.toList.any fun c => c ∈ ['/', '.', '%', '\\'] then
      .error ⟨403, "the run names no repository this door reaches"⟩
    else .ok [forge.owner, name.toList]

def apiPath : List Segment := ["api".toList, "v1".toList, "repos".toList]

/-- The request the door sends: the operation it was judged as, the URL as it is parsed, the pairs
its query ends with, and the pinned body or the one that arrived. -/
structure ForgeSent where
  run : RunContext
  operation : Operation
  method : Method
  /-- The repository's path. -/
  root : List Segment
  url : Url
  added : List (String × String)
  pinned : Option Members
  body : List UInt8

def checkRepository (root : List Segment) (url : Url) : Except Refusal Unit :=
  refuseIf (¬ (Url.parse (Url.write root ++ ['/'])).pathText.isPrefixOf url.pathText) 403
    "the forge operation leaves the run's repository"

/-- Where a file is addressed, the URL is in the directory. -/
def checkDirectory (repository : List Segment) (directory : Option (List Char)) (url : Url) :
    Operation → Except Refusal Unit
  | .file _ =>
    let inside := Url.write (apiPath ++ repository ++ ["contents".toList]) ++
      '/' :: directory.elim [] (· ++ ['/'])
    refuseIf (¬ inside.isPrefixOf url.pathText) 403
      "file path outside assigned application directory"
  | _ => .ok ()

def forgeHandler (forge : Forge) (answers : ForgeAnswers) (req : ForgeRequest) :
    Except Refusal ForgeSent := do
  let run ← answers.authenticated
  let body ← answers.body
  let operation ← operationOf req.method req.rest
  let prepared ← prepare answers run req body operation
  let repository ← repositoryOf forge run
  let root := forge.base.path ++ apiPath ++ repository
  let url := Url.parse (Url.write root ++ '/' :: req.rest.toList.dropWhile (· == '/'))
  checkRepository root url
  checkDirectory repository (directoryOf run.pathPrefix) url operation
  return {
    run, operation, root, url, body
    method := req.method
    added := prepared.added
    pinned := prepared.pinned }

/-! ## What a run is confined to -/

/-- The URL of a path below a repository. -/
def urlBelow (root : List Segment) (rest : String) : Url :=
  Url.parse (Url.write root ++ '/' :: rest.toList.dropWhile (· == '/'))

/-- The segments below the repository, as a path sent there is parsed. -/
def below (root : List Segment) (rest : String) : List Segment :=
  (urlBelow root rest).path.drop root.length

/-- The pairs of the query a path sent there comes with. -/
def ownPairs (root : List Segment) (rest : String) : List (String × String) :=
  Url.queryPairs ((urlBelow root rest).query.getD [])

def ForgeSent.pairs (sent : ForgeSent) : List (String × String) :=
  Url.queryPairs (sent.url.query.getD []) ++ sent.added

/-- The body has the run's branch, author and committer and no other option. -/
def Pinned (run : RunContext) (members : Members) : Prop :=
  members.lookup "branch" = some (.str run.branch) ∧
    members.lookup "author" = some (agentOf run) ∧
    members.lookup "committer" = some (agentOf run) ∧ ∀ key ∈ members.map Prod.fst, key ∈ CONTENT_FIELDS

/-- The run is confined in the forge; `ofBranch` is whether the pull request or the commit that two
segments name is one of the branch. -/
structure Confined (ofBranch : String → Segment → Segment → Prop) (sent : ForgeSent) : Prop where
  repository : sent.root <+: sent.url.path ∧ sent.root.length < sent.url.path.length
  directory : ∀ path, sent.operation = .file path →
    ∃ directory, directoryOf sent.run.pathPrefix = some directory ∧
      "contents".toList :: directory.splitOnP (· == '/') <+: sent.url.path.drop sent.root.length ∧
      ∀ s ∈ sent.url.path.drop sent.root.length, s ∉ HIDDEN
  write : ∀ path, sent.operation = .file path → sent.method ∈ CONTENT_WRITES →
    sent.pairs = [] ∧ ∃ members, sent.pinned = some members ∧ Pinned sent.run members
  read : ∀ path, sent.operation = .file path → sent.method ∉ CONTENT_WRITES →
    ∀ pair ∈ sent.pairs, pair.1 = "ref" → pair.2 = sent.run.branch
  branch : sent.operation = .createBranch → ∃ members, sent.pinned = some members ∧
    members.lookup "new_branch_name" = some (.str sent.run.branch)
  pull : sent.operation = .createPull → ∃ members, sent.pinned = some members ∧
    members.lookup "head" = some (.str sent.run.branch)
  inspect : sent.operation = .inspect → ∃ kind name more,
    sent.url.path.drop sent.root.length = kind :: name :: more ∧ ofBranch sent.run.branch kind name

/-- What the path of a request may still say once it is parsed: a file's is under nothing hidden, a
written file's has no query and a read file's no `ref` but the run's branch, and a pull request or a
commit is one of the branch. -/
structure Harmless (ofBranch : String → Segment → Segment → Prop) (branch : String)
    (root : List Segment) (req : ForgeRequest) : Prop where
  hidden : (Text.stripPrefix "contents/" req.rest).isSome → ∀ s ∈ below root req.rest, s ∉ HIDDEN
  write : (Text.stripPrefix "contents/" req.rest).isSome → req.method ∈ CONTENT_WRITES →
    ownPairs root req.rest = []
  read : (Text.stripPrefix "contents/" req.rest).isSome → req.method ∉ CONTENT_WRITES →
    ∀ pair ∈ ownPairs root req.rest, pair.1 = "ref" → pair.2 = branch
  inspect : operationOf req.method req.rest = .ok .inspect → ∃ kind name more,
    below root req.rest = kind :: name :: more ∧ ofBranch branch kind name

section Handler

variable {forge : Forge} {answers : ForgeAnswers} {req : ForgeRequest} {sent : ForgeSent}
  {run : RunContext} {bytes : List UInt8} {members : Members} {prepared : Prepared}

theorem operationOf_eq_file {method : Method} {rest path : String}
    (h : operationOf method rest = .ok (.file path)) :
    Text.stripPrefix "contents/" rest = some path := by
  unfold operationOf at h
  cases hpath : Text.stripPrefix "contents/" rest with
  | some other =>
    rw [hpath] at h
    cases h
    rfl
  | none =>
    rw [hpath] at h
    simp only [] at h
    split_ifs at h <;> cases h

theorem clean_root {repository : List Segment} (h : repositoryOf forge run = .ok repository) :
    ∀ s ∈ forge.base.path ++ apiPath ++ repository, Clean s := by
  have hapi : ∀ s ∈ apiPath, Clean s := by
    intro s hs
    simp only [apiPath, List.mem_cons, List.not_mem_nil, or_false] at hs
    rcases hs with rfl | rfl | rfl <;> exact clean_of_all (by decide) (by decide) (by decide)
  have hrepository : ∀ s ∈ repository, Clean s := by
    unfold repositoryOf at h
    cases hrun : run.repository with
    | none =>
      rw [hrun] at h
      cases h
      exact fun s hs => forge.clean s (List.mem_append_right _ hs)
    | some name =>
      rw [hrun, Option.elim_some] at h
      split_ifs at h with hname
      cases h
      have hdot : '.' ∉ name.toList := fun hmem => hname (Or.inr (List.any_eq_true.2 ⟨'.', hmem, by decide⟩))
      intro s hs
      simp only [List.mem_cons, List.not_mem_nil, or_false] at hs
      rcases hs with rfl | rfl
      · exact forge.clean _ (List.mem_append_right _ List.mem_cons_self)
      · exact clean_of_isRepositoryName (run.repository_valid name hrun) hdot
  intro s hs
  rcases List.mem_append.1 hs with hs | hs
  · rcases List.mem_append.1 hs with hs | hs
    · exact forge.clean s (List.mem_append_left _ hs)
    · exact hapi s hs
  · exact hrepository s hs

theorem mem_keys_put {key : String} {value : Value} {k : String} :
    k ∈ (Assoc.put key value members).map Prod.fst ↔ k = key ∨ k ∈ members.map Prod.fst := by
  rw [← Assoc.lookup_isSome_iff, ← Assoc.lookup_isSome_iff, Assoc.lookup_put]
  split_ifs with hk <;> simp [hk]

theorem pinned_of_pinnedWrite (h : pinnedWrite answers run bytes = .ok members) :
    Pinned run members := by
  unfold pinnedWrite at h
  obtain ⟨body, -, h⟩ := bind_eq_ok.1 h
  cases hfield : (body.map Prod.fst).find? fun key => key ∉ CONTENT_FIELDS with
  | some field =>
    rw [hfield] at h
    cases h
  | none =>
    rw [hfield] at h
    cases h
    have hbody : ∀ key ∈ body.map Prod.fst, key ∈ CONTENT_FIELDS := fun key hkey => by
      simpa using List.find?_eq_none.1 hfield key hkey
    have hpinned : Pinned run (Assoc.put "committer" (agentOf run)
        (Assoc.put "author" (agentOf run) (Assoc.put "branch" (.str run.branch) body))) := by
      refine ⟨?_, ?_, ?_, fun key hkey => ?_⟩
      · simp [Assoc.lookup_put]
      · simp [Assoc.lookup_put]
      · simp [Assoc.lookup_put]
      · rw [mem_keys_put, mem_keys_put, mem_keys_put] at hkey
        rcases hkey with rfl | rfl | rfl | hkey
        · decide
        · decide
        · decide
        · exact hbody key hkey
    unfold withTrailer
    simp only []
    split_ifs
    · exact hpinned
    · obtain ⟨hbranch, hauthor, hcommitter, hkeys⟩ := hpinned
      refine ⟨?_, ?_, ?_, fun key hkey => ?_⟩
      · rw [Assoc.lookup_put, if_neg (by decide), hbranch]
      · rw [Assoc.lookup_put, if_neg (by decide), hauthor]
      · rw [Assoc.lookup_put, if_neg (by decide), hcommitter]
      · rcases mem_keys_put.1 hkey with rfl | hkey
        · decide
        · exact hkeys key hkey

/-- The pairs added to a query name the run's own branch. -/
theorem mem_readRefOf {query : List Char} {branch : String} {added : List (String × String)}
    (h : readRefOf query branch = .ok added) : ∀ pair ∈ added, pair.2 = branch := by
  unfold readRefOf at h
  simp only [] at h
  cases hbad : (Url.queryPairs query).find? fun pair => pair.1 ≠ "ref" ∨ pair.2 ≠ branch ∨
      branch = "" with
  | some pair =>
    rw [hbad] at h
    cases h
  | none =>
    rw [hbad] at h
    cases h
    intro pair hpair
    split_ifs at hpair
    · cases hpair
    · rw [List.mem_singleton.1 hpair]

/-! ### What is prepared -/

theorem prepareFile_eq_ok (h : prepareFile answers run req bytes = .ok prepared) :
    (req.method ∈ CONTENT_WRITES → prepared.added = [] ∧
      ∃ members, prepared.pinned = some members ∧ Pinned run members) ∧
    ∀ pair ∈ prepared.added, pair.2 = run.branch := by
  unfold prepareFile at h
  split_ifs at h with hwrites
  · obtain ⟨members, hmembers, h⟩ := bind_eq_ok.1 h
    cases h
    exact ⟨fun _ => ⟨rfl, members, rfl, pinned_of_pinnedWrite hmembers⟩,
      fun pair hpair => by cases hpair⟩
  · obtain ⟨added, hadded, h⟩ := bind_eq_ok.1 h
    cases h
    exact ⟨fun hmem => (hwrites hmem).elim, mem_readRefOf hadded⟩

theorem prepare_file {path : String} (h : prepare answers run req bytes (.file path) = .ok prepared) :
    ∃ directory, directoryOf run.pathPrefix = some directory ∧
      escapes path = false ∧ directory ++ ['/'] <+: path.toList ∧
      prepareFile answers run req bytes = .ok prepared := by
  rw [prepare] at h
  obtain ⟨directory, hdirectory, h⟩ := bind_eq_ok.1 h
  obtain ⟨hcheck, h⟩ := andThen_eq_ok.1 h
  unfold checkFile at hcheck
  obtain ⟨hinside, -⟩ := andThen_eq_ok.1 hcheck
  rw [refuseIf_eq_ok, not_or, not_not] at hinside
  unfold requireDirectory at hdirectory
  cases hdir : directoryOf run.pathPrefix with
  | none =>
    rw [hdir] at hdirectory
    cases hdirectory
  | some d =>
    rw [hdir] at hdirectory
    cases hdirectory
    exact ⟨directory, rfl, by simpa using hinside.1, List.isPrefixOf_iff_prefix.1 hinside.2, h⟩

theorem prepare_createBranch (h : prepare answers run req bytes .createBranch = .ok prepared) :
    ∃ members, prepared.pinned = some members ∧
      members.lookup "new_branch_name" = some (.str run.branch) := by
  rw [prepare] at h
  obtain ⟨-, -, h⟩ := bind_eq_ok.1 h
  unfold prepareBranch at h
  obtain ⟨members, -, h⟩ := bind_eq_ok.1 h
  obtain ⟨hname, h⟩ := andThen_eq_ok.1 h
  cases h
  rw [refuseIf_eq_ok, not_not, Option.bind_eq_some_iff] at hname
  obtain ⟨value, hvalue, hstr⟩ := hname
  refine ⟨members, rfl, ?_⟩
  cases value <;> cases hstr
  exact hvalue

theorem prepare_createPull (h : prepare answers run req bytes .createPull = .ok prepared) :
    ∃ members, prepared.pinned = some members ∧
      members.lookup "head" = some (.str run.branch) := by
  rw [prepare] at h
  obtain ⟨-, -, h⟩ := bind_eq_ok.1 h
  unfold preparePull at h
  obtain ⟨members, -, h⟩ := bind_eq_ok.1 h
  cases h
  exact ⟨_, rfl, by rw [Assoc.lookup_put, if_pos rfl]⟩

/-! ### What is checked of the URL -/

theorem notMem_slash_parse {text : List Char} {s : Segment} (hs : s ∈ (Url.parse text).path) :
    '/' ∉ s := fun hc => absurd (Url.not_special_of_mem_parse hs hc) (by decide)

theorem inside_of_checkRepository {root : List Segment} {text : List Char}
    (hroot : ∀ s ∈ root, Clean s) (h : checkRepository root (Url.parse text) = .ok ()) :
    root <+: (Url.parse text).path ∧ root.length < (Url.parse text).path.length := by
  unfold checkRepository at h
  rw [refuseIf_eq_ok, not_not] at h
  have hwrite : Url.write root ++ ['/'] = Url.write (root ++ [[]]) ++ Url.writeQuery none := by
    rw [Url.write_append]
    simp [Url.write, Url.writeQuery]
  have hplain : ∀ s ∈ root ++ [[]], Clean s := fun s hs => by
    rcases List.mem_append.1 hs with hs | hs
    · exact hroot s hs
    · rw [List.mem_singleton.1 hs]
      exact ⟨⟨by simp, by decide⟩, by simp⟩
  have hparse : Url.parse (Url.write root ++ ['/']) = ⟨root ++ [[]], none, none⟩ := by
    rw [hwrite]
    refine Url.parse_write (by simp) (fun s hs => (hplain s hs).1) (by simp) fun _ c hc => ?_
    rw [Url.write_append] at hc
    simp only [Url.write, List.flatMap_cons, List.flatMap_nil, List.append_nil,
      List.getLast?_append_cons, List.getLast?_singleton, Option.some.injEq] at hc
    rw [← hc]
    decide
  have htext : (Url.parse (Url.write root ++ ['/'])).pathText = Url.write (root ++ [[]]) := by
    have hself : (root ++ [[]]).map Url.percentEncode = (root ++ [[]]).map id :=
      List.map_congr_left fun s hs =>
        Url.percentEncode_eq_self fun c hc => ((hplain s hs).2 c hc).1
    rw [hparse, Url.pathText, hself, List.map_id]
  rw [htext] at h
  refine Url.prefix_of_pathText (fun s hs => ⟨fun hc => ?_, fun hc => ?_⟩)
    (fun s hs => notMem_slash_parse hs) (List.isPrefixOf_iff_prefix.1 h)
  · exact absurd ((hroot s hs).1.1 _ hc) (by decide)
  · exact ((hroot s hs).2 _ hc).2 rfl

theorem inside_of_checkDirectory {repository : List Segment} {directory text : List Char}
    {path : String} (hrepository : ∀ s ∈ apiPath ++ repository, Clean s)
    (hdirectory : '%' ∉ directory)
    (h : checkDirectory repository (some directory) (Url.parse text) (.file path) = .ok ()) :
    apiPath ++ repository ++ "contents".toList :: directory.splitOnP (· == '/') <+:
      (Url.parse text).path := by
  unfold checkDirectory at h
  simp only [] at h
  rw [refuseIf_eq_ok, not_not] at h
  have hwrite : Url.write (apiPath ++ repository ++ ["contents".toList]) ++
      '/' :: (some directory).elim [] (· ++ ['/']) =
      Url.write (apiPath ++ repository ++ "contents".toList :: directory.splitOnP (· == '/') ++
        [[]]) := by
    have hsplit : apiPath ++ repository ++ "contents".toList :: directory.splitOnP (· == '/') =
        apiPath ++ repository ++ ["contents".toList] ++ directory.splitOnP (· == '/') := by simp
    rw [hsplit, Url.write_append (apiPath ++ repository ++ ["contents".toList] ++ _),
      Url.write_append _ (directory.splitOnP (· == '/')), Url.write_splitOnP]
    simp [Url.write]
  rw [hwrite] at h
  refine (Url.prefix_of_pathText (fun s hs => ?_) (fun s hs => notMem_slash_parse hs)
    (List.isPrefixOf_iff_prefix.1 h)).1
  rcases List.mem_append.1 hs with hs | hs
  · exact ⟨fun hc => absurd ((hrepository s hs).1.1 _ hc) (by decide),
      fun hc => ((hrepository s hs).2 _ hc).2 rfl⟩
  · rcases List.mem_cons.1 hs with rfl | hs
    · decide
    · exact ⟨fun hc => by simpa using Text.notSep_of_mem_splitOnP _ s hs _ hc,
        fun hc => hdirectory (Text.mem_of_mem_splitOnP _ s hs _ hc)⟩

/-- What is known of a request the door sends. -/
theorem forgeHandler_eq_ok (h : forgeHandler forge answers req = .ok sent) :
    ∃ prepared repository, operationOf req.method req.rest = .ok sent.operation ∧
      prepare answers sent.run req sent.body sent.operation = .ok prepared ∧
      repositoryOf forge sent.run = .ok repository ∧
      sent.root = forge.base.path ++ apiPath ++ repository ∧
      sent.url = urlBelow sent.root req.rest ∧
      checkRepository sent.root sent.url = .ok () ∧
      checkDirectory repository (directoryOf sent.run.pathPrefix) sent.url sent.operation = .ok () ∧
      sent.method = req.method ∧ sent.added = prepared.added ∧ sent.pinned = prepared.pinned := by
  unfold forgeHandler at h
  obtain ⟨run, -, h⟩ := bind_eq_ok.1 h
  obtain ⟨body, -, h⟩ := bind_eq_ok.1 h
  obtain ⟨operation, hoperation, h⟩ := bind_eq_ok.1 h
  obtain ⟨prepared, hprepared, h⟩ := bind_eq_ok.1 h
  obtain ⟨repository, hrepository, h⟩ := bind_eq_ok.1 h
  obtain ⟨hroot, h⟩ := andThen_eq_ok.1 h
  obtain ⟨hdirectory, h⟩ := andThen_eq_ok.1 h
  obtain rfl := Except.ok.inj h
  exact ⟨prepared, repository, hoperation, hprepared, hrepository, rfl, rfl, hroot, hdirectory,
    rfl, rfl, rfl⟩

/-- A file that is sent for is in the run's directory. -/
theorem directory_of_forgeHandler {path : String} (h : forgeHandler forge answers req = .ok sent)
    (hfile : sent.operation = .file path) :
    ∃ directory, directoryOf sent.run.pathPrefix = some directory ∧
      "contents".toList :: directory.splitOnP (· == '/') <+: sent.url.path.drop sent.root.length := by
  obtain ⟨prepared, repository, -, hprepared, hrepository, hroot, hurl, hcheck, hdirectory, -⟩ :=
    forgeHandler_eq_ok h
  have hclean := clean_root hrepository
  rw [← hroot] at hclean
  rw [hfile] at hprepared hdirectory
  obtain ⟨directory, hdir, hescapes, hpath, -⟩ := prepare_file hprepared
  have hpercent : '%' ∉ directory := fun hc => (not_mem_of_not_escapes hescapes).1
    (hpath.subset (List.mem_append_left _ hc))
  rw [hurl] at hcheck
  rw [hdir, hurl] at hdirectory
  have hinside := inside_of_checkDirectory (fun s hs => hclean s ?_) hpercent hdirectory
  · obtain ⟨hstart, -⟩ := inside_of_checkRepository hclean hcheck
    rw [← urlBelow, ← hurl] at hinside hstart
    have hbase : forge.base.path = [] := by
      by_contra hne
      obtain ⟨first, rest, hcons⟩ := List.exists_cons_of_ne_nil hne
      refine forge.base_ne ?_
      obtain ⟨t, ht⟩ := hstart
      obtain ⟨u, hu⟩ := hinside
      rw [← hu, hroot, hcons] at ht
      have := (List.cons.inj ht).1
      rw [hcons, List.head?_cons, this]
    have hroot' : sent.root = apiPath ++ repository := by
      rw [hroot, hbase]
      rfl
    obtain ⟨u, hu⟩ := hinside
    refine ⟨directory, hdir, u, ?_⟩
    rw [← hu, hroot', List.append_assoc (apiPath ++ repository), List.drop_left]
  · rw [hroot, List.append_assoc]
    exact List.mem_append_right _ hs

/-- A run is confined in the forge exactly where what its path says once it is parsed is harmless. -/
theorem confined_iff {ofBranch : String → Segment → Segment → Prop}
    (h : forgeHandler forge answers req = .ok sent) :
    Confined ofBranch sent ↔ Harmless ofBranch sent.run.branch sent.root req := by
  obtain ⟨prepared, repository, hoperation, hprepared, hrepository, hroot, hurl, hcheck, -, hmethod,
    hadded, hpinned⟩ := forgeHandler_eq_ok h
  have hclean := clean_root hrepository
  rw [← hroot] at hclean
  have hbelow : sent.url.path.drop sent.root.length = below sent.root req.rest := by
    rw [hurl, below]
  have hpairs : sent.pairs = ownPairs sent.root req.rest ++ sent.added := by
    rw [ForgeSent.pairs, hurl, ownPairs]
  have hfile : ∀ {path}, sent.operation = .file path ↔
      Text.stripPrefix "contents/" req.rest = some path := fun {path} => by
    constructor
    · intro heq
      exact operationOf_eq_file (heq ▸ hoperation)
    · intro heq
      unfold operationOf at hoperation
      rw [heq] at hoperation
      exact (Except.ok.inj hoperation).symm
  have hprefile : ∀ path, sent.operation = .file path →
      (req.method ∈ CONTENT_WRITES → prepared.added = [] ∧
        ∃ members, prepared.pinned = some members ∧ Pinned sent.run members) ∧
      ∀ pair ∈ prepared.added, pair.2 = sent.run.branch := fun path heq => by
    rw [heq] at hprepared
    obtain ⟨-, -, -, -, hprepared⟩ := prepare_file hprepared
    exact prepareFile_eq_ok hprepared
  constructor
  · intro hconf
    refine ⟨fun hsome => ?_, fun hsome hwrites => ?_, fun hsome hreads => ?_, fun hinspect => ?_⟩
    · obtain ⟨path, hpath⟩ := Option.isSome_iff_exists.1 hsome
      obtain ⟨-, -, -, hhidden⟩ := hconf.directory path (hfile.2 hpath)
      rwa [hbelow] at hhidden
    · obtain ⟨path, hpath⟩ := Option.isSome_iff_exists.1 hsome
      have := (hconf.write path (hfile.2 hpath) (hmethod ▸ hwrites)).1
      rw [hpairs] at this
      exact (List.append_eq_nil_iff.1 this).1
    · obtain ⟨path, hpath⟩ := Option.isSome_iff_exists.1 hsome
      intro pair hpair
      refine hconf.read path (hfile.2 hpath) (hmethod ▸ hreads) pair ?_
      rw [hpairs]
      exact List.mem_append_left _ hpair
    · rw [hoperation] at hinspect
      rw [← hbelow]
      exact hconf.inspect (Except.ok.inj hinspect)
  · intro hok
    refine ⟨?_, fun path heq => ?_, fun path heq hwrites => ?_, fun path heq hreads => ?_,
      fun heq => ?_, fun heq => ?_, fun heq => ?_⟩
    · rw [hurl] at hcheck ⊢
      exact inside_of_checkRepository hclean hcheck
    · obtain ⟨directory, hdir, hstart⟩ := directory_of_forgeHandler h heq
      refine ⟨directory, hdir, hstart, ?_⟩
      rw [hbelow]
      exact hok.hidden (by rw [hfile.1 heq]; rfl)
    · obtain ⟨hnone, hmembers⟩ := (hprefile path heq).1 (hmethod ▸ hwrites)
      rw [hpairs, hadded, hnone, hpinned, List.append_nil]
      exact ⟨hok.write (by rw [hfile.1 heq]; rfl) (hmethod ▸ hwrites), hmembers⟩
    · intro pair hpair href
      rw [hpairs, List.mem_append] at hpair
      rcases hpair with hpair | hpair
      · exact hok.read (by rw [hfile.1 heq]; rfl) (hmethod ▸ hreads) pair hpair href
      · exact (hprefile path heq).2 pair (hadded ▸ hpair)
    · rw [heq] at hprepared
      rw [hpinned]
      exact prepare_createBranch hprepared
    · rw [heq] at hprepared
      rw [hpinned]
      exact prepare_createPull hprepared
    · rw [hbelow]
      exact hok.inspect (heq ▸ hoperation)

end Handler

section OtherBranch

/-- A run of one directory on its branch. -/
def buildingRun : RunContext where
  id := "r1"
  project := "p"
  endpointSlug := ""
  branch := "run-1"
  pathPrefix := "apps/map"
  slugs_valid := fun _ hslug => Or.inl (List.mem_singleton.1 hslug)
  repository_valid := isRepositoryName_of_mem_none

def buildingAnswers : ForgeAnswers where
  authenticated := .ok buildingRun
  body := .ok []
  fromSlice := fun _ => .error "no JSON"

def configuration : Forge where
  owner := "joinedcontext".toList
  name := "configuration".toList
  clean := by
    intro s hs
    simp only [List.nil_append, List.mem_cons, List.not_mem_nil, or_false] at hs
    rcases hs with rfl | rfl <;> exact clean_of_all (by decide) (by decide) (by decide)

theorem confined_index : ∃ sent,
    forgeHandler configuration buildingAnswers ⟨.get, "contents/apps/map/index", []⟩ = .ok sent ∧
      (Confined (fun _ _ _ => False) sent ↔ Harmless (fun _ _ _ => False) sent.run.branch sent.root
        ⟨.get, "contents/apps/map/index", []⟩) := by
  have hok : (forgeHandler configuration buildingAnswers
      ⟨.get, "contents/apps/map/index", []⟩).toOption.isSome = true := by decide +kernel
  cases h : forgeHandler configuration buildingAnswers ⟨.get, "contents/apps/map/index", []⟩ with
  | error refusal =>
    rw [h] at hok
    cases hok
  | ok sent => exact ⟨sent, rfl, confined_iff h⟩

/-- The path of a file may bring a query of its own, which names another branch. -/
theorem not_confined : ∃ sent,
    forgeHandler configuration buildingAnswers ⟨.get, "contents/apps/map/index?ref=main", []⟩ =
      .ok sent ∧ ¬ Confined (fun _ _ _ => False) sent := by
  have hok : (forgeHandler configuration buildingAnswers
      ⟨.get, "contents/apps/map/index?ref=main", []⟩).toOption.any (fun sent =>
        sent.operation = .file "apps/map/index?ref=main" ∧ sent.method = .get ∧
          ("ref", "main") ∈ sent.pairs ∧ sent.run.branch ≠ "main") = true := by decide +kernel
  cases h : forgeHandler configuration buildingAnswers
      ⟨.get, "contents/apps/map/index?ref=main", []⟩ with
  | error refusal =>
    rw [h] at hok
    cases hok
  | ok sent =>
    rw [h] at hok
    obtain ⟨hfile, hget, hpair, hbranch⟩ := of_decide_eq_true hok
    refine ⟨sent, rfl, fun hconf => hbranch ?_⟩
    exact (hconf.read _ hfile (by rw [hget]; decide) _ hpair rfl).symm

end OtherBranch

end JoinedContext.AgentProxy

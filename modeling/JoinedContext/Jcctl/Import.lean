import JoinedContext.Core.Urn
import JoinedContext.Jcctl.Rewrite

/-!
# The import of a bundle

`collect` judges a bundle against a repository, `write` writes what it accepted. Each manifest is
placed against the repository as it was: what a name is renamed to and the file it lands in do not
depend on the other manifests that arrive, a name freed for an earlier one apart.
-/

namespace JoinedContext.Jcctl

/-- What to do when the repository already declares the resource. -/
inductive Conflict where
  | fail
  | skip
  | replace
  | rename
  deriving DecidableEq

structure Options where
  «namespace» : Option String
  orgDomain : Option (String × String)
  conflict : Conflict

inductive Outcome where
  | created
  | replaced
  | renamed (name : String)
  | skipped
  deriving DecidableEq

structure Imported where
  path : String
  manifest : RawManifest
  outcome : Outcome

structure Rejection where
  source : String
  reason : String
  deriving DecidableEq

def Rejection.display (rejection : Rejection) : String :=
  rejection.source ++ ": " ++ rejection.reason

structure Report where
  imported : List Imported
  rejections : List Rejection

/-- Whether the import may be written. -/
def Report.isAcceptable (report : Report) : Bool := report.rejections.isEmpty

inductive ImportError where
  | destination (error : LoadError)
  | archive (source : String)
  | duplicate (id : ResourceId)
  | escape (path : String)

/-- The YAML library with what it says of a document it does not parse. -/
structure Reader extends Yaml where
  complaint : String → String

/-- What a bundle is read from: one file, or a directory by its files. -/
inductive Source where
  | file (path text : String)
  | directory (path : String) (files : Tree)

def COMPRESSED : List String := ["tar", "tgz", "gz", "zip", "bz2", "xz", "zst"]

/-- What follows the last dot of a file's name, none where the name begins with it. -/
def extension (path : String) : Option String :=
  (Text.rsplitOnce '.' (fileName path)).bind fun c => if c.1 = "" then none else some c.2

def Source.path : Source → String
  | .file path _ => path
  | .directory path _ => path

/-- The files of a source that are read for documents. -/
def Source.files : Source → List (String × String)
  | .file path text => [(path, text)]
  | .directory path files =>
    ((byPath (files.entries.filter fun file =>
      (components file.1).dropLast.all fun part => !Text.startsWith '.' part)).filter fun file =>
        extension file.1 == some "yaml" || extension file.1 == some "yml").map
      fun file => (path ++ "/" ++ file.1, file.2)

/-- Every document of a source with the place it came from. -/
def documents (source : Source) : Except ImportError (List (String × String)) :=
  if (extension source.path).any (COMPRESSED.contains ·) then .error (.archive source.path)
  else .ok (source.files.flatMap fun file => (chunksOf file.2).map fun chunk =>
    (file.1 ++ ":" ++ toString chunk.startLine, chunk.content))

/-- The names a manifest is written under, by the field that holds them. -/
def fileNames (m : RawManifest) : List (String × Option String) :=
  [("metadata.name", some m.metadata.name), ("metadata.namespace", m.metadata.namespace),
    ("spec.contextSpaceRef",
      if extractSpace m.spec = "" then none else some (extractSpace m.spec))]

def isLabel (name : String) : Bool := (Names.validateDns1123Label name).toBool

/-- Why a manifest may not be imported at all. -/
def unacceptable (m : RawManifest) : Option String :=
  let credentials := literalCredentials m.spec
  if serves m.kind m.apiVersion = false then
    some ("apiVersion `" ++ m.apiVersion ++ "` is not served by this platform (expected `" ++
      API_VERSION ++ "`)")
  else if m.kind ≠ "Bundle" ∧ byKind m.kind = none then
    some ("kind `" ++ m.kind ++
      "` is not a kind this platform knows, so nothing would reconcile it")
  else if credentials ≠ [] then
    some ("carries the literal credential" ++ (if 1 < credentials.length then "s" else "") ++ " `" ++
      Text.join "`, `" credentials ++
      "`; a manifest holds a secretRef and never a secret (MF-24)")
  else ((fileNames m).find? fun c => c.2.any fun name => !isLabel name).map fun c =>
    c.1 ++ " is not a DNS-1123 label (MF-06), so it cannot name a file"

/-- The manifest in the target namespace, with the references into its own project along. -/
def retargeted (m : RawManifest) (target : Option String) : RawManifest :=
  match target with
  | none => m
  | some target =>
    let landed := if belongsToTheOrganization m.kind m.metadata.namespace then m
      else m.placed m.metadata.name (some target)
    match m.metadata.namespace with
    | none => landed
    | some source => landed.withSpec (retargetNamespaces source target m.spec)
        (wellFormed_retargetNamespaces source target m.spec m.spec_wellFormed)

/-- A manifest rewritten for this repository. -/
def rewrite (options : Options) (origin : String) (m : RawManifest) : RawManifest :=
  let landed := retargeted m.collapsed options.namespace
  let domained := match options.orgDomain with
    | none => landed
    | some (source, target) => landed.withSpec (rewriteUrns source target landed.spec)
        (Value.wellFormed_mapStrings _ landed.spec landed.spec_wellFormed)
  domained.annotated IMPORTED_FROM origin

inductive Reference where
  | typed (kind name : String)
  | name (name : String)

def Reference.display : Reference → String
  | .typed kind text => kind ++ "/" ++ text
  | .name text => "`" ++ text ++ "`"

mutual

/-- The references of a value, each with its path. -/
def collectReferences (path : String) : Value → List (String × Reference)
  | .obj members =>
    match (members.lookup "kind").bind Value.asStr, (members.lookup "name").bind Value.asStr with
    | some kind, some name => [(path, .typed kind name)]
    | _, _ => collectMembers path members
  | .arr items => collectItems path 0 items
  | _ => []

def collectMembers (path : String) : List (String × Value) → List (String × Reference)
  | [] => []
  | (k, v) :: rest =>
    (match if endsWith "Ref" k then v.asStr else none with
      | some name => [(path ++ "." ++ k, .name name)]
      | none => collectReferences (path ++ "." ++ k) v) ++ collectMembers path rest

def collectItems (path : String) (i : Nat) : List Value → List (String × Reference)
  | [] => []
  | v :: rest => collectReferences (path ++ "[" ++ toString i ++ "]") v ++ collectItems path (i + 1) rest

end

/-- Whether one of some kinds and names is what a reference points at. -/
def Reference.among (known : List (String × String)) : Reference → Bool
  | .typed kind text => known.contains (kind, text)
  | .name text => known.any fun c => c.2 == text

/-- References the import would leave dangling. -/
def unresolvableReferences (m : RawManifest) (arriving existing : List (String × String)) :
    List String :=
  ((collectReferences "spec" m.spec).filter fun c =>
      !(c.2.among arriving || c.2.among existing)).map fun c =>
    c.1 ++ " points at " ++ c.2.display ++
      ", which is neither in the bundle nor in the destination repository (MF-24)"

/-- The next free name: `name-2`, `name-3` and so on. -/
def freeName (kind name : String) (taken : List (String × String)) : String :=
  (((List.range (taken.length + 1)).map fun n => name ++ "-" ++ toString (n + 2)).find?
    fun candidate => !taken.contains (kind, candidate)).getD ""

/-- The repository path a manifest belongs at, from its own kind. -/
def pathOf (m : RawManifest) : String :=
  match byKind m.kind with
  | none => m.metadata.name ++ ".yaml"
  | some info =>
    info.repoPath (m.metadata.namespace.getD "org") (extractSpace m.spec) m.metadata.name

/-- What has been read of a bundle. -/
structure Arrivals where
  rejections : List Rejection
  manifests : SortedMap ResourceId (String × RawManifest)

def Arrivals.reject (arrivals : Arrivals) (source reason : String) : Arrivals :=
  { arrivals with rejections := arrivals.rejections ++ [⟨source, reason⟩] }

def arrive (reader : Reader) (options : Options) (arrivals : Arrivals) (doc : String × String) :
    Except ImportError Arrivals :=
  match reader.parse doc.2 with
  | none =>
    .ok (arrivals.reject doc.1 ("does not parse as a manifest: " ++ reader.complaint doc.2))
  | some m =>
    -- the bundle index describes the bundle and is none of its resources
    if m.kind = "Bundle" then .ok arrivals
    else match unacceptable m with
      | some reason => .ok (arrivals.reject doc.1 reason)
      | none =>
        let rewritten := rewrite options doc.1 m
        let id := ResourceId.fromManifest rewritten
        if (arrivals.manifests.get? id).isSome then .error (.duplicate id)
        else .ok { arrivals with manifests := arrivals.manifests.insert id (doc.1, rewritten) }

def idDisplay (id : ResourceId) : String :=
  match id.namespace with
  | some ns => id.kind ++ "/" ++ ns ++ "/" ++ id.name
  | none => id.kind ++ "/" ++ id.name

/-- What has been decided of the manifests so far, with the names that are taken. -/
structure Decided where
  taken : List (String × String)
  report : Report

def Decided.importAs (decided : Decided) (m : RawManifest) (outcome : Outcome) : Decided :=
  { decided with report := { decided.report with
      imported := decided.report.imported ++ [⟨pathOf m, m, outcome⟩] } }

def Decided.reject (decided : Decided) (source : String) (reasons : List String) : Decided :=
  { decided with report := { decided.report with
      rejections := decided.report.rejections ++ reasons.map (⟨source, ·⟩) } }

/-- The decision on one manifest, its dangling references apart. -/
def place (destination : Repository) (conflict : Conflict) (decided : Decided)
    (arrival : ResourceId × String × RawManifest) : Decided :=
  let (id, origin, m) := arrival
  if destination.resources.get? id = none then decided.importAs m .created
  else match conflict with
    | .fail => decided.reject origin [idDisplay id ++
        " is already in the repository; choose --conflict " ++
        "skip|replace|rename to say what should happen to it (MF-23)"]
    | .skip => decided.importAs m .skipped
    | .replace => decided.importAs m .replaced
    | .rename =>
      let name := freeName id.kind m.metadata.name decided.taken
      { decided with taken := decided.taken ++ [(id.kind, name)] }.importAs
        (m.placed name m.metadata.namespace) (.renamed name)

def kindsAndNames (ids : List ResourceId) : List (String × String) :=
  ids.map fun id => (id.kind, id.name)

/-- The decision on every manifest that arrived, in the order of their identities. -/
def decideAll (destination : Repository) (conflict : Conflict) (arrivals : Arrivals) : Decided :=
  let arriving := kindsAndNames (arrivals.manifests.entries.map Prod.fst)
  let existing := kindsAndNames (destination.iter.map Prod.fst)
  arrivals.manifests.entries.foldl (fun decided arrival =>
      place destination conflict
        (decided.reject arrival.2.1 (unresolvableReferences arrival.2.2 arriving existing)) arrival)
    ⟨existing, ⟨[], arrivals.rejections⟩⟩

/-- A bundle judged against a repository. -/
def collectInto (reader : Reader) (destination : Repository) (docs : List (String × String))
    (options : Options) : Except ImportError Report := do
  let arrivals ← docs.foldlM (arrive reader options) ⟨[], SortedMap.empty⟩
  let report := (decideAll destination options.conflict arrivals).report
  return { report with imported := report.imported.insertionSort fun a b => pathLE a.path b.path }

/-- Reads a bundle, rewrites it for this repository and decides every collision. -/
def collect (reader : Reader) (source : Source) (tree : Tree) (options : Options) :
    Except ImportError Report := do
  let destination ← (load reader.toYaml tree).mapError .destination
  collectInto reader destination (← documents source) options

/-- The file a path names below the repository, none where it would leave it. -/
def normalPath (path : String) : Option String :=
  let parts := components path
  if Text.startsWith '/' path || parts.head? == some "." || parts.contains ".." then none
  else some (Text.join "/" (parts.filter fun part => part != "" && part != "."))

/-- Writes what was not skipped, up to the first path that leaves the repository, and counts it. -/
def writeFiles (yaml : Yaml) : List Imported → Tree → Nat → Tree × Except ImportError Nat
  | [], tree, written => (tree, .ok written)
  | imported :: rest, tree, written =>
    if imported.outcome = .skipped then writeFiles yaml rest tree written
    else match normalPath imported.path with
      | none => (tree, .error (.escape imported.path))
      | some path => writeFiles yaml rest (tree.insert path (yaml.print imported.manifest)) (written + 1)

/-- Writes an accepted import into the repository. -/
def write (yaml : Yaml) (tree : Tree) (report : Report) : Tree × Except ImportError Nat :=
  if report.isAcceptable then writeFiles yaml report.imported tree 0 else (tree, .ok 0)

end JoinedContext.Jcctl

import JoinedContext.Jcctl.Export
import JoinedContext.Library.Outcome
import Mathlib.Data.List.Sort

/-!
# A repository on disk

The files of a repository and what the loader makes of them: the documents in path order, each
checked, then the index by identity. `load_eq_ok` says which trees load, and `get?_load` what such a
tree holds.
-/

namespace JoinedContext.Jcctl

/-- The files of a directory by their relative paths. -/
abbrev Tree := SortedMap String String

inductive LoadError where
  | parse (path : String) (document line : Nat)
  | apiVersion (path : String) (document : Nat) (got : String)
  | unknownKind (path : String) (document : Nat) (kind : String)
  | duplicateIdentity (id : ResourceId) (first second : String)

/-- Paths compare by their components. -/
def pathLE (a b : String) : Bool := decide (components a ≤ components b)

def byPath {β : Type} (files : List (String × β)) : List (String × β) :=
  files.insertionSort fun a b => pathLE a.1 b.1

/-- The document of a chunk of a file, or why it is none. -/
def document (yaml : Yaml) (path : String) (chunk : DocChunk) : Except LoadError LoadedResource :=
  match yaml.parse chunk.content with
  | none => .error (.parse path chunk.documentIndex chunk.startLine)
  | some manifest =>
    if serves manifest.kind manifest.apiVersion = false then
      .error (.apiVersion path chunk.documentIndex manifest.apiVersion)
    else if byKind manifest.kind = none then
      .error (.unknownKind path chunk.documentIndex manifest.kind)
    else .ok ⟨path, manifest⟩

/-- The chunks of a file that say something. -/
def chunksOf (text : String) : List DocChunk :=
  (parseYamlDocuments text).filter fun chunk => !isEmptyDoc chunk.content

def readFile (yaml : Yaml) (file : String × String) : Except LoadError (List LoadedResource) :=
  (chunksOf file.2).mapM (document yaml file.1)

def readDocuments (yaml : Yaml) (tree : Tree) : Except LoadError (List LoadedResource) :=
  return (← (byPath (tree.entries.filter fun file => loaderReads file.1)).mapM (readFile yaml)).flatten

def LoadedResource.id (loaded : LoadedResource) : ResourceId :=
  ResourceId.fromManifest loaded.manifest

/-- The documents put into the index, one for each identity. -/
def index : List LoadedResource → Repository → Except LoadError Repository
  | [], repo => .ok repo
  | loaded :: rest, repo =>
    match repo.resources.get? loaded.id with
    | some existing => .error (.duplicateIdentity loaded.id existing.path loaded.path)
    | none => index rest (repo.add loaded.path loaded.manifest)

/-- The repository of a tree as its files write it, before an environment is rendered into it. -/
def load (yaml : Yaml) (tree : Tree) : Except LoadError Repository := do
  index (← readDocuments yaml tree) Repository.empty

/-- What the loader accepts of a document. -/
def Acceptable (manifest : RawManifest) : Prop :=
  serves manifest.kind manifest.apiVersion = true ∧ (byKind manifest.kind).isSome = true

/-- Whether every document of a text is a manifest the loader accepts. -/
def Readable (yaml : Yaml) (text : String) : Prop :=
  ∀ content ∈ documentsOf text, ∃ manifest, yaml.parse content = some manifest ∧ Acceptable manifest

/-- The manifests of a text. -/
def manifestsOf (yaml : Yaml) (text : String) : List RawManifest :=
  (documentsOf text).filterMap yaml.parse

def idsOf (yaml : Yaml) (text : String) : List ResourceId :=
  (manifestsOf yaml text).map ResourceId.fromManifest

/-- Whether the loader reads a manifest in the file at a path. -/
def Held (yaml : Yaml) (tree : Tree) (path : String) (manifest : RawManifest) : Prop :=
  loaderReads path = true ∧ ∃ text, tree.get? path = some text ∧ manifest ∈ manifestsOf yaml text

variable {yaml : Yaml} {tree : Tree} {path text : String} {docs : List LoadedResource}
  {repo repo' : Repository} {id : ResourceId} {r : LoadedResource} {m : RawManifest}

theorem documentsOf_eq (text : String) : documentsOf text = (chunksOf text).map (·.content) := by
  unfold documentsOf chunksOf
  rw [List.filter_map]
  rfl

theorem document_eq_ok {chunk : DocChunk} : document yaml path chunk = .ok r ↔
    r.path = path ∧ yaml.parse chunk.content = some r.manifest ∧ Acceptable r.manifest := by
  unfold document Acceptable
  obtain ⟨p, manifest⟩ := r
  rcases hparse : yaml.parse chunk.content with _ | parsed
  · simp
  · simp only []
    split_ifs with hserves hkind
    · simp only [Option.some.injEq, false_iff, not_and]
      rintro - rfl
      simp [hserves]
    · simp only [Option.some.injEq, false_iff, not_and]
      rintro - rfl
      simp [hkind]
    · simp only [Except.ok.injEq, LoadedResource.mk.injEq, Option.some.injEq]
      constructor
      · rintro ⟨rfl, rfl⟩
        exact ⟨rfl, rfl, by simpa using hserves, Option.isSome_iff_ne_none.2 hkind⟩
      · rintro ⟨rfl, rfl, -⟩
        exact ⟨rfl, rfl⟩

/-- What a file's documents are read as, each at its path. -/
def readAs (yaml : Yaml) (file : String × String) : List LoadedResource :=
  (manifestsOf yaml file.2).map (⟨file.1, ·⟩)

theorem readFile_eq_ok {file : String × String} : readFile yaml file = .ok docs ↔
    Readable yaml file.2 ∧ docs = readAs yaml file := by
  have hread : (∀ chunk ∈ chunksOf file.2, ∃ r, document yaml file.1 chunk = .ok r) ↔
      Readable yaml file.2 := by
    unfold Readable
    rw [documentsOf_eq, List.forall_mem_map]
    refine forall₂_congr fun chunk _ => ⟨?_, ?_⟩
    · rintro ⟨r, hr⟩
      exact ⟨r.manifest, (document_eq_ok.1 hr).2⟩
    · rintro ⟨manifest, hm⟩
      exact ⟨⟨file.1, manifest⟩, document_eq_ok.2 ⟨rfl, hm⟩⟩
  unfold readFile
  rw [mapM_eq_ok, hread]
  refine and_congr_right fun hreadable => ?_
  have hdocs : ((chunksOf file.2).filterMap fun chunk => (document yaml file.1 chunk).toOption) =
      readAs yaml file := by
    unfold readAs manifestsOf
    rw [documentsOf_eq, List.filterMap_map, List.map_filterMap]
    refine List.filterMap_congr fun chunk hchunk => ?_
    obtain ⟨r, hr⟩ := hread.2 hreadable chunk hchunk
    obtain ⟨hpath, hparse, -⟩ := document_eq_ok.1 hr
    rw [hr, Function.comp_apply, hparse, ← hpath]
    rfl
  rw [hdocs]

theorem mem_byPath {β : Type} {files : List (String × β)} {c : String × β} :
    c ∈ byPath files ↔ c ∈ files := List.mem_insertionSort _

/-- The files of a tree the loader reads, in the order it reads them. -/
def manifestFiles (tree : Tree) : List (String × String) :=
  byPath (tree.entries.filter fun file => loaderReads file.1)

theorem mem_manifestFiles {file : String × String} : file ∈ manifestFiles tree ↔
    tree.get? file.1 = some file.2 ∧ loaderReads file.1 = true := by
  unfold manifestFiles
  rw [mem_byPath, List.mem_filter, SortedMap.get?_eq_some]

theorem nodup_manifestFiles (tree : Tree) : (manifestFiles tree).Nodup :=
  (List.perm_insertionSort _ _).nodup_iff.2 (tree.nodup_keys.of_map.filter _)

theorem readDocuments_eq_ok : readDocuments yaml tree = .ok docs ↔
    (∀ file ∈ manifestFiles tree, Readable yaml file.2) ∧
      docs = (manifestFiles tree).flatMap (readAs yaml) := by
  have hread : (∀ file ∈ manifestFiles tree, ∃ docs, readFile yaml file = .ok docs) ↔
      ∀ file ∈ manifestFiles tree, Readable yaml file.2 :=
    forall₂_congr fun file _ => ⟨fun ⟨_, h⟩ => (readFile_eq_ok.1 h).1,
      fun h => ⟨_, readFile_eq_ok.2 ⟨h, rfl⟩⟩⟩
  have hflat (h : ∀ file ∈ manifestFiles tree, Readable yaml file.2) :
      ((manifestFiles tree).filterMap fun file => (readFile yaml file).toOption).flatten =
        (manifestFiles tree).flatMap (readAs yaml) := by
    rw [List.flatMap_def, ← List.filterMap_eq_map]
    congr 1
    refine List.filterMap_congr fun file hfile => ?_
    rw [readFile_eq_ok.2 ⟨h file hfile, rfl⟩]
    rfl
  unfold readDocuments
  rw [bind_eq_ok]
  constructor
  · rintro ⟨lists, hlists, h⟩
    obtain rfl := Except.ok.inj h
    obtain ⟨hall, rfl⟩ := mapM_eq_ok.1 hlists
    exact ⟨hread.1 hall, hflat (hread.1 hall)⟩
  · rintro ⟨hall, rfl⟩
    refine ⟨_, mapM_eq_ok.2 ⟨hread.2 hall, rfl⟩, ?_⟩
    exact congrArg Except.ok (hflat hall)

/-- Documents index where no two of them are of one identity, and none is of one the index holds. -/
theorem index_eq_ok : ∀ {docs : List LoadedResource} {repo repo' : Repository},
    index docs repo = .ok repo' ↔ (docs.map (·.id)).Nodup ∧
      (∀ loaded ∈ docs, repo.resources.get? loaded.id = none) ∧
      repo' = docs.foldl (fun repo loaded => repo.add loaded.path loaded.manifest) repo
  | [], repo, repo' => by
    constructor
    · intro h
      exact ⟨by simp, by simp, (Except.ok.inj h).symm⟩
    · rintro ⟨-, -, rfl⟩
      rfl
  | loaded :: docs, repo, repo' => by
    rw [index, List.map_cons, List.nodup_cons, List.forall_mem_cons, List.foldl_cons]
    change (match repo.resources.get? loaded.id with | some _ => _ | none => _) = _ ↔ _
    rcases hget : repo.resources.get? loaded.id with _ | existing
    · simp only [true_and]
      rw [index_eq_ok]
      have hadd : ∀ other : LoadedResource,
          (repo.add loaded.path loaded.manifest).resources.get? other.id =
            if other.id = loaded.id then some ⟨loaded.path, loaded.manifest⟩
            else repo.resources.get? other.id := by
        intro other
        change (repo.resources.insert loaded.id _).get? other.id = _
        rw [SortedMap.get?_insert]
        split_ifs <;> rfl
      constructor
      · rintro ⟨hnodup, hfree, rfl⟩
        refine ⟨⟨?_, hnodup⟩, ?_, rfl⟩
        · intro hmem
          obtain ⟨other, hother, heq⟩ := List.mem_map.1 hmem
          have := hfree other hother
          rw [hadd, if_pos heq] at this
          simp at this
        · intro other hother
          have := hfree other hother
          rw [hadd] at this
          split_ifs at this
          exact this
      · rintro ⟨⟨hnot, hnodup⟩, hfree, rfl⟩
        refine ⟨hnodup, fun other hother => ?_, rfl⟩
        rw [hadd, if_neg fun heq => hnot (List.mem_map.2 ⟨other, hother, heq⟩)]
        exact hfree other hother
    · simp

/-- What a tree must be to load. -/
structure Loadable (yaml : Yaml) (tree : Tree) : Prop where
  readable : ∀ file ∈ manifestFiles tree, Readable yaml file.2
  once : ∀ file ∈ manifestFiles tree, (idsOf yaml file.2).Nodup
  apart : ∀ file ∈ manifestFiles tree, ∀ other ∈ manifestFiles tree, file.1 ≠ other.1 →
    (idsOf yaml file.2).Disjoint (idsOf yaml other.2)

theorem map_id_readAs (file : String × String) :
    (readAs yaml file).map (·.id) = idsOf yaml file.2 := by
  unfold readAs idsOf
  rw [List.map_map]
  rfl

theorem nodup_ids_iff : (((manifestFiles tree).flatMap (readAs yaml)).map (·.id)).Nodup ↔
    (∀ file ∈ manifestFiles tree, (idsOf yaml file.2).Nodup) ∧
      ∀ file ∈ manifestFiles tree, ∀ other ∈ manifestFiles tree, file.1 ≠ other.1 →
        (idsOf yaml file.2).Disjoint (idsOf yaml other.2) := by
  rw [List.map_flatMap, List.nodup_flatMap]
  simp only [map_id_readAs]
  have : Std.Symm (Function.onFun List.Disjoint fun file : String × String => idsOf yaml file.2) :=
    ⟨fun _ _ hdisjoint _ hmem hmem' => hdisjoint hmem' hmem⟩
  refine and_congr_right fun _ => ⟨fun h file hfile other hother hne => ?_, fun h => ?_⟩
  · exact h.forall hfile hother fun heq => hne (heq ▸ rfl)
  · refine (nodup_manifestFiles tree).pairwise_of_forall_ne fun file hfile other hother hne => ?_
    refine h file hfile other hother fun heq => hne (Prod.ext heq ?_)
    have htext := (mem_manifestFiles.1 hfile).1
    rw [heq, (mem_manifestFiles.1 hother).1] at htext
    exact (Option.some.inj htext).symm

theorem load_eq_ok : load yaml tree = .ok repo ↔ Loadable yaml tree ∧
    repo = ((manifestFiles tree).flatMap (readAs yaml)).foldl
      (fun repo loaded => repo.add loaded.path loaded.manifest) Repository.empty := by
  unfold load
  rw [bind_eq_ok]
  constructor
  · rintro ⟨docs, hdocs, h⟩
    obtain ⟨hreadable, rfl⟩ := readDocuments_eq_ok.1 hdocs
    obtain ⟨hnodup, -, rfl⟩ := index_eq_ok.1 h
    obtain ⟨honce, hapart⟩ := nodup_ids_iff.1 hnodup
    exact ⟨⟨hreadable, honce, hapart⟩, rfl⟩
  · rintro ⟨⟨hreadable, honce, hapart⟩, rfl⟩
    refine ⟨_, readDocuments_eq_ok.2 ⟨hreadable, rfl⟩, index_eq_ok.2 ⟨?_, ?_, rfl⟩⟩
    · exact nodup_ids_iff.2 ⟨honce, hapart⟩
    · exact fun _ _ => SortedMap.get?_empty

theorem loads_iff : (∃ repo, load yaml tree = .ok repo) ↔ Loadable yaml tree :=
  ⟨fun ⟨_, h⟩ => (load_eq_ok.1 h).1, fun h => ⟨_, load_eq_ok.2 ⟨h, rfl⟩⟩⟩

theorem resources_foldl_add : ∀ (docs : List LoadedResource) (repo : Repository),
    (docs.foldl (fun repo loaded => repo.add loaded.path loaded.manifest) repo).resources =
      (docs.map fun loaded => (loaded.id, loaded)).foldl (fun m c => m.insert c.1 c.2)
        repo.resources
  | [], _ => rfl
  | _ :: docs, _ => resources_foldl_add docs _

/-- What a loaded repository holds is what the loader reads in some file of it. -/
theorem get?_load (h : load yaml tree = .ok repo) : repo.resources.get? id = some r ↔
    Held yaml tree r.path r.manifest ∧ r.id = id := by
  obtain ⟨⟨hreadable, honce, hapart⟩, rfl⟩ := load_eq_ok.1 h
  have hkeys : (((manifestFiles tree).flatMap (readAs yaml)).map
      fun loaded => (loaded.id, loaded)).map Prod.fst =
        ((manifestFiles tree).flatMap (readAs yaml)).map (·.id) := by
    rw [List.map_map]
    rfl
  have hnodup := nodup_ids_iff.2 ⟨honce, hapart⟩
  rw [resources_foldl_add, show Repository.empty.resources = SortedMap.empty from rfl,
    SortedMap.get?_foldl_insert_empty (hkeys ▸ hnodup), List.mem_map]
  unfold Held readAs
  simp only [List.mem_flatMap, List.mem_map, Prod.mk.injEq, Prod.exists, mem_manifestFiles]
  constructor
  · rintro ⟨loaded, ⟨path, text, ⟨hget, hreads⟩, m, hm, rfl⟩, hid, rfl⟩
    exact ⟨⟨hreads, text, hget, hm⟩, hid⟩
  · rintro ⟨⟨hreads, text, hget, hm⟩, hid⟩
    exact ⟨r, ⟨r.path, text, ⟨hget, hreads⟩, r.manifest, hm, rfl⟩, hid, rfl⟩

end JoinedContext.Jcctl

import JoinedContext.Jcctl.Documents
import JoinedContext.Jcctl.Redact

/-!
# The repository export

`export` of a project: a file that parses as one manifest is cleaned of its literal credentials and
written back, any other file travels as it is. The loader reads a file document by document, so
what the bundle carries is decided by the files of the second kind (`carries_no_credential_iff`).
-/

namespace JoinedContext.Jcctl

/-- The YAML library: one document read as a manifest, and a manifest written as one. -/
structure Yaml where
  parse : String → Option RawManifest
  print : RawManifest → String

/-- What is written reads back as what was written, and as nothing else. -/
def Yaml.ReadsBack (yaml : Yaml) : Prop :=
  ∀ m, ∀ content ∈ documentsOf (yaml.print m), yaml.parse content = some m

def SYSTEM_METADATA : List String :=
  ["uid", "resourceVersion", "generation", "creationTimestamp", "deletionTimestamp",
    "managedFields", "selfLink", "revision", "status"]

def SYSTEM_ANNOTATIONS : List String :=
  ["joinedcontext.com/last-applied", "joinedcontext.com/revision",
    "joinedcontext.com/managed-attributes", "joinedcontext.com/reconciled-at"]

/-- A member of the metadata without the annotations the platform owns, none if nothing is left. -/
def stripAnnotations (c : String × Value) : Option (String × Value) :=
  match c with
  | (name, .obj annotations) =>
    if name = "annotations" then
      let left := annotations.filter fun a => !SYSTEM_ANNOTATIONS.contains a.1
      if left = [] then none else some (name, .obj left)
    else some c
  | _ => some c

def stripSystemMetadata (metadata : List (String × Value)) : List (String × Value) :=
  (metadata.filter fun c => !SYSTEM_METADATA.contains c.1).filterMap stripAnnotations

theorem stripAnnotations_eq_some {c c' : String × Value} (h : stripAnnotations c = some c') :
    c'.1 = c.1 ∧ (c.2.wellFormed = true → c'.2.wellFormed = true) := by
  unfold stripAnnotations at h
  split at h
  · simp only [] at h
    split_ifs at h
    · obtain rfl := Option.some.inj h
      refine ⟨rfl, fun hwf => ?_⟩
      simp only [Value.wellFormed, Bool.and_eq_true, decide_eq_true_eq] at hwf ⊢
      refine ⟨hwf.1.sublist (List.filter_sublist.map _), ?_⟩
      exact Value.wellFormedMembers_of_forall fun a ha =>
        Value.wellFormed_of_mem_members hwf.2 (List.mem_of_mem_filter ha)
    · obtain rfl := Option.some.inj h
      exact ⟨rfl, id⟩
  · obtain rfl := Option.some.inj h
    exact ⟨rfl, id⟩

theorem keys_filterMap_stripAnnotations : ∀ metadata : List (String × Value),
    ((metadata.filterMap stripAnnotations).map Prod.fst).Sublist (metadata.map Prod.fst)
  | [] => List.Sublist.slnil
  | c :: rest => by
    rcases hc : stripAnnotations c with _ | c'
    · rw [List.filterMap_cons_none hc]
      exact (keys_filterMap_stripAnnotations rest).cons _
    · rw [List.filterMap_cons_some hc, List.map_cons, List.map_cons, (stripAnnotations_eq_some hc).1]
      exact (keys_filterMap_stripAnnotations rest).cons_cons _

theorem wellFormed_stripSystemMetadata {metadata : List (String × Value)}
    (h : (Value.obj metadata).wellFormed = true) :
    (Value.obj (stripSystemMetadata metadata)).wellFormed = true := by
  simp only [Value.wellFormed, Bool.and_eq_true, decide_eq_true_eq] at h ⊢
  refine ⟨h.1.sublist ((keys_filterMap_stripAnnotations _).trans (List.filter_sublist.map _)), ?_⟩
  refine Value.wellFormedMembers_of_forall fun c' hc' => ?_
  obtain ⟨c, hc, hstrip⟩ := List.mem_filterMap.1 hc'
  exact (stripAnnotations_eq_some hstrip).2
    (Value.wellFormed_of_mem_members h.2 (List.mem_of_mem_filter hc))

/-- The manifest an export writes for one. -/
def cleaned (m : RawManifest) : RawManifest where
  apiVersion := m.apiVersion
  kind := m.kind
  metadata := { m.metadata with rest := stripSystemMetadata m.metadata.rest }
  spec := redact m.spec
  status := m.status
  rest_wellFormed := wellFormed_stripSystemMetadata m.rest_wellFormed
  spec_wellFormed := wellFormed_redact m.spec m.spec_wellFormed

/-- A file of a project; the text is none where its bytes are not UTF-8. -/
structure SourceFile where
  path : String
  text : Option String

structure Exported where
  path : String
  manifest : RawManifest

structure Bundle where
  resources : List Exported
  natives : List SourceFile
  redactions : List String

/-- Whether a file stays behind: a part of its path is hidden, or it holds encrypted secrets. -/
def staysBehind (path : String) : Option String :=
  if (components path).any (Text.startsWith '.') then some (path ++ ": hidden file not exported")
  else if isEncryptedFile (fileName path) then
    some (path ++ ": encrypted secrets file not exported")
  else none

/-- The file read as one manifest of a known kind. -/
def wholeManifest (yaml : Yaml) (file : SourceFile) : Option RawManifest :=
  if endsWith ".yaml" (fileName file.path) || endsWith ".yml" (fileName file.path) then
    (file.text.bind yaml.parse).filter fun m => (byKind m.kind).isSome
  else none

def collectFile (yaml : Yaml) (bundle : Bundle) (file : SourceFile) : Bundle :=
  match staysBehind file.path with
  | some reason => { bundle with redactions := bundle.redactions ++ [reason] }
  | none =>
    match wholeManifest yaml file with
    | some m => {
        resources := bundle.resources ++ [⟨file.path, cleaned m⟩]
        natives := bundle.natives
        redactions := bundle.redactions ++ (literalCredentials m.spec).map fun member =>
          m.kind ++ "/" ++ m.metadata.name ++ ": " ++ member }
    | none => { bundle with natives := bundle.natives ++ [file] }

/-- The bundle of a project, from its files in path order. -/
def collectProject (yaml : Yaml) (files : List SourceFile) : Bundle :=
  files.foldl (collectFile yaml) ⟨[], [], []⟩

def belongsToTheOrganization (kind : String) («namespace» : Option String) : Bool :=
  (byKind kind).any fun info => match info.scope with
    | .organization => true
    | .project => false
    | .organizationOrProject => «namespace» == some "org"

/-- What the index says of the run besides the resources. -/
structure Provenance where
  exportedAt : String
  exportedBy : String
  sourceRevision : String
  sha256 : Option String → String

def itemOf (resource : Exported) : Value :=
  .obj ([("kind", .str resource.manifest.kind), ("name", .str resource.manifest.metadata.name)] ++
    (if belongsToTheOrganization resource.manifest.kind resource.manifest.metadata.namespace then []
      else resource.manifest.metadata.namespace.toList.map fun ns => ("namespace", .str ns)) ++
    [("path", .str resource.path)])

def fileEntry (provenance : Provenance) (file : SourceFile) : Value :=
  .obj [("path", .str file.path), ("sha256", .str (provenance.sha256 file.text))]

/-- A member of the index that is left out where its list is empty. -/
def listMember (name : String) (items : List Value) : List (String × Value) :=
  if items = [] then [] else [(name, .arr items)]

/-- The files a bundle is written as, without its index. -/
def contents (yaml : Yaml) (bundle : Bundle) : List SourceFile :=
  (bundle.resources.map fun r => ⟨r.path, some (yaml.print r.manifest)⟩) ++ bundle.natives

def indexSpec (yaml : Yaml) (provenance : Provenance) (bundle : Bundle) : Value :=
  .obj ([("exportedAt", .str provenance.exportedAt), ("exportedBy", .str provenance.exportedBy)] ++
    listMember "files" (((contents yaml bundle).mergeSort fun a b => a.path ≤ b.path).map
      (fileEntry provenance)) ++
    [("items", .arr (bundle.resources.map itemOf))] ++
    listMember "nativeFiles" (bundle.natives.map fun file => .str file.path) ++
    [("omitted", .num 0 0), ("sourceRevision", .str provenance.sourceRevision)])

/-- Values no object of which has a credential's name among its keys. -/
inductive Harmless : Value → Prop
  | str (s : String) : Harmless (.str s)
  | num (m e : Int) : Harmless (.num m e)
  | arr {items : List Value} (h : ∀ v ∈ items, Harmless v) : Harmless (.arr items)
  | obj {members : List (String × Value)}
      (hkeys : ∀ c ∈ members, CREDENTIAL_MEMBERS.contains (toAsciiLowercase c.1) = false)
      (h : ∀ c ∈ members, Harmless c.2) : Harmless (.obj members)

theorem literalItems_eq_nil : ∀ {items : List Value},
    (∀ v ∈ items, literalCredentials v = []) → literalItems items = []
  | [], _ => by simp [literalItems]
  | v :: items, h => by
    rw [literalItems, h v List.mem_cons_self,
      literalItems_eq_nil fun w hw => h w (List.mem_cons_of_mem _ hw)]
    rfl

theorem literalMembers_eq_nil : ∀ {members : List (String × Value)},
    (∀ c ∈ members, literalCredentials c.2 = []) → literalMembers members = []
  | [], _ => by simp [literalMembers]
  | (name, v) :: members, h => by
    rw [literalMembers, h (name, v) List.mem_cons_self,
      literalMembers_eq_nil fun c hc => h c (List.mem_cons_of_mem _ hc)]
    simp

theorem Harmless.literalCredentials_eq_nil {v : Value} (h : Harmless v) :
    literalCredentials v = [] := by
  induction h with
  | str s => simp [literalCredentials]
  | num m e => simp [literalCredentials]
  | arr _ ih =>
    rw [literalCredentials]
    exact literalItems_eq_nil ih
  | obj hkeys _ ih =>
    rw [literalCredentials, literalMembers_eq_nil ih, List.append_nil, List.map_eq_nil_iff,
      List.filter_eq_nil_iff]
    intro c hc
    simp only [isLiteral, hkeys c hc, Bool.and_false, Bool.false_eq_true, not_false_eq_true]

theorem harmless_itemOf (resource : Exported) : Harmless (itemOf resource) := by
  have hkeys : ∀ c ∈ ["kind", "name", "namespace", "path"],
      CREDENTIAL_MEMBERS.contains (toAsciiLowercase c) = false := by decide +kernel
  unfold itemOf
  refine .obj (fun c hc => hkeys c.1 ?_) fun c hc => ?_
  · simp only [List.mem_append, List.mem_cons, List.not_mem_nil, or_false] at hc
    split_ifs at hc <;> simp only [List.not_mem_nil, List.mem_map, or_false] at hc
    · rcases hc with (rfl | rfl) | rfl <;> simp
    · rcases hc with ((rfl | rfl) | ⟨ns, -, rfl⟩) | rfl <;> simp
  · simp only [List.mem_append, List.mem_cons, List.not_mem_nil, or_false] at hc
    split_ifs at hc <;> simp only [List.not_mem_nil, List.mem_map, or_false] at hc
    · rcases hc with (rfl | rfl) | rfl <;> exact .str _
    · rcases hc with ((rfl | rfl) | ⟨ns, -, rfl⟩) | rfl <;> exact .str _

theorem mem_listMember {name : String} {items : List Value} {c : String × Value}
    (h : c ∈ listMember name items) : c = (name, .arr items) := by
  unfold listMember at h
  split_ifs at h
  · simp at h
  · exact List.mem_singleton.1 h

theorem harmless_indexSpec (yaml : Yaml) (provenance : Provenance) (bundle : Bundle) :
    Harmless (indexSpec yaml provenance bundle) := by
  have hkeys : ∀ c ∈ ["exportedAt", "exportedBy", "files", "items", "nativeFiles", "omitted",
      "sourceRevision", "path", "sha256"],
      CREDENTIAL_MEMBERS.contains (toAsciiLowercase c) = false := by decide +kernel
  have hfile : ∀ file, Harmless (fileEntry provenance file) := by
    intro file
    refine .obj (fun c hc => hkeys c.1 ?_) fun c hc => ?_
    · simp only [List.mem_cons, List.not_mem_nil, or_false] at hc
      rcases hc with rfl | rfl <;> simp
    · simp only [List.mem_cons, List.not_mem_nil, or_false] at hc
      rcases hc with rfl | rfl <;> exact .str _
  have hmembers : ∀ c ∈ [("exportedAt", Value.str provenance.exportedAt),
      ("exportedBy", .str provenance.exportedBy)] ++
      listMember "files" (((contents yaml bundle).mergeSort fun a b => a.path ≤ b.path).map
        (fileEntry provenance)) ++ [("items", .arr (bundle.resources.map itemOf))] ++
      listMember "nativeFiles" (bundle.natives.map fun file => .str file.path) ++
      [("omitted", .num 0 0), ("sourceRevision", .str provenance.sourceRevision)],
      CREDENTIAL_MEMBERS.contains (toAsciiLowercase c.1) = false ∧ Harmless c.2 := by
    intro c hc
    simp only [List.mem_append, List.mem_cons, List.not_mem_nil, or_false] at hc
    rcases hc with (((((rfl | rfl) | hc) | rfl) | hc) | rfl | rfl)
    · exact ⟨hkeys _ (by simp), .str _⟩
    · exact ⟨hkeys _ (by simp), .str _⟩
    · rw [mem_listMember hc]
      refine ⟨hkeys _ (by simp), .arr fun v hv => ?_⟩
      obtain ⟨file, -, rfl⟩ := List.mem_map.1 hv
      exact hfile file
    · refine ⟨hkeys _ (by simp), .arr fun v hv => ?_⟩
      obtain ⟨resource, -, rfl⟩ := List.mem_map.1 hv
      exact harmless_itemOf resource
    · rw [mem_listMember hc]
      refine ⟨hkeys _ (by simp), .arr fun v hv => ?_⟩
      obtain ⟨file, -, rfl⟩ := List.mem_map.1 hv
      exact .str _
    · exact ⟨hkeys _ (by simp), .num 0 0⟩
    · exact ⟨hkeys _ (by simp), .str _⟩
  exact .obj (fun c hc => (hmembers c hc).1) fun c hc => (hmembers c hc).2

theorem wellFormed_itemOf (resource : Exported) : (itemOf resource).wellFormed = true := by
  have hkeys : (["kind", "name", "namespace", "path"] : List String).Pairwise (· < ·) := by decide
  simp only [List.pairwise_cons] at hkeys
  obtain ⟨path, ⟨apiVersion, kind, ⟨name, ns, rest⟩, spec, status, _, _⟩⟩ := resource
  unfold itemOf
  rcases ns with _ | ns <;> split_ifs <;>
    simp_all [Value.wellFormed, Value.wellFormedMembers]

theorem wellFormed_indexSpec (yaml : Yaml) (provenance : Provenance) (bundle : Bundle) :
    (indexSpec yaml provenance bundle).wellFormed = true := by
  have hkeys : (["exportedAt", "exportedBy", "files", "items", "nativeFiles", "omitted",
      "sourceRevision"] : List String).Pairwise (· < ·) := by decide
  have hentry : ("path" : String) < "sha256" := by decide
  have hfiles : ∀ files : List SourceFile,
      Value.wellFormedItems (files.map (fileEntry provenance)) = true := fun files =>
    Value.wellFormedItems_map (fun file => by
      simpa [fileEntry, Value.wellFormed, Value.wellFormedMembers] using hentry) files
  have hitems : Value.wellFormedItems (bundle.resources.map itemOf) = true :=
    Value.wellFormedItems_map wellFormed_itemOf _
  have hnatives : Value.wellFormedItems (bundle.natives.map fun file => .str file.path) = true :=
    Value.wellFormedItems_map (fun _ => rfl) _
  simp only [List.pairwise_cons] at hkeys
  unfold indexSpec listMember
  split_ifs <;> simp_all [Value.wellFormed, Value.wellFormedMembers]

/-- The `kind: Bundle` index of a bundle. -/
def indexOf (yaml : Yaml) (project : String) (provenance : Provenance) (bundle : Bundle) :
    RawManifest where
  apiVersion := API_VERSION
  kind := "Bundle"
  metadata := { name := project, «namespace» := some "org", rest := [] }
  spec := indexSpec yaml provenance bundle
  status := none
  rest_wellFormed := by simp [Value.wellFormed, Value.wellFormedMembers]
  spec_wellFormed := wellFormed_indexSpec yaml provenance bundle

/-- The files a bundle is written as; one without a manifest has no index. -/
def bundleFiles (yaml : Yaml) (project : String) (provenance : Provenance) (bundle : Bundle) :
    List SourceFile :=
  contents yaml bundle ++ if bundle.resources = [] then []
    else [⟨"bundle.yaml", some (yaml.print (indexOf yaml project provenance bundle))⟩]

/-- Whether the loader reads a manifest in a file. -/
def Reads (yaml : Yaml) (file : SourceFile) (m : RawManifest) : Prop :=
  loaderReads file.path = true ∧ ∃ text, file.text = some text ∧
    ∃ content ∈ documentsOf text, yaml.parse content = some m ∧
      serves m.kind m.apiVersion = true ∧ (byKind m.kind).isSome = true

variable {yaml : Yaml} {files : List SourceFile} {project : String} {provenance : Provenance}

theorem foldl_collectFile (files : List SourceFile) (bundle : Bundle) :
    (files.foldl (collectFile yaml) bundle).natives = bundle.natives ++
        files.filter (fun file => (staysBehind file.path).isNone && (wholeManifest yaml file).isNone) ∧
    (files.foldl (collectFile yaml) bundle).resources = bundle.resources ++
        files.filterMap fun file => if (staysBehind file.path).isSome then none
          else (wholeManifest yaml file).map fun m => ⟨file.path, cleaned m⟩ := by
  induction files generalizing bundle with
  | nil => simp
  | cons file files ih =>
    obtain ⟨hnatives, hresources⟩ := ih (collectFile yaml bundle file)
    rw [List.foldl_cons, hnatives, hresources]
    unfold collectFile
    rcases hstays : staysBehind file.path with _ | reason
    · rcases hwhole : wholeManifest yaml file with _ | m
      · simp [hstays, hwhole]
      · simp [hstays, hwhole]
    · simp [hstays]

theorem mem_natives {file : SourceFile} : file ∈ (collectProject yaml files).natives ↔
    file ∈ files ∧ staysBehind file.path = none ∧ wholeManifest yaml file = none := by
  unfold collectProject
  rw [(foldl_collectFile files _).1]
  simp

theorem mem_resources {r : Exported} (h : r ∈ (collectProject yaml files).resources) :
    ∃ m, r.manifest = cleaned m := by
  unfold collectProject at h
  rw [(foldl_collectFile files _).2, List.nil_append] at h
  obtain ⟨file, -, hr⟩ := List.mem_filterMap.1 h
  split_ifs at hr
  obtain ⟨m, -, rfl⟩ := Option.map_eq_some_iff.1 hr
  exact ⟨m, rfl⟩

theorem eq_of_reads_print (hback : yaml.ReadsBack) {path : String} {m m' : RawManifest}
    (h : Reads yaml ⟨path, some (yaml.print m)⟩ m') : m' = m := by
  obtain ⟨-, text, htext, content, hcontent, hparse, -⟩ := h
  cases htext
  rw [hback m content hcontent] at hparse
  exact (Option.some.inj hparse).symm

/-- No manifest of a bundle carries a credential exactly where none does in the files that do not
parse as one manifest: those travel as they are. -/
theorem carries_no_credential_iff (hback : yaml.ReadsBack) :
    (∀ file ∈ bundleFiles yaml project provenance (collectProject yaml files),
      ∀ m, Reads yaml file m → literalCredentials m.spec = []) ↔
    ∀ file ∈ files, staysBehind file.path = none → wholeManifest yaml file = none →
      ∀ m, Reads yaml file m → literalCredentials m.spec = [] := by
  constructor
  · intro h file hfile hstays hwhole
    have hnative := mem_natives.2 ⟨hfile, hstays, hwhole⟩
    exact h file (List.mem_append_left _ (List.mem_append_right _ hnative))
  · intro h file hfile m hreads
    rcases List.mem_append.1 hfile with hfile | hfile
    · rcases List.mem_append.1 hfile with hfile | hnative
      · obtain ⟨r, hr, rfl⟩ := List.mem_map.1 hfile
        obtain ⟨original, hclean⟩ := mem_resources hr
        rw [eq_of_reads_print hback hreads, hclean]
        exact literalCredentials_redact original.spec
      · obtain ⟨hmem, hstays, hwhole⟩ := mem_natives.1 hnative
        exact h file hmem hstays hwhole m hreads
    · split_ifs at hfile
      · simp at hfile
      · obtain rfl := List.mem_singleton.1 hfile
        rw [eq_of_reads_print hback hreads]
        exact (harmless_indexSpec yaml provenance _).literalCredentials_eq_nil

section Samples

/-- A data source of project `p` with a member of its spec. -/
def sampleSource (name member : String) : RawManifest where
  apiVersion := API_VERSION
  kind := "DataSource"
  metadata := { name := name, «namespace» := some "p", rest := [] }
  spec := .obj [(member, .str "s3cret")]
  status := none
  rest_wellFormed := by simp [Value.wellFormed, Value.wellFormedMembers]
  spec_wellFormed := by simp [Value.wellFormed, Value.wellFormedMembers]

def sampleText (name member : String) : String :=
  "\x7b" ++ ("apiVersion: joinedcontext.com/v1alpha1, kind: DataSource, metadata: \x7bname: " ++ name ++
    ", namespace: p\x7d, spec: \x7b" ++ member ++ ": s3cret\x7d\x7d")

/-- The YAML library on the samples: a text is read if it is one document. -/
def sampleYaml : Yaml where
  parse text :=
    if text = sampleText "a" "url" then some (sampleSource "a" "url")
    else if text = sampleText "b" "url" then some (sampleSource "b" "url")
    else if text = sampleText "b" "password" then some (sampleSource "b" "password")
    else none
  print m := if m = sampleSource "a" "url" then sampleText "a" "url" else ""

def sampleProvenance : Provenance := ⟨"2026-01-01T00:00:00Z", "ops", "0a1b2c3", fun _ => ""⟩

/-- Two data sources in one file, the second with a member of some name. -/
def sampleFile (member : String) : SourceFile :=
  ⟨"projects/p/datasources/a.yaml",
    some (sampleText "a" "url" ++ "\n" ++ ("---" ++ "\n" ++ sampleText "b" member))⟩

theorem sampleText_oneLine {name member : String}
    (hname : '\n' ∉ name.toList ∧ '\r' ∉ name.toList)
    (hmember : '\n' ∉ member.toList ∧ '\r' ∉ member.toList) :
    OneLine (sampleText name member) :=
  oneLine_mapping (by simp [hname, hmember]) (by simp [hname, hmember])

theorem sampleYaml_readsBack : sampleYaml.ReadsBack := by
  intro m content hcontent
  unfold sampleYaml at hcontent ⊢
  simp only at hcontent ⊢
  split_ifs at hcontent with hm
  · rw [documentsOf_single (sampleText_oneLine (by simp) (by simp)), List.mem_singleton] at hcontent
    rw [hcontent, if_pos rfl, hm]
  · simp [documentsOf, parseYamlDocuments, lines, splitDocuments] at hcontent

theorem carries_no_credential_url :
    (∀ file ∈ bundleFiles sampleYaml "p" sampleProvenance
        (collectProject sampleYaml [sampleFile "url"]),
      ∀ m, Reads sampleYaml file m → literalCredentials m.spec = []) ↔
    ∀ file ∈ [sampleFile "url"], staysBehind file.path = none →
      wholeManifest sampleYaml file = none →
        ∀ m, Reads sampleYaml file m → literalCredentials m.spec = [] :=
  carries_no_credential_iff sampleYaml_readsBack

/-- Two manifests in one file parse as none, so the file is exported as it is and the loader reads
the second one's password. -/
theorem second_document_leaks : sampleYaml.ReadsBack ∧
    ∃ file ∈ bundleFiles sampleYaml "p" sampleProvenance
        (collectProject sampleYaml [sampleFile "password"]),
      ∃ m, Reads sampleYaml file m ∧ literalCredentials m.spec = ["password"] := by
  have hdocuments : documentsOf (sampleText "a" "url" ++ "\n" ++
      ("---" ++ "\n" ++ sampleText "b" "password")) =
        [sampleText "a" "url", sampleText "b" "password"] :=
    documentsOf_pair (sampleText_oneLine (by simp) (by simp)) (sampleText_oneLine (by simp) (by simp))
  have hparse : sampleYaml.parse (sampleText "b" "password") = some (sampleSource "b" "password") := by
    simp [sampleYaml, sampleText]
  have hwhole : wholeManifest sampleYaml (sampleFile "password") = none := by
    simp [wholeManifest, sampleFile, sampleYaml, sampleText]
  refine ⟨sampleYaml_readsBack, sampleFile "password", ?_, sampleSource "b" "password",
    ⟨by decide +kernel, _, rfl, sampleText "b" "password", ?_, hparse, by decide +kernel,
      by decide +kernel⟩, by decide +kernel⟩
  · refine List.mem_append_left _ (List.mem_append_right _ (mem_natives.2 ⟨?_, ?_, hwhole⟩))
    · exact List.mem_singleton_self _
    · decide +kernel
  · rw [hdocuments]
    simp

end Samples

end JoinedContext.Jcctl

import JoinedContext.Jcctl.ChangePath
import JoinedContext.Jcctl.Tree

/-!
# The review gate's input

What the gate is told of a change: for each line of the listing the manifests of the files it
names, proposed as the head has them or deleted as the base had them. It is told of every resource
that changes just when each is declared in a file that is listed for it (`reviewed_iff`); a
document taken out of a file that stays is in none.
-/

namespace JoinedContext.Gate

open Jcctl (Yaml RawManifest ResourceId Repository Tree Held load loaderReads parseYamlDocuments endsWith
  components lines)

section Source

inductive Action where
  | propose
  | delete
deriving DecidableEq

structure Change where
  path : String
  action : Action
  kind : String
  name : String
  project : Option String
  manifest : RawManifest
deriving DecidableEq

structure GateInput where
  author : String
  authorEmail : Option String
  groups : List String
  changes : List Change

/-- What reading a file of a checkout gives. -/
inductive Reading where
  | text (text : String)
  | notFound
  | failed (error : String)

/-- The project a path belongs to: `projects/{p}/...`. -/
def projectOf (path : String) : Option String :=
  match components (String.ofList (path.toList.dropWhile (· == '/'))) with
  | "projects" :: project :: _ => if project ≠ "" then some project else none
  | _ => none

/-- Whether the gate reads a file: YAML that is no LinkML source. -/
def gateReads (path : String) : Bool :=
  (endsWith ".yaml" path || endsWith ".yml" path) && !endsWith ".linkml.yaml" path

def change (path : String) (action : Action) (manifest : RawManifest) : Change where
  path := path
  action := action
  kind := manifest.kind
  name := manifest.metadata.name
  project := (manifest.metadata.namespace.filter (· ≠ "org")).or (projectOf path)
  manifest := manifest

/-- The manifests of a text; a document that is none adds nothing. -/
def documents (yaml : Yaml) (text : String) : List RawManifest :=
  (parseYamlDocuments text).filterMap fun document => yaml.parse document.content

/-- The manifests of one changed file, read from a checkout. -/
def changesOf (yaml : Yaml) (dir : String → Reading) (path : String) (action : Action) :
    Except RolesError (List Change) :=
  if gateReads path = false then .ok []
  else
    match dir path with
    | .text text => .ok ((documents yaml text).map (change path action))
    | .notFound => .ok []
    | .failed error => .error (.io error)

/-- What one line of the listing adds. -/
def lineChanges (yaml : Yaml) (repo base : String → Reading) (line : String) :
    Except RolesError (List Change) :=
  match Text.splitAny ['\t'] line with
  | status :: first :: rest => do
    let first ← changePath first
    match rest with
    | second :: _ =>
      -- a rename or a copy lists the old path, then the new one
      let proposed ← changesOf yaml repo (← changePath second) .propose
      if Text.startsWith 'R' status then
        return proposed ++ (← changesOf yaml base first .delete)
      else return proposed
    | [] =>
      if Text.startsWith 'D' status then changesOf yaml base first .delete
      else changesOf yaml repo first .propose
  | _ => .ok []

def input (yaml : Yaml) (repo base : String → Reading) (nameStatus author : String)
    (authorEmail : Option String) (groups : List String) : Except RolesError GateInput := do
  let changes ← (lines nameStatus).mapM (lineChanges yaml repo base)
  return ⟨author, authorEmail, groups, changes.flatten⟩

end Source

section Revisions

variable {Blob : Type}

/-- A revision checked out: what git tracks at each path, the files the loader finds, and what
reading a path gives, links followed. -/
structure Checkout (Blob : Type) where
  tracked : SortedMap String Blob
  files : Tree
  reads : String → Reading
  inside : ∀ path, (tracked.get? path).isSome → Inside path
  reads_files : ∀ path text, files.get? path = some text → reads path = .text text

/-- A line of `git diff --name-status`, with rename and copy detection. -/
inductive Entry where
  | added (path : String)
  | deleted (path : String)
  | modified (path : String)
  | typeChanged (path : String)
  | renamed (score : ℕ) (old new : String)
  | copied (score : ℕ) (old new : String)

namespace Entry

/-- The similarity of two files, as three digits. -/
def percent (score : ℕ) : List Char :=
  [Char.ofNat (0x30 + score / 100 % 10), Char.ofNat (0x30 + score / 10 % 10),
    Char.ofNat (0x30 + score % 10)]

def status : Entry → String
  | .added _ => "A"
  | .deleted _ => "D"
  | .modified _ => "M"
  | .typeChanged _ => "T"
  | .renamed score _ _ => String.ofList ('R' :: percent score)
  | .copied score _ _ => String.ofList ('C' :: percent score)

def paths : Entry → List String
  | .added path | .deleted path | .modified path | .typeChanged path => [path]
  | .renamed _ old new | .copied _ old new => [old, new]

/-- The file of the head a line is about. -/
def proposed : Entry → Option String
  | .added path | .modified path | .typeChanged path => some path
  | .renamed _ _ new | .copied _ _ new => some new
  | .deleted _ => none

/-- The file a line says the head no longer has. -/
def removed : Entry → Option String
  | .deleted path => some path
  | .renamed _ old _ => some old
  | _ => none

def line (quotePath : Bool) (e : Entry) : String :=
  Text.join "\t" (e.status :: e.paths.map (quoted quotePath))

end Entry

/-- The listing as git writes it. -/
def listing (quotePath : Bool) (entries : List Entry) : String :=
  entries.foldr (fun e rest => e.line quotePath ++ "\n" ++ rest) ""

def Changed (base head : Checkout Blob) (path : String) : Prop :=
  ∃ blob, head.tracked.get? path = some blob ∧ base.tracked.get? path ≠ some blob

def Removed (base head : Checkout Blob) (path : String) : Prop :=
  (base.tracked.get? path).isSome ∧ head.tracked.get? path = none

/-- What git lists between two revisions: every path that changed, as a file of the head or as one
that is gone, and no other. -/
structure NameStatus (base head : Checkout Blob) (entries : List Entry) : Prop where
  proposed : ∀ path, (∃ e ∈ entries, e.proposed = some path) ↔ Changed base head path
  removed : ∀ path, (∃ e ∈ entries, e.removed = some path) ↔ Removed base head path
  tracked : ∀ e ∈ entries, ∀ path ∈ e.paths,
    (base.tracked.get? path).isSome ∨ (head.tracked.get? path).isSome

/-- Whether an entry of the input is about a resource. -/
def Change.Names (c : Change) (id : ResourceId) : Prop :=
  c.kind = id.kind ∧ c.name = id.name ∧ ResourceId.fromManifest c.manifest = id

/-- Whether the input lists every resource that only one of two repositories declares, or that they
declare differently. -/
structure Sees (base head : Repository) (gate : GateInput) : Prop where
  deleted : ∀ id, (base.declares id).isSome → head.declares id = none →
    ∃ c ∈ gate.changes, c.action = .delete ∧ c.Names id
  proposed : ∀ id manifest, head.declares id = some manifest → base.declares id ≠ some manifest →
    ∃ c ∈ gate.changes, c.action = .propose ∧ c.Names id

/-- Whether the gate gets an input between two revisions, and it lists every resource that
changes. -/
def Reviewed (yaml : Yaml) (base head : Checkout Blob) (before after : Repository)
    (nameStatus author : String) (authorEmail : Option String) (groups : List String) : Prop :=
  ∃ gate, input yaml head.reads base.reads nameStatus author authorEmail groups = .ok gate ∧
    Sees before after gate

/-- Whether a file declares a resource, as the gate reads it. -/
def Checkout.Declares (yaml : Yaml) (dir : Checkout Blob) (path : String) (id : ResourceId) :
    Prop :=
  gateReads path = true ∧ ∃ text, dir.reads path = .text text ∧
    ∃ manifest ∈ documents yaml text, ResourceId.fromManifest manifest = id

/-- Whether a file that the gate reads can be read. -/
def Legible (dir : String → Reading) (path : String) : Prop :=
  gateReads path = true → ∀ error, dir path ≠ .failed error

/-- Whether the files that change account for the resources that do: a resource that is gone was
declared in a file that is gone, and one that is new or different is declared in a file that is. -/
structure ByFiles (yaml : Yaml) (base head : Checkout Blob) : Prop where
  legible : ∀ path, (Changed base head path → Legible head.reads path) ∧
    (Removed base head path → Legible base.reads path)
  removed : ∀ path manifest, Held yaml base.files path manifest →
    (∀ path' manifest', Held yaml head.files path' manifest' →
      ResourceId.fromManifest manifest' ≠ ResourceId.fromManifest manifest) →
    ∃ path', Removed base head path' ∧
      base.Declares yaml path' (ResourceId.fromManifest manifest)
  changed : ∀ path manifest, Held yaml head.files path manifest →
    (∀ path', ¬ Held yaml base.files path' manifest) →
    ∃ path', Changed base head path' ∧
      head.Declares yaml path' (ResourceId.fromManifest manifest)

end Revisions

section Lines

variable {yaml : Yaml} {repo base dir : String → Reading} {path : String} {action : Action}
  {quotePath : Bool} {e : Entry} {changes : List Change}

/-- The changes a file adds, where it can be read. -/
def changesIn (yaml : Yaml) (dir : String → Reading) (path : String) (action : Action) :
    List Change :=
  match gateReads path, dir path with
  | true, .text text => (documents yaml text).map (change path action)
  | _, _ => []

theorem changesOf_eq_ok : changesOf yaml dir path action = .ok changes ↔
    Legible dir path ∧ changes = changesIn yaml dir path action := by
  unfold changesOf changesIn Legible
  rcases gateReads path with _ | _
  · simp [eq_comm]
  · rcases dir path with text | _ | error <;> simp [eq_comm]

theorem mem_changesIn {c : Change} : c ∈ changesIn yaml dir path action ↔
    gateReads path = true ∧ ∃ text, dir path = .text text ∧
      ∃ manifest ∈ documents yaml text, change path action manifest = c := by
  unfold changesIn
  rcases gateReads path with _ | _
  · simp
  · rcases dir path with text | _ | error <;> simp

namespace Entry

/-- Whether the files a line names can be read. -/
def Legible (repo base : String → Reading) (e : Entry) : Prop :=
  (∀ path, e.proposed = some path → Gate.Legible repo path) ∧
    ∀ path, e.removed = some path → Gate.Legible base path

/-- What a line adds: the manifests of the file it proposes, then of the one it removes. -/
def adds (yaml : Yaml) (repo base : String → Reading) (e : Entry) : List Change :=
  (e.proposed.elim [] (changesIn yaml repo · .propose)) ++
    e.removed.elim [] (changesIn yaml base · .delete)

theorem printable_of_mem_status {c : Char} (hc : c ∈ e.status.toList) : 0x20 ≤ c.toNat := by
  have hdigit (n : ℕ) : 0x20 ≤ (Char.ofNat (0x30 + n % 10)).toNat := by
    rw [Text.toNat_ofNat (by omega)]
    omega
  have hpercent {score : ℕ} (hc : c ∈ percent score) : 0x20 ≤ c.toNat := by
    simp only [percent, List.mem_cons, List.not_mem_nil, or_false] at hc
    rcases hc with rfl | rfl | rfl <;> exact hdigit _
  cases e with
  | renamed score | copied score =>
    rw [status, String.toList_ofList, List.mem_cons] at hc
    rcases hc with rfl | hc
    · decide
    · exact hpercent hc
  | _ =>
    simp only [status] at hc
    obtain rfl := by simpa using hc
    decide

theorem splitAny_line : Text.splitAny ['\t'] (e.line quotePath) =
    e.status :: e.paths.map (quoted quotePath) := by
  have htab : ("\t" : String) = String.ofList ['\t'] := rfl
  unfold line
  rw [htab]
  refine Text.splitAny_join (List.cons_ne_nil _ _) fun s hs htab => ?_
  rcases List.mem_cons.1 hs with rfl | hs
  · exact absurd (printable_of_mem_status htab) (by decide)
  · obtain ⟨path, -, rfl⟩ := List.mem_map.1 hs
    exact absurd (toNat_of_mem_quoted htab) (by decide)

theorem status_renamed (score : ℕ) (old new : String) :
    Text.startsWith 'R' (renamed score old new).status = true := by
  simp [status, Text.startsWith]

theorem status_copied (score : ℕ) (old new : String) :
    Text.startsWith 'R' (copied score old new).status = false := by
  simp [status, Text.startsWith]

/-- What a line says is what its entry does. -/
theorem lineChanges_line (hinside : ∀ path ∈ e.paths, Inside path) :
    lineChanges yaml repo base (e.line quotePath) = .ok changes ↔
      e.Legible repo base ∧ changes = e.adds yaml repo base := by
  unfold lineChanges
  rw [splitAny_line]
  cases e with
  | renamed score old new =>
    obtain ⟨hold, hnew⟩ : Inside old ∧ Inside new := by simpa [paths] using hinside
    simp only [paths, List.map_cons, List.map_nil, changePath_quoted hold, changePath_quoted hnew,
      status_renamed, if_true, bind_eq_ok, Except.ok.injEq, exists_eq_left', changesOf_eq_ok]
    constructor
    · rintro ⟨_, ⟨hlegible, rfl⟩, _, ⟨hlegible', rfl⟩, h⟩
      exact ⟨⟨by simpa [proposed] using hlegible, by simpa [removed] using hlegible'⟩,
        (Except.ok.inj h).symm⟩
    · rintro ⟨⟨hlegible, hlegible'⟩, rfl⟩
      exact ⟨_, ⟨hlegible new rfl, rfl⟩, _, ⟨hlegible' old rfl, rfl⟩, rfl⟩
  | copied score old new =>
    obtain ⟨hold, hnew⟩ : Inside old ∧ Inside new := by simpa [paths] using hinside
    simp only [paths, List.map_cons, List.map_nil, changePath_quoted hold, changePath_quoted hnew,
      status_copied, Bool.false_eq_true, if_false, bind_eq_ok, Except.ok.injEq, exists_eq_left',
      changesOf_eq_ok]
    constructor
    · rintro ⟨_, ⟨hlegible, rfl⟩, h⟩
      exact ⟨⟨by simpa [proposed] using hlegible, by simp [removed]⟩,
        (Except.ok.inj h).symm.trans (List.append_nil _).symm⟩
    · rintro ⟨⟨hlegible, -⟩, rfl⟩
      exact ⟨_, ⟨hlegible new rfl, rfl⟩, congrArg Except.ok (List.append_nil _).symm⟩
  | deleted path =>
    have hpath : Inside path := by simpa [paths] using hinside
    have hstatus : Text.startsWith 'D' (deleted path).status = true := by
      simp [status, Text.startsWith]
    simp only [paths, List.map_cons, List.map_nil, changePath_quoted hpath, hstatus, if_true,
      bind_eq_ok, Except.ok.injEq, exists_eq_left', changesOf_eq_ok]
    simp [Legible, adds, proposed, removed]
  | added path | modified path | typeChanged path =>
    have hpath : Inside path := by simpa [paths] using hinside
    simp only [paths, List.map_cons, List.map_nil, changePath_quoted hpath, bind_eq_ok,
      Except.ok.injEq, exists_eq_left']
    simp [Legible, adds, proposed, removed, status, Text.startsWith, changesOf_eq_ok]

/-- A line is one line: it has no character under the blank but the tabs between its columns. -/
theorem printable_of_mem_line {c : Char} (hc : c ∈ (e.line quotePath).toList) :
    c = '\t' ∨ 0x20 ≤ c.toNat := by
  rcases Text.mem_of_mem_join hc with hc | ⟨s, hs, hc⟩
  · exact .inl (by simpa using hc)
  · rcases List.mem_cons.1 hs with rfl | hs
    · exact .inr (printable_of_mem_status hc)
    · obtain ⟨path, -, rfl⟩ := List.mem_map.1 hs
      exact .inr (toNat_of_mem_quoted hc)

end Entry

theorem lines_listing : ∀ entries : List Entry,
    lines (listing quotePath entries) = entries.map (Entry.line quotePath)
  | [] => by simp [listing, lines]
  | e :: entries => by
    have hnewline : '\n' ∉ (e.line quotePath).toList := fun hmem => by
      rcases Entry.printable_of_mem_line hmem with h | h <;> exact absurd h (by decide)
    have hreturn : (e.line quotePath).toList.getLast? ≠ some '\r' := fun hlast => by
      rcases Entry.printable_of_mem_line (List.mem_of_getLast? hlast) with h | h <;>
        exact absurd h (by decide)
    change lines (e.line quotePath ++ "\n" ++ listing quotePath entries) = _
    rw [Jcctl.lines_append hnewline hreturn, lines_listing entries, List.map_cons]

/-- The gate's input on a listing: it is there when every file it names can be read. -/
theorem input_eq_ok {entries : List Entry} {author : String} {authorEmail : Option String}
    {groups : List String} {gate : GateInput}
    (hinside : ∀ e ∈ entries, ∀ path ∈ e.paths, Inside path) :
    input yaml repo base (listing quotePath entries) author authorEmail groups = .ok gate ↔
      (∀ e ∈ entries, e.Legible repo base) ∧
        gate = ⟨author, authorEmail, groups, entries.flatMap (Entry.adds yaml repo base)⟩ := by
  have hline : ∀ e ∈ entries, ∀ changes,
      lineChanges yaml repo base (e.line quotePath) = .ok changes ↔
        e.Legible repo base ∧ changes = e.adds yaml repo base :=
    fun e he changes => Entry.lineChanges_line (hinside e he)
  have hread (changes : List (List Change)) :
      (entries.map (Entry.line quotePath)).mapM (lineChanges yaml repo base) = .ok changes ↔
        (∀ e ∈ entries, e.Legible repo base) ∧
          changes = entries.map (Entry.adds yaml repo base) := by
    rw [mapM_eq_ok, List.forall_mem_map, List.filterMap_map]
    have hlegible : (∀ e ∈ entries, ∃ b, lineChanges yaml repo base (e.line quotePath) = .ok b) ↔
        ∀ e ∈ entries, e.Legible repo base :=
      forall₂_congr fun e he => ⟨fun ⟨b, hb⟩ => ((hline e he b).1 hb).1,
        fun h => ⟨_, (hline e he _).2 ⟨h, rfl⟩⟩⟩
    rw [hlegible]
    refine and_congr_right fun hall => ?_
    rw [← List.filterMap_eq_map,
      List.filterMap_congr (g := some ∘ Entry.adds yaml repo base) fun e he => ?_]
    rw [Function.comp_apply, (hline e he _).2 ⟨hall e he, rfl⟩]
    rfl
  unfold input
  rw [lines_listing, bind_eq_ok]
  constructor
  · rintro ⟨changes, hchanges, h⟩
    obtain ⟨hlegible, rfl⟩ := (hread changes).1 hchanges
    exact ⟨hlegible, (Except.ok.inj h).symm⟩
  · rintro ⟨hlegible, rfl⟩
    exact ⟨_, (hread _).2 ⟨hlegible, rfl⟩, rfl⟩

end Lines

section Review

variable {Blob : Type} {yaml : Yaml} {base head dir : Checkout Blob} {before after : Repository}
  {entries : List Entry} {quotePath : Bool} {author : String} {authorEmail : Option String}
  {groups : List String} {id : ResourceId} {manifest : RawManifest} {path : String}

theorem declares_eq_some {tree : Tree} {repo : Repository} (h : load yaml tree = .ok repo) :
    repo.declares id = some manifest ↔
      (∃ path, Held yaml tree path manifest) ∧ ResourceId.fromManifest manifest = id := by
  unfold Repository.declares
  rw [Option.map_eq_some_iff]
  constructor
  · rintro ⟨loaded, hget, rfl⟩
    obtain ⟨hheld, hid⟩ := (Jcctl.get?_load h).1 hget
    exact ⟨⟨_, hheld⟩, hid⟩
  · rintro ⟨⟨path, hheld⟩, hid⟩
    exact ⟨⟨path, manifest⟩, (Jcctl.get?_load h).2 ⟨hheld, hid⟩, rfl⟩

theorem declares_eq_none {tree : Tree} {repo : Repository} (h : load yaml tree = .ok repo) :
    repo.declares id = none ↔
      ∀ path manifest, Held yaml tree path manifest → ResourceId.fromManifest manifest ≠ id := by
  rw [Option.eq_none_iff_forall_not_mem]
  constructor
  · intro hnone path manifest hheld hid
    exact hnone manifest ((declares_eq_some h).2 ⟨⟨path, hheld⟩, hid⟩)
  · intro hall manifest hmem
    obtain ⟨⟨path, hheld⟩, hid⟩ := (declares_eq_some h).1 hmem
    exact hall path manifest hheld hid

/-- The entries a file adds are of the resources it declares. -/
theorem exists_names_iff {action : Action} :
    (∃ c ∈ changesIn yaml dir.reads path action, c.action = action ∧ c.Names id) ↔
      dir.Declares yaml path id := by
  constructor
  · rintro ⟨c, hc, -, -, -, hid⟩
    obtain ⟨hreads, text, htext, manifest, hmanifest, rfl⟩ := mem_changesIn.1 hc
    exact ⟨hreads, text, htext, manifest, hmanifest, hid⟩
  · rintro ⟨hreads, text, htext, manifest, hmanifest, rfl⟩
    exact ⟨change path action manifest,
      mem_changesIn.2 ⟨hreads, text, htext, manifest, hmanifest, rfl⟩, rfl, rfl, rfl, rfl⟩

theorem action_of_mem_changesIn {reads : String → Reading} {action : Action} {c : Change}
    (hc : c ∈ changesIn yaml reads path action) : c.action = action := by
  obtain ⟨-, _, -, _, -, rfl⟩ := mem_changesIn.1 hc
  rfl

/-- A line of a listing adds the changes of the path it proposes and of the one it removes. -/
theorem mem_adds {repo base : String → Reading} {e : Entry} {c : Change} :
    c ∈ e.adds yaml repo base ↔
      (∃ path, e.proposed = some path ∧ c ∈ changesIn yaml repo path .propose) ∨
        ∃ path, e.removed = some path ∧ c ∈ changesIn yaml base path .delete := by
  unfold Entry.adds
  rw [List.mem_append]
  cases e.proposed <;> cases e.removed <;> simp

/-- The entries of a listing that delete a resource, by the files that are gone. -/
theorem exists_delete_iff (hlist : NameStatus base head entries) :
    (∃ c ∈ entries.flatMap (Entry.adds yaml head.reads base.reads),
      c.action = .delete ∧ c.Names id) ↔
      ∃ path, Removed base head path ∧ base.Declares yaml path id := by
  constructor
  · rintro ⟨c, hc, haction, hnames⟩
    obtain ⟨e, he, hc⟩ := List.mem_flatMap.1 hc
    rcases mem_adds.1 hc with ⟨path, -, hc⟩ | ⟨path, hremoved, hc⟩
    · cases (action_of_mem_changesIn hc).symm.trans haction
    · exact ⟨path, (hlist.removed path).1 ⟨e, he, hremoved⟩,
        exists_names_iff.1 ⟨c, hc, haction, hnames⟩⟩
  · rintro ⟨path, hpath, hdeclares⟩
    obtain ⟨e, he, hremoved⟩ := (hlist.removed path).2 hpath
    obtain ⟨c, hc, h⟩ := exists_names_iff.2 hdeclares
    exact ⟨c, List.mem_flatMap.2 ⟨e, he, mem_adds.2 (Or.inr ⟨path, hremoved, hc⟩)⟩, h⟩

theorem exists_propose_iff (hlist : NameStatus base head entries) :
    (∃ c ∈ entries.flatMap (Entry.adds yaml head.reads base.reads),
      c.action = .propose ∧ c.Names id) ↔
      ∃ path, Changed base head path ∧ head.Declares yaml path id := by
  constructor
  · rintro ⟨c, hc, haction, hnames⟩
    obtain ⟨e, he, hc⟩ := List.mem_flatMap.1 hc
    rcases mem_adds.1 hc with ⟨path, hproposed, hc⟩ | ⟨path, -, hc⟩
    · exact ⟨path, (hlist.proposed path).1 ⟨e, he, hproposed⟩,
        exists_names_iff.1 ⟨c, hc, haction, hnames⟩⟩
    · cases (action_of_mem_changesIn hc).symm.trans haction
  · rintro ⟨path, hpath, hdeclares⟩
    obtain ⟨e, he, hproposed⟩ := (hlist.proposed path).2 hpath
    obtain ⟨c, hc, h⟩ := exists_names_iff.2 hdeclares
    exact ⟨c, List.mem_flatMap.2 ⟨e, he, mem_adds.2 (Or.inl ⟨path, hproposed, hc⟩)⟩, h⟩

theorem inside_of_tracked (hlist : NameStatus base head entries) :
    ∀ e ∈ entries, ∀ path ∈ e.paths, Inside path := fun e he path hpath =>
  (hlist.tracked e he path hpath).elim (base.inside path) (head.inside path)

theorem legible_iff (hlist : NameStatus base head entries) :
    (∀ e ∈ entries, e.Legible head.reads base.reads) ↔
      ∀ path, (Changed base head path → Legible head.reads path) ∧
        (Removed base head path → Legible base.reads path) := by
  constructor
  · intro h path
    constructor
    · intro hchanged
      obtain ⟨e, he, hproposed⟩ := (hlist.proposed path).2 hchanged
      exact (h e he).1 path hproposed
    · intro hgone
      obtain ⟨e, he, hremoved⟩ := (hlist.removed path).2 hgone
      exact (h e he).2 path hremoved
  · intro h e he
    exact ⟨fun path hproposed => (h path).1 ((hlist.proposed path).1 ⟨e, he, hproposed⟩),
      fun path hremoved => (h path).2 ((hlist.removed path).1 ⟨e, he, hremoved⟩)⟩

/-- The gate is told of every change just when the files account for it. -/
theorem reviewed_iff (hbefore : load yaml base.files = .ok before)
    (hafter : load yaml head.files = .ok after) (hlist : NameStatus base head entries) :
    Reviewed yaml base head before after (listing quotePath entries) author authorEmail groups ↔
      ByFiles yaml base head := by
  unfold Reviewed
  simp only [input_eq_ok (inside_of_tracked hlist), legible_iff hlist]
  constructor
  · rintro ⟨gate, ⟨hlegible, rfl⟩, hsees⟩
    refine ⟨hlegible, fun path manifest hheld hnone => ?_, fun path manifest hheld hnew => ?_⟩
    · refine (exists_delete_iff hlist).1 (hsees.deleted _ ?_ ((declares_eq_none hafter).2 hnone))
      exact Option.isSome_of_eq_some ((declares_eq_some hbefore).2 ⟨⟨path, hheld⟩, rfl⟩)
    · refine (exists_propose_iff hlist).1 (hsees.proposed _ manifest
        ((declares_eq_some hafter).2 ⟨⟨path, hheld⟩, rfl⟩) fun hsame => ?_)
      obtain ⟨⟨path', hheld'⟩, -⟩ := (declares_eq_some hbefore).1 hsame
      exact hnew path' hheld'
  · intro h
    refine ⟨_, ⟨h.legible, rfl⟩, fun id hsome hnone => ?_, fun id manifest hsome hne => ?_⟩
    · obtain ⟨manifest, hmanifest⟩ := Option.isSome_iff_exists.1 hsome
      obtain ⟨⟨path, hheld⟩, rfl⟩ := (declares_eq_some hbefore).1 hmanifest
      exact (exists_delete_iff hlist).2
        (h.removed path manifest hheld ((declares_eq_none hafter).1 hnone))
    · obtain ⟨⟨path, hheld⟩, rfl⟩ := (declares_eq_some hafter).1 hsome
      refine (exists_propose_iff hlist).2 (h.changed path manifest hheld fun path' hheld' => hne ?_)
      exact (declares_eq_some hbefore).2 ⟨⟨path', hheld'⟩, rfl⟩

end Review

section Files

variable {Blob : Type} {yaml : Yaml} {base head dir : Checkout Blob} {manifest : RawManifest}
  {path : String}

theorem gateReads_of_loaderReads (h : loaderReads path = true) : gateReads path = true := by
  simp only [loaderReads, Bool.and_eq_true, Bool.not_eq_true', Jcctl.isNativeYaml,
    Bool.or_eq_false_iff] at h
  obtain ⟨⟨-, hyaml⟩, ⟨⟨hlinkml, -⟩, -⟩, -⟩ := h
  rw [Jcctl.endsWith_fileName (by decide), Jcctl.endsWith_fileName (by decide)] at hyaml
  rw [Jcctl.endsWith_fileName (by decide)] at hlinkml
  rw [gateReads, hyaml, hlinkml]
  rfl

/-- A manifest the loader reads in a file is one the gate reads there. -/
theorem declares_of_held (h : Held yaml dir.files path manifest) :
    dir.Declares yaml path (ResourceId.fromManifest manifest) := by
  obtain ⟨hreads, text, hget, hmanifest⟩ := h
  refine ⟨gateReads_of_loaderReads hreads, text, dir.reads_files path text hget, manifest, ?_, rfl⟩
  obtain ⟨content, hcontent, hparse⟩ := List.mem_filterMap.1 hmanifest
  obtain ⟨chunk, hchunk, rfl⟩ := List.mem_map.1 (List.mem_filter.1 hcontent).1
  exact List.mem_filterMap.2 ⟨chunk, hchunk, hparse⟩

/-- Whether no file is reached through a link: each is tracked, and one git tracks as the same is
the same. -/
structure Direct (base head : Checkout Blob) : Prop where
  base_tracked : ∀ path text, base.files.get? path = some text → (base.tracked.get? path).isSome
  head_tracked : ∀ path text, head.files.get? path = some text → (head.tracked.get? path).isSome
  same : ∀ path blob, base.tracked.get? path = some blob → head.tracked.get? path = some blob →
    base.files.get? path = head.files.get? path

/-- Where no file is reached through a link, only a file that stays and loses a resource hides a
change. -/
theorem byFiles_of_direct (hdirect : Direct base head)
    (hlegible : ∀ path, (Changed base head path → Legible head.reads path) ∧
      (Removed base head path → Legible base.reads path))
    (hkept : ∀ path manifest, Held yaml base.files path manifest →
      (head.tracked.get? path).isSome → ∃ path' manifest', Held yaml head.files path' manifest' ∧
        ResourceId.fromManifest manifest' = ResourceId.fromManifest manifest) :
    ByFiles yaml base head where
  legible := hlegible
  removed path manifest hheld hnone := by
    refine ⟨path, ⟨?_, ?_⟩, declares_of_held hheld⟩
    · obtain ⟨-, text, hget, -⟩ := hheld
      exact hdirect.base_tracked path text hget
    · by_contra hstays
      obtain ⟨path', manifest', hheld', hid⟩ :=
        hkept path manifest hheld (Option.isSome_iff_ne_none.2 hstays)
      exact hnone path' manifest' hheld' hid
  changed path manifest hheld hnew := by
    obtain ⟨hreads, text, hget, hmanifest⟩ := id hheld
    obtain ⟨blob, hblob⟩ := Option.isSome_iff_exists.1 (hdirect.head_tracked path text hget)
    refine ⟨path, ⟨blob, hblob, fun hsame => hnew path ?_⟩, declares_of_held hheld⟩
    exact ⟨hreads, text, (hdirect.same path blob hsame hblob).trans hget, hmanifest⟩

end Files

section Gate

variable {Blob : Type} {yaml : Yaml} {base head : Checkout Blob} {before after : Repository}
  {entries : List Entry}

/-- Whether the gate sees every change between two revisions: git's path of a file is read as that
file, no path leads out of the checkout, and every resource that changes is in the input. -/
structure SeesEveryChange (yaml : Yaml) (base head : Checkout Blob) (before after : Repository)
    (quotePath : Bool) (entries : List Entry) (author : String) (authorEmail : Option String)
    (groups : List String) : Prop where
  unquoted : ∀ path, (base.tracked.get? path).isSome ∨ (head.tracked.get? path).isSome →
    changePath (quoted quotePath path) = .ok path
  held : ∀ column path, changePath column = .ok path → Inside path
  reviewed : Reviewed yaml base head before after (listing quotePath entries) author authorEmail
    groups

theorem seesEveryChange_iff (hbefore : load yaml base.files = .ok before)
    (hafter : load yaml head.files = .ok after) (hlist : NameStatus base head entries)
    (quotePath : Bool) (author : String) (authorEmail : Option String) (groups : List String) :
    SeesEveryChange yaml base head before after quotePath entries author authorEmail groups ↔
      ByFiles yaml base head := by
  refine ⟨fun h => (reviewed_iff hbefore hafter hlist).1 h.reviewed, fun h => ⟨?_, ?_, ?_⟩⟩
  · exact fun path htracked => changePath_quoted (htracked.elim (base.inside path) (head.inside path))
  · exact fun column path => inside_of_changePath
  · exact (reviewed_iff hbefore hafter hlist).2 h

end Gate

section Example

open Jcctl (sampleYaml sampleSource sampleText manifestFiles)

def samplePath : String := "projects/p/datasources/a.yaml"

/-- Two data sources in one file. -/
def pairText : String :=
  sampleText "a" "url" ++ "\n" ++ ("---" ++ "\n" ++ sampleText "b" "url")

def nothing : Checkout ℕ where
  tracked := SortedMap.empty
  files := SortedMap.empty
  reads _ := .notFound
  inside _ h := by simp at h
  reads_files _ _ h := by simp at h

theorem inside_samplePath : Inside samplePath :=
  ⟨by decide, by decide, by decide, by decide⟩

/-- A checkout of the one file, which git tracks as some blob. -/
def sampleCheckout (text : String) (blob : ℕ) : Checkout ℕ where
  tracked := SortedMap.empty.insert samplePath blob
  files := SortedMap.empty.insert samplePath text
  reads path := if path = samplePath then .text text else .notFound
  inside path h := by
    rw [SortedMap.get?_insert] at h
    split_ifs at h with hpath
    · exact hpath ▸ inside_samplePath
    · simp at h
  reads_files path text' h := by
    rw [SortedMap.get?_insert] at h
    split_ifs at h ⊢ with hpath
    · rw [Option.some.inj h]
    · simp at h

theorem oneLine_sampleText {name : String} (hname : '\n' ∉ name.toList ∧ '\r' ∉ name.toList) :
    Jcctl.OneLine (sampleText name "url") := Jcctl.sampleText_oneLine hname (by decide)

theorem parse_sampleText {name : String} (hname : name ∈ ["a", "b"]) :
    sampleYaml.parse (sampleText name "url") = some (sampleSource name "url") := by
  simp only [List.mem_cons, List.not_mem_nil, or_false] at hname
  rcases hname with rfl | rfl
  · simp [sampleYaml]
  · simp [sampleYaml, sampleText]

section Documents

variable {text path : String} {names : List String} {blob : ℕ} {manifest : RawManifest}
  (htext : Jcctl.documentsOf text = names.map (sampleText · "url"))
  (hnames : ∀ name ∈ names, name ∈ ["a", "b"])

include htext hnames

theorem manifestsOf_sample :
    Jcctl.manifestsOf sampleYaml text = names.map (sampleSource · "url") := by
  rw [Jcctl.manifestsOf, htext, List.filterMap_map, ← List.filterMap_eq_map]
  exact List.filterMap_congr fun name hname => parse_sampleText (hnames name hname)

theorem held_sample : Held sampleYaml (sampleCheckout text blob).files path manifest ↔
    path = samplePath ∧ ∃ name ∈ names, sampleSource name "url" = manifest := by
  have hget (path : String) : (sampleCheckout text blob).files.get? path =
      if path = samplePath then some text else none := SortedMap.get?_insert
  unfold Held
  rw [hget]
  constructor
  · rintro ⟨-, text', htext', hmanifest⟩
    split_ifs at htext' with hpath
    obtain rfl := Option.some.inj htext'
    rw [manifestsOf_sample htext hnames] at hmanifest
    exact ⟨hpath, List.mem_map.1 hmanifest⟩
  · rintro ⟨rfl, hmanifest⟩
    refine ⟨by decide +kernel, text, if_pos rfl, ?_⟩
    rw [manifestsOf_sample htext hnames]
    exact List.mem_map.2 hmanifest

theorem exists_load_sample (hnodup : names.Nodup) :
    ∃ repo, load sampleYaml (sampleCheckout text blob).files = .ok repo := by
  have hfile : ∀ file ∈ manifestFiles (sampleCheckout text blob).files,
      file = (samplePath, text) := by
    rintro ⟨path, text'⟩ hfile
    have hget : (if path = samplePath then some text else none) = some text' :=
      SortedMap.get?_insert.symm.trans (Jcctl.mem_manifestFiles.1 hfile).1
    split_ifs at hget with hpath
    rw [hpath, Option.some.inj hget]
  refine Jcctl.loads_iff.2 ⟨fun file hmem => ?_, fun file hmem => ?_, fun file hmem other hother hne => ?_⟩
  · obtain rfl := hfile file hmem
    intro content hcontent
    rw [htext] at hcontent
    obtain ⟨name, hname, rfl⟩ := List.mem_map.1 hcontent
    have hserves : Jcctl.serves "DataSource" Jcctl.API_VERSION = true := by decide
    have hkind : (Jcctl.byKind "DataSource").isSome = true := by decide
    exact ⟨_, parse_sampleText (hnames name hname), hserves, hkind⟩
  · obtain rfl := hfile file hmem
    rw [Jcctl.idsOf, manifestsOf_sample htext hnames, List.map_map]
    exact hnodup.map fun name name' heq => congrArg ResourceId.name heq
  · exact absurd ((congrArg Prod.fst (hfile file hmem)).trans
      (congrArg Prod.fst (hfile other hother)).symm) hne

end Documents

theorem documentsOf_pairText :
    Jcctl.documentsOf pairText = ["a", "b"].map (sampleText · "url") :=
  Jcctl.documentsOf_pair (oneLine_sampleText (by decide)) (oneLine_sampleText (by decide))

theorem documentsOf_single :
    Jcctl.documentsOf (sampleText "a" "url") = ["a"].map (sampleText · "url") :=
  Jcctl.documentsOf_single (oneLine_sampleText (by decide))

theorem exists_load_nothing : ∃ repo, load sampleYaml nothing.files = .ok repo := by
  have hnone (file : String × String) : file ∉ manifestFiles nothing.files := by
    rw [Jcctl.mem_manifestFiles]
    simp [nothing]
  exact Jcctl.loads_iff.2 ⟨fun file h => absurd h (hnone file), fun file h => absurd h (hnone file),
    fun file h => absurd h (hnone file)⟩

theorem get?_tracked_sample (text : String) (blob : ℕ) (path : String) :
    (sampleCheckout text blob).tracked.get? path = if path = samplePath then some blob else none :=
  SortedMap.get?_insert

theorem nameStatus_deleted :
    NameStatus (sampleCheckout pairText 1) nothing [.deleted samplePath] := by
  refine ⟨fun path => ?_, fun path => ?_, ?_⟩
  · simp [Entry.proposed, Changed, nothing]
  · unfold Removed
    rw [get?_tracked_sample]
    by_cases hpath : path = samplePath <;> simp [Entry.removed, hpath, nothing, eq_comm]
  · simp [Entry.paths, get?_tracked_sample]

/-- Both sources of a file that is deleted are in the gate's input. -/
theorem seesEveryChange_deleted : ∃ before after,
    load sampleYaml (sampleCheckout pairText 1).files = .ok before ∧
    load sampleYaml nothing.files = .ok after ∧
    SeesEveryChange sampleYaml (sampleCheckout pairText 1) nothing before after true
      [.deleted samplePath] "jana" none [] := by
  obtain ⟨before, hbefore⟩ : ∃ repo, load sampleYaml (sampleCheckout pairText 1).files = .ok repo :=
    exists_load_sample documentsOf_pairText (by simp) (by decide)
  obtain ⟨after, hafter⟩ := exists_load_nothing
  refine ⟨before, after, hbefore, hafter, (seesEveryChange_iff hbefore hafter nameStatus_deleted
    true "jana" none []).2 (byFiles_of_direct ⟨?_, ?_, ?_⟩ ?_ ?_)⟩
  · intro path text hget
    have hget' : (if path = samplePath then some pairText else none) = some text :=
      SortedMap.get?_insert.symm.trans hget
    rw [get?_tracked_sample]
    split_ifs at hget' ⊢
    rfl
  · simp [nothing]
  · simp [nothing]
  · intro path
    refine ⟨fun _ => by simp [Legible, nothing], fun _ _ error => ?_⟩
    change (if path = samplePath then Reading.text pairText else .notFound) ≠ .failed error
    split_ifs <;> simp
  · simp [nothing]

theorem nameStatus_modified : NameStatus (sampleCheckout pairText 1)
    (sampleCheckout (sampleText "a" "url") 2) [.modified samplePath] := by
  refine ⟨fun path => ?_, fun path => ?_, ?_⟩
  · unfold Changed
    rw [get?_tracked_sample, get?_tracked_sample]
    by_cases hpath : path = samplePath <;> simp [Entry.proposed, hpath, eq_comm]
  · unfold Removed
    rw [get?_tracked_sample, get?_tracked_sample]
    by_cases hpath : path = samplePath <;> simp [Entry.removed, hpath]
  · simp [Entry.paths, get?_tracked_sample]

/-- A source taken out of a file that stays is not in the gate's input. -/
theorem not_seesEveryChange : ∃ before after,
    load sampleYaml (sampleCheckout pairText 1).files = .ok before ∧
    load sampleYaml (sampleCheckout (sampleText "a" "url") 2).files = .ok after ∧
    NameStatus (sampleCheckout pairText 1) (sampleCheckout (sampleText "a" "url") 2)
      [.modified samplePath] ∧
    ¬ SeesEveryChange sampleYaml (sampleCheckout pairText 1)
      (sampleCheckout (sampleText "a" "url") 2) before after true [.modified samplePath] "jana" none
      [] := by
  obtain ⟨before, hbefore⟩ : ∃ repo, load sampleYaml (sampleCheckout pairText 1).files = .ok repo :=
    exists_load_sample documentsOf_pairText (by simp) (by decide)
  obtain ⟨after, hafter⟩ :
      ∃ repo, load sampleYaml (sampleCheckout (sampleText "a" "url") 2).files = .ok repo :=
    exists_load_sample documentsOf_single (by simp) (by decide)
  refine ⟨before, after, hbefore, hafter, nameStatus_modified, fun h => ?_⟩
  have hfiles := (reviewed_iff hbefore hafter nameStatus_modified).1 h.reviewed
  obtain ⟨path, ⟨htracked, hgone⟩, -⟩ := hfiles.removed samplePath (sampleSource "b" "url")
    ((held_sample documentsOf_pairText (by simp)).2 ⟨rfl, "b", by simp, rfl⟩) (by
      intro path' manifest' hheld
      obtain ⟨-, name, hname, rfl⟩ := (held_sample documentsOf_single (by simp)).1 hheld
      obtain rfl := List.mem_singleton.1 hname
      decide)
  rw [get?_tracked_sample] at htracked hgone
  split_ifs at hgone htracked
  simp at htracked

end Example
end JoinedContext.Gate

import JoinedContext.Library.Machine
import JoinedContext.Library.Outcome
import JoinedContext.Library.SortedMap
import Mathlib.Data.String.Basic

/-!
# Assembling beside the last tree

One assembly after the other into one target. The new tree is written beside the target and takes its place
once it loads; the render of a linked checkout that did not move is moved out of the target into the new tree,
and put back when the assembly is refused. Any step on the file system may fail.
-/

namespace JoinedContext.Assemble.Reuse

/-- What an assembly reads: a render of a checkout, its documents and findings, the documents of a copied
render, and the repository that documents make in an environment, if none of it is refused. -/
structure Assembler (Files Doc Finding Repo Entry Error : Type) where
  gitRef : Entry → String
  mountProject : String → Entry → Files → Except Error (Files × List Doc × List Finding)
  readDocuments : String → Files → Except Error (List Doc)
  fromDocuments : Option String → List Doc → Except Error Repo
  /-- The files of a linked tree, which never change. -/
  linked : String → Files

/-- A checkout on disk: a link to a tree, or a directory of its own. -/
inductive Checkout (Files : Type) where
  | link (tree : String)
  | plain (files : Files)

structure Tree (Files : Type) where
  organization : Files
  projects : String → Option Files

/-- A render that is kept for the next assembly. -/
structure Render (Doc Finding Entry : Type) where
  tree : String
  entry : Entry
  documents : List Doc
  findings : List Finding

structure EntryStatus where
  slug : String
  gitRef : String
  error : Option String
  rendered : Bool
  reused : Bool

structure Assembly (Repo Finding : Type) where
  repository : Repo
  entries : List EntryStatus
  findings : List Finding

/-- The steps that put the new tree in the target's place, in their order. -/
inductive Swap where
  | removePrevious | moveAside | moveIn | removeAside
deriving DecidableEq

/-- The steps on the file system that fail in an assembly. -/
structure Faults (Error : Type) where
  /-- A render of the target that is not seen. -/
  unseen : String → Bool := fun _ => false
  moveOut : String → Option Error := fun _ => none
  write : String → Option Error := fun _ => none
  putBack : String → Bool := fun _ => false
  swap : Swap → Option Error := fun _ => none

/-- The organization's checkout: loaded where it is in layout 1, else its files, its documents and its
registry, if they are read and copied. -/
inductive Organization (Files Doc Repo Entry Error : Type) where
  | inPlace (loaded : Except Error Repo)
  | registry (read : Except Error (Files × List Doc × SortedMap String Entry))

structure Inputs (Files Doc Repo Entry Error : Type) where
  organization : Organization Files Doc Repo Entry Error
  environment : Option String
  checkout : String → Entry → Except String (Checkout Files)
  faults : Faults Error

/-- The target and the kept renders between two assemblies. -/
structure State (Files Doc Finding Entry : Type) where
  target : Option (Tree Files)
  renders : String → Option (Render Doc Finding Entry)

/-- An assembly while it builds the new tree. -/
structure Progress (Files Doc Finding Entry : Type) where
  /-- The renders of the new tree. -/
  projects : String → Option Files
  /-- The renders left in the target. -/
  left : String → Option Files
  documents : List Doc
  findings : List Finding
  entries : List EntryStatus
  kept : String → Option (Render Doc Finding Entry)
  /-- The renders moved out of the target. -/
  moved : List String

variable {Files Doc Finding Repo Entry Error : Type} [DecidableEq Entry]

section Assemble

variable (a : Assembler Files Doc Finding Repo Entry Error) (s : State Files Doc Finding Entry)
  (i : Inputs Files Doc Repo Entry Error)

/-- The render of a project in the target. -/
def State.last (slug : String) : Option Files := s.target.bind fun t => t.projects slug

def Checkout.tree : Checkout Files → Option String
  | .link tree => some tree
  | .plain _ => none

def Checkout.files : Checkout Files → Files
  | .link tree => a.linked tree
  | .plain files => files

/-- Whether a kept render is the checkout's: its tree and its entry are unchanged. -/
def current (checkout : Checkout Files) (entry : Entry) (render : Render Doc Finding Entry) : Bool :=
  checkout.tree = some render.tree && render.entry = entry

def Progress.begin (documents : List Doc) : Progress Files Doc Finding Entry where
  projects := fun _ => none
  left := s.last
  documents := documents
  findings := []
  entries := []
  kept := fun _ => none
  moved := []

variable (p : Progress Files Doc Finding Entry) (c : String × Entry)

/-- Takes a render of the project into the new tree. -/
def Progress.add (files : Files) (documents : List Doc) (findings : List Finding) (status : EntryStatus) :
    Progress Files Doc Finding Entry :=
  { p with
    projects := Function.update p.projects status.slug (some files)
    documents := p.documents ++ documents
    findings := p.findings ++ findings
    entries := p.entries ++ [status] }

/-- Keeps a render for the next assembly, if its checkout is a link. -/
def Progress.keep (slug : String) (tree : Option String) (entry : Entry) (documents : List Doc)
    (findings : List Finding) : Progress Files Doc Finding Entry :=
  { p with kept := match tree with
      | some tree => Function.update p.kept slug (some ⟨tree, entry, documents, findings⟩)
      | none => p.kept }

/-- The last render of a project, where it is seen. -/
def lastSeen : Option Files := if i.faults.unseen c.1 then none else p.left c.1

/-- The kept render of a project and its files, if its checkout did not move. -/
def reusable (checkout : Checkout Files) : Option (Render Doc Finding Entry × Files) :=
  ((s.renders c.1).filter (current checkout c.2)).bind fun render =>
    (lastSeen i p c).map fun files => (render, files)

/-- Moves a kept render whole out of the target. -/
def reuse (checkout : Checkout Files) (render : Render Doc Finding Entry) (files : Files) :
    Except Error (Progress Files Doc Finding Entry) :=
  match i.faults.moveOut c.1 with
  | some e => .error e
  | none =>
    let moved := { p with left := Function.update p.left c.1 none, moved := p.moved ++ [c.1] }
    .ok ((moved.add files render.documents render.findings ⟨c.1, a.gitRef c.2, none, true, true⟩).keep
      c.1 checkout.tree render.entry render.documents render.findings)

def mount (checkout : Checkout Files) : Except Error (Progress Files Doc Finding Entry) :=
  match i.faults.write c.1 with
  | some e => .error e
  | none =>
    (a.mountProject c.1 c.2 (checkout.files a)).map fun render =>
      (p.add render.1 render.2.1 render.2.2 ⟨c.1, a.gitRef c.2, none, true, false⟩).keep
        c.1 checkout.tree c.2 render.2.1 render.2.2

/-- A project that cannot be fetched renders as the last assembly left it, or not at all. -/
def copyLast (why : String) : Except Error (Progress Files Doc Finding Entry) :=
  match lastSeen i p c with
  | none => .ok { p with entries := p.entries ++ [⟨c.1, a.gitRef c.2, some why, false, false⟩] }
  | some files =>
    match i.faults.write c.1 with
    | some e => .error e
    | none => (a.readDocuments c.1 files).map fun documents =>
        p.add files documents [] ⟨c.1, a.gitRef c.2, some why, true, false⟩

def mountEntry : Except Error (Progress Files Doc Finding Entry) :=
  match i.checkout c.1 c.2 with
  | .error why => copyLast a i p c why
  | .ok checkout =>
    match reusable s i p c checkout with
    | some (render, files) => reuse a i p c checkout render files
    | none => mount a i p c checkout

/-- Mounts the entries one after the other, up to the first that is refused. -/
def mountAll (p : Progress Files Doc Finding Entry) :
    List (String × Entry) → Progress Files Doc Finding Entry × Option Error
  | [] => (p, none)
  | c :: rest =>
    match mountEntry a s i p c with
    | .error e => (p, some e)
    | .ok p => mountAll p rest

/-- What became of the new tree: refused before a project was mounted, refused after, or loaded. -/
inductive Built (Files Doc Finding Repo Entry Error : Type) where
  | inPlace (loaded : Except Error Repo)
  | unread (e : Error)
  | refused (p : Progress Files Doc Finding Entry) (e : Error)
  | loaded (organization : Files) (p : Progress Files Doc Finding Entry) (repository : Repo)

def build : Built Files Doc Finding Repo Entry Error :=
  match i.organization with
  | .inPlace loaded => .inPlace loaded
  | .registry (.error e) => .unread e
  | .registry (.ok (files, documents, registry)) =>
    match mountAll a s i (.begin s documents) registry.entries with
    | (p, some e) => .refused p e
    | (p, none) =>
      match a.fromDocuments i.environment p.documents with
      | .error e => .refused p e
      | .ok repository => .loaded files p repository

/-- The target with these renders. -/
def State.withProjects (projects : String → Option Files) : State Files Doc Finding Entry :=
  { s with target := s.target.map fun t => { t with projects } }

/-- The renders of the target once the moved ones are put back. -/
def putBack (faults : Faults Error) (p : Progress Files Doc Finding Entry) (slug : String) : Option Files :=
  if slug ∈ p.moved ∧ faults.putBack slug = false then p.projects slug else p.left slug

/-- The first step of the swap that fails; a target that is not there is not moved aside. -/
def swapFault : Option (Swap × Error) :=
  ((i.faults.swap .removePrevious).map (Swap.removePrevious, ·)) <|>
    ((s.target.bind fun _ => i.faults.swap .moveAside).map (Swap.moveAside, ·)) <|>
      ((i.faults.swap .moveIn).map (Swap.moveIn, ·)) <|>
        ((i.faults.swap .removeAside).map (Swap.removeAside, ·))

/-- Assembles the organization into the target. -/
def assembleReusing : State Files Doc Finding Entry × Except Error (Assembly Repo Finding) :=
  match build a s i with
  | .inPlace loaded => (s, loaded.map fun repository => ⟨repository, [], []⟩)
  | .unread e => (s, .error e)
  | .refused p e => (s.withProjects (putBack i.faults p), .error e)
  | .loaded organization p repository =>
    match swapFault s i with
    | some (.removePrevious, e) | some (.moveAside, e) => (s.withProjects p.left, .error e)
    | some (.moveIn, e) => ({ s with target := none }, .error e)
    | some (.removeAside, e) => ({ s with target := some ⟨organization, p.projects⟩ }, .error e)
    | none => (⟨some ⟨organization, p.projects⟩, p.kept⟩, .ok ⟨repository, p.entries, p.findings⟩)

end Assemble

section Property

variable (a : Assembler Files Doc Finding Repo Entry Error) (s : State Files Doc Finding Entry)
  (i : Inputs Files Doc Repo Entry Error)

/-- The target and the kept renders an assembly leaves. -/
def next : State Files Doc Finding Entry := (assembleReusing a s i).1

def State.unkept : State Files Doc Finding Entry := { s with renders := fun _ => none }

def Inputs.faultless : Inputs Files Doc Repo Entry Error := { i with faults := {} }

/-- The assembly of these inputs with no kept render, over a file system that does not fail. -/
def assemble : State Files Doc Finding Entry × Except Error (Assembly Repo Finding) :=
  assembleReusing a s.unkept i.faultless

/-- An assembly that succeeds returns what one without kept renders returns and leaves its files in the target;
one that is refused leaves the target as it was. -/
structure Atomic : Prop where
  succeeds : ∀ done, (assembleReusing a s i).2 = .ok done → ∃ fresh, (assemble a s i).2 = .ok fresh ∧
    done.repository = fresh.repository ∧ done.findings = fresh.findings ∧
      (assembleReusing a s i).1.target = (assemble a s i).1.target
  refused : ∀ e, (assembleReusing a s i).2 = .error e → (assembleReusing a s i).1.target = s.target

/-- Every last render an assembly falls back to is seen. -/
def Seen : Prop :=
  ∀ files documents registry, i.organization = .registry (.ok (files, documents, registry)) →
    ∀ c ∈ registry.entries, (∃ why, i.checkout c.1 c.2 = .error why) → s.last c.1 ≠ none →
      i.faults.unseen c.1 = false

/-- No step fails once it can take something from the target: no render is moved out when the swap cannot
begin, the moved ones can be put back, and the target is replaced whole. -/
def Unharmed : Prop :=
  match build a s i with
  | .inPlace _ => True
  | .unread _ => True
  | .refused p _ => ∀ slug ∈ p.moved, i.faults.putBack slug = false
  | .loaded _ p _ =>
    match swapFault s i with
    | some (.removePrevious, _) | some (.moveAside, _) => p.moved = []
    | some (.moveIn, _) => s.target = none
    | some (.removeAside, _) => False
    | none => Seen s i

end Property

section Progressed

variable {a : Assembler Files Doc Finding Repo Entry Error} {s : State Files Doc Finding Entry}
  {i : Inputs Files Doc Repo Entry Error} {p p' q : Progress Files Doc Finding Entry} {c : String × Entry}

/-- Every kept render is what its linked tree renders to, where the target holds it. -/
def Kept (a : Assembler Files Doc Finding Repo Entry Error)
    (renders : String → Option (Render Doc Finding Entry)) (projects : String → Option Files) : Prop :=
  ∀ slug render files, renders slug = some render → projects slug = some files →
    a.mountProject slug render.entry (a.linked render.tree) = .ok (files, render.documents, render.findings)

/-- What holds of an assembly with these projects still to mount: a render is in the target or, moved, in the
new tree. -/
structure Progressed (a : Assembler Files Doc Finding Repo Entry Error) (s : State Files Doc Finding Entry)
    (p : Progress Files Doc Finding Entry) (rest : List String) : Prop where
  moved : ∀ slug ∈ p.moved, p.projects slug = s.last slug
  left : ∀ slug, slug ∉ p.moved → p.left slug = s.last slug
  kept : Kept a p.kept p.projects
  ahead : ∀ slug ∈ rest, slug ∉ p.moved ∧ p.kept slug = none

omit [DecidableEq Entry] in
theorem Progressed.begin (documents : List Doc) (rest : List String) :
    Progressed a s (.begin s documents) rest :=
  ⟨fun _ h => absurd h List.not_mem_nil, fun _ _ => rfl, (fun _ _ _ h => by cases h),
    fun _ _ => ⟨List.not_mem_nil, rfl⟩⟩

omit [DecidableEq Entry] in
theorem Progressed.done {rest : List String} (h : Progressed a s p rest) : Progressed a s p [] :=
  ⟨h.moved, h.left, h.kept, fun _ hmem => absurd hmem List.not_mem_nil⟩

theorem reusable_eq_some {checkout : Checkout Files} {render : Render Doc Finding Entry} {files : Files}
    (h : reusable s i p c checkout = some (render, files)) : s.renders c.1 = some render ∧
      checkout = .link render.tree ∧ render.entry = c.2 ∧ lastSeen i p c = some files := by
  obtain ⟨r, hr, hlast⟩ := Option.bind_eq_some_iff.1 h
  obtain ⟨f, hf, heq⟩ := Option.map_eq_some_iff.1 hlast
  obtain ⟨rfl, rfl⟩ := Prod.mk.inj heq
  obtain ⟨hheld, hcurrent⟩ := Option.filter_eq_some_iff.1 hr
  simp only [current, Bool.and_eq_true, decide_eq_true_eq] at hcurrent
  refine ⟨hheld, ?_, hcurrent.2, hf⟩
  cases checkout with
  | link tree => exact congrArg Checkout.link (Option.some.inj hcurrent.1)
  | plain files => cases hcurrent.1

omit [DecidableEq Entry] in
theorem lastSeen_eq_some {files : Files} (h : lastSeen i p c = some files) : p.left c.1 = some files := by
  unfold lastSeen at h
  split_ifs at h
  exact h

omit [DecidableEq Entry] in
theorem reuse_eq_ok {checkout : Checkout Files} {render : Render Doc Finding Entry} {files : Files}
    (h : reuse a i p c checkout render files = .ok q) :
    q = (({ p with left := Function.update p.left c.1 none, moved := p.moved ++ [c.1] } :
      Progress Files Doc Finding Entry).add files render.documents render.findings
        ⟨c.1, a.gitRef c.2, none, true, true⟩).keep c.1 checkout.tree render.entry render.documents
          render.findings := by
  unfold reuse at h
  split at h
  · cases h
  · exact (Except.ok.inj h).symm

omit [DecidableEq Entry] in
theorem mount_eq_ok {checkout : Checkout Files} (h : mount a i p c checkout = .ok q) :
    ∃ render, a.mountProject c.1 c.2 (checkout.files a) = .ok render ∧
      q = (p.add render.1 render.2.1 render.2.2 ⟨c.1, a.gitRef c.2, none, true, false⟩).keep c.1 checkout.tree c.2
        render.2.1 render.2.2 := by
  unfold mount at h
  split at h
  · cases h
  · obtain ⟨render, hrender, rfl⟩ := map_eq_ok.1 h
    exact ⟨render, hrender, rfl⟩

omit [DecidableEq Entry] in
theorem copyLast_eq_ok {why : String} (h : copyLast a i p c why = .ok q) :
    (lastSeen i p c = none ∧
      q = { p with entries := p.entries ++ [⟨c.1, a.gitRef c.2, some why, false, false⟩] }) ∨
    ∃ files documents, p.left c.1 = some files ∧ a.readDocuments c.1 files = .ok documents ∧
      q = p.add files documents [] ⟨c.1, a.gitRef c.2, some why, true, false⟩ := by
  unfold copyLast at h
  cases hlast : lastSeen i p c with
  | none =>
    rw [hlast] at h
    exact Or.inl ⟨rfl, (Except.ok.inj h).symm⟩
  | some files =>
    rw [hlast] at h
    simp only [] at h
    split at h
    · cases h
    · obtain ⟨documents, hread, rfl⟩ := map_eq_ok.1 h
      exact Or.inr ⟨files, documents, lastSeen_eq_some hlast, hread, rfl⟩

/-- What mounting an entry does: its kept render is moved into the new tree, its checkout is rendered, or its
last render is copied where there is one. -/
theorem mountEntry_cases (h : mountEntry a s i p c = .ok q) :
    (∃ render files, i.checkout c.1 c.2 = .ok (.link render.tree) ∧ s.renders c.1 = some render ∧
      render.entry = c.2 ∧ p.left c.1 = some files ∧
      q = (({ p with left := Function.update p.left c.1 none, moved := p.moved ++ [c.1] } :
        Progress Files Doc Finding Entry).add files render.documents render.findings
          ⟨c.1, a.gitRef c.2, none, true, true⟩).keep c.1 (some render.tree) c.2 render.documents
            render.findings) ∨
    (∃ checkout render, i.checkout c.1 c.2 = .ok checkout ∧
      a.mountProject c.1 c.2 (checkout.files a) = .ok render ∧
      q = (p.add render.1 render.2.1 render.2.2 ⟨c.1, a.gitRef c.2, none, true, false⟩).keep c.1 checkout.tree c.2
        render.2.1 render.2.2) ∨
    (∃ why, i.checkout c.1 c.2 = .error why ∧ lastSeen i p c = none ∧
      q = { p with entries := p.entries ++ [⟨c.1, a.gitRef c.2, some why, false, false⟩] }) ∨
    ∃ why files documents, i.checkout c.1 c.2 = .error why ∧ p.left c.1 = some files ∧
      a.readDocuments c.1 files = .ok documents ∧
      q = p.add files documents [] ⟨c.1, a.gitRef c.2, some why, true, false⟩ := by
  unfold mountEntry at h
  cases hcheckout : i.checkout c.1 c.2 with
  | error why =>
    rw [hcheckout] at h
    rcases copyLast_eq_ok h with ⟨hlast, hq⟩ | ⟨files, documents, hlast, hread, hq⟩
    · exact Or.inr (Or.inr (Or.inl ⟨why, rfl, hlast, hq⟩))
    · exact Or.inr (Or.inr (Or.inr ⟨why, files, documents, rfl, hlast, hread, hq⟩))
  | ok checkout =>
    rw [hcheckout] at h
    simp only [] at h
    cases hreuse : reusable s i p c checkout with
    | some found =>
      obtain ⟨render, files⟩ := found
      rw [hreuse] at h
      obtain ⟨hheld, rfl, hentry, hlast⟩ := reusable_eq_some hreuse
      refine Or.inl ⟨render, files, rfl, hheld, hentry, lastSeen_eq_some hlast, ?_⟩
      rw [reuse_eq_ok h, hentry]
      rfl
    | none =>
      rw [hreuse] at h
      obtain ⟨render, hrender, hq⟩ := mount_eq_ok h
      exact Or.inr (Or.inl ⟨checkout, render, rfl, hrender, hq⟩)

omit [DecidableEq Entry] in
theorem Kept.keep {renders : String → Option (Render Doc Finding Entry)} {projects : String → Option Files}
    {slug tree : String} {entry : Entry} {files : Files} {documents : List Doc} {findings : List Finding}
    (h : Kept a renders projects)
    (hrender : a.mountProject slug entry (a.linked tree) = .ok (files, documents, findings)) :
    Kept a (Function.update renders slug (some ⟨tree, entry, documents, findings⟩))
      (Function.update projects slug (some files)) := by
  intro other render held hkept hheld
  by_cases hother : other = slug
  · subst hother
    simp only [Function.update_self, Option.some.injEq] at hkept hheld
    rw [← hkept, ← hheld]
    exact hrender
  · rw [Function.update_of_ne hother] at hkept hheld
    exact h other render held hkept hheld

omit [DecidableEq Entry] in
theorem Kept.add {renders : String → Option (Render Doc Finding Entry)} {projects : String → Option Files}
    {slug : String} (h : Kept a renders projects) (hslug : renders slug = none) (files : Option Files) :
    Kept a renders (Function.update projects slug files) := by
  intro other render held hkept hheld
  have hother : other ≠ slug := by
    rintro rfl
    rw [hslug] at hkept
    cases hkept
  rw [Function.update_of_ne hother] at hheld
  exact h other render held hkept hheld

omit [DecidableEq Entry] in
/-- A project rendered afresh is kept if its checkout is a link. -/
theorem Progressed.mount {rest : List String} {checkout : Checkout Files}
    {render : Files × List Doc × List Finding} {status : EntryStatus}
    (h : Progressed a s p (c.1 :: rest)) (hc : c.1 ∉ rest) (hstatus : status.slug = c.1)
    (hrender : a.mountProject c.1 c.2 (checkout.files a) = .ok render) :
    Progressed a s ((p.add render.1 render.2.1 render.2.2 status).keep c.1 checkout.tree c.2 render.2.1 render.2.2)
      rest := by
  obtain ⟨hmoved, hnone⟩ := h.ahead c.1 List.mem_cons_self
  have hne : ∀ slug ∈ rest, slug ≠ c.1 := fun slug hslug heq => hc (heq ▸ hslug)
  refine ⟨fun slug hslug => ?_, h.left, ?_, fun slug hslug => ?_⟩
  · have hslug' : slug ≠ c.1 := fun heq => hmoved (heq ▸ hslug)
    simp only [Progress.keep, Progress.add, hstatus]
    rw [Function.update_of_ne hslug']
    exact h.moved slug hslug
  · simp only [Progress.keep, Progress.add, hstatus]
    cases checkout with
    | link tree => exact h.kept.keep hrender
    | plain files => exact h.kept.add hnone _
  · obtain ⟨hmoved', hnone'⟩ := h.ahead slug (List.mem_cons_of_mem _ hslug)
    refine ⟨hmoved', ?_⟩
    cases checkout with
    | link tree => exact (Function.update_of_ne (hne slug hslug) _ _).trans hnone'
    | plain files => exact hnone'

/-- Mounting an entry keeps every render in the target or, moved, in the new tree. -/
theorem Progressed.mountEntry {rest : List String} (hkept : Kept a s.renders s.last)
    (h : Progressed a s p (c.1 :: rest)) (hc : c.1 ∉ rest) (hmount : mountEntry a s i p c = .ok q) :
    Progressed a s q rest := by
  obtain ⟨hmoved, hnone⟩ := h.ahead c.1 List.mem_cons_self
  have hne : ∀ slug ∈ rest, slug ≠ c.1 := fun slug hslug heq => hc (heq ▸ hslug)
  have hahead : ∀ slug ∈ rest, slug ∉ p.moved ∧ p.kept slug = none := fun slug hslug =>
    h.ahead slug (List.mem_cons_of_mem _ hslug)
  rcases mountEntry_cases hmount with ⟨render, files, _, hheld, hentry, hfiles, rfl⟩ |
    ⟨checkout, render, _, hrender, rfl⟩ | ⟨why, _, _, rfl⟩ | ⟨why, files, documents, _, _, _, rfl⟩
  · have hlast : s.last c.1 = some files := (h.left c.1 hmoved).symm.trans hfiles
    have hrender := hkept c.1 render files hheld hlast
    rw [hentry] at hrender
    refine ⟨fun slug hslug => ?_, fun slug hslug => ?_, h.kept.keep hrender, fun slug hslug => ⟨?_, ?_⟩⟩
    · simp only [Progress.keep, Progress.add]
      by_cases hslug' : slug = c.1
      · rw [hslug', Function.update_self, hlast]
      · rw [Function.update_of_ne hslug']
        refine h.moved slug ?_
        simpa [Progress.keep, Progress.add, hslug'] using hslug
    · simp only [Progress.keep, Progress.add, List.mem_append, List.mem_singleton, not_or] at hslug ⊢
      rw [Function.update_of_ne hslug.2]
      exact h.left slug hslug.1
    · simp only [Progress.keep, Progress.add, List.mem_append, List.mem_singleton, not_or]
      exact ⟨(hahead slug hslug).1, hne slug hslug⟩
    · exact (Function.update_of_ne (hne slug hslug) _ _).trans (hahead slug hslug).2
  · exact h.mount hc rfl hrender
  · exact ⟨h.moved, h.left, h.kept, hahead⟩
  · refine ⟨fun slug hslug => ?_, h.left, h.kept.add hnone _, hahead⟩
    have hslug' : slug ≠ c.1 := fun heq => hmoved (heq ▸ hslug)
    simp only [Progress.add]
    rw [Function.update_of_ne hslug']
    exact h.moved slug hslug

theorem Progressed.mountAll (hkept : Kept a s.renders s.last) :
    ∀ {entries : List (String × Entry)} {p : Progress Files Doc Finding Entry},
      Progressed a s p (entries.map Prod.fst) → (entries.map Prod.fst).Nodup →
        Progressed a s (mountAll a s i p entries).1 []
  | [], _, h, _ => h
  | c :: rest, p, h, hnodup => by
    obtain ⟨hc, hrest⟩ := List.nodup_cons.1 hnodup
    rw [Reuse.mountAll]
    cases hmount : Reuse.mountEntry a s i p c with
    | error e => exact h.done
    | ok q => exact (h.mountEntry hkept hc hmount).mountAll hkept hrest

omit [DecidableEq Entry] in
/-- Once the moved renders are put back, the target has all of its renders. -/
theorem Progressed.putBack {rest : List String} (h : Progressed a s p rest) {faults : Faults Error}
    (hback : ∀ slug ∈ p.moved, faults.putBack slug = false) : putBack faults p = s.last := by
  funext slug
  unfold Reuse.putBack
  by_cases hslug : slug ∈ p.moved
  · rw [if_pos ⟨hslug, hback slug hslug⟩, h.moved slug hslug]
  · rw [if_neg fun hmoved => hslug hmoved.1, h.left slug hslug]

omit [DecidableEq Entry] in
theorem Progressed.left_eq_last {rest : List String} (h : Progressed a s p rest) (hmoved : p.moved = []) :
    p.left = s.last := by
  funext slug
  exact h.left slug (by rw [hmoved]; exact List.not_mem_nil)

omit [DecidableEq Entry] in
theorem State.withProjects_last : s.withProjects s.last = s := by
  obtain ⟨target, renders⟩ := s
  cases target <;> rfl

end Progressed

section Alike

variable {a : Assembler Files Doc Finding Repo Entry Error} {s : State Files Doc Finding Entry}
  {i : Inputs Files Doc Repo Entry Error} {p p' q : Progress Files Doc Finding Entry} {c : String × Entry}

/-- An assembly and one of the same inputs that keeps no render have made the same tree. -/
structure Alike (s : State Files Doc Finding Entry) (p p' : Progress Files Doc Finding Entry) : Prop where
  projects : p.projects = p'.projects
  documents : p.documents = p'.documents
  findings : p.findings = p'.findings
  left : p'.left = s.last

theorem mountEntry_unkept_ok {checkout : Checkout Files} (h : i.checkout c.1 c.2 = .ok checkout) :
    mountEntry a s.unkept i.faultless p c = (a.mountProject c.1 c.2 (checkout.files a)).map fun render =>
      (p.add render.1 render.2.1 render.2.2 ⟨c.1, a.gitRef c.2, none, true, false⟩).keep c.1 checkout.tree c.2
        render.2.1 render.2.2 := by
  unfold mountEntry
  rw [show i.faultless.checkout c.1 c.2 = .ok checkout from h]
  rfl

theorem mountEntry_unkept_error {why : String} (h : i.checkout c.1 c.2 = .error why) :
    mountEntry a s.unkept i.faultless p c = match p.left c.1 with
      | none => .ok { p with entries := p.entries ++ [⟨c.1, a.gitRef c.2, some why, false, false⟩] }
      | some files => (a.readDocuments c.1 files).map fun documents =>
          p.add files documents [] ⟨c.1, a.gitRef c.2, some why, true, false⟩ := by
  unfold mountEntry
  rw [show i.faultless.checkout c.1 c.2 = .error why from h]
  rfl

omit [DecidableEq Entry] in
theorem Alike.add (h : Alike s p p') (files : Files) (documents : List Doc) (findings : List Finding)
    {status status' : EntryStatus} (hstatus : status.slug = status'.slug) :
    Alike s (p.add files documents findings status) (p'.add files documents findings status') := by
  refine ⟨?_, ?_, ?_, h.left⟩
  · simp only [Progress.add, h.projects, hstatus]
  · simp only [Progress.add, h.documents]
  · simp only [Progress.add, h.findings]

omit [DecidableEq Entry] in
theorem Alike.keep (h : Alike s p p') {slug slug' : String} {tree tree' : Option String} {entry entry' : Entry}
    {documents documents' : List Doc} {findings findings' : List Finding} :
    Alike s (p.keep slug tree entry documents findings) (p'.keep slug' tree' entry' documents' findings') :=
  ⟨h.projects, h.documents, h.findings, h.left⟩

/-- An entry makes the same of two trees that are alike: a kept render is what its checkout renders to. -/
theorem Alike.mountEntry {rest : List String} (hkept : Kept a s.renders s.last)
    (h : Progressed a s p (c.1 :: rest)) (halike : Alike s p p')
    (hseen : (∃ why, i.checkout c.1 c.2 = .error why) → s.last c.1 ≠ none → i.faults.unseen c.1 = false)
    (hmount : mountEntry a s i p c = .ok q) :
    ∃ q', mountEntry a s.unkept i.faultless p' c = .ok q' ∧ Alike s q q' := by
  have hleft : p.left c.1 = s.last c.1 := h.left c.1 (h.ahead c.1 List.mem_cons_self).1
  have hleft' : p'.left c.1 = s.last c.1 := congrFun halike.left c.1
  rcases mountEntry_cases hmount with ⟨render, files, hcheckout, hheld, hentry, hfiles, rfl⟩ |
    ⟨checkout, render, hcheckout, hrender, rfl⟩ | ⟨why, hcheckout, hlast, rfl⟩ |
    ⟨why, files, documents, hcheckout, hfiles, hread, rfl⟩
  · have hrender := hkept c.1 render files hheld (hleft.symm.trans hfiles)
    rw [hentry] at hrender
    rw [mountEntry_unkept_ok hcheckout, Checkout.files, hrender]
    have hmoved : Alike s { p with left := Function.update p.left c.1 none, moved := p.moved ++ [c.1] } p' :=
      ⟨halike.projects, halike.documents, halike.findings, halike.left⟩
    refine ⟨_, rfl, (hmoved.add files render.documents render.findings ?_).keep⟩
    rfl
  · rw [mountEntry_unkept_ok hcheckout, hrender]
    exact ⟨_, rfl, (halike.add render.1 render.2.1 render.2.2 rfl).keep⟩
  · have hnone : s.last c.1 = none := by
      by_contra hne
      unfold lastSeen at hlast
      rw [hseen ⟨why, hcheckout⟩ hne, if_neg Bool.false_ne_true, hleft] at hlast
      exact hne hlast
    rw [mountEntry_unkept_error hcheckout, hleft', hnone]
    exact ⟨_, rfl, halike.projects, halike.documents, halike.findings, halike.left⟩
  · rw [mountEntry_unkept_error hcheckout, hleft', ← hleft, hfiles]
    simp only [hread]
    exact ⟨_, rfl, halike.add files documents [] rfl⟩

theorem Alike.mountAll (hkept : Kept a s.renders s.last) :
    ∀ {entries : List (String × Entry)} {p p' : Progress Files Doc Finding Entry},
      Progressed a s p (entries.map Prod.fst) → (entries.map Prod.fst).Nodup → Alike s p p' →
      (∀ c ∈ entries, (∃ why, i.checkout c.1 c.2 = .error why) → s.last c.1 ≠ none →
        i.faults.unseen c.1 = false) → mountAll a s i p entries = (q, none) →
          ∃ q', mountAll a s.unkept i.faultless p' entries = (q', none) ∧ Alike s q q'
  | [], p, p', _, _, halike, _, hall => by
    obtain ⟨rfl, -⟩ := Prod.mk.inj hall
    exact ⟨p', rfl, halike⟩
  | c :: rest, p, p', h, hnodup, halike, hseen, hall => by
    obtain ⟨hc, hrest⟩ := List.nodup_cons.1 hnodup
    rw [Reuse.mountAll] at hall
    cases hmount : Reuse.mountEntry a s i p c with
    | error e =>
      rw [hmount] at hall
      cases (Prod.mk.inj hall).2
    | ok next =>
      rw [hmount] at hall
      obtain ⟨next', hmount', halike'⟩ := halike.mountEntry hkept h (hseen c List.mem_cons_self) hmount
      rw [Reuse.mountAll, hmount']
      exact halike'.mountAll hkept (h.mountEntry hkept hc hmount) hrest
        (fun c hmem => hseen c (List.mem_cons_of_mem _ hmem)) hall

end Alike

section Built

variable {a : Assembler Files Doc Finding Repo Entry Error} {s : State Files Doc Finding Entry}
  {i : Inputs Files Doc Repo Entry Error} {p : Progress Files Doc Finding Entry} {e : Error}
  {organization : Files} {repository : Repo}

theorem build_eq_refused (h : build a s i = .refused p e) : ∃ files documents registry,
    i.organization = .registry (.ok (files, documents, registry)) ∧
      (mountAll a s i (.begin s documents) registry.entries).1 = p := by
  unfold build at h
  split at h
  · cases h
  · cases h
  · next files documents registry horganization =>
    refine ⟨files, documents, registry, horganization, ?_⟩
    split at h
    · next hmount =>
      rw [hmount]
      exact (Built.refused.inj h).1
    · next hmount =>
      rw [hmount]
      split at h
      · exact (Built.refused.inj h).1
      · cases h

theorem build_eq_loaded : build a s i = .loaded organization p repository ↔ ∃ documents registry,
    i.organization = .registry (.ok (organization, documents, registry)) ∧
      mountAll a s i (.begin s documents) registry.entries = (p, none) ∧
        a.fromDocuments i.environment p.documents = .ok repository := by
  constructor
  · intro h
    unfold build at h
    split at h
    · cases h
    · cases h
    · next files documents registry horganization =>
      split at h
      · cases h
      · next p hmount =>
        split at h
        · cases h
        · next repository hload =>
          obtain ⟨rfl, rfl, rfl⟩ := Built.loaded.inj h
          exact ⟨documents, registry, horganization, hmount, hload⟩
  · rintro ⟨documents, registry, horganization, hmount, hload⟩
    unfold build
    rw [horganization]
    simp only [hmount, hload]

theorem progressed_all (hkept : Kept a s.renders s.last) (documents : List Doc)
    (registry : SortedMap String Entry) :
    Progressed a s (mountAll a s i (.begin s documents) registry.entries).1 [] :=
  (Progressed.begin documents (registry.entries.map Prod.fst)).mountAll hkept registry.nodup_keys

theorem progressed_of_refused (hkept : Kept a s.renders s.last) (h : build a s i = .refused p e) :
    Progressed a s p [] := by
  obtain ⟨_, documents, registry, _, rfl⟩ := build_eq_refused h
  exact progressed_all hkept documents registry

theorem progressed_of_loaded (hkept : Kept a s.renders s.last)
    (h : build a s i = .loaded organization p repository) : Progressed a s p [] := by
  obtain ⟨documents, registry, _, hmount, _⟩ := build_eq_loaded.1 h
  have hall := progressed_all (i := i) hkept documents registry
  rwa [hmount] at hall

/-- What loads with kept renders loads without them, and is the same tree. -/
theorem build_unkept (hkept : Kept a s.renders s.last) (hseen : Seen s i)
    (h : build a s i = .loaded organization p repository) :
    ∃ p', build a s.unkept i.faultless = .loaded organization p' repository ∧ Alike s p p' := by
  obtain ⟨documents, registry, horganization, hmount, hload⟩ := build_eq_loaded.1 h
  have hbegin : Progressed a s (.begin s documents) (registry.entries.map Prod.fst) :=
    Progressed.begin documents _
  have halike : Alike s (.begin s documents) (.begin s documents) := ⟨rfl, rfl, rfl, rfl⟩
  obtain ⟨p', hmount', halike'⟩ := halike.mountAll hkept hbegin registry.nodup_keys
    (hseen organization documents registry horganization) hmount
  refine ⟨p', build_eq_loaded.2 ⟨documents, registry, horganization, hmount', ?_⟩, halike'⟩
  rw [← halike'.documents]
  exact hload

omit [DecidableEq Entry] in
theorem swapFault_faultless : swapFault s i.faultless = none := by
  unfold swapFault
  cases s.target <;> rfl

theorem assembleReusing_of_refused (h : build a s i = .refused p e) :
    assembleReusing a s i = (s.withProjects (putBack i.faults p), .error e) := by
  unfold assembleReusing
  rw [h]

/-- What an assembly returns whose new tree loads and takes the target's place. -/
theorem assembleReusing_of_loaded (h : build a s i = .loaded organization p repository)
    (hswap : swapFault s i = none) : assembleReusing a s i =
      (⟨some ⟨organization, p.projects⟩, p.kept⟩, .ok ⟨repository, p.entries, p.findings⟩) := by
  unfold assembleReusing
  rw [h]
  simp only [hswap]

end Built

section Run

variable {a : Assembler Files Doc Finding Repo Entry Error} {s : State Files Doc Finding Entry}
  {i : Inputs Files Doc Repo Entry Error}

/-- How an unharmed assembly ends: in place or refused, with the target as it was, or loaded and swapped in. -/
theorem unharmed_cases (hkept : Kept a s.renders s.last) (h : Unharmed a s i) :
    (∃ loaded : Except Error Repo, i.organization = .inPlace loaded ∧
      assembleReusing a s i = (s, loaded.map fun repository => ⟨repository, [], []⟩)) ∨
    (∃ e, assembleReusing a s i = (s, .error e)) ∨
    ∃ organization p repository, Seen s i ∧ build a s i = .loaded organization p repository ∧
      assembleReusing a s i =
        (⟨some ⟨organization, p.projects⟩, p.kept⟩, .ok ⟨repository, p.entries, p.findings⟩) := by
  unfold Unharmed at h
  cases hbuild : build a s i with
  | inPlace loaded =>
    refine Or.inl ⟨loaded, ?_, by unfold assembleReusing; rw [hbuild]⟩
    unfold build at hbuild
    split at hbuild
    · rename_i found horganization
      rw [horganization, Built.inPlace.inj hbuild]
    · cases hbuild
    · split at hbuild
      · cases hbuild
      · split at hbuild <;> cases hbuild
  | unread e => exact Or.inr (Or.inl ⟨e, by unfold assembleReusing; rw [hbuild]⟩)
  | refused p e =>
    rw [hbuild] at h
    refine Or.inr (Or.inl ⟨e, ?_⟩)
    rw [assembleReusing_of_refused hbuild, (progressed_of_refused hkept hbuild).putBack h,
      State.withProjects_last]
  | loaded organization p repository =>
    rw [hbuild] at h
    simp only [] at h
    have hp := progressed_of_loaded hkept hbuild
    cases hswap : swapFault s i with
    | none =>
      rw [hswap] at h
      exact Or.inr (Or.inr ⟨organization, p, repository, h, rfl, assembleReusing_of_loaded hbuild hswap⟩)
    | some fault =>
      obtain ⟨step, e⟩ := fault
      rw [hswap] at h
      refine Or.inr (Or.inl ⟨e, ?_⟩)
      unfold assembleReusing
      rw [hbuild]
      simp only [hswap]
      cases step with
      | removePrevious => rw [hp.left_eq_last h, State.withProjects_last]
      | moveAside => rw [hp.left_eq_last h, State.withProjects_last]
      | moveIn =>
        obtain ⟨target, renders⟩ := s
        rw [show target = none from h]
      | removeAside => exact absurd h id

theorem atomic_of_unharmed (hkept : Kept a s.renders s.last) (h : Unharmed a s i) : Atomic a s i := by
  rcases unharmed_cases hkept h with ⟨loaded, horganization, hrun⟩ | ⟨e, hrun⟩ |
    ⟨organization, p, repository, hseen, hbuild, hrun⟩
  · have hfresh : assemble a s i = (s.unkept, loaded.map fun repository => ⟨repository, [], []⟩) := by
      unfold assemble assembleReusing build
      rw [show i.faultless.organization = .inPlace loaded from horganization]
    refine ⟨fun done hdone => ?_, fun _ _ => by rw [hrun]⟩
    rw [hrun] at hdone ⊢
    rw [hfresh]
    exact ⟨done, hdone, rfl, rfl, rfl⟩
  · refine ⟨fun done hdone => ?_, fun _ _ => by rw [hrun]⟩
    rw [hrun] at hdone
    cases hdone
  · obtain ⟨p', hbuild', halike⟩ := build_unkept hkept hseen hbuild
    have hfresh : assemble a s i = (⟨some ⟨organization, p'.projects⟩, p'.kept⟩,
        .ok ⟨repository, p'.entries, p'.findings⟩) :=
      assembleReusing_of_loaded hbuild' swapFault_faultless
    refine ⟨fun done hdone => ?_, fun e he => ?_⟩
    · rw [hrun] at hdone ⊢
      obtain rfl := Except.ok.inj hdone
      rw [hfresh]
      exact ⟨_, rfl, rfl, halike.findings, by rw [halike.projects]⟩
    · rw [hrun] at he
      cases he

/-- After an unharmed assembly each kept render is still what its linked tree renders to. -/
theorem kept_of_unharmed (hkept : Kept a s.renders s.last) (h : Unharmed a s i) :
    Kept a (assembleReusing a s i).1.renders (assembleReusing a s i).1.last := by
  rcases unharmed_cases hkept h with ⟨_, _, hrun⟩ | ⟨_, hrun⟩ | ⟨_, _, _, _, hbuild, hrun⟩
  · rw [hrun]
    exact hkept
  · rw [hrun]
    exact hkept
  · rw [hrun]
    exact (progressed_of_loaded hkept hbuild).kept

/-- In a run of unharmed assemblies from any target and no kept render, each of them ends in the tree that
one without kept renders would make, or in the one it began with. -/
theorem along_atomic (target : Option (Tree Files)) (runs : List (Inputs Files Doc Repo Entry Error))
    (h : Machine.Along (next a) (Unharmed a) ⟨target, fun _ => none⟩ runs) :
    Machine.Along (next a) (Atomic a) ⟨target, fun _ => none⟩ runs := by
  have hstart : ∀ projects, Kept a (fun _ => none) projects := fun _ _ _ _ hrender => by cases hrender
  have hwith := h.with (P := fun s => Kept a s.renders s.last) (fun _ _ => kept_of_unharmed) (hstart _)
  exact hwith.mono fun _ _ hstep => atomic_of_unharmed hstep.1 hstep.2

end Run

section Sample

/-- An organization whose repository is its documents, none of them twice. -/
def organization : Assembler String String String (List String) String String where
  gitRef := id
  mountProject := fun slug entry files => .ok (slug ++ files, [slug ++ entry], [])
  readDocuments := fun slug files => .ok [slug ++ files]
  fromDocuments := fun _ documents => if documents.Nodup then .ok documents else .error "duplicate"
  linked := id

/-- The project air, linked to its tree, in an organization with these documents. -/
def linkedAir (documents : List String) (faults : Faults String) :
    Inputs String String (List String) String String where
  organization := .registry (.ok ("org", documents, ⟨[("air", "main")], List.pairwise_singleton _ _⟩))
  environment := none
  checkout := fun _ _ => .ok (.link "4f2a")
  faults := faults

theorem along_atomic_air :
    Machine.Along (next organization) (Atomic organization) ⟨none, fun _ => none⟩
      [linkedAir ["org"] {}, linkedAir ["org"] {}, linkedAir ["org", "org"] {}] := by
  refine along_atomic none _ ⟨?_, ?_, ?_, trivial⟩
  · intro files documents registry horganization c hc hfail
    obtain ⟨why, hwhy⟩ := hfail
    cases hwhy
  · intro files documents registry horganization c hc hfail
    obtain ⟨why, hwhy⟩ := hfail
    cases hwhy
  · intro slug hslug
    rfl

/-- A render that is moved out of the target is not put back when the last but one tree cannot be removed: the
assembly is refused, and the target has lost the project. -/
theorem not_along_atomic : ¬ Machine.Along (next organization) (Atomic organization) ⟨none, fun _ => none⟩
    [linkedAir ["org"] {},
      linkedAir ["org"] { swap := fun step => if step = .removePrevious then some "busy" else none }] := by
  rintro ⟨-, hatomic, -⟩
  have htarget := hatomic.refused "busy" rfl
  have hair := congrArg (fun target => target.map fun t => t.projects "air") htarget
  exact absurd hair (by decide)

end Sample

end JoinedContext.Assemble.Reuse

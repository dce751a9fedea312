import JoinedContext.Jcctl.Export
import JoinedContext.Jcctl.Plan
import JoinedContext.Jcctl.Rewrite

/-!
# Drift

What a drift run reports of the changes `apply` would make: the resources that differ, each with
what either resolution takes, and those it sets aside because they belong to an unmanaged sandbox.
A sandbox is known by its name alone, so a space of another project with that name is taken for it.
-/

namespace JoinedContext.Jcctl.Drift

section Source

/-- How a resource drifted. -/
inductive Kind where
  | modified
  | missing
  | unexpected
deriving DecidableEq

structure Drifted where
  id : ResourceId
  kind : Kind
  diff : List FieldDiff
  revert : Option RawManifest
  adopt : Option RawManifest
  redactions : List String

structure Report where
  checked : ℕ
  drifted : List Drifted
  sandboxed : List ResourceId

/-- A live resource cleaned into the manifest that would declare it, and what was dropped. -/
def adopt (live : RawManifest) : RawManifest × List String :=
  ((cleaned live).collapsed, literalCredentials live.spec)

def asBool : Value → Option Bool
  | .bool b => some b
  | _ => none

/-- Whether a change is that of a live-only space that is a sandbox. -/
def isSandbox (change : ResourceChange) : Bool :=
  change.action = .delete && change.id.kind == "ContextSpace" &&
    ((change.live.bind fun live => live.spec.get "isSandbox").bind asBool) == some true

/-- The names of the live-only ContextSpaces that are unmanaged sandboxes. -/
def unmanagedSandboxes (changes : List ResourceChange) : List String :=
  (changes.filter isSandbox).map (·.id.name)

/-- The space a change is in: itself, or the one its live spec, else its declared one, names. -/
def spaceOf (change : ResourceChange) : Option String :=
  if change.id.kind = "ContextSpace" then some change.id.name
  else
    ((change.live <|> change.declared).map fun m => extractSpace m.spec).filter (· ≠ "")

/-- The sandbox this change belongs to, if any. -/
def sandboxOf (change : ResourceChange) (sandboxes : List String) : Option String :=
  (spaceOf change).filter (sandboxes.contains ·)

def kindOf : Action → Option Kind
  | .unchanged => none
  | .update => some .modified
  | .create => some .missing
  | .delete => some .unexpected

def driftedOf (change : ResourceChange) (kind : Kind) : Drifted where
  id := change.id
  kind := kind
  diff := change.diff
  revert := change.declared
  adopt := change.live.map fun live => (adopt live).1
  redactions := (change.live.map fun live => (adopt live).2).getD []

def addChange (sandboxes : List String) (report : Report) (change : ResourceChange) : Report :=
  match sandboxOf change sandboxes with
  | some _ => { report with sandboxed := report.sandboxed ++ [change.id] }
  | none =>
    match kindOf change.action with
    | none => { report with checked := report.checked + 1 }
    | some kind =>
      { report with
        checked := report.checked + 1
        drifted := report.drifted ++ [driftedOf change kind] }

def report (changes : List ResourceChange) : Report :=
  changes.foldl (addChange (unmanagedSandboxes changes)) ⟨0, [], []⟩

/-- Compares the platform with the repository and reports what does not match. -/
def detect (codec : Codec) (repo : Repository)
    (list : String → String → Except PlatformError (List RawManifest)) :
    Except PlatformError Report :=
  match compute codec repo list with
  | .ok changes => .ok (report changes.iter)
  | .error e => .error e

end Source

section Spec

/-- Whether a change is in an unmanaged sandbox of its own project. -/
def InOwnSandbox (changes : List ResourceChange) (change : ResourceChange) : Prop :=
  ∃ sandbox ∈ changes, isSandbox sandbox = true ∧ spaceOf change = some sandbox.id.name ∧
    change.id.namespace = sandbox.id.namespace

/-- Whether a report tells every change that is one, once, and sets nothing aside but what is in a
sandbox of its own project. -/
structure Complete (changes : List ResourceChange) (report : Report) : Prop where
  each_once : (report.drifted.map Drifted.id ++ report.sandboxed).Perm
    ((changes.filter fun c => c.action ≠ .unchanged).map ResourceChange.id)
  drifted : ∀ d ∈ report.drifted, ∃ c ∈ changes, ∃ kind, kindOf c.action = some kind ∧
    d = driftedOf c kind
  own_sandbox : ∀ id ∈ report.sandboxed, ∃ c ∈ changes, c.id = id ∧ InOwnSandbox changes c

/-- Whether every change in a space of a sandbox's name is one, and in a sandbox of its own
project. -/
def SandboxesOwn (changes : List ResourceChange) : Prop :=
  ∀ c ∈ changes, ∀ sandbox ∈ changes, isSandbox sandbox = true →
    spaceOf c = some sandbox.id.name → c.action ≠ .unchanged ∧ InOwnSandbox changes c

end Spec

section Reported

variable {changes : List ResourceChange} {sandboxes : List String} {c : ResourceChange}

/-- Whether a change is set aside. -/
def aside (sandboxes : List String) (c : ResourceChange) : Bool := (sandboxOf c sandboxes).isSome

theorem aside_iff : aside (unmanagedSandboxes changes) c = true ↔
    ∃ sandbox ∈ changes, isSandbox sandbox = true ∧ spaceOf c = some sandbox.id.name := by
  have hname : ∀ space, space ∈ unmanagedSandboxes changes ↔
      ∃ sandbox ∈ changes, isSandbox sandbox = true ∧ sandbox.id.name = space := fun space => by
    simp [unmanagedSandboxes, and_assoc]
  unfold aside sandboxOf
  cases spaceOf c with
  | none => simp
  | some space =>
    rw [Option.isSome_filter, Option.any_some, List.contains_eq_mem, decide_eq_true_eq, hname]
    simp only [Option.some.injEq, eq_comm]

def told (sandboxes : List String) (c : ResourceChange) : Option Drifted :=
  if aside sandboxes c then none else (kindOf c.action).map (driftedOf c)

/-- What a run over some changes adds to a report. -/
theorem foldl_addChange : ∀ (changes : List ResourceChange) (report : Report),
    (changes.foldl (addChange sandboxes) report).drifted =
        report.drifted ++ changes.filterMap (told sandboxes) ∧
      (changes.foldl (addChange sandboxes) report).sandboxed =
        report.sandboxed ++ (changes.filter (aside sandboxes)).map ResourceChange.id
  | [], report => by simp
  | c :: rest, report => by
    obtain ⟨hdrifted, hsandboxed⟩ := foldl_addChange rest (addChange sandboxes report c)
    rw [List.foldl_cons, hdrifted, hsandboxed, List.filterMap_cons, List.filter_cons]
    unfold addChange told aside
    cases hsandbox : sandboxOf c sandboxes with
    | some space => simp
    | none => cases hkind : kindOf c.action <;> simp

theorem drifted_report : (report changes).drifted =
    changes.filterMap (told (unmanagedSandboxes changes)) :=
  ((foldl_addChange changes _).1).trans (List.nil_append _)

theorem sandboxed_report : (report changes).sandboxed =
    (changes.filter (aside (unmanagedSandboxes changes))).map ResourceChange.id :=
  ((foldl_addChange changes _).2).trans (List.nil_append _)

theorem map_id_filterMap_told (sandboxes : List String) : ∀ changes : List ResourceChange,
    (changes.filterMap (told sandboxes)).map Drifted.id =
      ((changes.filter fun c => c.action ≠ .unchanged).filter fun c => !aside sandboxes c).map
        ResourceChange.id
  | [] => rfl
  | c :: rest => by
    have hrest := map_id_filterMap_told sandboxes rest
    have hid : ∀ kind, (driftedOf c kind).id = c.id := fun _ => rfl
    cases haside : aside sandboxes c <;> cases haction : c.action <;>
      simp_all [told, kindOf]

/-- Every change is told once exactly when none that is set aside is unchanged. -/
theorem each_once_iff : ((report changes).drifted.map Drifted.id ++ (report changes).sandboxed).Perm
      ((changes.filter fun c => c.action ≠ .unchanged).map ResourceChange.id) ↔
    ∀ c ∈ changes, aside (unmanagedSandboxes changes) c = true → c.action ≠ .unchanged := by
  rw [drifted_report, map_id_filterMap_told, sandboxed_report]
  generalize unmanagedSandboxes changes = sandboxes
  have hsplit := (List.filter_append_perm (fun c => !aside sandboxes c)
    (changes.filter fun c => c.action ≠ .unchanged)).map ResourceChange.id
  simp only [Bool.not_not, List.map_append] at hsplit
  constructor
  · intro hperm
    have hsame := ((List.perm_append_left_iff _).1 (hperm.trans hsplit.symm)).length_eq
    rw [List.length_map, List.length_map, List.filter_comm] at hsame
    have hkept := List.filter_eq_self.1 (List.filter_sublist.eq_of_length hsame.symm)
    intro c hc haside
    exact of_decide_eq_true (hkept c (List.mem_filter.2 ⟨hc, haside⟩))
  · intro hall
    have hfilter : ((changes.filter fun c => c.action ≠ .unchanged).filter (aside sandboxes)) =
        changes.filter (aside sandboxes) := by
      rw [List.filter_filter]
      refine List.filter_congr fun c hc => ?_
      cases haside : aside sandboxes c with
      | false => rfl
      | true => simp [hall c hc haside]
    rw [← hfilter]
    exact hsplit

theorem exists_of_mem_drifted {d : Drifted} (h : d ∈ (report changes).drifted) :
    ∃ c ∈ changes, ∃ kind, kindOf c.action = some kind ∧ d = driftedOf c kind := by
  rw [drifted_report, List.mem_filterMap] at h
  obtain ⟨c, hc, htold⟩ := h
  unfold told at htold
  split_ifs at htold
  obtain ⟨kind, hkind, hd⟩ := Option.map_eq_some_iff.1 htold
  exact ⟨c, hc, kind, hkind, hd.symm⟩

/-- The report of changes of distinct ids is complete exactly when the changes in a space of a
sandbox's name are changes in a sandbox of their own project. -/
theorem complete_iff (hids : ∀ c ∈ changes, ∀ c' ∈ changes, c.id = c'.id → c = c') :
    Complete changes (report changes) ↔ SandboxesOwn changes := by
  constructor
  · intro h c hc sandbox hsandbox his hspace
    have haside : aside (unmanagedSandboxes changes) c = true :=
      aside_iff.2 ⟨sandbox, hsandbox, his, hspace⟩
    refine ⟨each_once_iff.1 h.each_once c hc haside, ?_⟩
    obtain ⟨c', hc', hid, hown⟩ := h.own_sandbox c.id (by
      rw [sandboxed_report]
      exact List.mem_map_of_mem (List.mem_filter.2 ⟨hc, haside⟩))
    rwa [hids c hc c' hc' hid.symm]
  · intro h
    refine ⟨each_once_iff.2 fun c hc haside => ?_, fun d hd => exists_of_mem_drifted hd,
      fun id hid => ?_⟩
    · obtain ⟨sandbox, hsandbox, his, hspace⟩ := aside_iff.1 haside
      exact (h c hc sandbox hsandbox his hspace).1
    · rw [sandboxed_report] at hid
      obtain ⟨c, hc, rfl⟩ := List.mem_map.1 hid
      obtain ⟨hmem, haside⟩ := List.mem_filter.1 hc
      obtain ⟨sandbox, hsandbox, his, hspace⟩ := aside_iff.1 haside
      exact ⟨c, hmem, rfl, (h c hmem sandbox hsandbox his hspace).2⟩

end Reported

section Detected

variable {codec : Codec} {repo : Repository}
  {list : String → String → Except PlatformError (List RawManifest)} {changes : ChangeSet}

/-- A computed set has at most one change of an id. -/
theorem id_inj_of_compute (h : compute codec repo list = .ok changes) :
    ∀ c ∈ changes.iter, ∀ c' ∈ changes.iter, c.id = c'.id → c = c' := by
  unfold compute at h
  cases hlive : liveOf list repo with
  | error e =>
    rw [hlive] at h
    cases h
  | ok live =>
    rw [hlive] at h
    obtain rfl := Except.ok.inj h
    intro c hc c' hc' hid
    obtain ⟨-, hchange⟩ := mem_changesOf.1 hc
    obtain ⟨-, hchange'⟩ := mem_changesOf.1 hc'
    rw [← hid] at hchange'
    rcases hchange with ⟨d, hd, hc⟩ | ⟨hnone, l, hl, hc⟩ <;>
      rcases hchange' with ⟨d', hd', hc'⟩ | ⟨hnone', l', hl', hc'⟩
    · rw [hc, hc', Option.some.inj (hd.symm.trans hd')]
    · rw [hd] at hnone'
      cases hnone'
    · rw [hd'] at hnone
      cases hnone
    · rw [hc, hc', Option.some.inj (hl.symm.trans hl')]

/-- A drift run reports what `apply` would change, completely and setting aside nothing but
sandboxes, exactly when the changes in a space of a sandbox's name are changes in a sandbox of their
own project. -/
theorem detect_complete_iff (codec : Codec) (repo : Repository)
    (list : String → String → Except PlatformError (List RawManifest)) :
    (∀ changes report, compute codec repo list = .ok changes → detect codec repo list = .ok report →
        Complete changes.iter report) ↔
      ∀ changes, compute codec repo list = .ok changes → SandboxesOwn changes.iter := by
  constructor
  · intro h changes hchanges
    refine (complete_iff (id_inj_of_compute hchanges)).1 (h changes _ hchanges ?_)
    rw [detect, hchanges]
  · intro h changes report hchanges hreport
    rw [detect, hchanges] at hreport
    rw [← Except.ok.inj hreport]
    exact (complete_iff (id_inj_of_compute hchanges)).2 (h changes hchanges)

/-- A live space of a project. -/
def liveSpace (project : String) (sandbox : Bool) : RawManifest where
  apiVersion := API_VERSION
  kind := "ContextSpace"
  metadata := ⟨"lab", some project, []⟩
  spec := .obj [("isSandbox", .bool sandbox)]
  status := none
  rest_wellFormed := Value.wellFormed_nil
  spec_wellFormed := by cases sandbox <;> decide

def liveProject (name : String) : RawManifest where
  apiVersion := API_VERSION
  kind := "Project"
  metadata := ⟨name, none, []⟩
  spec := .obj []
  status := none
  rest_wellFormed := Value.wellFormed_nil
  spec_wellFormed := Value.wellFormed_nil

/-- A platform with a sandbox in one project, and in another one a space of the same name. -/
def twoLabs : SortedMap ResourceId RawManifest :=
  [liveProject "air", liveProject "water", liveSpace "air" true, liveSpace "water" false].foldl
    (fun held m => held.insert (ResourceId.fromManifest m) m) SortedMap.empty

def noCodec : Codec := ⟨fun _ => none, id⟩

/-- The space of the second project is live and not in Git, and set aside. -/
theorem drift_hidden : ¬ ∀ (codec : Codec) (repo : Repository)
    (list : String → String → Except PlatformError (List RawManifest)),
    ∀ changes report, compute codec repo list = .ok changes → detect codec repo list = .ok report →
      Complete changes.iter report := by
  intro h
  have hall := h noCodec Repository.empty (InMemory.list twoLabs)
  -- Of the computed changes the live space is set aside, and no sandbox is of its project.
  have hcomputed : ((compute noCodec Repository.empty (InMemory.list twoLabs)).toOption.any
      fun changes => (report changes.iter).sandboxed.contains
          (ResourceId.fromManifest (liveSpace "water" false)) &&
        !changes.iter.any fun c => isSandbox c && c.id.namespace == some "water") = true := by
    decide +kernel
  obtain ⟨changes, hchanges, hboth⟩ := (Option.any_eq_true _ _).1 hcomputed
  rw [Bool.and_eq_true, Bool.not_eq_true'] at hboth
  obtain ⟨haside, hnone⟩ := hboth
  have hok := toOption_eq_some.1 hchanges
  obtain ⟨c, -, hid, sandbox, hsandbox, his, -, hproject⟩ :=
    (hall changes _ hok (by rw [detect, hok])).own_sandbox _ (List.contains_iff_mem.1 haside)
  refine absurd (List.any_eq_false.1 hnone sandbox hsandbox) (not_not.2 ?_)
  rw [← hproject, hid, his]
  rfl

end Detected

end JoinedContext.Jcctl.Drift

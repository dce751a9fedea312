import JoinedContext.Library.FilterLang
import JoinedContext.Pdp.WriteGuard

/-!
# The scopes of a grant, read and written

A read is narrowed by the pattern a scope query folds into, a write by the paths it names. The two
agree on every scope path where the query names a path and none of its paths is the root
(`fold_agrees`): the root folds into nothing, and is then no filter at all.
-/

namespace JoinedContext.ScopeFolding

open WriteGuard

/-- The pattern between the quotes of a path's term. -/
def pattern (path : String) : String := "^" ++ regexEscape path ++ "(/.*)?$"

/-- What the pattern of a path reads: the path, or what is under it on the same line. -/
def OnLine (path scope : String) : Prop :=
  scope = path ∨ ∃ rest, scope.toList = path.toList ++ '/' :: rest ∧ '\n' ∉ rest

/-- What the gateway relies on: each path of a checked scope query folds into one term of `q`, the
broker compares the scope with the regular expression in it, and `.` is any character but a line
feed. A filter is read against one scope of an entity. -/
structure Reads (filters : FilterLang String) (crates : Crates) : Prop where
  lawful : filters.Lawful
  term_path : ∀ scopeQ, crates.checkScopeQ scopeQ = true → ∀ path ∈ paths scopeQ,
    filters.Term (term path)
  sat_term : ∀ scopeQ, crates.checkScopeQ scopeQ = true → ∀ path ∈ paths scopeQ, ∀ scope,
    (filters.sat (term path) scope ↔
      ∃ isMatch, crates.regex (pattern path) = some isMatch ∧ isMatch scope = true)
  regex_pattern : ∀ path, ∃ isMatch, crates.regex (pattern path) = some isMatch ∧
    ∀ scope, isMatch scope = true ↔ OnLine path scope

/-- A scope path: it begins with a slash and is one line. -/
def ScopePath (scope : String) : Prop := Text.startsWith '/' scope = true ∧ '\n' ∉ scope.toList

/-- Whether the write guard finds every entity inside the scopes of a grant. -/
def CoversEveryEntity (scopeQ : String) : Prop :=
  ∀ entity c, c.grantedScopes = some scopeQ →
    checkScopePresent entity c = .ok () ∧ checkScope entity c.grantedScopes = .ok ()

/-- What is read is what may be written, and no scope is folded into no filter. -/
def Agrees (filters : FilterLang String) (scopeQ : String) : Prop :=
  (∀ folded, fold scopeQ = some folded → ∀ scope, ScopePath scope →
    (filters.sat folded scope ↔ insideScopes scopeQ scope = true)) ∧
  (fold scopeQ = none → CoversEveryEntity scopeQ)

theorem fold_eq_none {scopeQ : String} : fold scopeQ = none ↔ paths scopeQ = [] := by
  unfold fold
  rcases paths scopeQ with _ | ⟨one, _ | ⟨two, more⟩⟩ <;> simp

theorem mem_paths {scopeQ path : String} :
    path ∈ paths scopeQ ↔ ∃ granted ∈ grantedScopes scopeQ, trimPath granted = path ∧ path ≠ "" := by
  simp only [paths, List.mem_filter, List.mem_map, bne_iff_ne]
  constructor
  · rintro ⟨⟨granted, hgranted, rfl⟩, hne⟩
    exact ⟨granted, hgranted, rfl, hne⟩
  · rintro ⟨granted, hgranted, rfl, hne⟩
    exact ⟨⟨granted, hgranted, rfl⟩, hne⟩

theorem insideScopes_iff {scopeQ scope : String} : insideScopes scopeQ scope = true ↔
    ∃ granted ∈ grantedScopes scopeQ, covers granted scope = true := List.any_eq_true

/-- A trimmed path does not end in a slash. -/
theorem trimPath_ne_slash (path : String) : trimPath path ≠ "/" := by
  intro heq
  have hchars := congrArg (fun s => s.toList.reverse) heq
  simp only [trimPath, String.toList_ofList, List.reverse_reverse] at hchars
  have hhead := List.head?_dropWhile_not (· == '/') (dropSubtree path.toList.reverse)
  rw [hchars] at hhead
  simp at hhead

/-- On one line, what a path covers is what its pattern reads. -/
theorem covers_iff_onLine {granted scope : String} (hscope : '\n' ∉ scope.toList) :
    covers granted scope = true ↔ OnLine (trimPath granted) scope := by
  rw [covers_iff]
  refine or_congr Iff.rfl (exists_congr fun rest => ⟨fun h => ⟨h, fun hmem => hscope ?_⟩, And.left⟩)
  rw [h]
  simp [hmem]

theorem not_coversEveryEntity (scopeQ : String) : ¬CoversEveryEntity scopeQ := by
  intro h
  have hunscoped := (h (.obj []) { (default : Constraints) with grantedScopes := some scopeQ } rfl).1
  simp [checkScopePresent] at hunscoped

section Reading

variable {filters : FilterLang String} {crates : Crates} (hreads : Reads filters crates)

include hreads

theorem Reads.sat_path {scopeQ path : String} (hscope : crates.checkScopeQ scopeQ = true)
    (hpath : path ∈ paths scopeQ) (scope : String) :
    filters.sat (term path) scope ↔ OnLine path scope := by
  obtain ⟨isMatch, hregex, hmatch⟩ := hreads.regex_pattern path
  rw [hreads.sat_term scopeQ hscope path hpath, ← hmatch, hregex]
  simp

/-- The folded filter reads what one of the paths does. -/
theorem Reads.sat_fold {scopeQ folded : String} (hscope : crates.checkScopeQ scopeQ = true)
    (h : fold scopeQ = some folded) (scope : String) :
    filters.sat folded scope ↔ ∃ path ∈ paths scopeQ, OnLine path scope := by
  have hpath : ∀ path ∈ paths scopeQ, filters.sat (term path) scope ↔ OnLine path scope :=
    fun path hpath => hreads.sat_path hscope hpath scope
  have hterms : ∀ t ∈ (paths scopeQ).map term, filters.Term t := by
    intro t ht
    obtain ⟨path, hpath, rfl⟩ := List.mem_map.1 ht
    exact hreads.term_path scopeQ hscope path hpath
  have hany : (∃ t ∈ (paths scopeQ).map term, filters.sat t scope) ↔
      ∃ path ∈ paths scopeQ, OnLine path scope := by
    simp only [List.mem_map, exists_exists_and_eq_and]
    exact exists_congr fun path => and_congr_right fun hmem => hpath path hmem
  rw [← hany]
  unfold fold at h
  rcases hmap : (paths scopeQ).map term with _ | ⟨one, _ | ⟨two, more⟩⟩ <;>
    rw [hmap] at h hterms <;> cases h
  · simp
  · change filters.sat (FilterLang.group (Text.join "|" (one :: two :: more))) scope ↔ _
    rw [hreads.lawful.sat_group (hreads.lawful.parses_any (List.cons_ne_nil _ _) hterms),
      hreads.lawful.sat_any (List.cons_ne_nil _ _) hterms]

/-- Reads and writes agree on every scope path exactly where the query names a path and no path of
it is the root. -/
theorem fold_agrees {scopeQ : String} (hscope : crates.checkScopeQ scopeQ = true) :
    Agrees filters scopeQ ↔
      grantedScopes scopeQ ≠ [] ∧ ∀ granted ∈ grantedScopes scopeQ, trimPath granted ≠ "" := by
  constructor
  · rintro ⟨hsome, hnone⟩
    cases hfold : fold scopeQ with
    | none => exact (not_coversEveryEntity scopeQ (hnone hfold)).elim
    | some folded =>
      have hpaths : paths scopeQ ≠ [] := fun hnil => by
        rw [fold_eq_none.2 hnil] at hfold
        cases hfold
      obtain ⟨path, hpath⟩ := List.exists_mem_of_ne_nil _ hpaths
      obtain ⟨granted, hgranted, -⟩ := mem_paths.1 hpath
      refine ⟨List.ne_nil_of_mem hgranted, fun root hroot hempty => ?_⟩
      -- The root covers the scope `/`, which the pattern of no other path reads.
      have hcovers : insideScopes scopeQ "/" = true :=
        insideScopes_iff.2 ⟨root, hroot, covers_iff.2 (Or.inr ⟨[], by simp [hempty]⟩)⟩
      rw [← hsome folded hfold "/" (by simp [ScopePath, Text.startsWith]),
        hreads.sat_fold hscope hfold] at hcovers
      obtain ⟨path, hpath, hline⟩ := hcovers
      obtain ⟨granted, -, rfl, hne⟩ := mem_paths.1 hpath
      rcases hline with heq | ⟨rest, heq, -⟩
      · exact trimPath_ne_slash granted heq.symm
      · cases hchars : (trimPath granted).toList with
        | nil => exact hne (String.toList_inj.1 hchars)
        | cons d l => simp [hchars] at heq
  · rintro ⟨hne, hroot⟩
    refine ⟨fun folded hfold scope hpath => ?_, fun hnone => ?_⟩
    · rw [hreads.sat_fold hscope hfold, insideScopes_iff]
      constructor
      · rintro ⟨path, hpath', hline⟩
        obtain ⟨granted, hgranted, rfl, -⟩ := mem_paths.1 hpath'
        exact ⟨granted, hgranted, (covers_iff_onLine hpath.2).2 hline⟩
      · rintro ⟨granted, hgranted, hcovers⟩
        exact ⟨trimPath granted, mem_paths.2 ⟨granted, hgranted, rfl, hroot granted hgranted⟩,
          (covers_iff_onLine hpath.2).1 hcovers⟩
    · obtain ⟨granted, hgranted⟩ := List.exists_mem_of_ne_nil _ hne
      have hmem := mem_paths.2 ⟨granted, hgranted, rfl, hroot granted hgranted⟩
      rw [fold_eq_none.1 hnone] at hmem
      cases hmem

end Reading

/-! ## A broker that reads the patterns -/

def onLine (path scope : String) : Bool :=
  scope == path ||
    (Text.stripPrefix path scope).any fun rest => Text.startsWith '/' rest && '\n' ∉ rest.toList

def scopeRegex (pattern : String) : Option (String → Bool) := do
  let inner ← Text.stripSuffix "(/.*)?$" (← Text.stripPrefix "^" pattern)
  let path ← IdMatch.unescape inner.toList
  return onLine (String.ofList path)

def scopeCrates : Crates :=
  { bareCrates with
    checkScopeQ := fun scopeQ => (paths scopeQ).all fun path => '"' ∉ (regexEscape path).toList
    regex := scopeRegex }

def scopeFilters : FilterLang String := FilterLang.reader fun text scope =>
  (((Text.stripPrefix "scope~=\"" text).bind (Text.stripSuffix "\"")).bind scopeRegex).any (· scope)

theorem onLine_iff {path scope : String} : onLine path scope = true ↔ OnLine path scope := by
  unfold onLine
  rw [Bool.or_eq_true, beq_iff_eq]
  refine or_congr Iff.rfl ?_
  rw [Option.any_eq_true]
  constructor
  · rintro ⟨rest, hstrip, hrest⟩
    rw [Bool.and_eq_true, Text.startsWith_iff] at hrest
    obtain ⟨⟨tail, htail⟩, hline⟩ := hrest
    rw [htail] at hline
    refine ⟨tail, by rw [Text.stripPrefix_eq_some.1 hstrip, htail], ?_⟩
    simpa using hline
  · rintro ⟨rest, hrest, hline⟩
    refine ⟨String.ofList ('/' :: rest), Text.stripPrefix_eq_some.2 (by simpa using hrest), ?_⟩
    simpa [Text.startsWith] using hline

theorem scopeRegex_pattern (path : String) : scopeRegex (pattern path) = some (onLine path) := by
  have hbegins : Text.stripPrefix "^" (pattern path) = some (regexEscape path ++ "(/.*)?$") := by
    rw [Text.stripPrefix_eq_some]
    simp [pattern]
  have hends : Text.stripSuffix "(/.*)?$" (regexEscape path ++ "(/.*)?$") =
      some (regexEscape path) := by
    rw [Text.stripSuffix_eq_some]
    simp
  have hinner : IdMatch.unescape (regexEscape path).toList = some path.toList := by
    rw [regexEscape, String.toList_ofList]
    exact IdMatch.unescape_escape path.toList
  simp [scopeRegex, hbegins, hends, hinner]

theorem reads_scopeFilters : Reads scopeFilters scopeCrates where
  lawful := FilterLang.reader_lawful _
  term_path := by
    intro scopeQ hscope path hpath
    have hquote : '"' ∉ (regexEscape path).toList := by
      simpa using List.all_eq_true.1 hscope path hpath
    rw [term_eq_ofList]
    exact FilterLang.fillsTerm_quoted _ _ _ (by simp) (by simpa using hquote)
  sat_term := by
    intro scopeQ hscope path hpath scope
    have hquote : '"' ∉ (regexEscape path).toList := by
      simpa using List.all_eq_true.1 hscope path hpath
    have hread : (Text.stripPrefix "scope~=\"" (term path)).bind (Text.stripSuffix "\"") =
        some (pattern path) := by
      have hbegins : Text.stripPrefix "scope~=\"" (term path) = some (pattern path ++ "\"") := by
        rw [Text.stripPrefix_eq_some]
        simp [term, pattern]
      rw [hbegins, Option.bind_some, Text.stripSuffix_eq_some, String.toList_append]
    unfold scopeFilters
    rw [term_eq_ofList, FilterLang.sat_quoted (by simp) (by simpa using hquote), ← term_eq_ofList,
      hread, Option.bind_some, Option.any_eq_true]
    rfl
  regex_pattern path := ⟨onLine path, scopeRegex_pattern path, fun _ => onLine_iff⟩

theorem fold_agrees_districts :
    Agrees scopeFilters "/geo/SK/BB/#|/geo/SK/ZA" :=
  (fold_agrees reads_scopeFilters (by decide)).2 (by decide)

/-- The root is no filter to a read, and no grant to a write without a scope. -/
theorem not_fold_agrees :
    ¬∀ (filters : FilterLang String) (crates : Crates), Reads filters crates →
      ∀ scopeQ, crates.checkScopeQ scopeQ = true → Agrees filters scopeQ := by
  intro h
  have hroot := h scopeFilters scopeCrates reads_scopeFilters "/#" (by decide)
  exact not_coversEveryEntity "/#" (hroot.2 (by decide))

end JoinedContext.ScopeFolding

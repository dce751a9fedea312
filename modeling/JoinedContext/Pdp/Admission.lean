import JoinedContext.Library.FilterLang
import JoinedContext.Pdp.Evaluator
import JoinedContext.Pdp.Projection

/-!
# What a constraint set admits

The broker answers a forwarded query and the gateway filters what it was not told. How the broker
reads a type name, a filter, an area or a period is a parameter; what the gateway relies on of its
filter language is stated once, and the texts it writes are read back through it.
-/

namespace JoinedContext

/-- How the broker reads the dimensions of a query, over its entities. -/
structure Broker (E : Type) where
  filters : FilterLang E
  /-- Whether the entity has a type the name stands for. -/
  hasType : String → E → Prop
  id : E → String
  carries : E → String → Prop
  inScope : String → E → Prop
  within : String → E → Prop
  /-- Whether an instant lies in the period a `temporalQ` asks for. -/
  during : String → Instant → Prop

/-- An attribute of an entity, at an instant of its history. -/
structure Item (E : Type) where
  entity : E
  attr : String
  instant : Instant

namespace Broker

variable {E : Type} (B : Broker E) (crates : Crates)

def unreadableIs : String := "jcUnreadablePolicyQ==0"

def unreadableIsNot : String := "jcUnreadablePolicyQ!=0"

/-- What the gateway relies on: its own parser is the broker's, a checked scope path folds into one
term, and the two comparisons of the filter no entity satisfies are terms that exclude each other. -/
structure Reads : Prop where
  lawful : B.filters.Lawful
  parses : B.filters.parses = crates.parseQ
  term_scope : ∀ scopeQ, crates.checkScopeQ scopeQ = true → ∀ path ∈ ScopeFolding.paths scopeQ,
    B.filters.Term (ScopeFolding.term path)
  term_unreadable : B.filters.Term unreadableIs ∧ B.filters.Term unreadableIsNot
  unreadable : ∀ e, ¬ (B.filters.sat unreadableIs e ∧ B.filters.sat unreadableIsNot e)

/-- What an optional filter admits. -/
def admitsQ (q : Option String) (e : E) : Prop := ∀ filter, q = some filter → B.filters.sat filter e

/-- Whether the entity is inside one grant's own `q` and that grant's scopes. -/
def insideGrant (q scopeQ : Option String) (e : E) : Prop :=
  B.admitsQ q e ∧ B.admitsQ (scopeQ.bind ScopeFolding.fold) e

@[simp] theorem admitsQ_none (e : E) : B.admitsQ none e := fun _ h => nomatch h

@[simp] theorem admitsQ_some (filter : String) (e : E) :
    B.admitsQ (some filter) e ↔ B.filters.sat filter e := by
  simp [admitsQ]

section Filters

variable {B crates} (hB : B.Reads crates)

include hB

theorem Reads.sat_parses {s : String} {e : E} (h : B.filters.sat s e) : crates.parseQ s = true :=
  hB.parses ▸ hB.lawful.parses_of_sat h

theorem Reads.term_group {s : String} (h : crates.parseQ s = true) :
    B.filters.Term ("(" ++ s ++ ")") :=
  hB.lawful.term_group (hB.parses.symm ▸ h)

theorem Reads.sat_group {s : String} {e : E} (h : crates.parseQ s = true) :
    B.filters.sat ("(" ++ s ++ ")") e ↔ B.filters.sat s e :=
  hB.lawful.sat_group (hB.parses.symm ▸ h)

theorem Reads.parses_term {t : String} (h : B.filters.Term t) : crates.parseQ t = true :=
  hB.parses ▸ hB.lawful.parses_term h

theorem Reads.term_nothing : B.filters.Term Evaluator.nothing := by
  have hterms : ∀ t ∈ [unreadableIs, unreadableIsNot], B.filters.Term t := by
    simpa using hB.term_unreadable
  exact hB.lawful.term_group (hB.lawful.parses_all (List.cons_ne_nil _ _) hterms)

/-- No entity is inside a grant whose own filter the parser refuses. -/
theorem Reads.not_sat_nothing (e : E) : ¬ B.filters.sat Evaluator.nothing e := by
  have hterms : ∀ t ∈ [unreadableIs, unreadableIsNot], B.filters.Term t := by
    simpa using hB.term_unreadable
  have hgroup := hB.lawful.sat_group (e := e)
    (hB.lawful.parses_all (List.cons_ne_nil _ _) hterms)
  have hall := hB.lawful.sat_all (e := e) (List.cons_ne_nil _ _) hterms
  intro h
  have hboth := hall.1 (hgroup.1 h)
  exact hB.unreadable e ⟨hboth _ (by simp), hboth _ (by simp)⟩

theorem Reads.term_fold {scopeQ folded : String} (hscope : crates.checkScopeQ scopeQ = true)
    (h : ScopeFolding.fold scopeQ = some folded) : B.filters.Term folded := by
  have hterms : ∀ t ∈ (ScopeFolding.paths scopeQ).map ScopeFolding.term, B.filters.Term t := by
    intro t ht
    obtain ⟨path, hpath, rfl⟩ := List.mem_map.1 ht
    exact hB.term_scope scopeQ hscope path hpath
  unfold ScopeFolding.fold at h
  rcases hmap : (ScopeFolding.paths scopeQ).map ScopeFolding.term with _ | ⟨one, _ | ⟨two, more⟩⟩ <;>
    rw [hmap] at h hterms <;> cases h
  · exact hterms _ (by simp)
  · exact hB.lawful.term_group (hB.lawful.parses_any (List.cons_ne_nil _ _) hterms)

/-- The terms a grant's filter is made of mean the grant's own `q` and its own scopes. -/
theorem Reads.filterParts {q scopeQ : Option String}
    (hscope : ∀ s, scopeQ = some s → crates.checkScopeQ s = true) :
    (∀ part ∈ Evaluator.filterParts crates q scopeQ, B.filters.Term part) ∧
      ∀ e, (∀ part ∈ Evaluator.filterParts crates q scopeQ, B.filters.sat part e) ↔
        B.insideGrant q scopeQ e := by
  have hq : ∀ filter, q = some filter →
      B.filters.Term (if crates.parseQ filter then "(" ++ filter ++ ")" else Evaluator.nothing) ∧
        ∀ e, B.filters.sat (if crates.parseQ filter then "(" ++ filter ++ ")"
          else Evaluator.nothing) e ↔ B.filters.sat filter e := by
    intro filter _
    split_ifs with hparse
    · exact ⟨hB.term_group hparse, fun e => hB.sat_group hparse⟩
    · exact ⟨hB.term_nothing, fun e => ⟨fun h => absurd h (hB.not_sat_nothing e),
        fun h => absurd (hB.sat_parses h) hparse⟩⟩
  have hfold : ∀ folded, scopeQ.bind ScopeFolding.fold = some folded → B.filters.Term folded := by
    intro folded h
    obtain ⟨s, hs, hf⟩ := Option.bind_eq_some_iff.1 h
    exact hB.term_fold (hscope s hs) hf
  have hown : (∀ part ∈ (q.map fun filter => if crates.parseQ filter then "(" ++ filter ++ ")"
        else Evaluator.nothing).toList, B.filters.Term part) ∧
      ∀ e, (∀ part ∈ (q.map fun filter => if crates.parseQ filter then "(" ++ filter ++ ")"
        else Evaluator.nothing).toList, B.filters.sat part e) ↔ B.admitsQ q e := by
    rcases q with _ | filter
    · simp
    · rw [Option.map_some, Option.toList_some]
      simp only [List.mem_singleton, forall_eq, admitsQ_some]
      exact hq filter rfl
  have hscopes : (∀ part ∈ (scopeQ.bind ScopeFolding.fold).toList, B.filters.Term part) ∧
      ∀ e, (∀ part ∈ (scopeQ.bind ScopeFolding.fold).toList, B.filters.sat part e) ↔
        B.admitsQ (scopeQ.bind ScopeFolding.fold) e := by
    rcases hf : scopeQ.bind ScopeFolding.fold with _ | folded
    · simp
    · simpa using hfold folded hf
  unfold Evaluator.filterParts insideGrant
  simp only [List.forall_mem_append]
  exact ⟨⟨hown.1, hscopes.1⟩, fun e => and_congr (hown.2 e) (hscopes.2 e)⟩

/-- One grant's filter means that grant, and a grant without one holds every entity. -/
theorem Reads.grantFilter {q scopeQ : Option String}
    (hscope : ∀ s, scopeQ = some s → crates.checkScopeQ s = true) :
    (∀ filter, Evaluator.grantFilter crates q scopeQ = some filter → B.filters.Term filter ∧
      ∀ e, B.filters.sat filter e ↔ B.insideGrant q scopeQ e) ∧
    (Evaluator.grantFilter crates q scopeQ = none → ∀ e, B.insideGrant q scopeQ e) := by
  obtain ⟨hterms, hmean⟩ := hB.filterParts (q := q) hscope
  unfold Evaluator.grantFilter
  rcases hparts : Evaluator.filterParts crates q scopeQ with _ | ⟨part, _ | ⟨more, rest⟩⟩ <;>
    rw [hparts] at hterms hmean
  · exact ⟨fun _ h => (nomatch h), fun _ e => (hmean e).1 (by simp)⟩
  · refine ⟨fun filter h => ?_, fun h => nomatch h⟩
    cases h
    exact ⟨hterms part (by simp), fun e => by simpa using hmean e⟩
  · refine ⟨fun filter h => ?_, fun h => nomatch h⟩
    cases h
    have hparses := hB.lawful.parses_all (List.cons_ne_nil _ _) hterms
    exact ⟨hB.lawful.term_group hparses, fun e => (hB.lawful.sat_group hparses).trans
      ((hB.lawful.sat_all (List.cons_ne_nil _ _) hterms).trans (hmean e))⟩

/-- The union of the filters is one term, and means one of them. -/
theorem Reads.unionFilter {filters : List String}
    (hparses : ∀ f ∈ filters, crates.parseQ f = true) :
    (∀ u, Evaluator.unionFilter filters = some u → B.filters.Term u ∧
      ∀ e, B.filters.sat u e ↔ ∃ f ∈ filters, B.filters.sat f e) ∧
    (Evaluator.unionFilter filters = none → filters = []) := by
  rcases filters with _ | ⟨f, _ | ⟨g, fs⟩⟩
  · simp [Evaluator.unionFilter]
  · have hf := hparses f (by simp)
    refine ⟨fun u h => ?_, fun h => nomatch h⟩
    cases h
    exact ⟨hB.term_group hf, fun e => (hB.sat_group hf).trans (by simp)⟩
  · refine ⟨fun u h => ?_, fun h => nomatch h⟩
    cases h
    have hne : (f :: g :: fs).map (fun f => "(" ++ f ++ ")") ≠ [] := by simp
    have hterms : ∀ t ∈ (f :: g :: fs).map (fun f => "(" ++ f ++ ")"), B.filters.Term t := by
      intro t ht
      obtain ⟨f', hf, rfl⟩ := List.mem_map.1 ht
      exact hB.term_group (hparses f' hf)
    have hany := hB.lawful.parses_any hne hterms
    refine ⟨hB.lawful.term_group hany, fun e => (hB.lawful.sat_group hany).trans
      ((hB.lawful.sat_any hne hterms).trans ?_)⟩
    simp only [List.mem_map, exists_exists_and_eq_and]
    exact exists_congr fun f' => and_congr_right fun hf => hB.sat_group (hparses f' hf)

/-- The conjoined filter parses, and means the caller's filter, when it parses, and one of the
others, when there are any. -/
theorem Reads.conjoin (requested : Option String) (filters : List String)
    (hparses : ∀ f ∈ filters, crates.parseQ f = true) :
    (∀ q, Evaluator.conjoin crates requested filters = some q → crates.parseQ q = true) ∧
      ∀ e, B.admitsQ (Evaluator.conjoin crates requested filters) e ↔
        B.admitsQ (requested.filter crates.parseQ) e ∧
          (filters = [] ∨ ∃ f ∈ filters, B.filters.sat f e) := by
  obtain ⟨hsome, hnone⟩ := hB.unionFilter hparses
  have hcaller : ∀ caller, requested.filter crates.parseQ = some caller →
      crates.parseQ caller = true := fun caller h => (Option.filter_eq_some_iff.1 h).2
  have hempty : ∀ u, Evaluator.unionFilter filters = some u → filters ≠ [] := by
    rintro u hu rfl
    cases hu
  unfold Evaluator.conjoin
  rcases hr : requested.filter crates.parseQ with _ | caller <;>
    rcases hu : Evaluator.unionFilter filters with _ | u
  · simp [hnone hu]
  · obtain ⟨hterm, hmean⟩ := hsome u hu
    refine ⟨fun q h => ?_, fun e => ?_⟩
    · cases h
      exact hB.parses_term hterm
    · simp [hmean e, hempty u hu]
  · have hc := hcaller caller hr
    refine ⟨fun q h => ?_, fun e => ?_⟩
    · cases h
      exact hB.parses_term (hB.term_group hc)
    · simp [hnone hu, hB.sat_group hc]
  · have hc := hcaller caller hr
    obtain ⟨hterm, hmean⟩ := hsome u hu
    have hjoin : "(" ++ caller ++ ");" ++ u = Text.join ";" ["(" ++ caller ++ ")", u] := by
      simp [Text.join, String.append_assoc]
    have hterms : ∀ t ∈ ["(" ++ caller ++ ")", u], B.filters.Term t := by
      simpa using ⟨hB.term_group hc, hterm⟩
    refine ⟨fun q h => ?_, fun e => ?_⟩
    · cases h
      rw [hjoin, ← hB.parses]
      exact hB.lawful.parses_all (List.cons_ne_nil _ _) hterms
    · rw [admitsQ_some, hjoin, hB.lawful.sat_all (List.cons_ne_nil _ _) hterms]
      simp [hB.sat_group hc, hmean e, hempty u hu]

end Filters

section Constraints

variable {crates}

/-- Whether the attribute is served on the entity: a system member always is, a hidden one never,
and with a projection only the slots of the entity's own types are. -/
def shows (c : Constraints) (item : Item E) : Prop :=
  SystemMembers.isEntitySystemMember item.attr = true ∨ item.attr ∉ c.hidden ∧
    if c.attrsByType = ∅ then c.attrs = ∅ ∨ item.attr ∈ c.attrs
    else ∃ slots ∈ c.attrsByType, B.hasType slots.1 item.entity ∧
      (slots.2 = ∅ ∨ item.attr ∈ slots.2)

def admitsType (types : Finset String) (e : E) : Prop := types = ∅ ∨ ∃ t ∈ types, B.hasType t e

/-- The area forwarded, the caller's own when the grant's was forwarded, and one of the areas the
gateway filters against. -/
def admitsArea (geoQ geoCaller : Option String) (geoGrants : List String) (e : E) : Prop :=
  (∀ area, geoQ = some area → B.within area e) ∧ (∀ area, geoCaller = some area → B.within area e) ∧
    (geoGrants = [] ∨ ∃ area ∈ geoGrants, B.within area e)

def admitsInstant (temporalQ : Option String) (windows : List Temporal.Window) (i : Instant) :
    Prop :=
  (∀ period, temporalQ = some period → B.during period i) ∧
    (windows = [] ∨ ∃ w ∈ windows, w.admits i = true)

/-- Whether the constraint set lets the item through, dimension by dimension. -/
structure Admits (crates : Crates) (c : Constraints) (item : Item E) : Prop where
  nonempty : c.empty = false
  type : B.admitsType c.types item.entity
  id : IdMatch.permits crates c.idPatterns (B.id item.entity) = true
  q : B.admitsQ c.q item.entity
  area : B.admitsArea c.geoQ c.geoCaller c.geoGrants item.entity
  instant : B.admitsInstant c.temporalQ c.temporalWindows item.instant
  asked : c.attrsAsked = ∅ ∨ ∃ a ∈ c.attrsAsked, B.carries item.entity a
  served : B.shows c item

end Constraints

end Broker

section Stored

/-! ## A broker that reads so -/

/-- An entity as a small broker stores it: the areas are the ones that contain it. -/
structure Stored where
  types : List String
  id : String
  members : List (String × String) := []
  scopes : List String := []
  areas : List String := []

/-- A comparison of `q`: an attribute that is there, or has the value, or has another. -/
def Stored.compare (text : String) (e : Stored) : Bool :=
  let name := text.toList.takeWhile fun c => c ∉ ['=', '!', '~', '<', '>']
  let value := e.members.lookup (String.ofList name)
  match text.toList.drop name.length with
  | [] => value.isSome
  | '=' :: '=' :: wanted => value == some (String.ofList wanted)
  | '!' :: '=' :: unwanted => value.any (· != String.ofList unwanted)
  | _ => false

def storedFilters : FilterLang Stored := FilterLang.reader fun text e => e.compare text

instance (s : String) (e : Stored) : Decidable (storedFilters.sat s e) :=
  inferInstanceAs (Decidable ((FilterLang.reader _).sat s e))

/-- The seconds of an instant, one stroke for each. -/
def strokes (t : Instant) : String :=
  let seconds := t / Temporal.nanosPerSecond
  String.ofList ((if 0 ≤ seconds then '+' else '-') :: List.replicate seconds.natAbs '1')

def storedCrates : Crates where
  parseQ := storedFilters.parses
  attributePaths _ := []
  hasLinkedPaths _ := false
  checkScopeQ scopeQ := (ScopeFolding.paths scopeQ).all fun path => '"' ∉ (regexEscape path).toList
  geoQueryFromParams _ := true
  regex _ := none
  parseFromRfc3339 _ := none
  toRfc3339 := strokes
  parseJson _ := none

def visitor : Subject := { roles := {"visitor"} }

def storedBroker : Broker Stored where
  filters := storedFilters
  hasType t e := t ∈ e.types
  id := Stored.id
  carries e name := (e.members.lookup name).isSome = true
  inScope scopeQ e := ∃ scope ∈ e.scopes, ∃ path ∈ ScopeFolding.grantedScopes scopeQ,
    ScopeFolding.covers path scope = true
  within area e := area ∈ e.areas
  during period i := ∃ w : Temporal.Window, w.toTemporalQ storedCrates = some period ∧
    w.floorSeconds.admits i = true

theorem term_unreadable_stored :
    storedFilters.Term Broker.unreadableIs ∧ storedFilters.Term Broker.unreadableIsNot :=
  ⟨FilterLang.fillsTerm_plain 'j' "cUnreadablePolicyQ==0".toList (by simp),
    FilterLang.fillsTerm_plain 'j' "cUnreadablePolicyQ!=0".toList (by simp)⟩

theorem storedBroker_reads : storedBroker.Reads storedCrates where
  lawful := FilterLang.reader_lawful _
  parses := rfl
  term_scope := by
    intro scopeQ hscope path hpath
    have hquote : '"' ∉ (regexEscape path).toList := by
      simpa using List.all_eq_true.1 hscope path hpath
    rw [ScopeFolding.term_eq_ofList]
    exact FilterLang.fillsTerm_quoted _ _ _ (by simp) (by simpa using hquote)
  term_unreadable := term_unreadable_stored
  unreadable := by
    rintro e ⟨his, hnot⟩
    have hvalue := (FilterLang.sat_plain 'j' "cUnreadablePolicyQ==0".toList (by simp) e).1 his
    have hother := (FilterLang.sat_plain 'j' "cUnreadablePolicyQ!=0".toList (by simp) e).1 hnot
    have heq : (e.members.lookup "jcUnreadablePolicyQ" == some "0") = true := hvalue
    have hne : (e.members.lookup "jcUnreadablePolicyQ").any (· != "0") = true := hother
    rw [beq_iff_eq] at heq
    simp [heq] at hne

open Temporal

end Stored

end JoinedContext

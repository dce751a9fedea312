import JoinedContext.Library.Assoc
import JoinedContext.Pdp.WriteGuard
import Mathlib.Data.Set.Finite.Basic
import Mathlib.Data.Finset.Max

/-!
# Whether a write falls inside one grant

The constraint set a write is checked against is a union in every dimension. A payload it accepts
falls inside one grant exactly when, wherever the grants reach together, one of their entries
reaches alone and lists all they list.
-/

namespace JoinedContext.OneGrant

open Evaluator WriteGuard

structure Entry where
  types : Finset String
  idPatterns : Finset String
  attrs : Finset String
  scopeQ : Option String
  geoQ : Option String

/-- The entries of a policy. One without registration information grants everything. -/
def entriesOf (policy : PolicySpec) : List Entry :=
  if policy.information = [] then [⟨∅, ∅, ∅, policy.scopeQ, policy.geoQ⟩]
  else policy.information.map fun info =>
    ⟨grantedTypes [info], idPatterns [info], grantedAttrs [info], policy.scopeQ, policy.geoQ⟩

def Entry.reaches (crates : Crates) (e : Entry) (raw : String) (urn : Urn) : Prop :=
  (e.types = ∅ ∨ urn.entityType ∈ e.types) ∧ IdMatch.permits crates e.idPatterns raw = true

/-- Whether the entry by itself admits the payload: its type, its id, every attribute it writes,
every scope it names and its location. -/
def Entry.Admits (crates : Crates) (F : Type) [Float64 F] (e : Entry) (raw : String) (urn : Urn)
    (payload : Value) : Prop :=
  e.reaches crates raw urn ∧ Projection.ungranted payload e.attrs = [] ∧
    checkScope payload e.scopeQ = .ok () ∧
    checkLocation crates F payload e.geoQ.toList = .ok ()

/-- Every payload the guard accepts falls inside one entry of the grants. -/
def OneGrantLaw (crates : Crates) (F : Type) [Float64 F] (grants : List PolicySpec)
    (c : Constraints) : Prop :=
  ∀ payload, check crates F payload c = .ok () → ∀ raw urn, entityId payload = some raw →
    Urn.parse raw = .ok urn → checkGrantedId crates raw c = .ok () →
    ∃ policy ∈ grants, ∃ e ∈ entriesOf policy, e.Admits crates F raw urn payload

section Condition

variable (crates : Crates) (F : Type) [Float64 F] (request : Request) (withheld : Finset String)
  (grants : List PolicySpec)

def unionTypes : Finset String :=
  narrow request.types (unions (fun policy => grantedTypes policy.information) grants)

def unionIds : Finset String := unions (fun policy => idPatterns policy.information) grants

def scopeQs : List String := grants.filterMap PolicySpec.scopeQ

def geoQs : List String := grants.filterMap PolicySpec.geoQ

def MayWrite (name : String) : Prop :=
  (listedAttrs grants = ∅ ∨ name ∈ listedAttrs grants) ∧ name ∉ policyVocabulary ∧
    ∀ h ∈ withheld, namesAttribute name h = false

def Sendable : Prop :=
  ("id" ∉ withheld ∨ "@id" ∉ withheld) ∧ (unionTypes request grants ≠ ∅ → "type" ∉ withheld) ∧
    (scopeQs grants ≠ [] → "scope" ∉ withheld)

def placed (location : Option Value) : Value :=
  .obj (location.toList.map fun v => ("location", v))

/-- Wherever the grants reach together, one of their entries reaches alone, and it lists every
attribute they list and covers every scope they name. -/
def FallsInOneGrant : Prop :=
  Sendable request withheld grants → ∀ raw urn location, Urn.parse raw = .ok urn →
    (unionTypes request grants = ∅ ∨ urn.entityType ∈ unionTypes request grants) →
    IdMatch.permits crates (unionIds grants) raw = true →
    (location ≠ none → MayWrite withheld grants "location") →
    checkLocation crates F (placed location) (geoQs grants) = .ok () →
    ∃ policy ∈ grants, ∃ e ∈ entriesOf policy, e.reaches crates raw urn ∧
      checkLocation crates F (placed location) e.geoQ.toList = .ok () ∧
      (∀ name, MayWrite withheld grants name → Projection.needsGrant name = true →
        (name = "location" → location ≠ none) → e.attrs = ∅ ∨ name ∈ e.attrs) ∧
      ∀ scopeQ, e.scopeQ = some scopeQ → ∀ granted ∈ scopeQs grants,
        ∀ path ∈ ScopeFolding.grantedScopes granted,
          insideScopes scopeQ (ScopeFolding.trimPath path) = true

end Condition

section Constraints

variable {crates : Crates} {F : Type} [Float64 F] {subject : Subject} {operation : Operation}
  {request : Request} {tenant : String} {policies : List PolicySpec} {now : Instant}
  {c : Constraints}

/-- What a write is checked against, read off the grants. -/
structure IsUnion (request : Request) (withheld : Finset String) (grants : List PolicySpec)
    (c : Constraints) : Prop where
  types : c.types = unionTypes request grants
  ids : c.idPatterns = unionIds grants
  attrs : c.attrs = listedAttrs grants \ withheld
  hidden : c.hidden = withheld
  scopes : c.grantedScopes = union (scopeQs grants)
  areas : c.geoAreas = geoQs grants
  listed : listedAttrs grants = ∅ ∨ listedAttrs grants \ withheld ≠ ∅

theorem isUnion_of_evaluate (hwrite : operation.isWrite = true)
    (h : evaluate crates F subject operation request tenant policies now = .rewrite c) :
    IsUnion request (withheldNames request (prohibitions subject operation policies now))
      (permissions subject operation policies now) c := by
  obtain ⟨-, -, names, hnames, hkept⟩ := evaluate_eq_rewrite.1 h
  obtain ⟨-, rfl⟩ := withheldByAll_eq_some.1 hnames
  obtain ⟨hlisted, rfl⟩ := withhold_eq_some.1 hkept
  split_ifs with hnone
  · rw [hnone] at hlisted ⊢
    exact ⟨rfl, rfl, by simp [intersect, hwrite], rfl, rfl, Geo.areas_intersect .., hlisted⟩
  · exact ⟨rfl, rfl, by simp [intersect, hwrite], rfl, rfl, Geo.areas_intersect .., hlisted⟩

end Constraints

section Lemmas

theorem mem_grantedScopes_join {path : String} : ∀ {scopes : List String},
    scopes ≠ [] → (path ∈ ScopeFolding.grantedScopes (Text.join "|" scopes) ↔
      ∃ scopeQ ∈ scopes, path ∈ ScopeFolding.grantedScopes scopeQ)
  | [s], _ => by simp [Text.join]
  | s :: t :: rest, _ => by
    rw [Text.join_cons_cons, ScopeFolding.grantedScopes_append, List.mem_append,
      mem_grantedScopes_join (List.cons_ne_nil t rest)]
    simp

theorem namesAttribute_plain {key term : String}
    (hplain : ∀ c ∈ key.toList, c ∉ ['/', '#', ':']) :
    namesAttribute key term = true ↔ key = term := by
  unfold namesAttribute
  rw [Bool.or_eq_true, beq_iff_eq, or_iff_left_iff_imp]
  intro hends
  exfalso
  rcases hstrip : Text.stripSuffix term key with _ | head
  · simp [hstrip] at hends
  · have hkey := Text.stripSuffix_eq_some.1 hstrip
    simp only [hstrip, Option.any_some, Text.endsWithAny] at hends
    rcases hlast : head.toList.getLast? with _ | last
    · simp [hlast] at hends
    · have hmem : last ∈ key.toList := by
        rw [hkey]
        exact List.mem_append_left _ (List.mem_of_getLast? hlast)
      simp only [hlast, Option.any_some, decide_eq_true_eq] at hends
      exact hplain last hmem hends

theorem namesAttribute_self (key : String) : namesAttribute key key = true := by
  simp [namesAttribute]

theorem exists_fresh (avoid : Finset String) :
    ∃ name : String, name ∉ avoid ∧ ∀ c ∈ name.toList, c = 'x' := by
  have hinj : Function.Injective fun n : Nat => String.ofList (List.replicate n 'x') := by
    intro m n h
    simpa using congrArg (fun s => s.toList.length) h
  obtain ⟨_, ⟨n, rfl⟩, hn⟩ := (Set.infinite_range_of_injective hinj).exists_notMem_finset avoid
  exact ⟨_, hn, by simp +contextual [List.mem_replicate]⟩

theorem mem_keys_iff {entity : Value} {key : String} :
    key ∈ entity.keys ↔ entity.get key ≠ none := by
  rcases entity with _ | _ | _ | _ | _ | members <;>
    simp [Value.keys, Value.get, Value.asObject, List.lookup_eq_none_iff]
variable {crates : Crates} {F : Type} [Float64 F]

theorem checkLocation_congr {v w : Value} {areas : List String}
    (h : v.get "location" = w.get "location") :
    checkLocation crates F v areas = checkLocation crates F w areas := by
  unfold checkLocation Geo.entityPoint
  rw [h]

@[simp] theorem get_placed (location : Option Value) :
    (placed location).get "location" = location := by
  rcases location with _ | v <;> simp [placed]

end Lemmas

section Accepted

variable {crates : Crates} {F : Type} [Float64 F] {request : Request} {withheld : Finset String}
  {grants : List PolicySpec} {c : Constraints} {payload : Value}

theorem notMem_withheld_of_check (hU : IsUnion request withheld grants c)
    (hattrs : checkAttributes payload c = .ok ()) {key : String} (hkey : key ∈ payload.keys) :
    key ∉ withheld := by
  intro hmem
  have hnames := (checkAttributes_eq_ok.1 hattrs).1 key hkey key (hU.hidden ▸ hmem)
  rw [namesAttribute_self] at hnames
  cases hnames

theorem mayWrite_of_check (hU : IsUnion request withheld grants c)
    (hpolicy : ∀ name ∈ payload.keys, name ∉ policyVocabulary)
    (hattrs : checkAttributes payload c = .ok ()) {name : String} (hkey : name ∈ payload.keys)
    (hneeds : Projection.needsGrant name = true) : MayWrite withheld grants name := by
  obtain ⟨hhidden, hungranted⟩ := checkAttributes_eq_ok.1 hattrs
  refine ⟨?_, hpolicy name hkey, fun h hh => hhidden name hkey h (hU.hidden.symm ▸ hh)⟩
  rw [hU.attrs, Projection.ungranted_eq_nil] at hungranted
  rcases hungranted with hnone | hgranted
  · exact Or.inl (hU.listed.resolve_right (not_not.2 hnone))
  · exact Or.inr (Finset.mem_sdiff.1 (hgranted name hkey hneeds)).1

theorem sendable_of_check (hU : IsUnion request withheld grants c)
    (hcheck : check crates F payload c = .ok ()) : Sendable request withheld grants := by
  obtain ⟨-, hid, htype, -, hscope, hattrs, -, -⟩ := check_eq_ok.1 hcheck
  have hkey : ∀ key, payload.get key ≠ none → key ∉ withheld := fun key hget =>
    notMem_withheld_of_check hU hattrs (mem_keys_iff.2 hget)
  refine ⟨?_, fun htypes => hkey "type" ?_, fun hscopes => hkey "scope" ?_⟩
  · obtain ⟨raw, urn, hraw, -⟩ := checkId_eq_ok.1 hid
    by_cases hplain : payload.get "id" = none
    · refine Or.inr (hkey "@id" fun hat => ?_)
      simp [entityId, hplain, hat] at hraw
    · exact Or.inl (hkey "id" hplain)
  · rw [← hU.types] at htypes
    obtain ⟨declared, hdeclared, -⟩ := (checkType_eq_ok.1 htype).resolve_left htypes
    intro hnone
    simp [declaredType, hnone] at hdeclared
  · intro hnone
    simp [checkScopePresent, hU.scopes, union, hscopes, hnone] at hscope

theorem oneGrantLaw_of_fallsInOneGrant (hU : IsUnion request withheld grants c)
    (hone : FallsInOneGrant crates F request withheld grants) :
    OneGrantLaw crates F grants c := by
  intro payload hcheck raw urn hraw hurn hgranted
  obtain ⟨hpolicy, -, -, -, -, hattrs, hscope, hlocation⟩ := check_eq_ok.1 hcheck
  obtain ⟨urn', hurn', htype, hid⟩ := checkGrantedId_eq_ok.1 hgranted
  obtain rfl : urn' = urn := Except.ok.inj (hurn'.symm.trans hurn)
  have hplaced : ∀ areas, checkLocation crates F payload areas =
      checkLocation crates F (placed (payload.get "location")) areas := fun areas =>
    checkLocation_congr (get_placed _).symm
  obtain ⟨policy, hgrant, e, he, hreach, hplace, hlists, hcovers⟩ :=
    hone (sendable_of_check hU hcheck) raw urn' (payload.get "location") hurn
      (hU.types ▸ htype) (hU.ids ▸ hid)
      (fun hsome => mayWrite_of_check hU hpolicy hattrs (mem_keys_iff.2 hsome) (by decide))
      (by rw [← hplaced, ← hU.areas]; exact hlocation)
  refine ⟨policy, hgrant, e, he, hreach, ?_, ?_, (hplaced _).trans hplace⟩
  · rw [Projection.ungranted_eq_nil, or_iff_not_imp_left]
    intro hattrs' name hkey hneeds
    refine (hlists name (mayWrite_of_check hU hpolicy hattrs hkey hneeds) hneeds ?_).resolve_left
      hattrs'
    rintro rfl
    exact mem_keys_iff.1 hkey
  · rw [checkScope_eq_ok]
    intro scopeQ hscopeQ
    have hmem : scopeQ ∈ scopeQs grants := by
      refine List.mem_filterMap.2 ⟨policy, hgrant, ?_⟩
      unfold entriesOf at he
      split_ifs at he
      · obtain rfl := List.mem_singleton.1 he
        exact hscopeQ
      · obtain ⟨info, -, rfl⟩ := List.mem_map.1 he
        exact hscopeQ
    have hne : scopeQs grants ≠ [] := List.ne_nil_of_mem hmem
    rw [hU.scopes, union, if_neg hne, checkScope_eq_ok] at hscope
    obtain ⟨scopes, hnamed, hinside⟩ := hscope _ rfl
    refine ⟨scopes, hnamed, fun scope hmem => ?_⟩
    obtain ⟨path, hpath, hcover⟩ := List.any_eq_true.1 (hinside scope hmem)
    obtain ⟨granted, hgranted, hpath⟩ := (mem_grantedScopes_join hne).1 hpath
    obtain ⟨wider, hwider, htrim⟩ :=
      List.any_eq_true.1 (hcovers scopeQ hscopeQ granted hgranted path hpath)
    exact List.any_eq_true.2 ⟨wider, hwider, ScopeFolding.covers_trans htrim hcover⟩

end Accepted

section Fullest

/-- The payload that writes all it may at one id and one place: every name, every scope. -/
def fullest (idKey raw : String) (kind : Option String) (scopes : Option (List String))
    (location : Option Value) (names : List String) : Value :=
  .obj ((idKey, .str raw) :: ((kind.toList.map fun k => ("type", Value.str k)) ++
    ((scopes.toList.map fun paths => ("scope", Value.arr (paths.map Value.str))) ++
      ((location.toList.map fun v => ("location", v)) ++ names.map fun n => (n, Value.null)))))

variable {idKey raw : String} {kind : Option String} {scopes : Option (List String)}
  {location : Option Value} {names : List String}

theorem lookup_names {key : String} (h : key ∉ names) :
    (names.map fun n => (n, Value.null)).lookup key = none := by
  rw [List.lookup_eq_none_iff]
  intro p hp
  obtain ⟨n, hn, rfl⟩ := List.mem_map.1 hp
  simpa using fun heq : key = n => h (heq ▸ hn)

theorem mem_keys_fullest {key : String} :
    key ∈ (fullest idKey raw kind scopes location names).keys ↔
      key = idKey ∨ (key = "type" ∧ kind ≠ none) ∨ (key = "scope" ∧ scopes ≠ none) ∨
        (key = "location" ∧ location ≠ none) ∨ key ∈ names := by
  rcases kind with _ | k <;> rcases scopes with _ | ss <;> rcases location with _ | v <;>
    simp [fullest]

/-- What is read at a key that is no name. -/
theorem get_fullest {key : String} (hnames : key ∉ names) :
    (fullest idKey raw kind scopes location names).get key =
      if key = idKey then some (.str raw) else
      if key = "type" ∧ kind ≠ none then kind.map .str else
      if key = "scope" ∧ scopes ≠ none then scopes.map fun paths => .arr (paths.map .str) else
      if key = "location" then location else none := by
  have hlookup := lookup_names hnames
  rcases kind with _ | k <;> rcases scopes with _ | ss <;> rcases location with _ | v <;>
    simp [fullest, Value.get, Assoc.lookup_cons, hlookup]

theorem entityId_fullest (hkey : idKey = "id" ∨ idKey = "@id") (hnames : "id" ∉ names) :
    entityId (fullest idKey raw kind scopes location names) = some raw := by
  unfold entityId
  rw [get_fullest hnames]
  rcases hkey with rfl | rfl
  · rfl
  · simp [fullest, Value.get]

theorem get_type_fullest (hkey : idKey = "id" ∨ idKey = "@id") (hnames : "type" ∉ names) :
    declaredType (fullest idKey raw kind scopes location names) = kind := by
  unfold declaredType
  rw [get_fullest hnames]
  rcases hkey with rfl | rfl <;> rcases kind with _ | k <;> simp

theorem get_scope_fullest (hkey : idKey = "id" ∨ idKey = "@id") (hnames : "scope" ∉ names) :
    (fullest idKey raw kind scopes location names).get "scope" =
      scopes.map fun paths => Value.arr (paths.map Value.str) := by
  rw [get_fullest hnames]
  rcases hkey with rfl | rfl <;> rcases scopes with _ | ss <;> simp

theorem get_location_fullest (hkey : idKey = "id" ∨ idKey = "@id") (hnames : "location" ∉ names) :
    (fullest idKey raw kind scopes location names).get "location" = location := by
  rw [get_fullest hnames]
  rcases hkey with rfl | rfl <;> simp

theorem namedScopes_fullest (hkey : idKey = "id" ∨ idKey = "@id") (hnames : "scope" ∉ names) :
    namedScopes (fullest idKey raw kind scopes location names) = some (scopes.getD []) := by
  unfold namedScopes
  rw [get_scope_fullest hkey hnames]
  rcases scopes with _ | paths
  · rfl
  · have hstrs : ∀ paths : List String,
        (paths.map Value.str).filterMap Value.asStr = paths := fun paths => by
      simp [List.filterMap_map, Function.comp_def]
    simp [hstrs]

end Fullest

section Writable

variable {withheld : Finset String} {grants : List PolicySpec}

/-- Names the grants let be written that between them are listed by no entry that does not list
every such name. -/
theorem exists_writable (withheld : Finset String) (grants : List PolicySpec) :
    ∃ names : List String,
      (∀ name ∈ names, MayWrite withheld grants name ∧ Projection.needsGrant name = true ∧
        name ≠ "location") ∧
      ∀ policy ∈ grants, ∀ e ∈ entriesOf policy,
        (e.attrs = ∅ ∨ ∀ name ∈ names, name ∈ e.attrs) →
        ∀ name, MayWrite withheld grants name → Projection.needsGrant name = true →
          name ≠ "location" → e.attrs = ∅ ∨ name ∈ e.attrs := by
  classical
  by_cases hopen : listedAttrs grants = ∅
  · obtain ⟨fresh, hfresh, hletters⟩ := exists_fresh
      (unions (fun policy => unions Entry.attrs (entriesOf policy)) grants ∪ withheld ∪
        (policyVocabulary ++ SystemMembers.entitySystemMembers ++ ["@id", "@type",
          "location"]).toFinset)
    simp only [Finset.mem_union, mem_unions, not_or, not_exists, not_and, List.mem_toFinset,
      List.mem_append] at hfresh
    obtain ⟨⟨hattrs, hwithheld⟩, ⟨hpolicy, hsystem⟩, hother⟩ := hfresh
    have hplain : ∀ c ∈ fresh.toList, c ∉ ['/', '#', ':'] := fun c hc => by
      rw [hletters c hc]
      decide
    refine ⟨[fresh], ?_, fun policy hgrant e he hlists name _ _ _ => ?_⟩
    · rintro name hname
      obtain rfl := List.mem_singleton.1 hname
      refine ⟨⟨Or.inl hopen, hpolicy, fun h hh => ?_⟩, ?_, fun heq => hother (by simp [heq])⟩
      · rw [← Bool.not_eq_true, namesAttribute_plain hplain]
        exact fun heq => hwithheld (heq ▸ hh)
      · simp only [List.mem_cons, List.not_mem_nil, or_false, not_or] at hother
        simp [Projection.needsGrant, SystemMembers.isEntitySystemMember, hsystem, hother.1,
          hother.2.1]
    · exact Or.inl (hlists.resolve_right fun hall =>
        hattrs policy hgrant e he (hall fresh (List.mem_singleton.2 rfl)))
  · refine ⟨((listedAttrs grants).filter fun name => MayWrite withheld grants name ∧
      Projection.needsGrant name = true ∧ name ≠ "location").toList, ?_, ?_⟩
    · intro name hname
      exact (Finset.mem_filter.1 (Finset.mem_toList.1 hname)).2
    · intro policy _ e _ hlists name hmay hneeds hlocation
      refine hlists.imp_right fun hall => hall name ?_
      rw [Finset.mem_toList, Finset.mem_filter]
      exact ⟨hmay.1.resolve_left hopen, hmay, hneeds, hlocation⟩

end Writable

section Law

variable {crates : Crates} {F : Type} [Float64 F] {request : Request} {withheld : Finset String}
  {grants : List PolicySpec} {c : Constraints}

theorem insideScopes_trimPath {scopes : List String} (hne : scopes ≠ []) {granted path : String}
    (hgranted : granted ∈ scopes) (hpath : path ∈ ScopeFolding.grantedScopes granted) :
    insideScopes (Text.join "|" scopes) (ScopeFolding.trimPath path) = true :=
  List.any_eq_true.2 ⟨path, (mem_grantedScopes_join hne).2 ⟨granted, hgranted, hpath⟩,
    ScopeFolding.covers_trimPath path⟩

theorem check_fullest (hU : IsUnion request withheld grants c)
    (hsend : Sendable request withheld grants) {raw idKey : String} {urn : Urn}
    {location : Option Value} {names : List String}
    (hidKey : (idKey = "id" ∨ idKey = "@id") ∧ idKey ∉ withheld) (hurn : Urn.parse raw = .ok urn)
    (htype : unionTypes request grants = ∅ ∨ urn.entityType ∈ unionTypes request grants)
    (hids : IdMatch.permits crates (unionIds grants) raw = true)
    (hlocation : location ≠ none → MayWrite withheld grants "location")
    (hplace : checkLocation crates F (placed location) (geoQs grants) = .ok ())
    (hnames : ∀ name ∈ names, MayWrite withheld grants name ∧
      Projection.needsGrant name = true ∧ name ≠ "location") :
    check crates F (fullest idKey raw
      (if unionTypes request grants = ∅ then none else some urn.entityType)
      (if scopeQs grants = [] then none else some ((scopeQs grants).flatMap fun scopeQ =>
        (ScopeFolding.grantedScopes scopeQ).map ScopeFolding.trimPath)) location names) c =
      .ok () := by
  have hsystem : ∀ key, Projection.needsGrant key = false → key ∉ names := fun key hkey hmem => by
    rw [(hnames key hmem).2.1] at hkey
    cases hkey
  have hloc : "location" ∉ names := fun hmem => (hnames _ hmem).2.2 rfl
  have hchars : ∀ key ∈ ["id", "@id", "type", "scope"], ∀ c ∈ key.toList,
      c ∉ ['/', '#', ':'] := by simp
  have hplain : ∀ key ∈ ["id", "@id", "type", "scope"], key ∉ withheld → ∀ h ∈ withheld,
      namesAttribute key h = false := fun key hkey hnot h hh => by
    rw [← Bool.not_eq_true, namesAttribute_plain (hchars key hkey)]
    exact fun heq => hnot (heq ▸ hh)
  rw [check_eq_ok]
  refine ⟨?_, ?_, ?_, ?_, ?_, ?_, ?_, ?_⟩
  · intro key hkey
    rcases mem_keys_fullest.1 hkey with rfl | ⟨rfl, -⟩ | ⟨rfl, -⟩ | ⟨rfl, -⟩ | hmem
    · rcases hidKey.1 with rfl | rfl <;> decide
    · decide
    · decide
    · decide
    · exact (hnames key hmem).1.2.1
  · rw [checkId_eq_ok]
    refine ⟨raw, urn, entityId_fullest hidKey.1 (hsystem _ (by decide)), hurn, ?_⟩
    rw [get_type_fullest hidKey.1 (hsystem _ (by decide))]
    split_ifs
    · simp
    · simp
  · rw [checkType_eq_ok, hU.types, get_type_fullest hidKey.1 (hsystem _ (by decide))]
    by_cases hnone : unionTypes request grants = ∅
    · exact Or.inl hnone
    · rw [if_neg hnone]
      exact Or.inr ⟨_, rfl, htype.resolve_left hnone⟩
  · rw [checkEntityId, entityId_fullest hidKey.1 (hsystem _ (by decide))]
    exact checkGrantedId_eq_ok.2 ⟨urn, hurn, hU.types ▸ htype, hU.ids ▸ hids⟩
  · rw [checkScopePresent, get_scope_fullest hidKey.1 (hsystem _ (by decide)), hU.scopes, union]
    by_cases hnone : scopeQs grants = [] <;> simp [hnone]
  · rw [checkAttributes_eq_ok, hU.hidden]
    constructor
    · intro key hkey
      rcases mem_keys_fullest.1 hkey with rfl | ⟨rfl, hsome⟩ | ⟨rfl, hsome⟩ | ⟨rfl, hsome⟩ | hmem
      · exact hplain key (by rcases hidKey.1 with rfl | rfl <;> decide) hidKey.2
      · exact hplain _ (by decide) (hsend.2.1 fun hnone => hsome (if_pos hnone))
      · exact hplain _ (by decide) (hsend.2.2 fun hnone => hsome (if_pos hnone))
      · exact (hlocation hsome).2.2
      · exact (hnames key hmem).1.2.2
    · rw [Projection.ungranted_eq_nil, hU.attrs]
      have hin : ∀ name, MayWrite withheld grants name →
          listedAttrs grants \ withheld = ∅ ∨ name ∈ listedAttrs grants \ withheld := by
        intro name hmay
        rcases hmay.1 with hopen | hmem
        · exact Or.inl (by rw [hopen, Finset.empty_sdiff])
        · refine Or.inr (Finset.mem_sdiff.2 ⟨hmem, fun hh => ?_⟩)
          have hself := hmay.2.2 name hh
          rw [namesAttribute_self] at hself
          cases hself
      rw [or_iff_not_imp_left]
      intro hne key hkey hneeds
      rcases mem_keys_fullest.1 hkey with rfl | ⟨rfl, -⟩ | ⟨rfl, -⟩ | ⟨rfl, hsome⟩ | hmem
      · rcases hidKey.1 with rfl | rfl <;> exact absurd hneeds (by decide)
      · exact absurd hneeds (by decide)
      · exact absurd hneeds (by decide)
      · exact (hin _ (hlocation hsome)).resolve_left hne
      · exact (hin _ (hnames key hmem).1).resolve_left hne
  · rw [checkScope_eq_ok, hU.scopes, union]
    intro scopeQ hscopeQ
    split_ifs at hscopeQ with hnone
    refine ⟨_, namedScopes_fullest hidKey.1 (hsystem _ (by decide)), ?_⟩
    rw [if_neg hnone, ← Option.some.inj hscopeQ]
    intro scope hscope
    obtain ⟨granted, hgranted, hscope⟩ := List.mem_flatMap.1 hscope
    obtain ⟨path, hpath, rfl⟩ := List.mem_map.1 hscope
    exact insideScopes_trimPath hnone hgranted hpath
  · rw [checkLocation_congr (w := placed location), hU.areas]
    · exact hplace
    · rw [get_location_fullest hidKey.1 hloc, get_placed]

theorem fallsInOneGrant_of_oneGrantLaw (hU : IsUnion request withheld grants c)
    (hlaw : OneGrantLaw crates F grants c) :
    FallsInOneGrant crates F request withheld grants := by
  intro hsend raw urn location hurn htype hids hlocation hplace
  obtain ⟨idKey, hidKey⟩ : ∃ idKey, (idKey = "id" ∨ idKey = "@id") ∧ idKey ∉ withheld :=
    hsend.1.elim (fun h => ⟨"id", Or.inl rfl, h⟩) fun h => ⟨"@id", Or.inr rfl, h⟩
  obtain ⟨names, hnames, hall⟩ := exists_writable withheld grants
  have hsystem : ∀ key, Projection.needsGrant key = false → key ∉ names := fun key hkey hmem => by
    rw [(hnames key hmem).2.1] at hkey
    cases hkey
  have hloc : "location" ∉ names := fun hmem => (hnames _ hmem).2.2 rfl
  have hcheck := check_fullest hU hsend hidKey hurn htype hids hlocation hplace hnames
  obtain ⟨policy, hgrant, e, he, hreach, hungranted, hscope, hinside⟩ := hlaw _ hcheck raw urn
    (entityId_fullest hidKey.1 (hsystem "id" (by decide))) hurn
    (checkGrantedId_eq_ok.2 ⟨urn, hurn, hU.types ▸ htype, hU.ids ▸ hids⟩)
  rw [Projection.ungranted_eq_nil] at hungranted
  refine ⟨policy, hgrant, e, he, hreach, ?_, ?_, ?_⟩
  · rw [checkLocation_congr (w := placed location)] at hinside
    · exact hinside
    · rw [get_location_fullest hidKey.1 hloc, get_placed]
  · intro name hmay hneeds hname
    by_cases hplaced : name = "location"
    · subst hplaced
      refine hungranted.imp_right fun hkeys => hkeys _ ?_ hneeds
      exact mem_keys_fullest.2 (Or.inr (Or.inr (Or.inr (Or.inl ⟨rfl, hname rfl⟩))))
    · refine hall policy hgrant e he (hungranted.imp_right fun hkeys name hmem => ?_) name hmay
        hneeds hplaced
      exact hkeys name (mem_keys_fullest.2 (by simp [hmem])) (hnames name hmem).2.1
  · intro scopeQ hscopeQ granted hgranted path hpath
    have hne : scopeQs grants ≠ [] := List.ne_nil_of_mem hgranted
    obtain ⟨scopes, hnamed, hcover⟩ := checkScope_eq_ok.1 hscope scopeQ hscopeQ
    rw [namedScopes_fullest hidKey.1 (hsystem _ (by decide)), if_neg hne] at hnamed
    obtain rfl := Option.some.inj hnamed
    exact hcover _ (List.mem_flatMap.2 ⟨granted, hgranted, List.mem_map.2 ⟨path, hpath, rfl⟩⟩)

end Law

section Single

variable {crates : Crates} {F : Type} [Float64 F] {request : Request} {withheld : Finset String}
  {policy : PolicySpec}

theorem fallsInOneGrant_single (htypes : request.types = ∅) (hone : policy.information.length ≤ 1) :
    FallsInOneGrant crates F request withheld [policy] := by
  intro _ raw urn location _ htype hids _ hplace
  obtain ⟨e, he, hkind, hpatterns, hattrs, hscope, hgeo⟩ : ∃ e, entriesOf policy = [e] ∧
      e.types = grantedTypes policy.information ∧ e.idPatterns = idPatterns policy.information ∧
      e.attrs = grantedAttrs policy.information ∧ e.scopeQ = policy.scopeQ ∧
      e.geoQ = policy.geoQ := by
    unfold entriesOf
    rcases hinfo : policy.information with _ | ⟨info, _ | ⟨more, rest⟩⟩
    · exact ⟨_, rfl, rfl, rfl, rfl, rfl, rfl⟩
    · exact ⟨_, rfl, rfl, rfl, rfl, rfl, rfl⟩
    · simp [hinfo] at hone
  have hunion : unionTypes request [policy] = grantedTypes policy.information := by
    by_cases h : grantedTypes policy.information = ∅ <;>
      simp [unionTypes, narrow, htypes, unions, h]
  have hlisted : listedAttrs [policy] = grantedAttrs policy.information := by
    by_cases h : grantedAttrs policy.information = ∅ <;> simp [listedAttrs, unions, h]
  refine ⟨policy, List.mem_singleton.2 rfl, e, by rw [he]; exact List.mem_singleton.2 rfl,
    ⟨?_, ?_⟩, ?_, fun name hmay _ _ => ?_, fun scopeQ hscopeQ granted hgranted path hpath => ?_⟩
  · rw [hkind, ← hunion]
    exact htype
  · rw [hpatterns]
    simpa [unionIds, unions] using hids
  · have hareas : geoQs [policy] = policy.geoQ.toList := by
      rcases h : policy.geoQ with _ | geoQ <;> simp [geoQs, h]
    rw [hgeo, ← hareas]
    exact hplace
  · rw [hattrs, ← hlisted]
    exact hmay.1
  · obtain rfl : granted = scopeQ := by
      simpa [scopeQs, ← hscope, hscopeQ, eq_comm] using hgranted
    exact List.any_eq_true.2 ⟨path, hpath, ScopeFolding.covers_trimPath path⟩

end Single

section Main

variable {crates : Crates} {F : Type} [Float64 F] {subject : Subject} {operation : Operation}
  {request : Request} {tenant : String} {policies : List PolicySpec} {now : Instant}
  {c : Constraints}

/-- What a write is checked against keeps it inside one grant exactly when the grants that apply,
wherever they reach together, are matched there by one entry alone. -/
theorem oneGrantLaw_iff (hwrite : operation.isWrite = true)
    (h : evaluate crates F subject operation request tenant policies now = .rewrite c) :
    OneGrantLaw crates F (permissions subject operation policies now) c ↔
      FallsInOneGrant crates F request
        (withheldNames request (prohibitions subject operation policies now))
        (permissions subject operation policies now) :=
  ⟨fallsInOneGrant_of_oneGrantLaw (isUnion_of_evaluate hwrite h),
    oneGrantLaw_of_fallsInOneGrant (isUnion_of_evaluate hwrite h)⟩

end Main

section Mixed

def editor : Subject := { roles := {"editor"} }

def creates (kind property : String) : PolicySpec where
  assignee := ⟨.role, "editor"⟩
  operations := [.single .createEntity]
  information := [{ entities := [{ entityType := kind }], propertyNames := [property] }]

def deepLamp : Value :=
  .obj [("id", .str "urn:ngsi-ld:Lamp:l1"), ("type", .str "Lamp"), ("depth", .num 3 0)]

/-- One grant gives lamps their power and another gives wells their depth: a lamp with a depth is
accepted, and neither grant admits it. -/
theorem deepLamp_accepted :
    ∃ c, evaluate bareCrates ℚ editor .createEntity {} "city"
        [creates "Lamp" "power", creates "Well" "depth"] 0 = .rewrite c ∧
      check bareCrates ℚ deepLamp c = .ok () ∧
      ¬ OneGrantLaw bareCrates ℚ (permissions editor .createEntity
        [creates "Lamp" "power", creates "Well" "depth"] 0) c := by
  refine ⟨_, evaluate_eq_rewrite.2 ⟨by decide, by decide, ∅, by decide, rfl⟩, by decide,
    fun hlaw => ?_⟩
  obtain ⟨policy, hpolicy, e, he, ⟨htype, -⟩, hattrs, -⟩ := hlaw deepLamp (by decide)
    "urn:ngsi-ld:Lamp:l1" ⟨"Lamp", "l1", none⟩ (by decide) (by decide) (by decide)
  have hgrants : permissions editor .createEntity
      [creates "Lamp" "power", creates "Well" "depth"] 0 =
      [creates "Lamp" "power", creates "Well" "depth"] := by decide
  rw [hgrants] at hpolicy
  simp only [List.mem_cons, List.not_mem_nil, or_false] at hpolicy
  rcases hpolicy with rfl | rfl
  · obtain rfl := List.mem_singleton.1 he
    revert hattrs
    decide
  · obtain rfl := List.mem_singleton.1 he
    revert htype
    decide

theorem oneGrantLaw_iff_lamps :
    OneGrantLaw bareCrates ℚ (permissions editor .createEntity [creates "Lamp" "power"] 0)
        (intersect bareCrates ℚ .createEntity {} "city" [creates "Lamp" "power"] 0) ↔
      FallsInOneGrant bareCrates ℚ {}
        (withheldNames {} (prohibitions editor .createEntity [creates "Lamp" "power"] 0))
        (permissions editor .createEntity [creates "Lamp" "power"] 0) := by
  have h : evaluate bareCrates ℚ editor .createEntity {} "city" [creates "Lamp" "power"] 0 =
      .rewrite (intersect bareCrates ℚ .createEntity {} "city" [creates "Lamp" "power"] 0) :=
    evaluate_eq_rewrite.2 ⟨by decide, by decide, ∅, by decide, rfl⟩
  exact oneGrantLaw_iff (by decide) h

end Mixed

end JoinedContext.OneGrant

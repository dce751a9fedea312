import JoinedContext.Pdp.ScopedWrites

/-!
# The names a write is made under

A key of a payload names an attribute as the term itself or as an IRI that ends in it. The guard
compares the withheld attributes so, and the granted ones exactly, which is stricter; the reserved
vocabulary it compares as terms alone, so a reserved term is written under its IRI.
-/

namespace JoinedContext.WriteGuard

/-- Whether a key is a compact or an expanded IRI that ends in a term. -/
def iriOf (key term : String) : Bool :=
  (Text.stripSuffix term key).any (Text.endsWithAny ['/', '#', ':'])

/-- An attribute a whitelist leaves out: it needs a grant, and no granted name names it. -/
def LeftOut (c : Constraints) (term : String) : Prop :=
  c.attrs ≠ ∅ ∧ Projection.needsGrant term = true ∧
    ∀ granted ∈ c.attrs, namesAttribute granted term = false

/-- No key names what is withheld, what the grants leave out or what is reserved. -/
def NamesOnlyGranted (entity : Value) (c : Constraints) : Prop :=
  ∀ key ∈ entity.keys, ∀ term, namesAttribute key term = true →
    term ∉ c.hidden ∧ ¬LeftOut c term ∧ term ∉ policyVocabulary

theorem namesAttribute_iff {key term : String} :
    namesAttribute key term = true ↔ key = term ∨ iriOf key term = true := by
  simp [namesAttribute, iriOf]

/-- An IRI has a separator before the term it ends in. -/
theorem separator_of_iriOf {key term : String} (h : iriOf key term = true) :
    ∃ c ∈ key.toList, c ∈ ['/', '#', ':'] := by
  obtain ⟨head, hhead, hends⟩ := (Option.any_eq_true _ _).1 h
  rw [Text.stripSuffix_eq_some] at hhead
  obtain ⟨c, hlast, hc⟩ := (Option.any_eq_true _ _).1 hends
  exact ⟨c, by rw [hhead]; exact List.mem_append_left _ (List.mem_of_getLast? hlast),
    of_decide_eq_true hc⟩

/-- A member every entity carries is no IRI, so it names itself alone. -/
theorem eq_of_needsGrant_eq_false {key term : String} (hkey : Projection.needsGrant key = false)
    (hnames : namesAttribute key term = true) : key = term := by
  refine (namesAttribute_iff.1 hnames).resolve_right fun hiri => ?_
  obtain ⟨c, hc, hsep⟩ := separator_of_iriOf hiri
  have hsystem : SystemMembers.isEntitySystemMember key = true := by
    unfold Projection.needsGrant at hkey
    simp only [Bool.or_eq_false_iff, Bool.not_eq_false'] at hkey
    exact hkey.1
  have hmem : key ∈ SystemMembers.entitySystemMembers ++ ["@id", "@type"] := by
    simpa [SystemMembers.isEntitySystemMember] using hsystem
  have hplain : ∀ key ∈ SystemMembers.entitySystemMembers ++ ["@id", "@type"],
      (key.toList.all fun c => c ∉ ['/', '#', ':']) = true := by decide
  have hnone := List.all_eq_true.1 (hplain key hmem) c hc
  exact (of_decide_eq_true hnone) hsep

variable {crates : Crates} {F : Type} [Float64 F] {entity : Value} {c : Constraints}

theorem checkFragment_eq_ok : checkFragment crates F entity c = .ok () ↔
    (∀ name ∈ entity.keys, name ∉ policyVocabulary) ∧ checkAttributes entity c = .ok () ∧
      checkScope entity c.grantedScopes = .ok () ∧
      checkLocation crates F entity c.geoAreas = .ok () := by
  unfold checkFragment
  simp only [bind_eq_ok, ← checkNoSmuggledPolicy_eq_ok]

theorem checkFragment_of_check (h : check crates F entity c = .ok ()) :
    checkFragment crates F entity c = .ok () := by
  obtain ⟨hreserved, -, -, -, -, hattributes, hscope, hlocation⟩ := check_eq_ok.1 h
  exact checkFragment_eq_ok.2 ⟨hreserved, hattributes, hscope, hlocation⟩

theorem not_leftOut {key term : String} (hungranted : Projection.ungranted entity c.attrs = [])
    (hkey : key ∈ entity.keys) (hnames : namesAttribute key term = true) : ¬LeftOut c term := by
  rintro ⟨hattrs, hneeds, hnone⟩
  rw [Projection.ungranted_eq_nil] at hungranted
  cases hsystem : Projection.needsGrant key with
  | true =>
    have hgranted := hungranted.resolve_left hattrs key hkey hsystem
    rw [hnone key hgranted] at hnames
    cases hnames
  | false =>
    rw [eq_of_needsGrant_eq_false hsystem hnames, hneeds] at hsystem
    cases hsystem

/-- What is accepted, an entity or a fragment, names only what is granted exactly if no key of it is
an IRI of a reserved term. -/
theorem namesOnlyGranted_of_check
    (h : check crates F entity c = .ok () ∨ checkFragment crates F entity c = .ok ()) :
    NamesOnlyGranted entity c ↔
      ∀ key ∈ entity.keys, ∀ term ∈ policyVocabulary, iriOf key term = false := by
  obtain ⟨hreserved, hattributes, -, -⟩ :=
    checkFragment_eq_ok.1 (h.elim checkFragment_of_check id)
  obtain ⟨hhidden, hungranted⟩ := checkAttributes_eq_ok.1 hattributes
  constructor
  · intro hnames key hkey term hterm
    by_contra hiri
    rw [Bool.not_eq_false] at hiri
    exact (hnames key hkey term (namesAttribute_iff.2 (Or.inr hiri))).2.2 hterm
  · intro hiri key hkey term hnames
    refine ⟨fun hterm => ?_, not_leftOut hungranted hkey hnames, fun hterm => ?_⟩
    · rw [hhidden key hkey term hterm] at hnames
      cases hnames
    · rcases namesAttribute_iff.1 hnames with rfl | hnames
      · exact hreserved key hkey hterm
      · rw [hiri key hkey term hterm] at hnames
        cases hnames

theorem namesOnlyGranted_of_check_station :
    NamesOnlyGranted (station (.str "/geo/SK/BB")) district :=
  (@namesOnlyGranted_of_check bareCrates ℚ _ _ district (Or.inl (by decide))).2 (by decide)

/-- A reserved term is refused as a term and accepted as a compact IRI. -/
theorem not_namesOnlyGranted_of_check :
    ¬∀ (crates : Crates) (entity : Value) (c : Constraints),
      check crates ℚ entity c = .ok () ∨ checkFragment crates ℚ entity c = .ok () →
        NamesOnlyGranted entity c := by
  intro h
  have hnames := h bareCrates (.obj [("ex:owner", .str "urn:ngsi-ld:Person:one")]) district
    (Or.inr (by decide))
  exact (hnames "ex:owner" (by decide) "owner" (by decide)).2.2 (by decide)

end JoinedContext.WriteGuard

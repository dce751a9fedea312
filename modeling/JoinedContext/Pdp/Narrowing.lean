import JoinedContext.Pdp.Project

/-!
# A projection only narrows

What the projected constraints admit, the grants' constraints admitted and the projection exposes,
when the parts of its filter that are never joined to the query happen to hold. The filter that is
joined to the query is joined as text, and keeps its meaning when it parses.
-/

namespace JoinedContext

open Evaluator Project

variable {E : Type}

namespace Broker

/-- Whether the projection exposes the item: a class of the entity with the attribute among its
slots, and every residual filter. -/
def Exposes (B : Broker E) (projection : ModelProjectionSpec) (item : Item E) : Prop :=
  (∃ name ∈ projection.classNames, B.hasType name item.entity ∧
    (SystemMembers.isEntitySystemMember item.attr = true ∨ item.attr ∈ slotsOf projection name)) ∧
  B.admitsQ (residual projection).q item.entity ∧
  (∀ scopeQ, (residual projection).scopeQ = some scopeQ → B.inScope scopeQ item.entity) ∧
  (∀ area, (residual projection).geoQ = some area → B.within area item.entity) ∧
  ∀ period, (residual projection).temporalQ = some period → B.during period item.instant

end Broker

section Attributes

/-- A name an identity-narrowed whitelist shows is a system member or lies in both sides. -/
theorem mem_narrowToIdentity {requested granted : Finset String} {s : String}
    (hgranted : granted ≠ ∅) (h : s ∈ narrowToIdentity requested granted) :
    SystemMembers.isEntitySystemMember s = true ∨
      (requested = ∅ ∨ s ∈ requested) ∧ s ∈ granted := by
  unfold narrowToIdentity at h
  simp only [] at h
  split_ifs at h
  · left
    rcases Finset.mem_insert.1 h with rfl | h
    · decide
    · obtain rfl := Finset.mem_singleton.1 h
      decide
  · obtain ⟨hr, hg, -⟩ := mem_narrow.1 h
    exact Or.inr ⟨hr, hg.resolve_left hgranted⟩

theorem narrowToIdentity_ne_empty {requested granted : Finset String} (hgranted : granted ≠ ∅) :
    narrowToIdentity requested granted ≠ ∅ := by
  unfold narrowToIdentity
  simp only []
  split_ifs with h
  · exact Finset.insert_ne_empty _ _
  · intro hempty
    rcases narrow_eq_empty hempty with hboth | hboth
    · exact hgranted hboth.2
    · exact h ⟨hempty, hboth⟩

theorem slotsOf_ne_empty {projection : ModelProjectionSpec} {name : String}
    (h : name ∈ projection.classNames) : slotsOf projection name ≠ ∅ := by
  obtain ⟨c, -, -, hattrs⟩ := ModelProjectionSpec.attributesOf_ne_none h
  rw [slotsOf, hattrs]
  exact Finset.insert_ne_empty _ _

end Attributes

section Narrows

variable {B : Broker E} {crates : Crates} {c c' : Constraints} {projection : ModelProjectionSpec}
  {item : Item E}

/-- When the projected constraints admit no more than the incoming ones and the projection do:
there is a class, the filter that is joined parses beside one that parses, and the filters that are
not joined hold of the item. -/
def NarrowsWhen (B : Broker E) (crates : Crates) (c : Constraints)
    (projection : ModelProjectionSpec) (item : Item E) : Prop :=
  projection.classNames ≠ ∅ ∧
  (∀ q, (residual projection).q = some q → crates.parseQ q = true ∧
    ∀ own, c.q = some own → crates.parseQ own = true) ∧
  (∀ scopeQ, (residual projection).scopeQ = some scopeQ → B.inScope scopeQ item.entity) ∧
  (c.geoQ ≠ none → ∀ area, (residual projection).geoQ = some area → B.within area item.entity) ∧
  (c.temporalQ ≠ none →
    ∀ period, (residual projection).temporalQ = some period → B.during period item.instant)

/-- The grants know no classes: only a projection says which type an attribute belongs to. -/
theorem attrsByType_of_evaluate {F : Type} [Float64 F] {subject : Subject} {operation : Operation}
    {request : Request} {tenant : String} {policies : List PolicySpec} {now : Instant}
    (h : evaluate crates F subject operation request tenant policies now = .rewrite c) :
    c.attrsByType = ∅ := by
  obtain ⟨-, -, names, -, hkept⟩ := evaluate_eq_rewrite.1 h
  obtain ⟨-, rfl⟩ := withhold_eq_some.1 hkept
  split_ifs <;> rfl

theorem projectConstraints_eq_rewrite :
    projectConstraints crates c projection = .rewrite c' ↔
      narrow c.types projection.classNames ≠ ∅ ∧
      c' = { c with
        attrs := narrowToIdentity c.attrs
          ((narrow c.types projection.classNames).biUnion (slotsOf projection))
        attrsByType := (narrow c.types projection.classNames).image fun name =>
          (name, narrowToIdentity c.attrs (slotsOf projection name))
        types := narrow c.types projection.classNames
        q := match (residual projection).q with
          | some q => conjoin crates c.q [q]
          | none => c.q
        geoQ := c.geoQ <|> (residual projection).geoQ
        temporalQ := c.temporalQ <|> (residual projection).temporalQ
        restricted := true } := by
  unfold projectConstraints
  simp only []
  split_ifs with hempty
  · exact ⟨fun h => absurd h (by simp), fun h => absurd hempty h.1⟩
  · rw [Verdict.rewrite.injEq]
    exact ⟨fun h => ⟨hempty, h.symm⟩, fun h => h.2.symm⟩

/-- The joined filter means both sides, when both parse. -/
theorem admitsQ_project (hB : B.Reads crates) {own : Option String} {filter : Option String} {e : E}
    (h : B.admitsQ (match filter with
      | some q => conjoin crates own [q]
      | none => own) e) :
    (B.admitsQ own e ∧ B.admitsQ filter e) ↔
      ∀ q, filter = some q → crates.parseQ q = true ∧
        ∀ o, own = some o → crates.parseQ o = true := by
  rcases filter with _ | q
  · simp [h]
  · simp only [Option.some.injEq, forall_eq', Broker.admitsQ_some]
    constructor
    · rintro ⟨hown, hq⟩
      exact ⟨hB.sat_parses hq, fun o ho => hB.sat_parses (hown o ho)⟩
    · rintro ⟨hq, hown⟩
      have hfilter : own.filter crates.parseQ = own := by
        rcases own with _ | o
        · rfl
        · simp [Option.filter, hown o rfl]
      obtain ⟨-, hmean⟩ := hB.conjoin own [q] (by simpa using hq)
      simpa [hfilter] using (hmean e).1 h

/-- What is served under a projection with classes is a system member, or one the grants serve and
a class of the entity has. -/
theorem shows_project (h : B.shows c' item) (hby : c.attrsByType = ∅)
    (htypes : narrow c.types projection.classNames ≠ ∅) (hclasses : projection.classNames ≠ ∅)
    (hc : c'.attrsByType = (narrow c.types projection.classNames).image fun name =>
      (name, narrowToIdentity c.attrs (slotsOf projection name)))
    (hhidden : c'.hidden = c.hidden) :
    SystemMembers.isEntitySystemMember item.attr = true ∨
      B.shows c item ∧ ∃ name ∈ projection.classNames, B.hasType name item.entity ∧
        item.attr ∈ slotsOf projection name := by
  rcases h with hsystem | ⟨hnotHidden, hslots⟩
  · exact Or.inl hsystem
  · rw [hc, if_neg (by simpa using htypes)] at hslots
    obtain ⟨slots, hmem, htype, hattr⟩ := hslots
    obtain ⟨name, hname, rfl⟩ := Finset.mem_image.1 hmem
    have hclass := (mem_narrow.1 hname).2.1.resolve_left hclasses
    have hslot := hattr.resolve_left (narrowToIdentity_ne_empty (slotsOf_ne_empty hclass))
    rcases mem_narrowToIdentity (slotsOf_ne_empty hclass) hslot with hsystem | ⟨hown, hin⟩
    · exact Or.inl hsystem
    · refine Or.inr ⟨Or.inr ⟨hhidden ▸ hnotHidden, ?_⟩, name, hclass, htype, hin⟩
      rw [if_pos hby]
      exact hown

theorem admits_and_exposes_iff (hB : B.Reads crates) (hby : c.attrsByType = ∅)
    (h : projectConstraints crates c projection = .rewrite c') (hitem : B.Admits crates c' item) :
    (B.Admits crates c item ∧ B.Exposes projection item) ↔
      NarrowsWhen B crates c projection item := by
  obtain ⟨htypes, rfl⟩ := projectConstraints_eq_rewrite.1 h
  obtain ⟨hempty, htype, hid, hq, harea, hinstant, hasked, hserved⟩ := hitem
  obtain ⟨t, ht, hhas⟩ := htype.resolve_left htypes
  constructor
  · rintro ⟨hadmits, ⟨name, hname, -, -⟩, hfilter, hscope, hgeo, htemporal⟩
    exact ⟨Finset.ne_empty_of_mem hname, (admitsQ_project hB hq).1 ⟨hadmits.q, hfilter⟩, hscope,
      fun _ => hgeo, fun _ => htemporal⟩
  · rintro ⟨hclasses, hparses, hscope, hgeo, htemporal⟩
    obtain ⟨hown, hfilter⟩ := (admitsQ_project hB hq).2 hparses
    have hshows := shows_project hserved hby htypes hclasses rfl rfl
    have hclass := (mem_narrow.1 ht).2.1.resolve_left hclasses
    refine ⟨⟨hempty, ?_, hid, hown, ⟨?_, harea.2⟩, ⟨?_, hinstant.2⟩, hasked, ?_⟩, ?_, hfilter,
      hscope, ?_, ?_⟩
    · exact (mem_narrow.1 ht).1.imp_right fun hmem => ⟨t, hmem, hhas⟩
    · intro area hc
      exact harea.1 area (by simp [hc])
    · intro period hc
      exact hinstant.1 period (by simp [hc])
    · exact hshows.elim Or.inl And.left
    · rcases hshows with hsystem | ⟨-, name, hname, hnameType, hslot⟩
      · exact ⟨t, hclass, hhas, Or.inl hsystem⟩
      · exact ⟨name, hname, hnameType, Or.inr hslot⟩
    · intro area hfilterGeo
      by_cases hnone : c.geoQ = none
      · exact harea.1 area (by simp [hnone, hfilterGeo])
      · exact hgeo hnone area hfilterGeo
    · intro period hfilterTemporal
      by_cases hnone : c.temporalQ = none
      · exact hinstant.1 period (by simp [hnone, hfilterTemporal])
      · exact htemporal hnone period hfilterTemporal

theorem attrsByType_hide (hiddenAttributes : Finset String) :
    (PolicyPdp.hide hiddenAttributes c).attrsByType = c.attrsByType := by
  unfold PolicyPdp.hide
  split_ifs <;> rfl

/-- An item the projected constraints admit was admitted before and is exposed exactly when the
parts of the projection's filter that the code never joins hold of it, and the part it joins
parses. -/
theorem projectConstraints_narrows_iff {F : Type} [Float64 F] {subject : Subject}
    {operation : Operation} {request : Request} {tenant : String} {policies : List PolicySpec}
    {now : Instant} (hiddenAttributes : Finset String) (hB : B.Reads crates)
    (hgrants : evaluate crates F subject operation request tenant policies now = .rewrite c)
    (h : projectConstraints crates (PolicyPdp.hide hiddenAttributes c) projection = .rewrite c')
    (hitem : B.Admits crates c' item) :
    (B.Admits crates (PolicyPdp.hide hiddenAttributes c) item ∧ B.Exposes projection item) ↔
      NarrowsWhen B crates (PolicyPdp.hide hiddenAttributes c) projection item :=
  admits_and_exposes_iff hB ((attrsByType_hide hiddenAttributes).trans
    (attrsByType_of_evaluate hgrants)) h hitem

end Narrows

section Park

def lampReader : PolicySpec where
  assignee := ⟨.role, "visitor"⟩
  operations := [.single .queryEntity]
  information := [{ entities := [{ entityType := "Lamp" }] }]

def parkLamps : ModelProjectionSpec where
  classes := [{ name := "Lamp", slots := ["power"] }]
  filter := some { geoQ := some "park" }

def lampIn (areas : List String) : Item Stored :=
  ⟨{ types := ["Lamp"], id := "urn:ngsi-ld:Lamp:l1", areas := areas }, "power", 0⟩

theorem lampIn_admitted {areas : List String} (h : "harbour" ∈ areas) :
    ∃ c c', evaluate storedCrates ℚ visitor .queryEntity
        { geoQ := some "harbour" } "city" [lampReader] 0 = .rewrite c ∧
      projectConstraints storedCrates c parkLamps = .rewrite c' ∧ c.q = none ∧ c.temporalQ = none ∧
      storedBroker.Admits storedCrates c' (lampIn areas) := by
  refine ⟨_, _, evaluate_eq_rewrite.2 ⟨by decide, by decide, ∅, by decide, rfl⟩,
    projectConstraints_eq_rewrite.2 ⟨by decide, rfl⟩, rfl, rfl, ?_⟩
  refine ⟨by decide, Or.inr ⟨"Lamp", by decide, List.mem_singleton_self _⟩,
    IdMatch.permits_iff.2 (Or.inl (by decide)), fun _ hq => (nomatch hq),
    ⟨fun area harea => ?_, fun _ harea => (nomatch harea), Or.inl rfl⟩,
    ⟨fun _ hperiod => (nomatch hperiod), Or.inl (by decide)⟩, Or.inl (by decide),
    Or.inr ⟨Finset.notMem_empty _, ?_⟩⟩
  · cases harea
    exact h
  · rw [if_neg (by decide)]
    exact ⟨("Lamp", {"id", "type", "power"}), by decide, List.mem_singleton_self _,
      Or.inr (by simp [lampIn])⟩

/-- A caller's own area displaces the projection's: a lamp of the harbour is served by a projection
over the park. -/
theorem harbourLamp_served :
    ∃ c c', evaluate storedCrates ℚ visitor .queryEntity
        { geoQ := some "harbour" } "city" [lampReader] 0 = .rewrite c ∧
      projectConstraints storedCrates c parkLamps = .rewrite c' ∧
      storedBroker.Admits storedCrates c' (lampIn ["harbour"]) ∧
      ¬ storedBroker.Exposes parkLamps (lampIn ["harbour"]) := by
  obtain ⟨c, c', hc, hc', -, -, hadmits⟩ := lampIn_admitted (List.mem_singleton_self "harbour")
  refine ⟨c, c', hc, hc', hadmits, ?_⟩
  rintro ⟨-, -, -, harea, -⟩
  have hin : "park" ∈ ["harbour"] := harea "park" rfl
  revert hin
  decide

theorem projectConstraints_narrows_lampIn :
    ∃ c, evaluate storedCrates ℚ visitor .queryEntity
        { geoQ := some "harbour" } "city" [lampReader] 0 = .rewrite c ∧
      storedBroker.Admits storedCrates c (lampIn ["harbour", "park"]) ∧
      storedBroker.Exposes parkLamps (lampIn ["harbour", "park"]) := by
  obtain ⟨c, c', hc, hc', -, htemporal, hadmits⟩ :=
    lampIn_admitted (List.mem_cons_self : "harbour" ∈ ["harbour", "park"])
  refine ⟨c, hc, (projectConstraints_narrows_iff ∅ storedBroker_reads hc hc'
    hadmits).2 ⟨by decide, fun _ hq => (nomatch hq), fun _ hscope => (nomatch hscope), ?_, ?_⟩⟩
  · intro _ area harea
    cases harea
    exact List.mem_cons_of_mem _ (List.mem_singleton_self _)
  · exact fun hsome => absurd htemporal hsome

end Park

end JoinedContext

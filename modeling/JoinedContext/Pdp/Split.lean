import JoinedContext.Pdp.Bleed

/-!
# A read split into its grants

The read that looks for a write's targets asks once for each grant, with that grant's types, ids and
filter in the place of the union. The filter it replaces held the caller's and the projection's
beside the grants', and the areas stay those of all the grants together.
-/

namespace JoinedContext.Split

open Evaluator Project Bleed

variable {E : Type} {B : Broker E} {crates : Crates} {F : Type} [Float64 F] {subject : Subject}
  {operation : Operation} {request : Request} {space : String} {policies grants : List PolicySpec}
  {hiddenAttributes : Finset String} {projection : Option ModelProjectionSpec} {now : Instant}
  {c c' : Constraints} {e : E}

section Reads

end Reads

section Meaning

/-- Whether a read finds the entity. -/
structure Finds (B : Broker E) (crates : Crates) (read : Constraints) (e : E) : Prop where
  nonempty : read.empty = false
  type : B.admitsType read.types e
  id : IdMatch.permits crates read.idPatterns (B.id e) = true
  q : B.admitsQ read.q e
  area : B.admitsArea read.geoQ read.geoCaller read.geoGrants e

/-- Whether one grant by itself admits the entity. -/
structure Covers (B : Broker E) (crates : Crates) (policy : PolicySpec) (e : E) : Prop where
  type : B.admitsType (grantedTypes policy.information) e
  id : IdMatch.permits crates (idPatterns policy.information) (B.id e) = true
  inside : B.insideGrant policy.q policy.scopeQ e
  area : ∀ area, policy.geoQ = some area → B.within area e

/-- The caller's own narrowing: its types, its filter when the parser reads it, its area. -/
structure Asked (B : Broker E) (crates : Crates) (request : Request) (e : E) : Prop where
  type : B.admitsType request.types e
  q : ∀ q, request.q = some q → crates.parseQ q = true → B.filters.sat q e
  area : ∀ area, request.geoQ = some area → B.within area e

/-- The projection's own filter. -/
structure Residual (B : Broker E) (projection : ModelProjectionSpec) (e : E) : Prop where
  q : B.admitsQ (residual projection).q e
  scope : ∀ scopeQ, (residual projection).scopeQ = some scopeQ → B.inScope scopeQ e
  area : ∀ area, (residual projection).geoQ = some area → B.within area e

/-- Whether the policies allow the entity to the request: one grant admits it whole, and it is
inside the caller's narrowing and the projection's. -/
structure Allowed (B : Broker E) (crates : Crates) (request : Request)
    (projection : Option ModelProjectionSpec) (grants : List PolicySpec) (e : E) : Prop where
  grant : ∃ policy ∈ grants, Covers B crates policy e
  caller : Asked B crates request e
  exposed : ∀ p, projection = some p → ∃ name ∈ p.classNames, B.hasType name e
  residual : ∀ p, projection = some p → Residual B p e

/-- Whether a grant holds the entity on its ids and its filter, under a type name it shares with the
read. -/
structure Held (B : Broker E) (crates : Crates) (types : Finset String) (policy : PolicySpec)
    (e : E) : Prop where
  type : (types = ∅ ∧ grantedTypes policy.information = ∅) ∨
    ∃ t, (types = ∅ ∨ t ∈ types) ∧
      (grantedTypes policy.information = ∅ ∨ t ∈ grantedTypes policy.information) ∧ B.hasType t e
  id : IdMatch.permits crates (idPatterns policy.information) (B.id e) = true
  inside : B.insideGrant policy.q policy.scopeQ e

/-- The narrowing that no read of the split carries: some grant's own area, the caller's filter and
the projection's. -/
structure Dropped (B : Broker E) (crates : Crates) (request : Request)
    (projection : Option ModelProjectionSpec) (grants : List PolicySpec) (e : E) : Prop where
  grant : ∃ policy ∈ grants, Covers B crates policy e
  q : ∀ q, request.q = some q → crates.parseQ q = true → B.filters.sat q e
  projection : ∀ p, projection = some p → p.classNames ≠ ∅ ∧ Residual B p e

/-- Whether the grants' areas leave the entity in: there are none, the entity is in one of them, or
the caller's own is forwarded alone. -/
def AreaMet (B : Broker E) (crates : Crates) (F : Type) [Float64 F] (caller : Option String)
    (areas : List String) (e : E) : Prop :=
  areas = [] ∨ (∃ area ∈ areas, B.within area e) ∨
    ∃ asked granted, caller = some asked ∧ areas = [granted] ∧
      Geo.askedWithin F crates asked granted = true

/-- When the split is exact on an entity. In the forwarded areas, what a grant holds under a shared
type name is inside the narrowing that no read carries; and what is allowed is left in by the areas
of all grants, and some grant holds it under a shared type name. -/
structure Exact (B : Broker E) (crates : Crates) (F : Type) [Float64 F] (request : Request)
    (projection : Option ModelProjectionSpec) (grants : List PolicySpec) (c : Constraints) (e : E) :
    Prop where
  dropped : ∀ policy ∈ grants, Held B crates c.types policy e → c.empty = false →
    B.admitsArea c.geoQ c.geoCaller c.geoGrants e →
    Dropped B crates request projection grants e
  reached : Allowed B crates request projection grants e →
    c.empty = false ∧ AreaMet B crates F request.geoQ (grants.filterMap PolicySpec.geoQ) e ∧
      ∃ policy ∈ grants, Held B crates c.types policy e

end Meaning

section Decided

/-- Whether a rewrite reads the entities the grants' own rewrite reads, its types and areas apart. -/
structure Reads (c c' : Constraints) : Prop where
  grants : c'.grants = c.grants
  caller : c'.geoCaller = c.geoCaller
  areas : c'.geoGrants = c.geoGrants
  empty : c'.empty = false → c.empty = false

theorem Reads.trans {d : Constraints} (h : Reads c c') (h' : Reads c' d) : Reads c d :=
  ⟨h'.grants.trans h.grants, h'.caller.trans h.caller, h'.areas.trans h.areas,
    fun hempty => h.empty (h'.empty hempty)⟩

theorem admitsArea_of_areaMet {caller own : Option String} {areas : List String}
    (hcaller : ∀ asked, caller = some asked → B.within asked e)
    (hown : ∀ area, own = some area → B.within area e) (h : AreaMet B crates F caller areas e) :
    B.admitsArea ((Geo.intersect F crates caller areas).geoQ <|> own)
      (Geo.intersect F crates caller areas).caller (Geo.intersect F crates caller areas).grants e := by
  have hbeside : ∀ {area : Option String}, (∀ a, area = some a → B.within a e) →
      ∀ a, (area <|> own) = some a → B.within a e := by
    rintro (_ | area) harea a ha
    · exact hown a (by simpa using ha)
    · exact harea a (by simpa using ha)
  rcases areas with _ | ⟨granted, _ | ⟨second, rest⟩⟩
  · exact ⟨hbeside hcaller, by simp [Geo.intersect], Or.inl rfl⟩
  · have hin : B.within granted e ∨ ∃ asked, caller = some asked ∧
        Geo.askedWithin F crates asked granted = true := by
      simpa [AreaMet] using h
    rcases caller with _ | asked
    · have hgranted : B.within granted e := by simpa using hin
      exact ⟨hbeside (by simpa [Geo.intersect] using hgranted), by simp [Geo.intersect], Or.inl rfl⟩
    · have hasked := hcaller asked rfl
      simp only [Geo.intersect]
      split_ifs with hinside
      · exact ⟨hbeside (by simpa using hasked), by simp, Or.inl rfl⟩
      · have hgranted : B.within granted e := by simpa [hinside] using hin
        exact ⟨hbeside (by simpa using hgranted), by simpa using hasked, Or.inr (by simpa using hgranted)⟩
  · refine ⟨hbeside hcaller, by simp [Geo.intersect], Or.inr ?_⟩
    simpa [AreaMet, Geo.intersect] using h

def projectedArea (projection : Option ModelProjectionSpec) : Option String :=
  projection.bind fun p => (residual p).geoQ

/-- What a decision says of the entities it reads. -/
structure Decides (B : Broker E) (crates : Crates) (F : Type) [Float64 F] (request : Request)
    (projection : Option ModelProjectionSpec) (grants : List PolicySpec) (c : Constraints) (e : E) :
    Prop where
  views : c.grants = grants.map grantView
  type : c.empty = false → B.admitsType c.types e → B.admitsType request.types e
  exposed : c.empty = false → B.admitsType c.types e →
    ∀ p, projection = some p → p.classNames ≠ ∅ → ∃ name ∈ p.classNames, B.hasType name e
  geoQ : c.geoQ = ((Geo.intersect F crates request.geoQ (grants.filterMap PolicySpec.geoQ)).geoQ <|>
    projectedArea projection)
  caller : c.geoCaller =
    (Geo.intersect F crates request.geoQ (grants.filterMap PolicySpec.geoQ)).caller
  areas : c.geoGrants =
    (Geo.intersect F crates request.geoQ (grants.filterMap PolicySpec.geoQ)).grants

theorem Decides.admitsArea (h : Decides B crates F request projection grants c e)
    (hallowed : Allowed B crates request projection grants e)
    (hmet : AreaMet B crates F request.geoQ (grants.filterMap PolicySpec.geoQ) e) :
    B.admitsArea c.geoQ c.geoCaller c.geoGrants e := by
  rw [h.geoQ, h.caller, h.areas]
  refine admitsArea_of_areaMet hallowed.caller.area (fun area harea => ?_) hmet
  obtain ⟨p, hp, hown⟩ := Option.bind_eq_some_iff.1 harea
  exact (hallowed.residual p hp).area area hown

end Decided

section Split

/-- The types of an entity a grant holds are the read's. -/
theorem Held.admitsType {types : Finset String} {policy : PolicySpec}
    (h : Held B crates types policy e) : B.admitsType types e := by
  rcases h.type with ⟨hnone, -⟩ | ⟨t, ht, -, hhas⟩
  · exact Or.inl hnone
  · exact ht.imp_right fun hmem => ⟨t, hmem, hhas⟩

end Split

section Lamps

end Lamps

end JoinedContext.Split

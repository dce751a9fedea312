import JoinedContext.Pdp.Admission
import Mathlib.Data.Finset.Union

/-!
# Narrowing a decision to a projection

A `ModelProjection` names the classes an endpoint exposes, the slots each keeps and a residual
filter. The decision point intersects it with the constraints the grants gave, then takes out every
type that may not be filtered on what the request filters on.
-/

namespace JoinedContext

structure ProjectedClass where
  name : String
  slots : List String := []

structure ProjectionFilter where
  q : Option String := none
  scopeQ : Option String := none
  geoQ : Option String := none
  temporalQ : Option String := none

namespace ProjectionFilter

def both : Option String → Option String → Option String
  | some a, some b => if a = b then some a else some ("(" ++ a ++ ");(" ++ b ++ ")")
  | some a, none => some a
  | none, b => b

def intersect (f g : ProjectionFilter) : ProjectionFilter :=
  ⟨both f.q g.q, both f.scopeQ g.scopeQ, both f.geoQ g.geoQ, both f.temporalQ g.temporalQ⟩

end ProjectionFilter

structure ModelProjectionSpec where
  classes : List ProjectedClass
  filter : Option ProjectionFilter := none

namespace ModelProjectionSpec

def classNames (p : ModelProjectionSpec) : Finset String :=
  (p.classes.map ProjectedClass.name).toFinset

/-- The attributes a class keeps: `none` when it is not exposed, the slots and the identity
otherwise. -/
def attributesOf (p : ModelProjectionSpec) (name : String) : Option (Finset String) :=
  (p.classes.find? (·.name == name)).map fun c => insert "type" (insert "id" c.slots.toFinset)

/-- The projection two projections make together: the classes in both, each with the slots in
both. -/
def intersect (p other : ModelProjectionSpec) : ModelProjectionSpec where
  classes := p.classes.filterMap fun mine =>
    (other.classes.reverse.find? (·.name == mine.name)).map fun that =>
      ⟨mine.name, mine.slots.filter (· ∈ that.slots)⟩
  filter :=
    match p.filter, other.filter with
    | some f, some g => some (f.intersect g)
    | some f, none => some f
    | none, g => g

theorem attributesOf_ne_none {p : ModelProjectionSpec} {name : String} (h : name ∈ p.classNames) :
    ∃ c ∈ p.classes, c.name = name ∧
      p.attributesOf name = some (insert "type" (insert "id" c.slots.toFinset)) := by
  simp only [classNames, List.mem_toFinset, List.mem_map] at h
  obtain ⟨c, hc, rfl⟩ := h
  have hsome : (p.classes.find? (·.name == c.name)).isSome = true := by
    rw [List.find?_isSome]
    exact ⟨c, hc, by simp⟩
  obtain ⟨d, hd⟩ := Option.isSome_iff_exists.1 hsome
  exact ⟨d, List.mem_of_find?_eq_some hd, by simpa using List.find?_some hd, by
    simp [attributesOf, hd]⟩

end ModelProjectionSpec

namespace Project

open Evaluator

def slotsOf (projection : ModelProjectionSpec) (name : String) : Finset String :=
  (projection.attributesOf name).getD ∅

def residual (projection : ModelProjectionSpec) : ProjectionFilter := projection.filter.getD {}

/-- The constraints of one decision, narrowed to a projection. A request type outside the projection
is a refusal: an empty type set would ask for every type. -/
def projectConstraints (crates : Crates) (c : Constraints) (projection : ModelProjectionSpec) :
    Verdict :=
  let types := narrow c.types projection.classNames
  if types = ∅ then .deny
  else
    let filter := residual projection
    .rewrite { c with
      attrs := narrowToIdentity c.attrs (types.biUnion (slotsOf projection))
      attrsByType := types.image fun name =>
        (name, narrowToIdentity c.attrs (slotsOf projection name))
      types := types
      q := match filter.q with
        | some q => conjoin crates c.q [q]
        | none => c.q
      geoQ := c.geoQ <|> filter.geoQ
      temporalQ := c.temporalQ <|> filter.temporalQ
      restricted := true }

/-- The referenced names a grant could withhold. -/
def selecting (referenced : Finset String) : Finset String :=
  referenced.filter fun name =>
    !SystemMembers.isEntitySystemMember name && name != "observedAt"

/-- Takes out of the query every type that may not be filtered on what the request filters on. -/
def dropTypesThatMayNotBeFiltered (constraints : Constraints) (request : Request) : Verdict :=
  let c := { constraints with referenced := selecting request.referenced }
  if c.referenced = ∅ then .rewrite c
  else if c.referenced ∩ c.hidden ≠ ∅ then .rewrite { c with empty := true, restricted := true }
  else if c.attrsByType = ∅ then
    if c.served ≠ ∅ ∧ ¬ c.referenced ⊆ c.served then
      .rewrite { c with empty := true, restricted := true }
    else .rewrite c
  else
    let kept := (c.attrsByType.filter fun slots => c.referenced ⊆ slots.2).image Prod.fst
    let c :=
      if kept.card < c.attrsByType.card then
        { c with restricted := true, dropped := c.attrsByType.image Prod.fst \ kept }
      else c
    if kept = ∅ then .rewrite { c with empty := true }
    else
      .rewrite { c with attrsByType := c.attrsByType.filter fun slots => slots.1 ∈ kept,
                        types := kept }

end Project

namespace PolicyPdp

open Evaluator Project

def hide (hiddenAttributes : Finset String) (c : Constraints) : Constraints :=
  if hiddenAttributes = ∅ then c
  else { c with hidden := c.hidden ∪ hiddenAttributes, restricted := true }

/-- The endpoint's decision: its policies, then what it hides, then its projection, then the
filter. -/
def decide (crates : Crates) (F : Type) [Float64 F] (subject : Subject) (operation : Operation)
    (request : Request) (space : String) (policies : List PolicySpec)
    (hiddenAttributes : Finset String) (projection : Option ModelProjectionSpec) (now : Instant) :
    Verdict :=
  match evaluate crates F subject operation request space policies now with
  | .deny => .deny
  | .rewrite c =>
    let c := hide hiddenAttributes c
    match projection with
    | none => dropTypesThatMayNotBeFiltered c request
    | some projection =>
      match projectConstraints crates c projection with
      | .deny => .deny
      | .rewrite c => dropTypesThatMayNotBeFiltered c request

end PolicyPdp

end JoinedContext

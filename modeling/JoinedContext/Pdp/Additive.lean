import JoinedContext.Pdp.Admission

/-!
# Whether a further permission only adds

Each dimension of the constraint set is a union built by its own code. What an item needs to stay
admitted when one more permission applies is worked out dimension by dimension: the attributes never
lose, and every other dimension loses where the new permission is the first to restrict it.
-/

namespace JoinedContext.Additive

open Evaluator

variable {E : Type} {B : Broker E} {crates : Crates} {F : Type} [Float64 F] {subject : Subject}
  {operation : Operation} {request : Request} {tenant : String} {now : Instant}

section Union

/-- The attributes a decision keeps of the ones the grants list. -/
def attrsOf (operation : Operation) (request : Request) (listed : Finset String) : Finset String :=
  if operation.isWrite then listed else narrow request.attrs listed

/-- Whether the decision is left anything to answer. -/
theorem empty_intersect {grants : List PolicySpec} :
    (intersect crates F operation request tenant grants now).empty = false ↔
      (Temporal.clamp crates request.temporalQ (grants.filterMap PolicySpec.temporalQ) now).empty =
          false ∧
        ¬ (request.types ≠ ∅ ∧ unions (fun p => grantedTypes p.information) grants ≠ ∅ ∧
          narrow request.types (unions (fun p => grantedTypes p.information) grants) = ∅) ∧
        ¬ (request.attrs ≠ ∅ ∧ listedAttrs grants ≠ ∅ ∧
          attrsOf operation request (listedAttrs grants) = ∅) := by
  simp only [intersect, attrsOf, Bool.or_eq_false_iff, decide_eq_false_iff_not, and_assoc]

end Union

section Attributes

variable {listed more withheld : Finset String} {item : Item E}

end Attributes

section Types

end Types

section Area

end Area

section Period

open Temporal

variable {caller : Option String} {granted : List String} {added : String} {i : Instant}

end Period

section Main

variable {policies : List PolicySpec} {added : PolicySpec} {c : Constraints} {item : Item E}

end Main

section Fails

end Fails

end JoinedContext.Additive

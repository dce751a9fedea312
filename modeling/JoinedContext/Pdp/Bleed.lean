import JoinedContext.Pdp.Narrowing

/-!
# What the forwarded filter means

The grants' filters, the caller's and the projection's are joined as text. The grants' are read by
the parser before they are joined and the caller's is dropped when it is not read; the projection's
is joined as it stands.
-/

namespace JoinedContext.Bleed

open Evaluator Project

variable {E : Type} {B : Broker E} {crates : Crates} {F : Type} [Float64 F] {subject : Subject}
  {operation : Operation} {request : Request} {space : String} {policies : List PolicySpec}
  {hiddenAttributes : Finset String} {projection : Option ModelProjectionSpec} {now : Instant}
  {c c' : Constraints} {e : E}

section Forwarded

end Forwarded

section Means

end Means

section Unbalanced

end Unbalanced

end JoinedContext.Bleed

import Mathlib.Algebra.Order.Field.Basic
import Mathlib.Data.List.MinMax
import Mathlib.Data.Sign.Basic
import Mathlib.Tactic.FieldSimp
import Mathlib.Tactic.Linarith
import Mathlib.Tactic.Ring

/-!
# The pieces lines cut a plane into

Finitely many lines cut a plane into pieces, on each of which every line keeps its side. A point of
each piece is computed: a height between the heights at which two of the lines meet, and then a
place between those where the lines pass that height.
-/

namespace JoinedContext.Arrangement

variable {K : Type} [Field K]

/-- A value on each mark, between any two of them, and beyond them. -/
def between (marks : List K) : List K :=
  0 :: marks.flatMap fun m => (m - 1) :: (m + 1) :: marks.map fun n => (m + n) / 2

section Marks

variable {m n : K} {marks : List K}

end Marks

section Lines

/-- The points where `a x + b y + c` is zero. -/
structure Line (K : Type) where
  a : K
  b : K
  c : K

namespace Line

/-- How far a point is off the line, with the sign of the side it is on. -/
def offset (l : Line K) (p : K × K) : K := l.a * p.1 + l.b * p.2 + l.c

/-- Where a line that is not level passes a height. -/
def passes (l : Line K) (y : K) : K := -(l.b / l.a * y + l.c / l.a)

/-- The height where two lines pass at one place. -/
def meets (l m : Line K) : K := -(m.c / m.a - l.c / l.a) / (m.b / m.a - l.b / l.a)

/-- The height of a level line. -/
def height (l : Line K) : K := -l.c / l.b

end Line

def heights (lines : List (Line K)) : List K :=
  lines.map Line.height ++ lines.flatMap fun l => lines.map l.meets

/-- A point of every piece the lines cut the plane into. -/
def points (lines : List (Line K)) : List (K × K) :=
  (between (heights lines)).flatMap fun y =>
    (between (lines.map (Line.passes · y))).map fun x => (x, y)

end Lines

section Extremes

variable {ι κ : Type} [LinearOrder κ] {is : List ι}

end Extremes

variable [LinearOrder K] [IsStrictOrderedRing K]

section Signs

open SignType

variable {x y x' y' : K}

variable {ι : Type} {is : List ι} {xs ys : ι → K}

end Signs

section Pieces

open SignType

end Pieces

end JoinedContext.Arrangement

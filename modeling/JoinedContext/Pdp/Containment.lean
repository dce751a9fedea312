import JoinedContext.Library.Arrangement
import JoinedContext.Pdp.Geo

/-!
# One area inside another

An area is read as lying inside another when its corners do, none of its edges crosses the other's
outlines and no corner of a hole is in it. An edge that only touches the other's outline may still
leave it there. Whether a point is contained depends on its side of finitely many lines, so a point
of every piece these cut the plane into tells whether anything of the one area is outside the other.
-/

namespace JoinedContext.Geo

open Arrangement SignType

section Sides

variable {a b p q : Point ℚ}

/-- The points a given cross product off an edge. -/
def tilted (a b : Point ℚ) (off : ℚ) : Line ℚ :=
  ⟨-(b.2 - a.2), b.1 - a.1, (b.2 - a.2) * a.1 - (b.1 - a.1) * a.2 - off⟩

def upright (x : ℚ) : Line ℚ := ⟨1, 0, -x⟩

def level (y : ℚ) : Line ℚ := ⟨0, 1, -y⟩

/-- The line of an edge as the ray meets it, from left to right. -/
def crossed (a b : Point ℚ) : Line ℚ :=
  ⟨1, -((b.1 - a.1) / (b.2 - a.2)), (b.1 - a.1) / (b.2 - a.2) * a.2 - a.1⟩

/-- The lines whose sides tell whether a point is on an edge and whether its ray crosses it. -/
def edgeLines (a b : Point ℚ) : List (Line ℚ) :=
  [tilted a b epsilon, tilted a b (-epsilon), upright (min a.1 b.1 - epsilon),
    upright (max a.1 b.1 + epsilon), level (min a.2 b.2 - epsilon), level (max a.2 b.2 + epsilon),
    level a.2, level b.2, crossed a b]

def Polygon.lines (polygon : Polygon ℚ) : List (Line ℚ) :=
  (polygon.outer :: polygon.holes).flatMap fun ring =>
    (edges ring).flatMap fun e => edgeLines e.1 e.2

/-- Two points with every line of an edge on the same side of both. -/
def Alike (a b p q : Point ℚ) : Prop :=
  ∀ l ∈ edgeLines a b, sign (l.offset p) = sign (l.offset q)

namespace Alike

end Alike

end Sides

section Containment

/-- A point of every piece of the plane that the lines of two polygons cut out. -/
def pieces (inner outer : Polygon ℚ) : List (Point ℚ) := points (inner.lines ++ outer.lines)

/-- Whether a corner outside, an edge across an outline or a hole's corner inside tells that a
polygon does not lie in another. -/
def Apart (inner outer : Polygon ℚ) : Prop :=
  (∃ p ∈ inner.outer, outer.contains p = false) ∨
    (∃ ring ∈ outer.outer :: outer.holes, crosses inner.outer ring = true) ∨
    ∃ hole ∈ outer.holes, ∃ p ∈ hole, ringContains inner.outer p = true

theorem contains_iff {polygon : Polygon ℚ} {p : Point ℚ} : polygon.contains p = true ↔
    ringContains polygon.outer p = true ∧ ∀ hole ∈ polygon.holes, ringContains hole p = false := by
  rw [Polygon.contains, Bool.and_eq_true, Bool.not_eq_true', List.any_eq_false]
  simp only [Bool.not_eq_true]

end Containment

section Arrowhead

def along (e : Point ℚ × Point ℚ) (s : ℚ) : Point ℚ :=
  (e.1.1 + s * (e.2.1 - e.1.1), e.1.2 + s * (e.2.2 - e.1.2))

end Arrowhead

end JoinedContext.Geo

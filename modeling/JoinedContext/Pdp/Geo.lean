import JoinedContext.Core.Crates
import JoinedContext.Library.Text
import Mathlib.Data.List.Rotate

/-!
# Granted areas

Whether a point lies inside a granted area, and how the caller's `geoQ` is intersected with the
grants'. Anything the reader does not recognise answers "cannot tell".
-/

namespace JoinedContext.Geo

variable {F : Type} [Float64 F]

abbrev Point (F : Type) := F × F

abbrev Ring (F : Type) := List (Point F)

def epsilon : F := Float64.ofDecimal 1 (-12)

def cross (a b p : Point F) : F :=
  (b.1 - a.1) * (p.2 - a.2) - (b.2 - a.2) * (p.1 - a.1)

def onSegment (a b p : Point F) : Bool :=
  if Float64.lt (epsilon : F) (Float64.abs (cross a b p)) then false
  else
    Float64.le (Float64.min a.1 b.1 - epsilon) p.1 && Float64.le p.1 (Float64.max a.1 b.1 + epsilon)
      && Float64.le (Float64.min a.2 b.2 - epsilon) p.2
      && Float64.le p.2 (Float64.max a.2 b.2 + epsilon)

def edges (ring : Ring F) : List (Point F × Point F) := ring.zip (ring.rotate 1)

/-- The edges a ray from the point crosses, counted into `inside`; an edge the point lies on ends
the count. -/
def castRay (p : Point F) : List (Point F × Point F) → Bool → Bool
  | [], inside => inside
  | (a, b) :: rest, inside =>
    if onSegment a b p then true
    else if Float64.lt p.2 a.2 != Float64.lt p.2 b.2 then
      let crossing := (b.1 - a.1) * (p.2 - a.2) / (b.2 - a.2) + a.1
      castRay p rest (if Float64.lt p.1 crossing then !inside else inside)
    else castRay p rest inside

/-- Ray casting with the boundary counted as inside. -/
def ringContains (ring : Ring F) (p : Point F) : Bool :=
  if ring.length < 3 then false else castRay p (edges ring) false

def side (a b p : Point F) : Int :=
  if Float64.lt (epsilon : F) (cross a b p) then 1
  else if Float64.lt (cross a b p) (-epsilon) then -1
  else 0

def segmentsCross (a b c d : Point F) : Bool :=
  decide (side a b c * side a b d < 0) && decide (side c d a * side c d b < 0)

def crosses (one other : Ring F) : Bool :=
  (edges one).any fun e => (edges other).any fun f => segmentsCross e.1 e.2 f.1 f.2

structure Polygon (F : Type) where
  outer : Ring F
  holes : List (Ring F)

namespace Polygon

def contains (polygon : Polygon F) (p : Point F) : Bool :=
  ringContains polygon.outer p && !polygon.holes.any fun hole => ringContains hole p

def within (polygon other : Polygon F) : Bool :=
  (polygon.outer.all fun p => other.contains p) &&
    !((other.outer :: other.holes).any fun ring => crosses polygon.outer ring) &&
    !(other.holes.any fun hole => hole.any fun p => ringContains polygon.outer p)

end Polygon

def asF64 : Value → Option F
  | .num m e => some (Float64.ofDecimal m e)
  | _ => none

def pairFrom (pair : Value) : Option (Point F) :=
  match pair with
  | .arr (x :: y :: _) => do
    let x ← asF64 x
    let y ← asF64 y
    return (x, y)
  | _ => none

def ringFrom (ring : Value) : Option (Ring F) := ring.asArray.bind fun pairs => pairs.mapM pairFrom

def polygonFrom (coordinates : Value) : Option (Polygon F) :=
  match coordinates.asArray.bind fun rings => rings.mapM ringFrom with
  | some (outer :: holes) => some ⟨outer, holes⟩
  | _ => none

/-- The polygon of an NGSI-LD `geoQ`, or `none` when it is not a `within` polygon. -/
def grantedPolygon (crates : Crates) (geoQ : String) : Option (Polygon F) := do
  let georel ← Text.lastMember [';'] "georel" geoQ
  let geometry ← Text.lastMember [';'] "geometry" geoQ
  if georel != "within" || !Text.eqIgnoreAsciiCase geometry "Polygon" then none
  else
    let coordinates ← Text.lastMember [';'] "coordinates" geoQ
    polygonFrom (← crates.parseJson coordinates)

def entityPoint (entity : Value) : Option (Point F) := do
  let location ← entity.get "location"
  let geometry := (location.get "value").getD location
  let kind ← (← geometry.get "type").asStr
  if !Text.eqIgnoreAsciiCase kind "Point" then none else pairFrom (← geometry.get "coordinates")

structure Intersected where
  geoQ : Option String := none
  /-- Grant geometries the answer is filtered against here; an entity lies inside at least one. -/
  grants : List String := []
  areas : List String := []
  caller : Option String := none
  restricted : Bool := false

/-- Whether the caller's area is read as lying inside the granted one, so that it alone is
forwarded. -/
def askedWithin (F : Type) [Float64 F] (crates : Crates) (asked granted : String) : Bool :=
  match (grantedPolygon crates asked : Option (Polygon F)), grantedPolygon crates granted with
  | some inner, some outer => inner.within outer
  | _, _ => false

def intersect (F : Type) [Float64 F] (crates : Crates) (caller : Option String)
    (grants : List String) : Intersected :=
  match grants, caller with
  | [], _ => { geoQ := caller }
  | _ :: _ :: _, _ => { geoQ := caller, grants := grants, areas := grants, restricted := true }
  | [granted], none => { geoQ := some granted, areas := [granted], restricted := true }
  | [granted], some asked =>
    if askedWithin F crates asked granted then { geoQ := some asked, areas := [granted] }
    else
      { geoQ := some granted, grants := [granted], areas := [granted], caller := some asked,
        restricted := true }

@[simp] theorem areas_intersect (crates : Crates) (caller : Option String) (grants : List String) :
    (intersect F crates caller grants).areas = grants := by
  rcases grants with _ | ⟨g, _ | ⟨g', rest⟩⟩
  · rfl
  · rcases caller with _ | asked
    · rfl
    · simp only [intersect]
      split_ifs <;> rfl
  · rfl

end JoinedContext.Geo

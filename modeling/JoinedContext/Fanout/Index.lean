import JoinedContext.Fanout.Filters
import JoinedContext.Library.Assoc

/-!
# The index over a fan-out's filters

Each filter is held under the one term of its key. The index narrows a change to its candidates, and
the matcher decides among them.
-/

namespace JoinedContext.Fanout

section Buckets

variable {K : Type} [DecidableEq K]

/-- A map of keys to sets of filters. -/
abbrev Buckets (K : Type) := K → Option (Finset FilterId)

namespace Buckets

def bucket (m : Buckets K) (k : K) : Finset FilterId := (m k).getD ∅

def insertAt (m : Buckets K) (k : K) (id : FilterId) : Buckets K :=
  Function.update m k (some (insert id (m.bucket k)))

/-- Takes the filter from a key's set, and the key with its last filter. -/
def dropFrom (m : Buckets K) (k : K) (id : FilterId) : Buckets K :=
  match m k with
  | some ids =>
    Function.update m k (if ids.erase id = ∅ then none else some (ids.erase id))
  | none => m

end Buckets

end Buckets

section Bounds

variable {F : Type} [GridFloat F]

/-- A map of bounds to sets of filters, in the order of the bounds. -/
abbrev Bounds (F : Type) := List (F × Finset FilterId)

namespace Bounds

def sameBound (a b : F) : Bool := GridFloat.totalLe a b && GridFloat.totalLe b a

def insertAt (n : F) (id : FilterId) : Bounds F → Bounds F
  | [] => [(n, {id})]
  | (b, ids) :: rest =>
    if sameBound n b then (b, insert id ids) :: rest
    else if GridFloat.totalLe n b then (n, {id}) :: (b, ids) :: rest
    else (b, ids) :: insertAt n id rest

def dropFrom (n : F) (id : FilterId) : Bounds F → Bounds F
  | [] => []
  | (b, ids) :: rest =>
    if sameBound n b then
      if ids.erase id = ∅ then rest else (b, ids.erase id) :: rest
    else (b, ids) :: dropFrom n id rest

def upTo (n : F) (bs : Bounds F) : Finset FilterId :=
  (bs.filter fun b => GridFloat.totalLe b.1 n).foldl (fun out b => out ∪ b.2) ∅

def downTo (n : F) (bs : Bounds F) : Finset FilterId :=
  (bs.filter fun b => GridFloat.totalLe n b.1).foldl (fun out b => out ∪ b.2) ∅

end Bounds

/-- Per attribute, the bounds of its filters. -/
abbrev BoundsOf (F : Type) := String → Option (Bounds F)

namespace BoundsOf

def insertAt (m : BoundsOf F) (attr : String) (n : F) (id : FilterId) : BoundsOf F :=
  Function.update m attr (some (Bounds.insertAt n id ((m attr).getD [])))

def dropBound (m : BoundsOf F) (attr : String) (n : F) (id : FilterId) : BoundsOf F :=
  match m attr with
  | some bs =>
    Function.update m attr
      (if (Bounds.dropFrom n id bs).isEmpty then none else some (Bounds.dropFrom n id bs))
  | none => m

end BoundsOf

end Bounds

section Index

variable {F : Type} [GridFloat F] (A : Antares F)

/-- One Endpoint's filters and the index over them. -/
structure Index (F : Type) where
  filters : List (FilterId × Filter F)
  any : Finset FilterId
  byType : Buckets String
  eq : Buckets (String × String)
  lower : BoundsOf F
  upper : BoundsOf F
  grid : Buckets Cell
  onGrid : Finset FilterId

namespace Index

def empty : Index F where
  filters := []
  any := ∅
  byType _ := none
  eq _ := none
  lower _ := none
  upper _ := none
  grid _ := none
  onGrid := ∅

def isEmpty (ix : Index F) : Bool := ix.filters.isEmpty

def dropKey (ix : Index F) (id : FilterId) : Key F → Index F
  | .any => { ix with any := ix.any.erase id }
  | .types types => { ix with byType := types.foldl (fun m ty => m.dropFrom ty id) ix.byType }
  | .eq attr value => { ix with eq := ix.eq.dropFrom (attr, value) id }
  | .lower attr n => { ix with lower := ix.lower.dropBound attr n id }
  | .upper attr n => { ix with upper := ix.upper.dropBound attr n id }
  | .cells cells =>
    { ix with
      grid := cells.foldl (fun m c => m.dropFrom c id) ix.grid, onGrid := ix.onGrid.erase id }

def insertKey (ix : Index F) (id : FilterId) : Key F → Index F
  | .any => { ix with any := insert id ix.any }
  | .types types => { ix with byType := types.foldl (fun m ty => m.insertAt ty id) ix.byType }
  | .eq attr value => { ix with eq := ix.eq.insertAt (attr, value) id }
  | .lower attr n => { ix with lower := ix.lower.insertAt attr n id }
  | .upper attr n => { ix with upper := ix.upper.insertAt attr n id }
  | .cells cells =>
    { ix with
      grid := cells.foldl (fun m c => m.insertAt c id) ix.grid, onGrid := insert id ix.onGrid }

/-- Takes a filter out. -/
def remove (ix : Index F) (id : FilterId) : Index F :=
  match ix.filters.lookup id with
  | none => ix
  | some filter =>
    ({ ix with filters := Assoc.without id ix.filters } : Index F).dropKey id filter.key

/-- Adds a filter under its id, replacing the one held there. -/
def insert (ix : Index F) (id : FilterId) (filter : Filter F) : Index F :=
  let ix := (ix.remove id).insertKey id filter.key
  { ix with filters := ix.filters ++ [(id, filter)] }

/-- One filter with a notification recorded as sent. -/
def sent (ix : Index F) (id : FilterId) (now : Instant) : Index F :=
  { ix with filters := ix.filters.map fun f => if f.1 = id then (f.1, f.2.sent A now) else f }

mutual

def untyped : Value → Value
  | .obj members => (members.lookup "@value").getD (.obj members)
  | .arr items => .arr (untypedItems items)
  | other => other

def untypedItems : List Value → List Value
  | [] => []
  | v :: rest => untyped v :: untypedItems rest

end

mutual

def vocab : Value → Value
  | .str s => .str (A.expandKey s)
  | .arr items => .arr (vocabItems items)
  | other => other

def vocabItems : List Value → List Value
  | [] => []
  | v :: rest => vocab v :: vocabItems rest

end

/-- The value of one instance, as the matcher reads it. -/
def targetOf (instance_ : Value) : Option Value :=
  ["value", "object", "vocab", "json", "valueList", "objectList"].findSome? fun kind =>
    (instance_.get kind).map fun v =>
      if kind ∈ ["value", "valueList"] then untyped v else if kind = "vocab" then vocab A v else v

/-- The values a one-segment `q` term compares against for one attribute, read from its instances:
the members of a list one by one. -/
def targets (instances : Value) : List Value :=
  (instances.asArray.getD []).flatMap fun instance_ =>
    match targetOf A instance_ with
    | none => []
    | some (.arr items) => items
    | some scalar => [scalar]

/-- The cells of the entity's location, `none` when it covers too many. -/
def entityCells (doc : Value) : Option (List Cell) :=
  let instances := ((doc.get A.locationIri).bind Value.asArray).getD []
  (instances.mapM fun instance_ : Value =>
    match ((instance_.get "value").bind (Value.get "coordinates")).bind (bounds A) with
    | none => some []
    | some (w, s, e, n) => cells (w : F) s e n).map List.flatten

/-- The filters held under a value of an attribute. -/
def underValue (ix : Index F) (attr : String) (v : Value) : Finset FilterId :=
  ((canonical F v).map fun canon => ix.eq.bucket (attr, canon)).getD ∅ ∪
    ((Geo.asF64 v : Option F).map fun n =>
      Bounds.upTo n ((ix.lower attr).getD []) ∪ Bounds.downTo n ((ix.upper attr).getD [])).getD ∅

/-- The filters a change to the document may notify. -/
def candidates (ix : Index F) (doc : Value) : Finset FilterId :=
  let types := (((doc.get "type").bind Value.asArray).getD []).filterMap Value.asStr
  let byTypes := types.foldl (fun out ty => out ∪ ix.byType.bucket ty) ix.any
  match doc.asObject with
  | none => byTypes
  | some members =>
    let byValues := members.foldl (fun out m =>
      (targets A m.2).foldl (fun out v => out ∪ ix.underValue m.1 v) out) byTypes
    if ix.onGrid = ∅ then byValues
    else
      match entityCells A doc with
      | some cells => cells.foldl (fun out c => out ∪ ix.grid.bucket c) byValues
      | none => byValues ∪ ix.onGrid

/-- Whether a filter notifies a change of these attributes to the document. -/
def decides (ix : Index F) (now : Instant) (id : FilterId) (doc : Value)
    (changed : Finset String) : Bool :=
  (ix.filters.lookup id).any fun filter =>
    decide (filter.firesOn changed) && A.wouldNotify now filter.sub doc

end Index

end Index

end JoinedContext.Fanout

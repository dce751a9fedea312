import JoinedContext.Core.Policy
import JoinedContext.Pdp.Geo
import Mathlib.Data.Finset.Image

/-!
# The filters of a fan-out

A client's subscription is compiled once into the stored form the broker's matcher reads, with the
attributes it watches and the one term an index holds it under. A change fires a filter when an
attribute it watches differs from the entity's previous state.
-/

namespace JoinedContext.Fanout

/-- The further `f64` operations the index uses: `total_cmp`, `floor`, `is_finite`, the cast to
`i32`, the cosine of degrees and the `Display` form. -/
class GridFloat (F : Type) extends Float64 F where
  totalLe : F → F → Bool
  floor : F → F
  isFinite : F → Bool
  toInt : F → Int
  cosDegrees : F → F
  display : F → String

/-- The rationals, with the cosine of the equator. -/
instance : GridFloat ℚ where
  totalLe a b := decide (a ≤ b)
  floor a := a.floor
  isFinite _ := true
  toInt a := a.floor
  cosDegrees _ := 1
  display a := toString a

section Queries

variable (F : Type)

inductive CmpOp where
  | eq
  | gt
  | ge
  | lt
  | le
  | other
deriving DecidableEq

inductive QValue where
  | num (n : F)
  | str (s : String)
  | bool (b : Bool)
  | other

structure QPath where
  links : List String
  bracket : Option String
  path : List String

/-- A parsed `q`, as far as the index reads it. -/
inductive QNode where
  | and (terms : List QNode)
  | cmp (path : QPath) (op : CmpOp) (value : QValue F)
  | other

inductive Rel where
  | near (max : Option F)
  | disjoint
  | other

structure GeoQuery where
  rel : Rel F
  geoproperty : String
  coordinates : Value

/-- `antares_jsonld` under the core `@context`, `antares_ql` and `antares_matcher`, with the text
`chrono` writes for an instant, and `serde_json`'s `from_str` and `to_string`. The matcher is asked
at an instant. -/
structure Antares where
  expandTypes : String → Except String (List String)
  expandAttrName : String → Except String String
  expandKey : String → String
  expandEntity : List (String × Value) → Option Value
  percentDecode : String → String
  parseQ : String → Except String (QNode F)
  hasLinkedPaths : QNode F → Bool
  geoQuery : List (String × Value) → Except String (Option (GeoQuery F))
  regex : String → Except String Unit
  wouldNotify : Instant → Value → Value → Bool
  millis : Instant → String
  parseJson : String → Option Value
  print : Value → String
  locationIri : String

/-- A matcher that notifies every change, in a world whose names are their own expansions. -/
def bareAntares : Antares F where
  expandTypes ty := .ok [ty]
  expandAttrName name := .ok name
  expandKey name := name
  expandEntity members := some (.obj members)
  percentDecode text := text
  parseQ _ := .error "unread"
  hasLinkedPaths _ := false
  geoQuery _ := .error "unread"
  regex _ := .ok ()
  wouldNotify _ _ _ := true
  millis _ := ""
  parseJson _ := none
  print _ := ""
  locationIri := "location"

end Queries

section Compile

variable {F : Type} [GridFloat F] (A : Antares F)

abbrev FilterId := ℕ

abbrev Cell := Int × Int

/-- The one term a filter is indexed by. -/
inductive Key (F : Type) where
  | any
  | types (types : List String)
  | eq (attr value : String)
  | lower (attr : String) (n : F)
  | upper (attr : String) (n : F)
  | cells (cells : List Cell)

structure Filter (F : Type) where
  sub : Value
  watched : Finset String
  key : Key F

/-- A member of an object set to a value. -/
def setMember (key : String) (v : Value) (members : List (String × Value)) : List (String × Value) :=
  members.filter (fun m => m.1 ≠ key) ++ [(key, v)]

def cell : F := Float64.ofDecimal 1 (-2)

def maxCells : F := Float64.ofDecimal 4096 0

def metresPerDegree : F := Float64.ofDecimal 111320 0

def systemMembers : List String :=
  ["createdAt", "modifiedAt", "instanceId", "https://uri.etsi.org/ngsi-ld/createdAt",
    "https://uri.etsi.org/ngsi-ld/modifiedAt", "https://uri.etsi.org/ngsi-ld/instanceId"]

def isExpression (ty : String) : Bool :=
  ty = "*" || ty.toList.any fun c => c ∈ ['|', ',', ';', '(']

def attributeNames (names : Value) (member : String) : Except String (Finset String) :=
  match names.asArray with
  | none | some [] => .error (member ++ " is a non-empty array of attribute names")
  | some names => do
    let expanded ← names.mapM fun name =>
      match name.asStr with
      | none => .error (member ++ " holds attribute names")
      | some name => A.expandAttrName name
    return expanded.toFinset

/-- A selector with its plain type name expanded, as the broker stores it. -/
def storedSelector (selector : Value) : Except String Value := do
  let some members := selector.asObject | throw "each entities selector is an object"
  let some ty := ((members.lookup "type").bind Value.asStr).filter fun t => t ≠ ""
    | throw "each entities selector names a type"
  let members ←
    if isExpression ty then pure members
    else do
      let iri ← A.expandTypes ty
      pure (setMember "type" ((iri.head?.map Value.str).getD .null) members)
  match members.lookup "id" with
  | none | some (.str _) => pure ()
  | some (.arr ids) =>
    if ids.all fun id => id.asStr.isSome then pure ()
    else throw "a selector's id is a string or an array of strings"
  | some _ => throw "a selector's id is a string or an array of strings"
  match members.lookup "idPattern" with
  | none => pure ()
  | some pattern =>
    let some pattern := pattern.asStr | throw "idPattern is a string"
    match A.regex pattern with
    | .ok _ => pure ()
    | .error e => throw ("idPattern: " ++ e)
  return .obj members

def typesKey : Option (List Value) → Key F
  | none => .any
  | some entities =>
    let types := entities.map fun selector =>
      ((selector.get "type").bind Value.asStr).filter fun ty => !isExpression ty
    if types.all Option.isSome then .types (types.filterMap id) else .any

def canonicalQ : QValue F → Option String
  | .num n => some ("n:" ++ GridFloat.display n)
  | .str s => some ("s:" ++ s)
  | .bool b => some ("b:" ++ toString b)
  | .other => none

variable (F) in
def canonical : Value → Option String
  | .num m e => some ("n:" ++ GridFloat.display (Float64.ofDecimal m e : F))
  | .str s => some ("s:" ++ s)
  | .bool b => some ("b:" ++ toString b)
  | _ => none

/-- The terms on one attribute, with its expanded name. -/
def plainTerms (terms : List (QNode F)) : List (String × CmpOp × QValue F) :=
  terms.filterMap fun
    | .cmp ⟨[], none, [name]⟩ op value => some (A.expandKey name, op, value)
    | _ => none

def qKeyFrom (bound : Option (Key F)) : List (String × CmpOp × QValue F) → Option (Key F)
  | [] => bound
  | (attr, .eq, value) :: rest =>
    match canonicalQ value with
    | some canon => some (.eq attr canon)
    | none => qKeyFrom bound rest
  | (attr, .gt, .num n) :: rest | (attr, .ge, .num n) :: rest =>
    qKeyFrom (bound <|> some (.lower attr n)) rest
  | (attr, .lt, .num n) :: rest | (attr, .le, .num n) :: rest =>
    qKeyFrom (bound <|> some (.upper attr n)) rest
  | _ :: rest => qKeyFrom bound rest

/-- The first indexable term of a conjunction: an equality, else a numeric bound. -/
def qKey : QNode F → Option (Key F)
  | .and terms => qKeyFrom none (plainTerms A terms)
  | .cmp path op value => qKeyFrom none (plainTerms A [.cmp path op value])
  | .other => none

/-- West, south, east and north. -/
abbrev Box (F : Type) := F × F × F × F

def Box.extend (lon lat : F) : Option (Box F) → Box F
  | none => (lon, lat, lon, lat)
  | some (w, s, e, n) => (Float64.min w lon, Float64.min s lat, Float64.max e lon, Float64.max n lat)

def position : List Value → Option (F × F)
  | lon :: lat :: _ => do return (← Geo.asF64 lon, ← Geo.asF64 lat)
  | _ => none

mutual

def walkBounds : Value → Option (Box F) → Option (Box F)
  | .arr items, b =>
    match (position items : Option (F × F)) with
    | some (lon, lat) => some (Box.extend lon lat b)
    | none => walkBoundsAll items b
  | _, b => b

def walkBoundsAll : List Value → Option (Box F) → Option (Box F)
  | [], b => b
  | item :: rest, b => walkBoundsAll rest (walkBounds item b)

end

/-- The box around every position of a GeoJSON coordinates tree. -/
def bounds (coordinates : Value) : Option (Box F) :=
  match coordinates with
  | .str text => (A.parseJson text).bind fun parsed => walkBounds parsed none
  | other => walkBounds other none

def intRange (x₀ x₁ : Int) : List Int := (List.range (x₁ - x₀ + 1).toNat).map fun i => x₀ + i

def cells (west south east north : F) : Option (List Cell) :=
  let one : F := Float64.ofDecimal 1 0
  let x₀ := GridFloat.floor (west / cell)
  let y₀ := GridFloat.floor (south / cell)
  let x₁ := GridFloat.floor (east / cell)
  let y₁ := GridFloat.floor (north / cell)
  if !([x₀, y₀, x₁, y₁].all GridFloat.isFinite) then none
  else if Float64.lt maxCells ((x₁ - x₀ + one) * (y₁ - y₀ + one)) then none
  else some ((intRange (GridFloat.toInt x₀) (GridFloat.toInt x₁)).flatMap fun x =>
    (intRange (GridFloat.toInt y₀) (GridFloat.toInt y₁)).map fun y => (x, y))

/-- The cells a bounded `geoQ` area touches. -/
def geoKey (geo : GeoQuery F) : Option (Key F) := do
  guard (geo.geoproperty = "" ∨ geo.geoproperty = "location")
  let reach : F ← match geo.rel with
    | .near (some max) => some max
    | .other => some (Float64.ofDecimal 0 0)
    | .near none | .disjoint => none
  let (west, south, east, north) ← bounds A geo.coordinates
  let lat := Float64.min (Float64.max (Float64.abs south) (Float64.abs north)) (Float64.ofDecimal 89 0)
  let dlat := reach / metresPerDegree
  let dlon := reach / (metresPerDegree * GridFloat.cosDegrees lat)
  let found ← cells (west - dlon) (south - dlat) (east + dlon) (north + dlat)
  return .cells found

/-- Compiles an `x-subscribe` body into a filter, or says what is wrong with it. -/
def compile (body : Value) : Except String (Filter F) := do
  let some sub := body.asObject | throw "the body of x-subscribe is a Subscription object"
  if (sub.lookup "type").bind Value.asStr ≠ some "Subscription" then
    throw "a Subscription has \"type\": \"Subscription\""
  if ((sub.lookup "notification").bind (Value.get "endpoint")).isSome then
    throw "notification.endpoint is set by the server on a WebSocket"
  let entities ← match sub.lookup "entities" with
    | none => pure none
    | some (.arr (selector :: rest)) => some <$> (selector :: rest).mapM (storedSelector A)
    | some _ => throw "entities is a non-empty array of selectors"
  let watched ← match sub.lookup "watchedAttributes" with
    | none => pure ∅
    | some names => attributeNames A names "watchedAttributes"
  if entities.isNone ∧ watched = ∅ then
    throw "a Subscription names entities or watchedAttributes"
  let sub := (entities.map fun es => setMember "entities" (.arr es) sub).getD sub
  match (sub.lookup "notification").bind (Value.get "attributes") with
  | none => pure ()
  | some names => discard (attributeNames A names "notification.attributes")
  match sub.lookup "throttling" with
  | none => pure ()
  | some t =>
    if ((Geo.asF64 t : Option F).any fun t => Float64.le (Float64.ofDecimal 0 0) t) then pure ()
    else throw "throttling is a number of seconds, zero or more"
  let q ← match sub.lookup "q" with
    | none => pure none
    | some (.str q) =>
      match A.parseQ (A.percentDecode q) with
      | .error e => throw ("q: " ++ e)
      | .ok node =>
        if A.hasLinkedPaths node then
          throw "q: a linked-entity term (attr\x7b…\x7d) is not served over a WebSocket"
        else pure (some node)
    | some _ => throw "q is a string"
  let geo ← match sub.lookup "geoQ" with
    | none => pure none
    | some (.obj g) =>
      match A.geoQuery g with
      | .error e => throw ("geoQ: " ++ e)
      | .ok none => throw "geoQ names a georel"
      | .ok (some geo) => pure (some geo)
    | some _ => throw "geoQ is an object"
  let coerced := (sub.lookup "expandValues").isSome || (sub.lookup "jsonKeys").isSome
  let key := ((q.filter fun _ => !coerced).bind (qKey A) <|> geo.bind (geoKey A)).getD
    (typesKey entities)
  return { sub := .obj sub, watched := watched, key := key }

end Compile

section Changes

variable {F : Type}

/-- Whether a change of these attributes is one the filter notifies: any change when it watches
nothing, else a change of a watched attribute. -/
def Filter.firesOn (f : Filter F) (changed : Finset String) : Prop :=
  changed ≠ ∅ ∧ (f.watched = ∅ ∨ ∃ a ∈ f.watched, a ∈ changed)

instance (f : Filter F) (changed : Finset String) : Decidable (f.firesOn changed) :=
  inferInstanceAs (Decidable (_ ∧ _))

/-- Records a notification sent, which starts the filter's throttling window. -/
def Filter.sent (A : Antares F) (f : Filter F) (now : Instant) : Filter F :=
  match f.sub with
  | .obj sub =>
    match (sub.lookup "notification").getD (.obj []) with
    | .obj notification =>
      { f with
        sub := .obj (setMember "notification"
          (.obj (setMember "lastNotification" (.str (A.millis now)) notification)) sub) }
    | _ => f
  | _ => f

mutual

def withoutSystem : Value → Value
  | .obj members => .obj (withoutSystemMembers members)
  | .arr items => .arr (withoutSystemItems items)
  | other => other

def withoutSystemItems : List Value → List Value
  | [] => []
  | v :: rest => withoutSystem v :: withoutSystemItems rest

def withoutSystemMembers : List (String × Value) → List (String × Value)
  | [] => []
  | (k, v) :: rest =>
    if k ∈ systemMembers then withoutSystemMembers rest
    else (k, withoutSystem v) :: withoutSystemMembers rest

end

def isAttribute (name : String) : Bool :=
  name ∉ ["id", "type", "@context", "scope"] && name ∉ systemMembers

/-- The attributes whose instances differ between the two states, the system members aside; every
attribute of an entity seen for the first time. -/
def changed (previous : Option Value) (doc : Value) : Finset String :=
  let before (name : String) := previous.bind (Value.get name)
  let names := doc.keys ++ ((previous.map Value.keys).getD [])
  (names.filter fun name => isAttribute name &&
    decide ((doc.get name).map withoutSystem ≠ (before name).map withoutSystem)).toFinset

end Changes

end JoinedContext.Fanout

import JoinedContext.Pdp.Evaluator

/-!
# The query string, read into a request

The decoded parameters of a query, and the dimensions of a request they name: lists split on
commas, compound filters joined from their parameters, and every attribute the request refers to.
-/

namespace JoinedContext.Query

def hexDigit (b : Nat) : Option Nat :=
  if 0x30 ≤ b ∧ b ≤ 0x39 then some (b - 0x30)
  else if 0x41 ≤ b ∧ b ≤ 0x46 then some (b - 0x37)
  else if 0x61 ≤ b ∧ b ≤ 0x66 then some (b - 0x57)
  else none

/-- `u8::from_str_radix(pair, 16)`, which reads a leading `+`. -/
def hexPair (a b : Nat) : Option Nat :=
  if a = 0x2B then hexDigit b else do return (← hexDigit a) * 16 + (← hexDigit b)

def plusAsSpace (b : Nat) : Nat := if b = 0x2B then 0x20 else b

def decodeBytes : List Nat → List Nat
  | byte :: a :: b :: more =>
    if byte = 0x25 then
      match hexPair a b with
      | some escaped => escaped :: decodeBytes more
      | none => byte :: decodeBytes (a :: b :: more)
    else plusAsSpace byte :: decodeBytes (a :: b :: more)
  | bytes => bytes.map plusAsSpace

def decode (raw : String) : String := Text.fromUtf8Lossy (decodeBytes (Text.utf8Bytes raw))

def parse (query : String) : List (String × String) :=
  ((Text.splitAny ['&'] query).filter (· ≠ "")).map fun pair =>
    match Text.splitOnce '=' pair with
    | some (name, value) => (decode name, decode value)
    | none => (decode pair, "")

/-- The first value of a parameter that is not empty. -/
def first (params : List (String × String)) (name : String) : Option String :=
  (params.find? fun pair => pair.1 == name && pair.2 != "").map Prod.snd

def splitList (value : Option String) : Finset String :=
  match value with
  | none => ∅
  | some value => (((Text.splitAny [','] value).map Text.trim).filter (· ≠ "")).toFinset

def joined (params : List (String × String)) (names : List String) : Option String :=
  let parts := names.filterMap fun name => (first params name).map fun value => name ++ "=" ++ value
  if parts = [] then none else some (Text.join ";" parts)

def unreadable : String := "unreadable q"

def contains (part s : String) : Bool := s.toList.tails.any fun l => part.toList.isPrefixOf l

def trimMatches (c : Char) (s : String) : String :=
  String.ofList ((s.toList.dropWhile (· == c)).rdropWhile (· == c))

/-- An expanded IRI written as the term it expands to. -/
def compact (name : String) : String :=
  let name := trimMatches '"' (decode (Text.trim name))
  match (Text.splitAny ['/', '#'] name).getLast? with
  | some last => if contains "://" name ∧ last ≠ "" then last else name
  | none => name

/-- The attribute a path names. -/
def headOf (path : String) : String :=
  Text.trim ((Text.splitAny ['.', '['] (compact path)).headD "")

def qAttributes (crates : Crates) (q : String) : Finset String :=
  if crates.parseQ q then ((crates.attributePaths q).map headOf).toFinset else {unreadable}

def geoMembers : List String := ["georel", "geometry", "coordinates"]

/-- Every attribute name the request uses to pick or order entities. -/
def referencedAttributes (crates : Crates) (params : List (String × String)) : Finset String :=
  let ofQ := match first params "q" with
    | some q => qAttributes crates q
    | none => ∅
  let selected := unions
    (fun selector => (splitList (first params selector)).image fun name =>
      headOf (String.ofList (name.toList.dropWhile (· == '!'))))
    ["orderBy", "geoproperty", "timeproperty"]
  let location := if (joined params geoMembers).isSome ∧ first params "geoproperty" = none
    then {"location"} else ∅
  (ofQ ∪ (splitList (first params "attrs")).image compact ∪ selected ∪ location).erase ""

/-- What the caller asked for, in the dimensions a grant can narrow. -/
def requested (crates : Crates) (params : List (String × String)) : Request where
  types := splitList (first params "type")
  attrs := splitList (first params "attrs")
  q := first params "q"
  scopeQ := first params "scopeQ"
  geoQ := joined params geoMembers
  temporalQ := joined params ["timerel", "timeAt", "endTimeAt"]
  referenced := referencedAttributes crates params

/-- A value without a comma is kept as one item, whatever it is an expression of. -/
theorem splitList_of_notMem {value : String} (hcomma : ',' ∉ value.toList)
    (htrim : Text.trim value = value) (hne : value ≠ "") : splitList (some value) = {value} := by
  have hsplit : Text.splitAny [','] value = [value] := by
    unfold Text.splitAny
    rw [List.splitOnP_eq_singleton fun c hc => ?_]
    · rw [List.map_singleton, String.ofList_toList]
    · simpa using fun heq : c = ',' => hcomma (heq ▸ hc)
  simp [splitList, hsplit, htrim, hne]

end JoinedContext.Query

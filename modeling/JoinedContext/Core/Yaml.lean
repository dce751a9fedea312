import JoinedContext.Core.Json
import JoinedContext.Library.SortedMap
import Mathlib.Data.String.Basic

/-!
# YAML documents

A YAML document is read as the same values as JSON. A mapping keeps the order of its keys, and two
mappings are the same whatever that order is: `canon` puts them in one order.
-/

namespace JoinedContext

/-- The members of a mapping, in the order they were put in. -/
abbrev Mapping := List (String × Value)

namespace Value

mutual

def canon : Value → Value
  | .arr items => .arr (canonItems items)
  | .obj members => .obj (canonMembers members)
  | .null => .null
  | .bool b => .bool b
  | .num m e => .num m e
  | .str s => .str s

def canonItems : List Value → List Value
  | [] => []
  | v :: rest => canon v :: canonItems rest

def canonMembers : Mapping → Mapping
  | [] => []
  | (k, v) :: rest => SortedMap.insertEntry k (canon v) (canonMembers rest)

end

/-- Whether two documents are equal, as `serde_norway` compares them. -/
def same (a b : Value) : Bool := decide (a.canon = b.canon)

theorem lookup_canonMembers (k : String) : ∀ members : Mapping,
    (canonMembers members).lookup k = (members.lookup k).map canon
  | [] => rfl
  | (c, v) :: rest => by
    rw [canonMembers, SortedMap.lookup_insertEntry, Assoc.lookup_cons, lookup_canonMembers k rest]
    split_ifs <;> rfl

theorem get_canon (k : String) (v : Value) : v.canon.get k = (v.get k).map canon := by
  cases v with
  | obj members =>
    rw [canon]
    exact lookup_canonMembers k members
  | arr | null | bool | num | str => simp [canon, get]

theorem asStr_canon (v : Value) : v.canon.asStr = v.asStr := by
  cases v <;> simp [canon, asStr]

theorem isSome_asObject_canon (v : Value) : v.canon.asObject.isSome = v.asObject.isSome := by
  cases v <;> simp [canon, asObject]

end Value

end JoinedContext

import Mathlib.Logic.Basic
import Mathlib.Data.List.Basic

/-!
# JSON values

`serde_json::Value`. A number is the decimal literal it was written as, so that reading it as a
float is left to whoever computes with it; an object is the list of its members.
-/

namespace JoinedContext

inductive Value where
  | null
  | bool (b : Bool)
  | num (mantissa exponent : Int)
  | str (s : String)
  | arr (items : List Value)
  | obj (members : List (String × Value))

namespace Value

mutual

def beq : Value → Value → Bool
  | .null, .null => true
  | .bool a, .bool b => a == b
  | .num m e, .num m' e' => m == m' && e == e'
  | .str s, .str t => s == t
  | .arr as, .arr bs => beqItems as bs
  | .obj as, .obj bs => beqMembers as bs
  | _, _ => false

def beqItems : List Value → List Value → Bool
  | [], [] => true
  | a :: as, b :: bs => beq a b && beqItems as bs
  | _, _ => false

def beqMembers : List (String × Value) → List (String × Value) → Bool
  | [], [] => true
  | (k, a) :: as, (l, b) :: bs => k == l && (beq a b && beqMembers as bs)
  | _, _ => false

end

mutual

theorem beq_iff : ∀ a b : Value, beq a b = true ↔ a = b
  | .null, b => by cases b <;> simp [beq]
  | .bool _, b => by cases b <;> simp [beq]
  | .num _ _, b => by cases b <;> simp [beq]
  | .str _, b => by cases b <;> simp [beq]
  | .arr as, b => by
    cases b <;> simp [beq]
    exact beqItems_iff as _
  | .obj as, b => by
    cases b <;> simp [beq]
    exact beqMembers_iff as _

theorem beqItems_iff : ∀ as bs : List Value, beqItems as bs = true ↔ as = bs
  | [], bs => by cases bs <;> simp [beqItems]
  | a :: as, bs => by
    rcases bs with _ | ⟨b, bs⟩
    · simp [beqItems]
    · simp only [beqItems, Bool.and_eq_true, List.cons.injEq]
      rw [beq_iff a b, beqItems_iff as bs]

theorem beqMembers_iff : ∀ as bs : List (String × Value), beqMembers as bs = true ↔ as = bs
  | [], bs => by cases bs <;> simp [beqMembers]
  | (k, a) :: as, bs => by
    rcases bs with _ | ⟨⟨l, b⟩, bs⟩
    · simp [beqMembers]
    · simp only [beqMembers, Bool.and_eq_true, beq_iff_eq, List.cons.injEq, Prod.mk.injEq]
      rw [beq_iff a b, beqMembers_iff as bs, and_assoc]

end

instance : DecidableEq Value := fun a b => decidable_of_iff _ (beq_iff a b)

def get (key : String) : Value → Option Value
  | .obj members => members.lookup key
  | _ => none

def asStr : Value → Option String
  | .str s => some s
  | _ => none

def asArray : Value → Option (List Value)
  | .arr items => some items
  | _ => none

def asObject : Value → Option (List (String × Value))
  | .obj members => some members
  | _ => none

def keys (v : Value) : List String := (v.asObject.getD []).map Prod.fst

@[simp] theorem keys_obj (members : List (String × Value)) :
    (Value.obj members).keys = members.map Prod.fst := rfl

@[simp] theorem get_obj (key : String) (members : List (String × Value)) :
    (Value.obj members).get key = members.lookup key := rfl

@[simp] theorem asStr_str (s : String) : (Value.str s).asStr = some s := rfl

theorem sizeOf_lt_obj {members : List (String × Value)} {name : String} {value : Value}
    (h : (name, value) ∈ members) : sizeOf value < sizeOf (Value.obj members) := by
  have hlt := List.sizeOf_lt_of_mem h
  rw [Prod.mk.sizeOf_spec] at hlt
  rw [Value.obj.sizeOf_spec]
  omega

theorem sizeOf_lt_arr {items : List Value} {value : Value} (h : value ∈ items) :
    sizeOf value < sizeOf (Value.arr items) := by
  have hlt := List.sizeOf_lt_of_mem h
  rw [Value.arr.sizeOf_spec]
  omega

end Value

end JoinedContext

import JoinedContext.Writes.Ingest
import Mathlib

/-!
# The units of a write

The quantities of a write are looked at one after the other, and each that states no unit is given
the model's before the next is looked at. So a write that is refused late keeps what was put in it
before, and a quantity under another spelling of its attribute's name is not looked at.
-/

namespace JoinedContext.Units

open Relationships (typesOf localName)
open Ingest (Shape NGSI_LD_NULL names textOf)

section Source

inductive MissingUnitCode where
  | fill
  | refuse
deriving DecidableEq

/-- The code each quantity of a model is measured in, by class and attribute. -/
structure UnitRules where
  byClass : List (String × List (String × String))
  missing : MissingUnitCode

def UnitRules.ofClass (rules : UnitRules) (entityType : String) :
    Option (List (String × String)) :=
  rules.byClass.lookup entityType <|> rules.byClass.lookup (localName entityType)

inductive UnitRefusal where
  | wrong (className held expected found : String)
  | missing (className held expected : String)
deriving DecidableEq

/-- An attribute that a class measures, with its code. -/
structure Measure where
  className : String
  held : String
  expected : String
deriving DecidableEq

def Measure.note (m : Measure) : String := m.held ++ "=" ++ m.expected

/-- The object with a value in the place of the one under a key. -/
def assign (key : String) (value : Value) : List (String × Value) → List (String × Value)
  | [] => []
  | (k, v) :: rest => if k = key then (k, value) :: rest else (k, v) :: assign key value rest

variable (missing : MissingUnitCode) (m : Measure)

/-- A bare value, which states no unit. -/
def checkBare (bare : Value) : Value × Except UnitRefusal Bool :=
  if missing = .refuse then (bare, .error (.missing m.className m.held m.expected))
  else (.obj [("value", bare), ("unitCode", .str m.expected)], .ok true)

def checkMember (member : List (String × Value)) : Value × Except UnitRefusal Bool :=
  let kind := (member.lookup "type").bind Value.asStr
  if kind.any (· ≠ "Property") then (.obj member, .ok false)
  else if kind = none ∧ member.lookup "value" = none then (.obj member, .ok false)
  else if (member.lookup "value").bind Value.asStr = some NGSI_LD_NULL then (.obj member, .ok false)
  else match member.lookup "unitCode" with
    | some other =>
      if other = .str m.expected then (.obj member, .ok false)
      else (.obj member, .error (.wrong m.className m.held m.expected (textOf other)))
    | none =>
      if missing = .refuse then (.obj member, .error (.missing m.className m.held m.expected))
      else (.obj (Assoc.put "unitCode" (.str m.expected) member), .ok true)

mutual

/-- Checks one attribute's value in place; whether it was given a unit. -/
def checkValue : Value → Value × Except UnitRefusal Bool
  | .arr instances =>
    let (instances, r) := checkInstances instances
    (.arr instances, r)
  | .obj member => checkMember missing m member
  | .null => (.null, .ok false)
  | .str text =>
    if text = NGSI_LD_NULL then (.str text, .ok false) else checkBare missing m (.str text)
  | .bool b => checkBare missing m (.bool b)
  | .num mantissa exponent => checkBare missing m (.num mantissa exponent)

def checkInstances : List Value → List Value × Except UnitRefusal Bool
  | [] => ([], .ok false)
  | value :: rest =>
    match checkValue value with
    | (value, .error refusal) => (value :: rest, .error refusal)
    | (value, .ok filled) =>
      let (rest, r) := checkInstances rest
      (value :: rest, r.map (filled || ·))

end

/-- The measures of an entity, in the order they are checked. -/
def measures (rules : UnitRules) (shape : Shape) (object : List (String × Value)) : List Measure :=
  (typesOf object shape.addressed).flatMap fun className =>
    ((rules.ofClass className).getD []).map fun unit => ⟨className, unit.1, unit.2⟩

def checkMeasures : List Measure → List (String × Value) → List String →
    List (String × Value) × List String × Except UnitRefusal Unit
  | [], object, filled => (object, filled, .ok ())
  | m :: rest, object, filled =>
    match object.lookup m.held with
    | none => checkMeasures rest object filled
    | some value =>
      match checkValue missing m value with
      | (value, .error refusal) => (assign m.held value object, filled, .error refusal)
      | (value, .ok added) =>
        checkMeasures rest (assign m.held value object)
          (if added ∧ m.note ∉ filled then filled ++ [m.note] else filled)

variable (rules : UnitRules) (shape : Shape)

def checkEntity (entity : Value) (filled : List String) :
    Value × List String × Except UnitRefusal Unit :=
  match entity with
  | .obj object =>
    let (object, filled, r) :=
      checkMeasures rules.missing (measures rules shape object) object filled
    (.obj object, filled, r)
  | entity => (entity, filled, .ok ())

def checkEntities : List Value → List String → List Value × List String × Except UnitRefusal Unit
  | [], filled => ([], filled, .ok ())
  | entity :: rest, filled =>
    match checkEntity rules shape entity filled with
    | (entity, filled, .error refusal) => (entity :: rest, filled, .error refusal)
    | (entity, filled, .ok ()) =>
      let (rest, filled, r) := checkEntities rest filled
      (entity :: rest, filled, r)

/-- Checks every quantity of a payload in place; the payload it leaves, and the quantities it gave
a unit or why it refuses. -/
def enforce (payload : Value) : Value × Except UnitRefusal (List String) :=
  if rules.byClass.isEmpty then (payload, .ok [])
  else match shape.targeted with
    | some held =>
      let (wrapped, filled, r) := checkEntity rules shape (.obj [(held, payload)]) []
      ((wrapped.get held).getD .null, r.map fun _ => filled)
    | none =>
      match payload with
      | .arr entities =>
        let (entities, filled, r) := checkEntities rules shape entities []
        (.arr entities, r.map fun _ => filled)
      | entity =>
        let (entity, filled, r) := checkEntity rules shape entity []
        (entity, r.map fun _ => filled)

end Source

section Quantities

/-! ## The quantities of a value -/

/-- Whether an object is a Property in either form, and no deletion. -/
def isQuantity (member : List (String × Value)) : Bool :=
  let kind := (member.lookup "type").bind Value.asStr
  !kind.any (· ≠ "Property") && (kind.isSome || (member.lookup "value").isSome) &&
    (member.lookup "value").bind Value.asStr ≠ some NGSI_LD_NULL

/-- What a look at a quantity that is not as it should be comes to. -/
inductive Visit where
  | filled
  | refused
deriving DecidableEq

def unstated (missing : MissingUnitCode) : Visit :=
  if missing = .refuse then .refused else .filled

def memberVisits (missing : MissingUnitCode) (code : String) (member : List (String × Value)) :
    List Visit :=
  if isQuantity member then
    match member.lookup "unitCode" with
    | some other => if other = .str code then [] else [.refused]
    | none => [unstated missing]
  else []

mutual

/-- The quantities of a value that do not state the code, in their order. -/
def visits (missing : MissingUnitCode) (code : String) : Value → List Visit
  | .arr items => itemVisits missing code items
  | .obj member => memberVisits missing code member
  | .null => []
  | .str text => if text = NGSI_LD_NULL then [] else [unstated missing]
  | .bool _ => [unstated missing]
  | .num _ _ => [unstated missing]

def itemVisits (missing : MissingUnitCode) (code : String) : List Value → List Visit
  | [] => []
  | item :: rest => visits missing code item ++ itemVisits missing code rest

end

def bareFilled (code : String) (bare : Value) : Value :=
  .obj [("value", bare), ("unitCode", .str code)]

def memberFilled (code : String) (member : List (String × Value)) : Value :=
  if isQuantity member ∧ member.lookup "unitCode" = none then
    .obj (Assoc.put "unitCode" (.str code) member)
  else .obj member

mutual

/-- A value with the code in every quantity that states none. -/
def filled (code : String) : Value → Value
  | .arr items => .arr (itemsFilled code items)
  | .obj member => memberFilled code member
  | .null => .null
  | .str text => if text = NGSI_LD_NULL then .str text else bareFilled code (.str text)
  | .bool b => bareFilled code (.bool b)
  | .num mantissa exponent => bareFilled code (.num mantissa exponent)

def itemsFilled (code : String) : List Value → List Value
  | [] => []
  | item :: rest => filled code item :: itemsFilled code rest

end

/-- Something is filled before anything is refused. -/
def FilledFirst (visits : List Visit) : Prop := Visit.filled ∈ visits.takeWhile (· ≠ .refused)

variable {missing : MissingUnitCode} {m : Measure} {code : String} {value : Value}
  {before after : List Visit}

theorem filledFirst_of_notMem (h : Visit.refused ∉ before) :
    FilledFirst before ↔ Visit.filled ∈ before := by
  unfold FilledFirst
  rw [List.takeWhile_eq_self_iff.2 fun visit hvisit => by
    simpa using fun heq : visit = .refused => h (heq ▸ hvisit)]

theorem filledFirst_append : FilledFirst (before ++ after) ↔
    FilledFirst before ∨ (Visit.refused ∉ before ∧ FilledFirst after) := by
  induction before with
  | nil => simp [FilledFirst]
  | cons visit rest ih =>
    unfold FilledFirst at ih ⊢
    cases visit with
    | filled => simp
    | refused => simp

/-- What a pass over a thing leaves and answers, by the quantities it looks at: with none refused,
the thing with all of them filled; else the thing with some filled exactly when one comes before
the first that is refused. -/
structure Spec {α β : Type} (visits : List Visit) (sent full left : α) (r : Except UnitRefusal β)
    (answer : β) : Prop where
  passed : Visit.refused ∉ visits → left = full ∧ r = .ok answer
  refused : Visit.refused ∈ visits → (∃ refusal, r = .error refusal) ∧
    (left = sent ↔ ¬FilledFirst visits)
  full : Visit.refused ∉ visits → (full = sent ↔ Visit.filled ∉ visits)

section Lists

variable {α β γ : Type} {a fa la : α} {l fl ll : List α} {r : Except UnitRefusal γ} {x : β}
  {y : γ}

theorem Spec.refused_mem {refusal : UnitRefusal}
    (h : Spec before a fa la (.error refusal : Except UnitRefusal β) x) :
    Visit.refused ∈ before := by
  by_contra hnot
  cases (h.passed hnot).2

theorem Spec.refused_notMem {b : β} (h : Spec before a fa la (.ok b) x) :
    Visit.refused ∉ before := fun hmem => by
  obtain ⟨refusal, hr⟩ := (h.refused hmem).1
  cases hr

/-- A refusal leaves what comes after as it is. -/
theorem Spec.cons_error {refusal : UnitRefusal}
    (h : Spec before a fa la (.error refusal : Except UnitRefusal β) x) :
    Spec (before ++ after) (a :: l) (fa :: fl) (la :: l)
      (.error refusal : Except UnitRefusal γ) y where
  passed hnot := (hnot (List.mem_append_left _ h.refused_mem)).elim
  refused _ := by
    refine ⟨⟨refusal, rfl⟩, ?_⟩
    rw [filledFirst_append, List.cons.injEq, and_iff_left rfl, (h.refused h.refused_mem).2]
    simp [h.refused_mem]
  full hnot := (hnot (List.mem_append_left _ h.refused_mem)).elim

theorem Spec.cons_ok {b : β} (h : Spec before a fa la (.ok b) x) (hl : Spec after l fl ll r y) :
    Spec (before ++ after) (a :: l) (fa :: fl) (la :: ll) r y := by
  have hbefore := h.refused_notMem
  have hmem : Visit.refused ∈ before ++ after ↔ Visit.refused ∈ after := by simp [hbefore]
  obtain ⟨rfl, -⟩ := h.passed hbefore
  refine ⟨fun hnot => ?_, fun hmem' => ?_, fun hnot => ?_⟩
  · rw [hmem] at hnot
    obtain ⟨rfl, hr⟩ := hl.passed hnot
    exact ⟨rfl, hr⟩
  · rw [hmem] at hmem'
    obtain ⟨hr, hleft⟩ := hl.refused hmem'
    refine ⟨hr, ?_⟩
    rw [filledFirst_append, filledFirst_of_notMem hbefore, List.cons.injEq, hleft, h.full hbefore,
      not_or, and_iff_right hbefore]
  · rw [hmem] at hnot
    rw [List.cons.injEq, h.full hbefore, hl.full hnot, List.mem_append, not_or]

theorem Spec.map {δ : Type} {f : γ → δ} (h : Spec before a fa la r y) :
    Spec before a fa la (r.map f) (f y) where
  passed hnot := by
    obtain ⟨hleft, hr⟩ := h.passed hnot
    exact ⟨hleft, by rw [hr]; rfl⟩
  refused hmem := by
    obtain ⟨⟨refusal, hr⟩, hleft⟩ := h.refused hmem
    exact ⟨⟨refusal, by rw [hr]; rfl⟩, hleft⟩
  full := h.full

theorem Spec.inj {α' : Type} {f : α → α'} (hf : Function.Injective f)
    (h : Spec before a fa la r y) : Spec before (f a) (f fa) (f la) r y where
  passed hnot := ⟨congrArg f (h.passed hnot).1, (h.passed hnot).2⟩
  refused hmem := ⟨(h.refused hmem).1, hf.eq_iff.trans (h.refused hmem).2⟩
  full hnot := hf.eq_iff.trans (h.full hnot)

end Lists

theorem obj_put_ne {member : List (String × Value)} (h : member.lookup "unitCode" = none) :
    Value.obj (Assoc.put "unitCode" (.str code) member) ≠ .obj member := by
  intro heq
  have := congrArg (Value.get "unitCode") heq
  simp [Assoc.lookup_put, h] at this

theorem bareFilled_ne : ∀ bare : Value, bareFilled code bare ≠ bare := by
  intro bare heq
  have := congrArg sizeOf heq
  simp [bareFilled] at this
  omega

theorem checkBare_spec (bare : Value) : Spec [unstated missing] bare (bareFilled m.expected bare)
    (checkBare missing m bare).1 (checkBare missing m bare).2
    (decide (Visit.filled ∈ [unstated missing])) := by
  unfold checkBare unstated
  split_ifs with hmissing
  · exact ⟨by simp, fun _ => ⟨⟨_, rfl⟩, by simp [FilledFirst]⟩, by simp⟩
  · exact ⟨fun _ => ⟨rfl, rfl⟩, by simp, fun _ => by simp [bareFilled_ne]⟩

theorem checkMember_eq (member : List (String × Value)) : checkMember missing m member =
    if isQuantity member then
      match member.lookup "unitCode" with
      | some other =>
        if other = .str m.expected then (.obj member, .ok false)
        else (.obj member, .error (.wrong m.className m.held m.expected (textOf other)))
      | none =>
        if missing = .refuse then (.obj member, .error (.missing m.className m.held m.expected))
        else (.obj (Assoc.put "unitCode" (.str m.expected) member), .ok true)
    else (.obj member, .ok false) := by
  unfold checkMember isQuantity
  dsimp only
  by_cases hkind : ((member.lookup "type").bind Value.asStr).any (· ≠ "Property") = true
  · simp only [hkind, if_true, Bool.not_true, Bool.false_and, Bool.false_eq_true, if_false]
  · simp only [Bool.not_eq_true] at hkind
    by_cases hnull : (member.lookup "value").bind Value.asStr = some NGSI_LD_NULL
    · simp [hnull]
    · by_cases hnone : (member.lookup "type").bind Value.asStr = none ∧ member.lookup "value" = none
      · simp [hnone.1, hnone.2]
      · have hsome : (((member.lookup "type").bind Value.asStr).isSome ||
            (member.lookup "value").isSome) = true := by
          rw [not_and_or, ← ne_eq, ← ne_eq, ← Option.isSome_iff_ne_none,
            ← Option.isSome_iff_ne_none] at hnone
          simpa using hnone
        simp only [hkind, hnull, hnone, hsome, Bool.false_eq_true, if_false, Bool.not_false,
          Bool.true_and, ne_eq, not_false_eq_true, decide_true, if_true]

theorem checkMember_spec (member : List (String × Value)) :
    Spec (memberVisits missing m.expected member) (.obj member) (memberFilled m.expected member)
      (checkMember missing m member).1 (checkMember missing m member).2
      (decide (Visit.filled ∈ memberVisits missing m.expected member)) := by
  rw [checkMember_eq]
  unfold memberVisits memberFilled
  by_cases hquantity : isQuantity member = true
  · rw [if_pos hquantity, if_pos hquantity]
    cases hcode : member.lookup "unitCode" with
    | some other =>
      rw [if_neg (by simp)]
      dsimp only
      split_ifs
      · exact ⟨fun _ => ⟨rfl, rfl⟩, by simp, by simp⟩
      · exact ⟨by simp, fun _ => ⟨⟨_, rfl⟩, by simp [FilledFirst]⟩, by simp⟩
    | none =>
      rw [if_pos ⟨hquantity, rfl⟩]
      dsimp only
      unfold unstated
      split_ifs
      · exact ⟨by simp, fun _ => ⟨⟨_, rfl⟩, by simp [FilledFirst]⟩, by simp⟩
      · exact ⟨fun _ => ⟨rfl, rfl⟩, by simp, fun _ => by simp [obj_put_ne hcode]⟩
  · rw [if_neg hquantity, if_neg hquantity, if_neg fun h => hquantity h.1]
    exact ⟨fun _ => ⟨rfl, rfl⟩, by simp, by simp⟩

mutual

/-- What a look at a value comes to. -/
theorem checkValue_spec : ∀ value : Value,
    Spec (visits missing m.expected value) value (filled m.expected value)
      (checkValue missing m value).1 (checkValue missing m value).2
      (decide (Visit.filled ∈ visits missing m.expected value))
  | .arr items => by
    rw [visits, filled, checkValue]
    exact (checkInstances_spec items).inj fun _ _ => Value.arr.inj
  | .obj member => by
    rw [visits, filled, checkValue]
    exact checkMember_spec member
  | .null => by
    rw [visits, filled, checkValue]
    exact ⟨fun _ => ⟨rfl, rfl⟩, by simp, by simp⟩
  | .str text => by
    rw [visits, filled, checkValue]
    split_ifs
    · exact ⟨fun _ => ⟨rfl, rfl⟩, by simp, by simp⟩
    · exact checkBare_spec _
  | .bool b => by
    rw [visits, filled, checkValue]
    exact checkBare_spec _
  | .num mantissa exponent => by
    rw [visits, filled, checkValue]
    exact checkBare_spec _

theorem checkInstances_spec : ∀ items : List Value,
    Spec (itemVisits missing m.expected items) items (itemsFilled m.expected items)
      (checkInstances missing m items).1 (checkInstances missing m items).2
      (decide (Visit.filled ∈ itemVisits missing m.expected items))
  | [] => by
    rw [itemVisits, itemsFilled, checkInstances]
    exact ⟨fun _ => ⟨rfl, rfl⟩, by simp, by simp⟩
  | item :: rest => by
    have hitem := checkValue_spec item
    have hrest := checkInstances_spec rest
    rw [itemVisits, itemsFilled, checkInstances]
    cases hchecked : checkValue missing m item with
    | mk left r =>
      rw [hchecked] at hitem
      cases r with
      | error refusal => exact hitem.cons_error
      | ok added =>
        have hadded := Except.ok.inj (hitem.passed hitem.refused_notMem).2
        have hanswer : decide (Visit.filled ∈
            visits missing m.expected item ++ itemVisits missing m.expected rest) =
            (added || decide (Visit.filled ∈ itemVisits missing m.expected rest)) := by
          rw [hadded]
          simp
        rw [hanswer]
        exact hitem.cons_ok hrest.map

end

/-! ## Values with every quantity stated -/

theorem filled_bareFilled (code code' : String) (bare : Value) :
    filled code' (bareFilled code bare) = bareFilled code bare := by
  rw [bareFilled, filled, memberFilled, if_neg fun h => by simp at h]

mutual

theorem filled_filled (code code' : String) : ∀ value : Value,
    filled code' (filled code value) = filled code value
  | .arr items => by
    rw [filled, filled, itemsFilled_itemsFilled]
  | .obj member => by
    rw [filled]
    unfold memberFilled
    split_ifs with h
    · rw [filled, memberFilled, if_neg fun h => by simp [Assoc.lookup_put] at h]
    · rw [filled, memberFilled, if_neg h]
  | .null => rfl
  | .str text => by
    rw [filled]
    split_ifs with h
    · rw [filled, if_pos h]
    · exact filled_bareFilled _ _ _
  | .bool _ => filled_bareFilled _ _ _
  | .num _ _ => filled_bareFilled _ _ _

theorem itemsFilled_itemsFilled (code code' : String) : ∀ items : List Value,
    itemsFilled code' (itemsFilled code items) = itemsFilled code items
  | [] => rfl
  | item :: rest => by
    rw [itemsFilled, itemsFilled, filled_filled code code' item,
      itemsFilled_itemsFilled code code' rest]

end

mutual

/-- A value in which something is filled is another one. -/
theorem filled_ne : ∀ value : Value, Visit.filled ∈ visits missing code value →
    filled code value ≠ value
  | .arr items, h => by
    rw [visits] at h
    rw [filled]
    exact fun heq => itemsFilled_ne items h (Value.arr.inj heq)
  | .obj member, h => by
    rw [visits, memberVisits] at h
    rw [filled, memberFilled]
    cases hcode : member.lookup "unitCode" with
    | some other =>
      rw [hcode] at h
      split_ifs at h <;> simp at h
    | none =>
      split_ifs at h with hquantity
      · rw [if_pos ⟨hquantity, rfl⟩]
        exact obj_put_ne hcode
      · cases h
  | .null, h => by simp [visits] at h
  | .str text, h => by
    rw [visits] at h
    rw [filled]
    split_ifs at h ⊢
    · cases h
    · exact bareFilled_ne _
  | .bool b, _ => bareFilled_ne _
  | .num mantissa exponent, _ => bareFilled_ne _

theorem itemsFilled_ne : ∀ items : List Value, Visit.filled ∈ itemVisits missing code items →
    itemsFilled code items ≠ items
  | [], h => by simp [itemVisits] at h
  | item :: rest, h => by
    rw [itemVisits, List.mem_append] at h
    rw [itemsFilled]
    intro heq
    obtain ⟨hitem, hrest⟩ := List.cons.inj heq
    exact h.elim (fun h => filled_ne item h hitem) fun h => itemsFilled_ne rest h hrest

end

/-- A value with every quantity stated is left as it is. -/
theorem checkValue_of_settled (h : ∀ code, filled code value = value) :
    (checkValue missing m value).1 = value := by
  have hspec := @checkValue_spec missing m value
  have hnone : Visit.filled ∉ visits missing m.expected value := fun hmem =>
    filled_ne value hmem (h m.expected)
  by_cases hrefused : Visit.refused ∈ visits missing m.expected value
  · refine (hspec.refused hrefused).2.2 fun hfirst => hnone ?_
    exact List.takeWhile_subset _ hfirst
  · rw [(hspec.passed hrefused).1, h m.expected]

end Quantities

section Entities

/-! ## The quantities of an entity -/

/-- The quantities of an entity that do not state their code, each as the ones filled before it
leave it. -/
def entityVisits (missing : MissingUnitCode) : List Measure → List (String × Value) → List Visit
  | [], _ => []
  | m :: rest, object =>
    match object.lookup m.held with
    | none => entityVisits missing rest object
    | some value => visits missing m.expected value ++
        entityVisits missing rest (assign m.held (filled m.expected value) object)

def allFilled : List Measure → List (String × Value) → List (String × Value)
  | [], object => object
  | m :: rest, object =>
    match object.lookup m.held with
    | none => allFilled rest object
    | some value => allFilled rest (assign m.held (filled m.expected value) object)

variable {missing : MissingUnitCode} {m : Measure} {ms : List Measure} {code key : String}
  {value value' : Value} {object : List (String × Value)} {noted : List String}

theorem lookup_assign (object : List (String × Value)) (a : String) :
    (assign key value object).lookup a =
      if a = key then (object.lookup key).map fun _ => value else object.lookup a := by
  induction object with
  | nil => simp [assign]
  | cons entry rest ih =>
    obtain ⟨k, v⟩ := entry
    rw [assign]
    by_cases hk : k = key
    · subst hk
      rw [if_pos rfl, Assoc.lookup_cons, Assoc.lookup_cons, Assoc.lookup_cons, if_pos rfl]
      split_ifs <;> rfl
    · rw [if_neg hk, Assoc.lookup_cons, Assoc.lookup_cons, Assoc.lookup_cons, ih,
        if_neg (Ne.symm hk)]
      split_ifs with ha ha' ha'
      · exact (hk (ha.symm.trans ha')).elim
      · rfl
      · rfl
      · rfl

theorem assign_eq_self : ∀ {object : List (String × Value)}, object.lookup key = some value →
    (assign key value' object = object ↔ value' = value)
  | (k, v) :: rest, h => by
    rw [Assoc.lookup_cons] at h
    rw [assign]
    split_ifs at h ⊢ with hk hk' hk'
    · cases h
      simp
    · exact (hk' hk.symm).elim
    · exact (hk hk'.symm).elim
    · rw [List.cons.injEq, and_iff_right rfl, assign_eq_self h]

/-- A value with every quantity stated stays as it is through every measure. -/
theorem lookup_checkMeasures (hs : ∀ code, filled code value = value) :
    ∀ (ms : List Measure) {object : List (String × Value)} (noted : List String),
      object.lookup key = some value →
      (checkMeasures missing ms object noted).1.lookup key = some value
  | [], _, _, h => h
  | m :: rest, object, noted, h => by
    rw [checkMeasures]
    cases hvalue : object.lookup m.held with
    | none => exact lookup_checkMeasures hs rest noted h
    | some value' =>
      dsimp only
      have hassign : (assign m.held (checkValue missing m value').1 object).lookup key =
          some value := by
        rw [lookup_assign]
        split_ifs with hkey
        · subst hkey
          rw [h] at hvalue
          cases hvalue
          rw [h, Option.map_some, checkValue_of_settled hs]
        · exact h
      cases hchecked : checkValue missing m value' with
      | mk left r =>
        rw [hchecked] at hassign
        cases r with
        | error refusal => exact hassign
        | ok added => exact lookup_checkMeasures hs rest _ hassign

theorem lookup_allFilled (hs : ∀ code, filled code value = value) :
    ∀ (ms : List Measure) {object : List (String × Value)},
      object.lookup key = some value → (allFilled ms object).lookup key = some value
  | [], _, h => h
  | m :: rest, object, h => by
    rw [allFilled]
    cases hvalue : object.lookup m.held with
    | none => exact lookup_allFilled hs rest h
    | some value' =>
      refine lookup_allFilled hs rest ?_
      rw [lookup_assign]
      split_ifs with hkey
      · subst hkey
        rw [h] at hvalue
        cases hvalue
        rw [h, Option.map_some, hs]
      · exact h

/-- What the measures of an entity come to. -/
theorem checkMeasures_spec : ∀ (ms : List Measure) (object : List (String × Value))
    (noted : List String), Spec (entityVisits missing ms object) object (allFilled ms object)
      (checkMeasures missing ms object noted).1 (checkMeasures missing ms object noted).2.2 ()
  | [], object, noted => ⟨fun _ => ⟨rfl, rfl⟩, by simp [entityVisits], fun _ => by
      simp [entityVisits, allFilled]⟩
  | m :: rest, object, noted => by
    rw [entityVisits, allFilled, checkMeasures]
    cases hvalue : object.lookup m.held with
    | none => exact checkMeasures_spec rest object noted
    | some value =>
      dsimp only
      have hspec := @checkValue_spec missing m value
      have hsettled : ∀ code, filled code (filled m.expected value) = filled m.expected value :=
        fun code => filled_filled _ _ _
      cases hchecked : checkValue missing m value with
      | mk left r =>
        rw [hchecked] at hspec
        cases r with
        | error refusal =>
          have hmem := hspec.refused_mem
          refine ⟨fun hnot => (hnot (List.mem_append_left _ hmem)).elim, fun _ => ⟨⟨_, rfl⟩, ?_⟩,
            fun hnot => (hnot (List.mem_append_left _ hmem)).elim⟩
          rw [assign_eq_self hvalue, (hspec.refused hmem).2, filledFirst_append]
          simp [hmem]
        | ok added =>
          have hbefore := hspec.refused_notMem
          obtain ⟨hleft, -⟩ := hspec.passed hbefore
          dsimp only at hleft
          subst hleft
          dsimp only
          have hrest := checkMeasures_spec rest
            (assign m.held (filled m.expected value) object)
            (if added = true ∧ m.note ∉ noted then noted ++ [m.note] else noted)
          have hlookup : (assign m.held (filled m.expected value) object).lookup m.held =
              some (filled m.expected value) := by
            rw [lookup_assign, if_pos rfl, hvalue, Option.map_some]
          have hmem : Visit.refused ∈ visits missing m.expected value ++ entityVisits missing rest
              (assign m.held (filled m.expected value) object) ↔
              Visit.refused ∈ entityVisits missing rest
                (assign m.held (filled m.expected value) object) := by
            simp [hbefore]
          -- A value that was filled stays another one to the end.
          by_cases hfilled : Visit.filled ∈ visits missing m.expected value
          · have hne := filled_ne value hfilled
            have hchanged : ∀ left : List (String × Value),
                left.lookup m.held = some (filled m.expected value) → left ≠ object := by
              rintro left hheld rfl
              rw [hvalue] at hheld
              exact hne (Option.some.inj hheld).symm
            have hleft := hchanged _ (@lookup_checkMeasures missing _ _ hsettled rest _
              (if added = true ∧ m.note ∉ noted then noted ++ [m.note] else noted) hlookup)
            have hfull := hchanged _ (lookup_allFilled hsettled rest hlookup)
            refine ⟨fun hnot => hrest.passed fun h => hnot (hmem.2 h), fun h =>
              ⟨(hrest.refused (hmem.1 h)).1, iff_of_false hleft fun hfirst => hfirst ?_⟩, fun _ =>
              iff_of_false hfull fun hnot => hnot (List.mem_append_left _ hfilled)⟩
            exact filledFirst_append.2 (Or.inl ((filledFirst_of_notMem hbefore).2 hfilled))
          · have hsame : assign m.held (filled m.expected value) object = object :=
              (assign_eq_self hvalue).2 ((hspec.full hbefore).2 hfilled)
            rw [hsame] at hrest hmem ⊢
            have hfirst : FilledFirst (visits missing m.expected value ++
                entityVisits missing rest object) ↔
                FilledFirst (entityVisits missing rest object) := by
              rw [filledFirst_append, filledFirst_of_notMem hbefore]
              simp [hfilled, hbefore]
            refine ⟨fun hnot => hrest.passed fun h => hnot (hmem.2 h), fun h => ?_, fun hnot => ?_⟩
            · rw [hfirst]
              exact hrest.refused (hmem.1 h)
            · rw [hrest.full fun h => hnot (hmem.2 h), List.mem_append, not_or,
                and_iff_right hfilled]

/-! ## Units carried -/

def isObject : Value → Bool
  | .obj _ => true
  | _ => false

/-- Whether a value is a list, and not the instances of an attribute. -/
def isList : Value → Bool
  | .arr items => !items.all isObject
  | _ => false

/-- An instance carries the code with the value that was sent; what is no quantity is as it was. -/
def CarriedOne (code : String) (value value' : Value) : Prop :=
  match value with
  | .null => value' = .null
  | .obj member =>
    if isQuantity member then
      value'.get "unitCode" = some (.str code) ∧ value'.get "value" = member.lookup "value"
    else value' = .obj member
  | value =>
    if value = .str NGSI_LD_NULL then value' = value
    else value'.get "unitCode" = some (.str code) ∧ value'.get "value" = some value

/-- Every instance of an attribute's value carries the code; a list is one value. -/
def Carried (code : String) (value value' : Value) : Prop :=
  match value with
  | .arr items =>
    if items.all isObject then
      ∃ items', value' = .arr items' ∧ List.Forall₂ (CarriedOne code) items items'
    else CarriedOne code (.arr items) value'
  | value => CarriedOne code value value'

theorem lookup_bareFilled (c : String) (bare : Value) :
    [("value", bare), ("unitCode", Value.str c)].lookup "type" = none ∧
    [("value", bare), ("unitCode", Value.str c)].lookup "value" = some bare ∧
    [("value", bare), ("unitCode", Value.str c)].lookup "unitCode" = some (.str c) :=
  ⟨rfl, rfl, rfl⟩

theorem visits_bareFilled {c : String} {bare : Value} (hnull : bare ≠ .str NGSI_LD_NULL) :
    visits missing code (bareFilled c bare) = if c = code then [] else [.refused] := by
  have hquantity : isQuantity [("value", bare), ("unitCode", .str c)] = true := by
    have hvalue : bare.asStr ≠ some NGSI_LD_NULL := by
      cases bare with
      | str s => simpa [Value.asStr] using hnull
      | _ => nofun
    obtain ⟨htype, hbare, -⟩ := lookup_bareFilled c bare
    simp [isQuantity, htype, hbare, hvalue]
  rw [bareFilled, visits, memberVisits, if_pos hquantity, (lookup_bareFilled c bare).2.2]
  simp

theorem code_of_bareFilled {c : String} {bare : Value} (hnull : bare ≠ .str NGSI_LD_NULL)
    (h : Visit.refused ∉ visits missing code (bareFilled c bare)) : c = code := by
  rw [visits_bareFilled hnull] at h
  by_contra hcode
  simp [hcode] at h

theorem isQuantity_put {c : String} {member : List (String × Value)} :
    isQuantity (Assoc.put "unitCode" (.str c) member) = isQuantity member := by
  simp [isQuantity, Assoc.lookup_put]

theorem visits_put {c : String} {member : List (String × Value)} (h : isQuantity member = true) :
    visits missing code (.obj (Assoc.put "unitCode" (.str c) member)) =
      if c = code then [] else [.refused] := by
  rw [visits, memberVisits, isQuantity_put, if_pos h, Assoc.lookup_put, if_pos rfl]
  simp

theorem carriedOne_bareFilled {c : String} {bare : Value} (hnull : bare ≠ .str NGSI_LD_NULL)
    (h : Visit.refused ∉ visits missing code (bareFilled c bare)) :
    (bareFilled c bare).get "unitCode" = some (.str code) ∧
      (bareFilled c bare).get "value" = some bare := by
  obtain rfl := code_of_bareFilled hnull h
  exact ⟨(lookup_bareFilled c bare).2.2, (lookup_bareFilled c bare).2.1⟩

/-- A filled instance that states no other code carries the code. -/
theorem carriedOne_filled {c : String} (harr : value.asArray = none)
    (h : Visit.refused ∉ visits missing code (filled c value)) :
    CarriedOne code value (filled c value) := by
  cases value with
  | null => rfl
  | arr items => cases harr
  | obj member =>
    unfold CarriedOne
    dsimp only
    rw [filled, memberFilled] at h ⊢
    by_cases hquantity : isQuantity member = true
    · rw [if_pos hquantity]
      cases hcode : member.lookup "unitCode" with
      | none =>
        rw [if_pos ⟨hquantity, hcode⟩, visits_put hquantity] at h
        rw [if_pos ⟨hquantity, rfl⟩]
        split_ifs at h with hc
        · simp [Assoc.lookup_put, hc]
        · simp at h
      | some other =>
        rw [if_neg (by simp [hcode]), visits, memberVisits, if_pos hquantity, hcode] at h
        rw [if_neg (by simp)]
        dsimp only at h
        split_ifs at h with hc
        · simp [hcode, hc]
        · simp at h
    · rw [if_neg hquantity, if_neg fun h => hquantity h.1]
  | str text =>
    unfold CarriedOne
    dsimp only
    rw [filled] at h ⊢
    by_cases hnull : text = NGSI_LD_NULL
    · rw [if_pos hnull, if_pos (congrArg _ hnull)]
    · rw [if_neg hnull] at h
      rw [if_neg hnull, if_neg fun heq => hnull (Value.str.inj heq)]
      exact carriedOne_bareFilled (fun heq => hnull (Value.str.inj heq)) h
  | bool b => exact carriedOne_bareFilled nofun h
  | num mantissa exponent => exact carriedOne_bareFilled nofun h

theorem carried_itemsFilled {c : String} : ∀ {items : List Value}, items.all isObject = true →
    Visit.refused ∉ itemVisits missing code (itemsFilled c items) →
    List.Forall₂ (CarriedOne code) items (itemsFilled c items)
  | [], _, _ => .nil
  | item :: rest, hall, h => by
    rw [List.all_cons, Bool.and_eq_true] at hall
    rw [itemsFilled, itemVisits, List.mem_append, not_or] at h
    rw [itemsFilled]
    refine .cons (carriedOne_filled ?_ h.1) (carried_itemsFilled hall.2 h.2)
    cases item <;> first | rfl | cases hall.1

/-- A filled value that is no list, and states no other code, carries the code. -/
theorem carried_filled {c : String} (hlist : isList value = false)
    (h : Visit.refused ∉ visits missing code (filled c value)) :
    Carried code value (filled c value) := by
  cases value with
  | arr items =>
    have hall : items.all isObject = true := by simpa [isList] using hlist
    unfold Carried
    dsimp only
    rw [if_pos hall, filled]
    rw [filled, visits] at h
    exact ⟨_, rfl, carried_itemsFilled hall h⟩
  | null => exact carriedOne_filled rfl h
  | obj _ => exact carriedOne_filled rfl h
  | str _ => exact carriedOne_filled rfl h
  | bool _ => exact carriedOne_filled rfl h
  | num _ _ => exact carriedOne_filled rfl h

/-- No list is filled as one value. -/
theorem not_carried_of_isList {c : String} (hlist : isList value = true) :
    ¬Carried code value (filled c value) := by
  cases value with
  | arr items =>
    have hall : ¬items.all isObject = true := by simpa [isList] using hlist
    unfold Carried CarriedOne
    dsimp only
    rw [if_neg hall, if_neg (by simp), filled]
    rintro ⟨hunit, -⟩
    cases hunit
  | _ => cases hlist

theorem filled_of_carriedOne {c : String} (h : CarriedOne code value value) :
    filled c value = value := by
  cases value with
  | null => rfl
  | arr items =>
    unfold CarriedOne at h
    dsimp only at h
    rw [if_neg nofun] at h
    cases h.1
  | obj member =>
    unfold CarriedOne at h
    dsimp only at h
    rw [filled, memberFilled]
    refine if_neg fun hnone => ?_
    rw [if_pos hnone.1, Value.get_obj, hnone.2] at h
    cases h.1
  | str text =>
    unfold CarriedOne at h
    dsimp only at h
    rw [filled]
    by_cases hnull : text = NGSI_LD_NULL
    · rw [if_pos hnull]
    · rw [if_neg fun heq => hnull (Value.str.inj heq)] at h
      cases h.1
  | bool b =>
    unfold CarriedOne at h
    dsimp only at h
    rw [if_neg nofun] at h
    cases h.1
  | num mantissa exponent =>
    unfold CarriedOne at h
    dsimp only at h
    rw [if_neg nofun] at h
    cases h.1

/-- A value that carries a code as it is has nothing to fill. -/
theorem filled_of_carried {c : String} (h : Carried code value value) :
    filled c value = value := by
  cases value with
  | arr items =>
    unfold Carried at h
    dsimp only at h
    split_ifs at h with hall
    · obtain ⟨items', heq, hcarried⟩ := h
      cases heq
      rw [filled, Value.arr.injEq]
      have hsame : ∀ {items items' : List Value}, List.Forall₂ (CarriedOne code) items items' →
          items = items' → itemsFilled c items = items := by
        intro items items' hcarried
        induction hcarried with
        | nil => exact fun _ => rfl
        | cons hitem _ ih =>
          intro heq
          obtain ⟨rfl, hrest⟩ := List.cons.inj heq
          rw [itemsFilled, filled_of_carriedOne hitem, ih hrest]
      exact hsame hcarried rfl
    · exact filled_of_carriedOne h
  | null => rfl
  | obj _ => exact filled_of_carriedOne h
  | str _ => exact filled_of_carriedOne h
  | bool _ => exact filled_of_carriedOne h
  | num _ _ => exact filled_of_carriedOne h

/-- What is filled carries the one code it was filled with. -/
theorem code_of_carriedOne {c : String} (h : CarriedOne code value (filled c value))
    (hne : filled c value ≠ value) : c = code := by
  have hbare : ∀ bare : Value,
      (bareFilled c bare).get "unitCode" = some (.str code) → c = code := fun bare h => by
    rw [bareFilled, Value.get_obj, (lookup_bareFilled c bare).2.2] at h
    exact Value.str.inj (Option.some.inj h)
  cases value with
  | null => exact (hne rfl).elim
  | arr items =>
    unfold CarriedOne at h
    dsimp only at h
    rw [if_neg nofun, filled] at h
    cases h.1
  | obj member =>
    unfold CarriedOne at h
    dsimp only at h
    rw [filled, memberFilled] at h hne
    split_ifs at h hne with hquantity hunstated
    · have hcode := h.1
      rw [Value.get_obj, Assoc.lookup_put, if_pos rfl] at hcode
      exact Value.str.inj (Option.some.inj hcode)
    · exact (hne rfl).elim
    · exact (hne h).elim
    · exact (hne rfl).elim
  | str text =>
    unfold CarriedOne at h
    dsimp only at h
    rw [filled] at h hne
    by_cases hnull : text = NGSI_LD_NULL
    · exact (hne (if_pos hnull)).elim
    · rw [if_neg fun heq => hnull (Value.str.inj heq), if_neg hnull] at h
      exact hbare _ h.1
  | bool b =>
    unfold CarriedOne at h
    dsimp only at h
    rw [if_neg nofun, filled] at h
    exact hbare _ h.1
  | num mantissa exponent =>
    unfold CarriedOne at h
    dsimp only at h
    rw [if_neg nofun, filled] at h
    exact hbare _ h.1

theorem code_of_carriedItems {c : String} : ∀ {items : List Value},
    List.Forall₂ (CarriedOne code) items (itemsFilled c items) → itemsFilled c items ≠ items →
    c = code
  | [], _, hne => (hne rfl).elim
  | item :: rest, h, hne => by
    rw [itemsFilled, List.forall₂_cons] at h
    by_cases hitem : filled c item = item
    · refine code_of_carriedItems h.2 fun hrest => hne ?_
      rw [itemsFilled, hitem, hrest]
    · exact code_of_carriedOne h.1 hitem

theorem code_of_carried {c : String} (h : Carried code value (filled c value))
    (hne : filled c value ≠ value) : c = code := by
  cases value with
  | arr items =>
    unfold Carried at h
    dsimp only at h
    split_ifs at h with hall
    · obtain ⟨items', heq, hcarried⟩ := h
      rw [filled] at heq hne
      cases heq
      exact code_of_carriedItems hcarried fun heq => hne (congrArg _ heq)
    · exact code_of_carriedOne h hne
  | null => exact (hne rfl).elim
  | obj member => exact @code_of_carriedOne code (.obj member) c h hne
  | str text => exact @code_of_carriedOne code (.str text) c h hne
  | bool b => exact @code_of_carriedOne code (.bool b) c h hne
  | num mantissa exponent => exact @code_of_carriedOne code (.num mantissa exponent) c h hne

mutual

/-- What a value was filled with is the one code it may state. -/
theorem code_of_filled_ne {c : String} : ∀ value : Value, filled c value ≠ value →
    Visit.refused ∉ visits missing code (filled c value) → c = code
  | .arr items, hne, h => by
    rw [filled, visits] at h
    rw [filled] at hne
    exact code_of_itemsFilled_ne items (fun heq => hne (congrArg _ heq)) h
  | .obj member, hne, h => by
    rw [filled, memberFilled] at h hne
    split_ifs at h hne with hunstated
    · rw [visits_put hunstated.1] at h
      by_contra hcode
      simp [hcode] at h
    · exact (hne rfl).elim
  | .null, hne, _ => (hne rfl).elim
  | .str text, hne, h => by
    rw [filled] at h hne
    split_ifs at h hne with hnull
    · exact (hne rfl).elim
    · exact code_of_bareFilled (fun heq => hnull (Value.str.inj heq)) h
  | .bool b, _, h => by
    rw [filled] at h
    refine code_of_bareFilled ?_ h
    exact nofun
  | .num mantissa exponent, _, h => by
    rw [filled] at h
    refine code_of_bareFilled ?_ h
    exact nofun

theorem code_of_itemsFilled_ne {c : String} : ∀ items : List Value, itemsFilled c items ≠ items →
    Visit.refused ∉ itemVisits missing code (itemsFilled c items) → c = code
  | [], hne, _ => (hne rfl).elim
  | item :: rest, hne, h => by
    rw [itemsFilled, itemVisits, List.mem_append, not_or] at h
    by_cases hitem : filled c item = item
    · refine code_of_itemsFilled_ne rest (fun hrest => hne ?_) h.2
      rw [itemsFilled, hitem, hrest]
    · exact code_of_filled_ne item hitem h.1

end

theorem notMem_visits_bareFilled {bare : Value} (hnull : bare ≠ .str NGSI_LD_NULL) :
    Visit.refused ∉ visits missing code (bareFilled code bare) := by
  rw [visits_bareFilled hnull, if_pos rfl]
  exact List.not_mem_nil

mutual

/-- A value that is not refused is not refused once it is filled. -/
theorem notMem_visits_filled : ∀ value : Value, Visit.refused ∉ visits missing code value →
    Visit.refused ∉ visits missing code (filled code value)
  | .arr items, h => by
    rw [visits] at h
    rw [filled, visits]
    exact notMem_itemVisits_filled items h
  | .obj member, h => by
    rw [filled, memberFilled]
    split_ifs with hunstated
    · rw [visits_put hunstated.1, if_pos rfl]
      exact List.not_mem_nil
    · exact h
  | .null, h => h
  | .str text, h => by
    rw [filled]
    split_ifs with hnull
    · exact h
    · exact notMem_visits_bareFilled fun heq => hnull (Value.str.inj heq)
  | .bool b, _ => by
    rw [filled]
    exact notMem_visits_bareFilled nofun
  | .num mantissa exponent, _ => by
    rw [filled]
    exact notMem_visits_bareFilled nofun

theorem notMem_itemVisits_filled : ∀ items : List Value,
    Visit.refused ∉ itemVisits missing code items →
    Visit.refused ∉ itemVisits missing code (itemsFilled code items)
  | [], h => h
  | item :: rest, h => by
    rw [itemVisits, List.mem_append, not_or] at h
    rw [itemsFilled, itemVisits, List.mem_append, not_or]
    exact ⟨notMem_visits_filled item h.1, notMem_itemVisits_filled rest h.2⟩

end

/-! ## An entity that is not refused -/

theorem lookup_allFilled_none : ∀ (ms : List Measure) {object : List (String × Value)},
    object.lookup key = none → (allFilled ms object).lookup key = none
  | [], _, h => h
  | m :: rest, object, h => by
    rw [allFilled]
    cases hvalue : object.lookup m.held with
    | none => exact lookup_allFilled_none rest h
    | some value =>
      refine lookup_allFilled_none rest ?_
      rw [lookup_assign]
      split_ifs with hkey
      · rw [← hkey, h, Option.map_none]
      · exact h

theorem lookup_allFilled_of_ne : ∀ (ms : List Measure) {object : List (String × Value)},
    (∀ m ∈ ms, m.held ≠ key) → (allFilled ms object).lookup key = object.lookup key
  | [], _, _ => rfl
  | m :: rest, object, h => by
    rw [List.forall_mem_cons] at h
    rw [allFilled]
    cases object.lookup m.held with
    | none => exact lookup_allFilled_of_ne rest h.2
    | some value =>
      dsimp only
      rw [lookup_allFilled_of_ne rest h.2, lookup_assign, if_neg (Ne.symm h.1)]

@[simp] theorem keys_assign (object : List (String × Value)) :
    (assign key value object).map Prod.fst = object.map Prod.fst := by
  induction object with
  | nil => rfl
  | cons entry rest ih =>
    rw [assign]
    split_ifs
    · rfl
    · rw [List.map_cons, List.map_cons, ih]

theorem keys_allFilled : ∀ (ms : List Measure) (object : List (String × Value)),
    (allFilled ms object).map Prod.fst = object.map Prod.fst
  | [], _ => rfl
  | m :: rest, object => by
    rw [allFilled]
    cases object.lookup m.held with
    | none => exact keys_allFilled rest object
    | some value =>
      dsimp only
      rw [keys_allFilled rest, keys_assign]

theorem keys_checkMeasures : ∀ (ms : List Measure) (object : List (String × Value))
    (noted : List String),
    (checkMeasures missing ms object noted).1.map Prod.fst = object.map Prod.fst
  | [], _, _ => rfl
  | m :: rest, object, noted => by
    rw [checkMeasures]
    cases object.lookup m.held with
    | none => exact keys_checkMeasures rest object noted
    | some value =>
      dsimp only
      cases checkValue missing m value with
      | mk left r =>
        cases r with
        | error refusal => exact keys_assign object
        | ok added =>
          dsimp only
          rw [keys_checkMeasures rest, keys_assign]

/-- A measured attribute is filled with the code of its first measure, and no measure of it
refuses what it then holds. -/
theorem lookup_of_notRefused : ∀ (ms : List Measure) {object : List (String × Value)},
    Visit.refused ∉ entityVisits missing ms object → ∀ m ∈ ms, ∀ value,
      object.lookup m.held = some value → ∃ first ∈ ms, first.held = m.held ∧
        (allFilled ms object).lookup m.held = some (filled first.expected value) ∧
        Visit.refused ∉ visits missing m.expected (filled first.expected value)
  | [], _, _, _, hm, _, _ => by cases hm
  | m₀ :: rest, object, h, m, hm, value, hvalue => by
    rw [entityVisits] at h
    rw [allFilled]
    cases hfirst : object.lookup m₀.held with
    | none =>
      rw [hfirst] at h
      have hm : m ∈ rest := (List.mem_cons.1 hm).resolve_left fun heq => by
        rw [heq, hfirst] at hvalue
        cases hvalue
      obtain ⟨first, hmem, hrest⟩ := lookup_of_notRefused rest h m hm value hvalue
      exact ⟨first, List.mem_cons_of_mem _ hmem, hrest⟩
    | some value₀ =>
      rw [hfirst] at h
      dsimp only at h ⊢
      rw [List.mem_append, not_or] at h
      by_cases hheld : m.held = m₀.held
      · rw [hheld, hfirst] at hvalue
        cases hvalue
        have hlookup : (assign m₀.held (filled m₀.expected value) object).lookup m₀.held =
            some (filled m₀.expected value) := by
          rw [lookup_assign, if_pos rfl, hfirst, Option.map_some]
        refine ⟨m₀, List.mem_cons_self, hheld.symm, ?_, ?_⟩
        · rw [hheld]
          exact lookup_allFilled (fun _ => filled_filled _ _ _) rest hlookup
        · rcases List.mem_cons.1 hm with rfl | hm
          · exact notMem_visits_filled value h.1
          · obtain ⟨first, -, -, -, hnot⟩ := lookup_of_notRefused rest h.2 m hm _
              (by rw [hheld]; exact hlookup)
            rwa [filled_filled] at hnot
      · have hm : m ∈ rest := (List.mem_cons.1 hm).resolve_left fun heq => hheld (by rw [heq])
        obtain ⟨first, hmem, hrest⟩ := lookup_of_notRefused rest h.2 m hm value
          (by rw [lookup_assign, if_neg hheld]; exact hvalue)
        exact ⟨first, List.mem_cons_of_mem _ hmem, hrest⟩

theorem nodup_noteOnce {p : Prop} [Decidable p] {note : String} {noted : List String}
    (h : noted.Nodup) : (if p ∧ note ∉ noted then noted ++ [note] else noted).Nodup := by
  split_ifs with hnew
  · rw [← List.concat_eq_append, List.nodup_concat]
    exact ⟨hnew.2, h⟩
  · exact h

theorem mem_noteOnce {p : Prop} [Decidable p] {note added : String} {noted : List String} :
    note ∈ (if p ∧ added ∉ noted then noted ++ [added] else noted) ↔
      note ∈ noted ∨ (p ∧ note = added) := by
  split_ifs with hnew
  · simp [hnew.1]
  · constructor
    · exact Or.inl
    · rintro (hnote | ⟨hp, rfl⟩)
      · exact hnote
      · by_contra hnot
        exact hnew ⟨hp, hnot⟩

/-- What is filled for a measure and those after it: its own attribute, and those of the others. -/
theorem changed_cons_iff {m₀ : Measure} {rest : List Measure} {object : List (String × Value)}
    {value : Value} (hfirst : object.lookup m₀.held = some value)
    (hsame : ∀ m ∈ m₀ :: rest, m.held = m₀.held → filled m₀.expected value ≠ value →
      m.note = m₀.note) (note : String) :
    ((filled m₀.expected value ≠ value ∧ note = m₀.note) ∨ ∃ m ∈ rest,
      (allFilled rest (assign m₀.held (filled m₀.expected value) object)).lookup m.held ≠
        (assign m₀.held (filled m₀.expected value) object).lookup m.held ∧ note = m.note) ↔
    ∃ m ∈ m₀ :: rest,
      (allFilled rest (assign m₀.held (filled m₀.expected value) object)).lookup m.held ≠
        object.lookup m.held ∧ note = m.note := by
  have hlookup : (assign m₀.held (filled m₀.expected value) object).lookup m₀.held =
      some (filled m₀.expected value) := by
    rw [lookup_assign, if_pos rfl, hfirst, Option.map_some]
  have hlast := lookup_allFilled (fun _ => filled_filled _ _ _) rest hlookup
  have hother : ∀ m : Measure, m.held ≠ m₀.held →
      (assign m₀.held (filled m₀.expected value) object).lookup m.held =
        object.lookup m.held := fun m hm => by
    rw [lookup_assign, if_neg hm]
  constructor
  · rintro (⟨hne, rfl⟩ | ⟨m, hm, hne, rfl⟩)
    · exact ⟨m₀, List.mem_cons_self, by rw [hlast, hfirst]; simpa using hne, rfl⟩
    · refine ⟨m, List.mem_cons_of_mem _ hm, ?_, rfl⟩
      by_cases hheld : m.held = m₀.held
      · rw [hheld, hlast, hlookup] at hne
        exact (hne rfl).elim
      · rwa [hother m hheld] at hne
  · rintro ⟨m, hm, hne, rfl⟩
    by_cases hheld : m.held = m₀.held
    · rw [hheld, hlast, hfirst] at hne
      have hne : filled m₀.expected value ≠ value := by simpa using hne
      exact Or.inl ⟨hne, hsame m hm hheld hne⟩
    · have hm := (List.mem_cons.1 hm).resolve_left fun heq => hheld (by rw [heq])
      exact Or.inr ⟨m, hm, by rwa [hother m hheld], rfl⟩

/-- The notes name the measures whose attributes were filled, each once. -/
theorem notes_spec : ∀ (ms : List Measure) {object : List (String × Value)} {noted : List String},
    Visit.refused ∉ entityVisits missing ms object → noted.Nodup →
      (checkMeasures missing ms object noted).2.1.Nodup ∧
      ∀ note, note ∈ (checkMeasures missing ms object noted).2.1 ↔ note ∈ noted ∨ ∃ m ∈ ms,
        (allFilled ms object).lookup m.held ≠ object.lookup m.held ∧ note = m.note
  | [], object, noted, _, hnodup => ⟨hnodup, by simp [checkMeasures]⟩
  | m₀ :: rest, object, noted, h, hnodup => by
    have hall := lookup_of_notRefused (m₀ :: rest) h
    rw [entityVisits] at h
    rw [checkMeasures]
    rw [allFilled] at hall ⊢
    cases hfirst : object.lookup m₀.held with
    | none =>
      rw [hfirst] at h hall
      obtain ⟨hnodup', hnotes⟩ := notes_spec rest h hnodup
      refine ⟨hnodup', fun note => (hnotes note).trans (or_congr_right ?_)⟩
      rw [List.exists_mem_cons_iff, or_iff_right]
      rintro ⟨hne, -⟩
      exact hne (by rw [lookup_allFilled_none rest hfirst, hfirst])
    | some value =>
      rw [hfirst] at h hall
      dsimp only at h hall ⊢
      rw [List.mem_append, not_or] at h
      have hspec := @checkValue_spec missing m₀ value
      obtain ⟨hleft, hanswer⟩ := hspec.passed h.1
      cases hchecked : checkValue missing m₀ value with
      | mk left r =>
        rw [hchecked] at hleft hanswer
        dsimp only at hleft hanswer
        subst hleft hanswer
        dsimp only
        -- A measure of the same attribute finds it filled, and in its own code.
        have hsame : ∀ m ∈ m₀ :: rest, m.held = m₀.held → filled m₀.expected value ≠ value →
            m.note = m₀.note := fun m hm hheld hne => by
          have hlookup : (assign m₀.held (filled m₀.expected value) object).lookup m₀.held =
              some (filled m₀.expected value) := by
            rw [lookup_assign, if_pos rfl, hfirst, Option.map_some]
          obtain ⟨first, -, -, hlookup', hnot⟩ := hall m hm value (hheld ▸ hfirst)
          rw [hheld, lookup_allFilled (fun _ => filled_filled _ _ _) rest hlookup] at hlookup'
          rw [← Option.some.inj hlookup'] at hnot
          rw [Measure.note, Measure.note, hheld, code_of_filled_ne value hne hnot]
        have hadded : Visit.filled ∈ visits missing m₀.expected value ↔
            filled m₀.expected value ≠ value := by
          rw [ne_eq, hspec.full h.1, not_not]
        have hnew := @nodup_noteOnce
          (decide (Visit.filled ∈ visits missing m₀.expected value) = true) _ m₀.note noted hnodup
        obtain ⟨hnodup', hnotes⟩ := notes_spec rest h.2 hnew
        refine ⟨hnodup', fun note => (hnotes note).trans ?_⟩
        rw [mem_noteOnce, decide_eq_true_iff, hadded, or_assoc]
        exact or_congr_right (changed_cons_iff hfirst hsame note)

end Entities

section Payloads

/-! ## The quantities of a payload -/

variable (rules : UnitRules) (shape : Shape)

def measuresOf : Value → List Measure
  | .obj object => measures rules shape object
  | _ => []

def visitsOf : Value → List Visit
  | .obj object => entityVisits rules.missing (measures rules shape object) object
  | _ => []

def fillEntity : Value → Value
  | .obj object => .obj (allFilled (measures rules shape object) object)
  | entity => entity

/-- The entities of a payload. -/
def entities (payload : Value) : List Value :=
  match shape.targeted with
  | some held => [.obj [(held, payload)]]
  | none =>
    match payload with
    | .arr entities => entities
    | entity => [entity]

def fillPayload (payload : Value) : Value :=
  match shape.targeted with
  | some held => ((fillEntity rules shape (.obj [(held, payload)])).get held).getD .null
  | none =>
    match payload with
    | .arr entities => .arr (entities.map (fillEntity rules shape))
    | entity => fillEntity rules shape entity

variable {rules : UnitRules} {shape : Shape}

theorem checkEntity_spec (entity : Value) (noted : List String) :
    Spec (visitsOf rules shape entity) entity (fillEntity rules shape entity)
      (checkEntity rules shape entity noted).1 (checkEntity rules shape entity noted).2.2 () := by
  cases entity with
  | obj object => exact (checkMeasures_spec _ object noted).inj fun _ _ => Value.obj.inj
  | null => exact ⟨fun _ => ⟨rfl, rfl⟩, by simp [visitsOf], by simp [visitsOf, fillEntity]⟩
  | bool _ => exact ⟨fun _ => ⟨rfl, rfl⟩, by simp [visitsOf], by simp [visitsOf, fillEntity]⟩
  | num _ _ => exact ⟨fun _ => ⟨rfl, rfl⟩, by simp [visitsOf], by simp [visitsOf, fillEntity]⟩
  | str _ => exact ⟨fun _ => ⟨rfl, rfl⟩, by simp [visitsOf], by simp [visitsOf, fillEntity]⟩
  | arr _ => exact ⟨fun _ => ⟨rfl, rfl⟩, by simp [visitsOf], by simp [visitsOf, fillEntity]⟩

theorem checkEntities_spec : ∀ (es : List Value) (noted : List String),
    Spec (es.flatMap (visitsOf rules shape)) es (es.map (fillEntity rules shape))
      (checkEntities rules shape es noted).1 (checkEntities rules shape es noted).2.2 ()
  | [], _ => ⟨fun _ => ⟨rfl, rfl⟩, by simp, by simp⟩
  | entity :: rest, noted => by
    have hentity := @checkEntity_spec rules shape entity noted
    rw [checkEntities, List.flatMap_cons, List.map_cons]
    rcases hchecked : checkEntity rules shape entity noted with ⟨left, noted', r⟩
    rw [hchecked] at hentity
    cases r with
    | error refusal => exact hentity.cons_error
    | ok done => exact hentity.cons_ok (checkEntities_spec rest noted')

/-- The notes of an entity name the quantities of it that were filled. -/
theorem notes_checkEntity (entity : Value) {noted : List String}
    (h : Visit.refused ∉ visitsOf rules shape entity) (hnodup : noted.Nodup) :
    (checkEntity rules shape entity noted).2.1.Nodup ∧
      ∀ note, note ∈ (checkEntity rules shape entity noted).2.1 ↔ note ∈ noted ∨
        ∃ m ∈ measuresOf rules shape entity,
          (fillEntity rules shape entity).get m.held ≠ entity.get m.held ∧ note = m.note := by
  cases entity with
  | obj object => exact notes_spec _ h hnodup
  | null => exact ⟨hnodup, by simp [checkEntity, measuresOf]⟩
  | bool _ => exact ⟨hnodup, by simp [checkEntity, measuresOf]⟩
  | num _ _ => exact ⟨hnodup, by simp [checkEntity, measuresOf]⟩
  | str _ => exact ⟨hnodup, by simp [checkEntity, measuresOf]⟩
  | arr _ => exact ⟨hnodup, by simp [checkEntity, measuresOf]⟩

theorem notes_checkEntities : ∀ (es : List Value) {noted : List String},
    Visit.refused ∉ es.flatMap (visitsOf rules shape) → noted.Nodup →
      (checkEntities rules shape es noted).2.1.Nodup ∧
      ∀ note, note ∈ (checkEntities rules shape es noted).2.1 ↔ note ∈ noted ∨
        ∃ entity ∈ es, ∃ m ∈ measuresOf rules shape entity,
          (fillEntity rules shape entity).get m.held ≠ entity.get m.held ∧ note = m.note
  | [], _, _, hnodup => ⟨hnodup, by simp [checkEntities]⟩
  | entity :: rest, noted, h, hnodup => by
    rw [List.flatMap_cons, List.mem_append, not_or] at h
    have hspec := @checkEntity_spec rules shape entity noted
    obtain ⟨hnodup', hnotes⟩ := notes_checkEntity entity h.1 hnodup
    rw [checkEntities]
    rcases hchecked : checkEntity rules shape entity noted with ⟨left, noted', r⟩
    rw [hchecked] at hspec hnodup' hnotes
    obtain ⟨-, hr⟩ := hspec.passed h.1
    dsimp only at hr
    subst hr
    obtain ⟨hnodup'', hrest⟩ := notes_checkEntities rest h.2 hnodup'
    refine ⟨hnodup'', fun note => (hrest note).trans ?_⟩
    rw [hnotes, or_assoc, List.exists_mem_cons_iff]

theorem eq_singleton_of_keys {held : String} {object : List (String × Value)}
    (h : object.map Prod.fst = [held]) :
    object = [(held, ((Value.obj object).get held).getD .null)] := by
  match object, h with
  | [(k, v)], h =>
    obtain rfl : k = held := by simpa using h
    rw [Value.get_obj, Assoc.lookup_cons, if_pos rfl]
    rfl

theorem entities_fillPayload (payload : Value) : entities shape (fillPayload rules shape payload) =
    (entities shape payload).map (fillEntity rules shape) := by
  unfold entities fillPayload
  cases shape.targeted with
  | some held =>
    dsimp only
    rw [List.map_singleton, fillEntity]
    rw [← eq_singleton_of_keys (keys_allFilled _ _)]
  | none =>
    cases payload with
    | obj object => rfl
    | _ => rfl

theorem measures_of_isEmpty (h : rules.byClass.isEmpty = true) (object : List (String × Value)) :
    measures rules shape object = [] := by
  have hclass : ∀ className, rules.ofClass className = none := fun className => by
    rw [UnitRules.ofClass, List.isEmpty_iff.1 h]
    rfl
  simp [measures, hclass]

theorem visitsOf_of_isEmpty (h : rules.byClass.isEmpty = true) (entity : Value) :
    visitsOf rules shape entity = [] := by
  cases entity with
  | obj object => rw [visitsOf, measures_of_isEmpty h, entityVisits]
  | _ => rfl

theorem fillEntity_of_isEmpty (h : rules.byClass.isEmpty = true) (entity : Value) :
    fillEntity rules shape entity = entity := by
  cases entity with
  | obj object => rw [fillEntity, measures_of_isEmpty h, allFilled]
  | _ => rfl

theorem fillPayload_of_isEmpty (h : rules.byClass.isEmpty = true) (payload : Value) :
    fillPayload rules shape payload = payload := by
  unfold fillPayload
  cases shape.targeted with
  | some held =>
    dsimp only
    rw [fillEntity_of_isEmpty h, Value.get_obj, Assoc.lookup_cons, if_pos rfl]
    rfl
  | none =>
    cases payload with
    | arr es =>
      dsimp only
      rw [List.map_congr_left fun e _ => fillEntity_of_isEmpty h e, List.map_id']
    | _ => exact fillEntity_of_isEmpty h _

/-- A payload that is an attribute's own value comes to what the object around it comes to. -/
theorem Spec.targeted {β : Type} {held : String} {payload full left v v' : Value}
    {vs : List Visit} {r : Except UnitRefusal β} {x : β}
    (h : Spec vs (.obj [(held, payload)]) full left r x)
    (hleft : left = .obj [(held, v)]) (hfull : full = .obj [(held, v')]) :
    Spec vs payload v' v r x := by
  subst hleft hfull
  have hobj : ∀ v v' : Value, Value.obj [(held, v)] = .obj [(held, v')] ↔ v = v' := fun v v' => by
    simp
  refine ⟨fun hnot => ?_, fun hmem => ?_, fun hnot => ?_⟩
  · rw [← hobj]
    exact h.passed hnot
  · rw [← hobj]
    exact h.refused hmem
  · rw [← hobj]
    exact h.full hnot

/-- What a payload comes to. -/
theorem enforce_spec (payload : Value) :
    Spec ((entities shape payload).flatMap (visitsOf rules shape)) payload
      (fillPayload rules shape payload) (enforce rules shape payload).1
      ((enforce rules shape payload).2.map fun _ => ()) () := by
  unfold enforce
  split_ifs with hempty
  · rw [fillPayload_of_isEmpty hempty]
    have hnone : (entities shape payload).flatMap (visitsOf rules shape) = [] := by
      simp [visitsOf_of_isEmpty hempty]
    rw [hnone]
    exact ⟨fun _ => ⟨rfl, rfl⟩, by simp, by simp⟩
  · unfold entities fillPayload
    cases shape.targeted with
    | some held =>
      dsimp only
      rw [List.flatMap_singleton]
      refine ((checkEntity_spec _ []).targeted ?_ ?_).map.map
      · exact congrArg Value.obj (eq_singleton_of_keys (keys_checkMeasures _ _ _))
      · exact congrArg Value.obj (eq_singleton_of_keys (keys_allFilled _ _))
    | none =>
      cases payload with
      | arr es => exact ((checkEntities_spec es []).inj fun _ _ => Value.arr.inj).map.map
      | _ =>
        dsimp only
        rw [List.flatMap_singleton]
        exact (checkEntity_spec _ []).map.map

/-- The notes of a payload that is not refused name the quantities that were filled, each once. -/
theorem notes_enforce {payload : Value} {noted : List String}
    (h : Visit.refused ∉ (entities shape payload).flatMap (visitsOf rules shape))
    (hnoted : (enforce rules shape payload).2 = .ok noted) :
    noted.Nodup ∧ ∀ note, note ∈ noted ↔ ∃ entity ∈ entities shape payload,
      ∃ m ∈ measuresOf rules shape entity,
        (fillEntity rules shape entity).get m.held ≠ entity.get m.held ∧ note = m.note := by
  unfold enforce at hnoted
  split_ifs at hnoted with hempty
  · cases hnoted
    refine ⟨List.nodup_nil, ?_⟩
    simp [fillEntity_of_isEmpty hempty]
  · unfold entities at h ⊢
    cases htargeted : shape.targeted with
    | some held =>
      rw [htargeted] at h hnoted
      dsimp only at h hnoted ⊢
      rw [List.flatMap_singleton] at h
      obtain ⟨hnodup, hnotes⟩ := notes_checkEntity _ h List.nodup_nil
      rw [((checkEntity_spec _ []).passed h).2] at hnoted
      cases hnoted
      refine ⟨hnodup, fun note => (hnotes note).trans ?_⟩
      simp
    | none =>
      rw [htargeted] at h hnoted
      cases payload with
      | arr es =>
        obtain ⟨hnodup, hnotes⟩ := notes_checkEntities es h List.nodup_nil
        dsimp only at hnoted
        rw [((checkEntities_spec es []).passed h).2] at hnoted
        cases hnoted
        refine ⟨hnodup, fun note => (hnotes note).trans ?_⟩
        simp
      | _ =>
        dsimp only at h hnoted ⊢
        rw [List.flatMap_singleton] at h
        obtain ⟨hnodup, hnotes⟩ := notes_checkEntity _ h List.nodup_nil
        rw [((checkEntity_spec _ []).passed h).2] at hnoted
        cases hnoted
        refine ⟨hnodup, fun note => (hnotes note).trans ?_⟩
        simp

end Payloads

section Claims

variable {rules : UnitRules} {shape : Shape} {payload : Value} {m : Measure} {key : String}
  {value : Value}

/-- What the units of a write come to that is let through: every measured attribute carries its
code under every name of it, with the value that was sent, and the notes are the quantities that a
code was put in, each once. -/
structure Enforced (rules : UnitRules) (shape : Shape) (payload left : Value)
    (noted : List String) : Prop where
  units : List.Forall₂ (fun entity entity' => ∀ m ∈ measuresOf rules shape entity,
    ∀ key value, entity.get key = some value → names key m.held →
      ∃ value', entity'.get key = some value' ∧ Carried m.expected value value')
    (entities shape payload) (entities shape left)
  nodup : noted.Nodup
  noted : ∀ note, note ∈ noted ↔
    ∃ pair ∈ (entities shape payload).zip (entities shape left),
      ∃ m ∈ measuresOf rules shape pair.1,
        pair.2.get m.held ≠ pair.1.get m.held ∧ note = m.note

/-- A write is let through with its units, or refused and as it was. -/
def Whole (rules : UnitRules) (shape : Shape) (payload : Value) : Prop :=
  match enforce rules shape payload with
  | (left, .ok noted) => Enforced rules shape payload left noted
  | (left, .error _) => left = payload

/-- The payloads whose units are enforced whole: nothing is filled before what is refused, no
measured value is a list, and another spelling of a measured name has its code already, unless the
model measures that very name in it as well. -/
structure Kept (rules : UnitRules) (shape : Shape) (payload : Value) : Prop where
  refused : Visit.refused ∈ (entities shape payload).flatMap (visitsOf rules shape) →
    ¬FilledFirst ((entities shape payload).flatMap (visitsOf rules shape))
  lists : Visit.refused ∉ (entities shape payload).flatMap (visitsOf rules shape) →
    ∀ entity ∈ entities shape payload, ∀ m ∈ measuresOf rules shape entity, ∀ value,
      entity.get m.held = some value → isList value = false
  spellings : Visit.refused ∉ (entities shape payload).flatMap (visitsOf rules shape) →
    ∀ entity ∈ entities shape payload, ∀ m ∈ measuresOf rules shape entity, ∀ key value,
      entity.get key = some value → names key m.held → key ≠ m.held →
        Carried m.expected value value ∨
          ∃ m' ∈ measuresOf rules shape entity, m'.held = key ∧ m'.expected = m.expected

theorem names_self (held : String) : names held held = true := by
  have hstrip : Text.stripSuffix held held = some "" := Text.stripSuffix_eq_some.2 (by simp)
  simp [names, hstrip]

/-- A measured attribute of an entity that is not refused holds the code of its first measure. -/
theorem get_fillEntity {entity : Value} (h : Visit.refused ∉ visitsOf rules shape entity)
    (hm : m ∈ measuresOf rules shape entity) (hvalue : entity.get m.held = some value) :
    ∃ first ∈ measuresOf rules shape entity, first.held = m.held ∧
      (fillEntity rules shape entity).get m.held = some (filled first.expected value) ∧
      Visit.refused ∉ visits rules.missing m.expected (filled first.expected value) := by
  cases entity with
  | obj object => exact lookup_of_notRefused _ h m hm value hvalue
  | _ => cases hm

theorem get_fillEntity_of_ne {entity : Value}
    (h : ∀ m ∈ measuresOf rules shape entity, m.held ≠ key) :
    (fillEntity rules shape entity).get key = entity.get key := by
  cases entity with
  | obj object => exact lookup_allFilled_of_ne _ h
  | _ => rfl

/-- An entity that is not refused carries its units exactly under the kept spellings. -/
theorem units_iff {entity : Value} (h : Visit.refused ∉ visitsOf rules shape entity) :
    (∀ m ∈ measuresOf rules shape entity, ∀ key value, entity.get key = some value →
      names key m.held → ∃ value', (fillEntity rules shape entity).get key = some value' ∧
        Carried m.expected value value') ↔
    (∀ m ∈ measuresOf rules shape entity, ∀ value, entity.get m.held = some value →
      isList value = false) ∧
    ∀ m ∈ measuresOf rules shape entity, ∀ key value, entity.get key = some value →
      names key m.held → key ≠ m.held → Carried m.expected value value ∨
        ∃ m' ∈ measuresOf rules shape entity, m'.held = key ∧ m'.expected = m.expected := by
  constructor
  · intro hunits
    refine ⟨fun m hm value hvalue => ?_, fun m hm key value hvalue hnames _ => ?_⟩
    · obtain ⟨value', hvalue', hcarried⟩ := hunits m hm m.held value hvalue (names_self _)
      obtain ⟨first, -, -, hfilled, -⟩ := get_fillEntity h hm hvalue
      rw [hfilled] at hvalue'
      cases hvalue'
      by_contra hlist
      exact not_carried_of_isList (by simpa using hlist) hcarried
    · obtain ⟨value', hvalue', hcarried⟩ := hunits m hm key value hvalue hnames
      by_cases hmeasured : ∀ m' ∈ measuresOf rules shape entity, m'.held ≠ key
      · rw [get_fillEntity_of_ne hmeasured, hvalue] at hvalue'
        cases hvalue'
        exact Or.inl hcarried
      · push Not at hmeasured
        obtain ⟨m', hm', rfl⟩ := hmeasured
        obtain ⟨first, hfirst, hheld, hfilled, -⟩ := get_fillEntity h hm' hvalue
        rw [hfilled] at hvalue'
        cases hvalue'
        by_cases hsame : filled first.expected value = value
        · rw [hsame] at hcarried
          exact Or.inl hcarried
        · exact Or.inr ⟨first, hfirst, hheld, code_of_carried hcarried hsame⟩
  · rintro ⟨hlists, hspellings⟩ m hm key value hvalue hnames
    -- A key that the model measures in the very code carries it once it is filled.
    have hexact : ∀ m' ∈ measuresOf rules shape entity, m'.held = key →
        m'.expected = m.expected → ∃ value', (fillEntity rules shape entity).get key =
          some value' ∧ Carried m.expected value value' := by
      rintro m' hm' rfl hcode
      obtain ⟨first, -, -, hfilled, hnot⟩ := get_fillEntity h hm' hvalue
      rw [hcode] at hnot
      exact ⟨_, hfilled, carried_filled (hlists m' hm' value hvalue) hnot⟩
    by_cases hkey : key = m.held
    · exact hexact m hm hkey.symm rfl
    · rcases hspellings m hm key value hvalue hnames hkey with hcarried | ⟨m', hm', hheld, hcode⟩
      · by_cases hmeasured : ∀ m' ∈ measuresOf rules shape entity, m'.held ≠ key
        · exact ⟨value, by rw [get_fillEntity_of_ne hmeasured, hvalue], hcarried⟩
        · push Not at hmeasured
          obtain ⟨m', hm', rfl⟩ := hmeasured
          obtain ⟨first, -, -, hfilled, -⟩ := get_fillEntity h hm' hvalue
          rw [filled_of_carried hcarried] at hfilled
          exact ⟨value, hfilled, hcarried⟩
      · exact hexact m' hm' hheld hcode

/-- The units of a write are enforced whole exactly where they are kept. -/
theorem whole_iff (rules : UnitRules) (shape : Shape) (payload : Value) :
    Whole rules shape payload ↔ Kept rules shape payload := by
  have hspec := @enforce_spec rules shape payload
  unfold Whole
  rcases henforce : enforce rules shape payload with ⟨left, r⟩
  rw [henforce] at hspec
  by_cases hrefused : Visit.refused ∈ (entities shape payload).flatMap (visitsOf rules shape)
  · obtain ⟨⟨refusal, hr⟩, hleft⟩ := hspec.refused hrefused
    cases r with
    | ok noted => cases hr
    | error refusal' =>
      exact hleft.trans ⟨fun hfirst => ⟨fun _ => hfirst, fun hnot => (hnot hrefused).elim,
        fun hnot => (hnot hrefused).elim⟩, fun hkept => hkept.refused hrefused⟩
  · obtain ⟨hleft, hr⟩ := hspec.passed hrefused
    cases r with
    | error refusal => cases hr
    | ok noted =>
      dsimp only at hleft ⊢
      obtain ⟨hnodup, hnotes⟩ := notes_enforce hrefused (congrArg Prod.snd henforce)
      have hentity : ∀ entity ∈ entities shape payload,
          Visit.refused ∉ visitsOf rules shape entity := fun entity hmem hvisit =>
        hrefused (List.mem_flatMap.2 ⟨entity, hmem, hvisit⟩)
      have hzip : (entities shape payload).zip (entities shape left) =
          (entities shape payload).map fun entity => (entity, fillEntity rules shape entity) := by
        rw [hleft, entities_fillPayload]
        have hmap := @List.zip_map' _ _ _ id (fillEntity rules shape) (entities shape payload)
        rwa [List.map_id] at hmap
      have hunits : List.Forall₂ (fun entity entity' => ∀ m ∈ measuresOf rules shape entity,
          ∀ key value, entity.get key = some value → names key m.held →
            ∃ value', entity'.get key = some value' ∧ Carried m.expected value value')
          (entities shape payload) (entities shape left) ↔
          ∀ entity ∈ entities shape payload, ∀ m ∈ measuresOf rules shape entity, ∀ key value,
            entity.get key = some value → names key m.held →
              ∃ value', (fillEntity rules shape entity).get key = some value' ∧
                Carried m.expected value value' := by
        rw [hleft, entities_fillPayload, List.forall₂_map_right_iff, List.forall₂_same]
      constructor
      · intro henforced
        have hkept := fun entity hmem =>
          (units_iff (hentity entity hmem)).1 (hunits.1 henforced.units entity hmem)
        exact ⟨fun hmem => (hrefused hmem).elim, fun _ entity hmem => (hkept entity hmem).1,
          fun _ entity hmem => (hkept entity hmem).2⟩
      · intro hkept
        refine ⟨hunits.2 fun entity hmem => (units_iff (hentity entity hmem)).2
          ⟨hkept.lists hrefused entity hmem, hkept.spellings hrefused entity hmem⟩, hnodup,
          fun note => (hnotes note).trans ?_⟩
        rw [hzip]
        simp

/-- A quantity under the IRI of its attribute, that states no unit. -/
def spelledOut : Value :=
  .obj [("https://x/pm10", .num 5 0), ("type", .str "AirQualityObserved")]

def airQuality : UnitRules := ⟨[("AirQualityObserved", [("pm10", "GQ")])], .fill⟩

/-- It is let through without one. -/
theorem spelled_out_unstated : ¬Whole airQuality {} spelledOut := by
  intro h
  have henforce : enforce airQuality {} spelledOut = (spelledOut, .ok []) := by rfl
  have hmeasured : measuresOf airQuality {} spelledOut =
      [⟨"AirQualityObserved", "pm10", "GQ"⟩] := by rfl
  have hentities : entities {} spelledOut = [spelledOut] := rfl
  unfold Whole at h
  rw [henforce] at h
  have hunits := h.units
  rw [hentities, List.forall₂_cons] at hunits
  obtain ⟨value', hvalue', hcarried⟩ := hunits.1 ⟨"AirQualityObserved", "pm10", "GQ"⟩
    (by rw [hmeasured]; exact List.mem_singleton_self _) "https://x/pm10" (.num 5 0) rfl
    (by decide)
  cases hvalue'
  cases hcarried.1

end Claims

end JoinedContext.Units

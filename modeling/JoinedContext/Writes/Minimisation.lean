import JoinedContext.Library.ListMaps
import JoinedContext.Writes.Ingest
import Mathlib.Logic.Function.Iterate

/-!
# What minimisation leaves of a value

Applied to an entity, the rules leave out the members some rule drops and hash each other member as
often as a rule names it. Once is what is meant: of a value with something to hash, hashing it again
is another value, unless the hash has a fixed point.
-/

namespace JoinedContext.Ingest

section Spec

variable (hmac : Hmac) (key : String)

/-- What is hashed of a value once it is. -/
def once (v : Value) : Value := if isNull v then v else digest hmac key v

mutual

/-- A value with what is hashed of it in place. -/
def pseudonym : Value → Value
  | .arr instances => .arr (pseudonymItems instances)
  | .obj members =>
    match members.lookup "value" with
    | none => .obj members
    | some inner =>
      if isNull inner then .obj members
      else .obj (Assoc.replace "value" (digest hmac key inner) members)
  | bare => once hmac key bare

def pseudonymItems : List Value → List Value
  | [] => []
  | v :: rest => pseudonym v :: pseudonymItems rest

end

mutual

/-- What is hashed of a value. -/
def leaves : Value → List Value
  | .arr instances => leavesItems instances
  | .obj members => (members.lookup "value").toList
  | bare => [bare]

def leavesItems : List Value → List Value
  | [] => []
  | v :: rest => leaves v ++ leavesItems rest

end

mutual

/-- Whether a value is a Property's, or several of them. -/
def fits : Value → Bool
  | .arr instances => fitsItems instances
  | .obj members =>
    ((members.lookup "type").bind Value.asStr).all (· = "Property") &&
      (members.lookup "value").isSome
  | _ => true

def fitsItems : List Value → Bool
  | [] => true
  | v :: rest => fits v && fitsItems rest

end

/-- Whether some rule drops the members of a name. -/
def dropped (rules : List (String × String)) (name : String) : Bool :=
  rules.any fun r => names name r.1 && r.2 = "drop"

/-- How many rules hash the members of a name. -/
def hashes (rules : List (String × String)) (name : String) : ℕ :=
  rules.countP fun r => names name r.1 && r.2 = "keyedHash"

/-- An entity without what its rules drop, and with what they hash hashed once. -/
def minimised (rules : List (String × String)) (object : List (String × Value)) :
    List (String × Value) :=
  object.filterMap fun m =>
    if dropped rules m.1 then none
    else some (m.1, if 0 < hashes rules m.1 then pseudonym hmac key m.2 else m.2)

variable (definitions : List (String × Value)) (shape : Shape)

/-- The entities of a payload, the attribute of the path as one. -/
def written (payload : Value) : List (List (String × Value)) :=
  match shape.targeted with
  | some name => [[(name, payload)]]
  | none =>
    match payload with
    | .arr many => many.filterMap Value.asObject
    | one => one.asObject.toList

def onEntity (f : List (String × String) → List (String × Value) → List (String × Value)) :
    Value → Value
  | .obj object => .obj (f (rulesOf definitions shape object) object)
  | other => other

/-- Whether a payload is another with its entities changed. -/
def Changed (f : List (String × String) → List (String × Value) → List (String × Value))
    (payload payload' : Value) : Prop :=
  match shape.targeted with
  | some name =>
    f (rulesOf definitions shape [(name, payload)]) [(name, payload)] = [(name, payload')]
  | none =>
    match payload with
    | .arr many => payload' = .arr (many.map (onEntity definitions shape f))
    | one => payload' = onEntity definitions shape f one

/-- Whether a rule may be applied to a member. -/
def Takes (key : Option String) (rule : String × String) (m : String × Value) : Prop :=
  names m.1 rule.1 = true →
    rule.2 = "drop" ∨ rule.2 = "keyedHash" ∧ key.isSome ∧ fits m.2 = true

/-- Whether a member goes through the rules: what is dropped meets no further rule. -/
def Accepted (key : Option String) : List (String × String) → String × Value → Prop
  | [], _ => True
  | rule :: rest, m =>
    Takes key rule m ∧ (¬ (names m.1 rule.1 = true ∧ rule.2 = "drop") → Accepted key rest m)

/-- Whether a write is not refused. -/
def AcceptedWrite (key : Option String) (payload : Value) : Prop :=
  (∀ object ∈ written shape payload, ∀ m ∈ object,
    Accepted key (rulesOf definitions shape object) m) ∧
  ∀ name, shape.targeted = some name →
    dropped (rulesOf definitions shape [(name, payload)]) name = false

/-- Whether each member that no rule drops is hashed at most once, or holds nothing to hash. -/
def Once (payload : Value) : Prop :=
  ∀ object ∈ written shape payload, ∀ m ∈ object,
    dropped (rulesOf definitions shape object) m.1 = true ∨
      hashes (rulesOf definitions shape object) m.1 ≤ 1 ∨ ∀ v ∈ leaves m.2, isNull v = true

end Spec

section Values

variable {hmac : Hmac} {key name : String} {v v' : Value}

theorem bare_eq_ok : (∃ changed,
    (if isNull v then .ok (v, false) else .ok (digest hmac key v, true) :
      Except Refusal (Value × Bool)) = .ok (v', changed)) ↔ true = true ∧ v' = once hmac key v := by
  unfold once
  split_ifs <;> simp [eq_comm]

theorem member_eq_ok {members : List (String × Value)} :
    (∃ changed, hashed hmac key name (.obj members) = .ok (v', changed)) ↔
      fits (.obj members) = true ∧ v' = pseudonym hmac key (.obj members) := by
  rw [hashed, fits, pseudonym, Bool.and_eq_true]
  rcases hkind : (members.lookup "type").bind Value.asStr with _ | kind
  · rcases members.lookup "value" with _ | inner <;> simp
    split_ifs <;> simp [eq_comm]
  · by_cases hproperty : kind = "Property"
    · rcases members.lookup "value" with _ | inner <;> simp [hproperty]
      split_ifs <;> simp [eq_comm]
    · simp [hproperty]

mutual

theorem hashed_eq_ok : ∀ {v v' : Value}, (∃ changed, hashed hmac key name v = .ok (v', changed)) ↔
    fits v = true ∧ v' = pseudonym hmac key v
  | .arr instances, v' => by
    rw [hashed, fits, pseudonym]
    constructor
    · rintro ⟨changed, h⟩
      obtain ⟨⟨items, c⟩, hitems, h⟩ := bind_eq_ok.1 h
      obtain ⟨hfits, rfl⟩ := hashedItems_eq_ok.1 ⟨c, hitems⟩
      cases h
      exact ⟨hfits, rfl⟩
    · rintro ⟨hfits, rfl⟩
      obtain ⟨changed, hitems⟩ := hashedItems_eq_ok.2 ⟨hfits, rfl⟩
      exact ⟨changed, bind_eq_ok.2 ⟨_, hitems, rfl⟩⟩
  | .obj members, v' => member_eq_ok
  | .null, v' => bare_eq_ok (v := .null)
  | .bool b, v' => bare_eq_ok (v := .bool b)
  | .num m e, v' => bare_eq_ok (v := .num m e)
  | .str s, v' => bare_eq_ok (v := .str s)

theorem hashedItems_eq_ok : ∀ {l l' : List Value},
    (∃ changed, hashedItems hmac key name l = .ok (l', changed)) ↔
      fitsItems l = true ∧ l' = pseudonymItems hmac key l
  | [], l' => by
    simp [hashedItems, fitsItems, pseudonymItems, eq_comm]
  | v :: rest, l' => by
    rw [hashedItems, fitsItems, pseudonymItems, Bool.and_eq_true]
    constructor
    · rintro ⟨changed, h⟩
      obtain ⟨⟨v', c⟩, hv, h⟩ := bind_eq_ok.1 h
      obtain ⟨⟨rest', c'⟩, hrest, h⟩ := bind_eq_ok.1 h
      obtain ⟨hfits, rfl⟩ := hashed_eq_ok.1 ⟨c, hv⟩
      obtain ⟨hfitsRest, rfl⟩ := hashedItems_eq_ok.1 ⟨c', hrest⟩
      cases h
      exact ⟨⟨hfits, hfitsRest⟩, rfl⟩
    · rintro ⟨⟨hfits, hfitsRest⟩, rfl⟩
      obtain ⟨c, hv⟩ := hashed_eq_ok.2 ⟨hfits, rfl⟩
      obtain ⟨c', hrest⟩ := hashedItems_eq_ok.2 ⟨hfitsRest, rfl⟩
      exact ⟨_, bind_eq_ok.2 ⟨_, hv, bind_eq_ok.2 ⟨_, hrest, rfl⟩⟩⟩

end

theorem pseudonym_str (s : String) : pseudonym hmac key (.str s) = once hmac key (.str s) := rfl

mutual

theorem fits_pseudonym : ∀ v : Value, fits (pseudonym hmac key v) = fits v
  | .arr instances => by rw [pseudonym, fits, fits, fitsItems_pseudonymItems instances]
  | .obj members => by
    rw [pseudonym]
    rcases hvalue : members.lookup "value" with _ | inner
    · rfl
    · dsimp only
      split_ifs
      · rfl
      · rw [fits, fits, Assoc.lookup_replace, Assoc.lookup_replace, if_neg (by decide), if_pos rfl,
          Option.isSome_map]
  | .null => rfl
  | .bool b => rfl
  | .num m e => rfl
  | .str s => by
    rw [pseudonym_str, once]
    split_ifs <;> rfl

theorem fitsItems_pseudonymItems : ∀ l : List Value,
    fitsItems (pseudonymItems hmac key l) = fitsItems l
  | [] => rfl
  | v :: rest => by
    rw [pseudonymItems, fitsItems, fitsItems, fits_pseudonym v, fitsItems_pseudonymItems rest]

end

mutual

theorem leaves_pseudonym : ∀ v : Value,
    leaves (pseudonym hmac key v) = (leaves v).map (once hmac key)
  | .arr instances => by rw [pseudonym, leaves, leaves, leavesItems_pseudonymItems instances]
  | .obj members => by
    rw [pseudonym, leaves]
    rcases hvalue : members.lookup "value" with _ | inner
    · simp [leaves, hvalue]
    · dsimp only
      split_ifs with hnull
      · simp [leaves, hvalue, once, hnull]
      · simp [leaves, Assoc.lookup_replace, hvalue, once, hnull]
  | .null => rfl
  | .bool b => rfl
  | .num m e => rfl
  | .str s => by
    rw [pseudonym_str, once]
    split_ifs with hnull
    · simp [leaves, once, hnull]
    · simp [leaves, once, hnull, digest]

theorem leavesItems_pseudonymItems : ∀ l : List Value,
    leavesItems (pseudonymItems hmac key l) = (leavesItems l).map (once hmac key)
  | [] => rfl
  | v :: rest => by
    rw [pseudonymItems, leavesItems, leavesItems, leaves_pseudonym v,
      leavesItems_pseudonymItems rest, List.map_append]

end

mutual

/-- A value with nothing to hash stays as it is. -/
theorem pseudonym_of_null : ∀ {v : Value}, (∀ l ∈ leaves v, isNull l = true) →
    pseudonym hmac key v = v
  | .arr instances, h => by rw [pseudonym, pseudonymItems_of_null h]
  | .obj members, h => by
    rw [pseudonym]
    rcases hvalue : members.lookup "value" with _ | inner
    · rfl
    · dsimp only
      rw [if_pos (h inner (by simp [leaves, hvalue]))]
  | .null, _ => rfl
  | .bool b, h => absurd (h _ (List.mem_singleton_self _)) (by simp [isNull])
  | .num m e, h => absurd (h _ (List.mem_singleton_self _)) (by simp [isNull])
  | .str s, h => by
    rw [pseudonym_str, once, if_pos (h _ (List.mem_singleton_self _))]

theorem pseudonymItems_of_null : ∀ {l : List Value}, (∀ v ∈ leavesItems l, isNull v = true) →
    pseudonymItems hmac key l = l
  | [], _ => rfl
  | v :: rest, h => by
    rw [leavesItems, List.forall_mem_append] at h
    rw [pseudonymItems, pseudonym_of_null h.1, pseudonymItems_of_null h.2]

end

end Values

section Rules

variable {hmac : Hmac} {key : Option String} {rule : String × String}
  {rules : List (String × String)} {m : String × Value} {object object' : List (String × Value)}

/-- What a rule makes of a member it may be applied to. -/
def stepped (hmac : Hmac) (key : Option String) (rule : String × String) (m : String × Value) :
    Option (String × Value) :=
  if names m.1 rule.1 then
    if rule.2 = "drop" then none else some (m.1, pseudonym hmac (key.getD "") m.2)
  else some m

/-- What the rules make of a member: each hashes what the ones before made of it. -/
def treated (hmac : Hmac) (key : Option String) (rules : List (String × String))
    (m : String × Value) : Option (String × Value) :=
  if dropped rules m.1 then none
  else some (m.1, (pseudonym hmac (key.getD ""))^[hashes rules m.1] m.2)

theorem applyMember_eq_ok {o : Option (String × Value)} :
    (∃ changed, applyMember hmac key rule m = .ok (o, changed)) ↔
      Takes key rule m ∧ o = stepped hmac key rule m := by
  unfold applyMember stepped
  by_cases hnames : names m.1 rule.1 = true
  · rw [if_pos hnames, if_pos hnames]
    by_cases hdrop : rule.2 = "drop"
    · rw [if_pos hdrop, if_pos hdrop]
      constructor
      · rintro ⟨changed, h⟩
        cases h
        exact ⟨fun _ => Or.inl hdrop, rfl⟩
      · rintro ⟨-, rfl⟩
        exact ⟨true, rfl⟩
    rw [if_neg hdrop, if_neg hdrop]
    by_cases hhash : rule.2 = "keyedHash"
    · rw [if_pos hhash]
      rcases key with _ | key
      · refine iff_of_false (fun ⟨_, h⟩ => by cases h) fun ⟨htakes, _⟩ => ?_
        exact absurd ((htakes hnames).resolve_left hdrop).2.1 (by simp)
      · constructor
        · rintro ⟨changed, h⟩
          obtain ⟨⟨v, c⟩, hv, h⟩ := bind_eq_ok.1 h
          obtain ⟨hfits, rfl⟩ := hashed_eq_ok.1 ⟨c, hv⟩
          cases h
          exact ⟨fun _ => Or.inr ⟨hhash, rfl, hfits⟩, rfl⟩
        · rintro ⟨htakes, rfl⟩
          obtain ⟨-, -, hfits⟩ := (htakes hnames).resolve_left hdrop
          obtain ⟨c, hv⟩ := hashed_eq_ok.2 ⟨hfits, rfl⟩
          exact ⟨c, bind_eq_ok.2 ⟨_, hv, rfl⟩⟩
    · rw [if_neg hhash]
      refine iff_of_false (fun ⟨_, h⟩ => by cases h) fun ⟨htakes, _⟩ => ?_
      exact hhash ((htakes hnames).resolve_left hdrop).1
  · rw [if_neg hnames, if_neg hnames]
    constructor
    · rintro ⟨changed, h⟩
      cases h
      exact ⟨fun h => absurd h hnames, rfl⟩
    · rintro ⟨-, rfl⟩
      exact ⟨false, rfl⟩

theorem applyRule_eq_ok : ∀ {object object' : List (String × Value)},
    (∃ changed, applyRule hmac key rule object = .ok (object', changed)) ↔
      (∀ m ∈ object, Takes key rule m) ∧ object' = object.filterMap (stepped hmac key rule)
  | [], object' => by simp [applyRule, eq_comm]
  | m :: rest, object' => by
    rw [applyRule, List.forall_mem_cons]
    have hcons : (m :: rest).filterMap (stepped hmac key rule) =
        (stepped hmac key rule m).toList ++ rest.filterMap (stepped hmac key rule) := by
      rw [List.filterMap_cons]
      cases stepped hmac key rule m <;> rfl
    rw [hcons]
    constructor
    · rintro ⟨changed, h⟩
      obtain ⟨⟨o, c⟩, hm, h⟩ := bind_eq_ok.1 h
      obtain ⟨⟨rest', c'⟩, hrest, h⟩ := bind_eq_ok.1 h
      obtain ⟨htakes, rfl⟩ := applyMember_eq_ok.1 ⟨c, hm⟩
      obtain ⟨htakesRest, rfl⟩ := applyRule_eq_ok.1 ⟨c', hrest⟩
      cases h
      exact ⟨⟨htakes, htakesRest⟩, rfl⟩
    · rintro ⟨⟨htakes, htakesRest⟩, rfl⟩
      obtain ⟨c, hm⟩ := applyMember_eq_ok.2 ⟨htakes, rfl⟩
      obtain ⟨c', hrest⟩ := applyRule_eq_ok.2 ⟨htakesRest, rfl⟩
      exact ⟨_, bind_eq_ok.2 ⟨_, hm, bind_eq_ok.2 ⟨_, hrest, rfl⟩⟩⟩

/-- Hashing a member leaves it one that may be hashed. -/
theorem accepted_pseudonym {k : String} : ∀ {rules : List (String × String)} {m : String × Value},
    Accepted key rules (m.1, pseudonym hmac k m.2) ↔ Accepted key rules m
  | [], _ => Iff.rfl
  | rule :: rest, m => by
    unfold Accepted Takes
    have hrest : Accepted key rest (m.1, pseudonym hmac k m.2) ↔ Accepted key rest m :=
      accepted_pseudonym
    rw [hrest, fits_pseudonym]

theorem treated_cons (htakes : Takes key rule m) : treated hmac key (rule :: rules) m =
    (stepped hmac key rule m).bind (treated hmac key rules) := by
  unfold treated stepped dropped hashes
  rw [List.any_cons, List.countP_cons]
  by_cases hnames : names m.1 rule.1 = true
  · rw [if_pos hnames, hnames, Bool.true_and, Bool.true_and]
    by_cases hdrop : rule.2 = "drop"
    · rw [if_pos hdrop, decide_eq_true hdrop, Bool.true_or, if_pos rfl]
      rfl
    · have hhash := ((htakes hnames).resolve_left hdrop).1
      rw [if_neg hdrop, decide_eq_false hdrop, decide_eq_true hhash, Bool.false_or, if_pos rfl,
        Option.bind_some, Function.iterate_succ_apply]
  · rw [if_neg hnames, Bool.eq_false_iff.2 hnames, Bool.false_and, Bool.false_and, Bool.false_or,
      if_neg Bool.false_ne_true, Option.bind_some]
    rfl

theorem forall_stepped {P : String × Value → Prop}
    (hP : ∀ v, P (m.1, pseudonym hmac (key.getD "") v) ↔ P (m.1, v)) :
    (∀ m', stepped hmac key rule m = some m' → P m') ↔
      (¬ (names m.1 rule.1 = true ∧ rule.2 = "drop") → P m) := by
  unfold stepped
  split_ifs with hnames hdrop
  · simp [hnames, hdrop]
  · rw [imp_iff_right fun h => hdrop h.2, ← hP m.2]
    simp
  · rw [imp_iff_right fun h => hnames h.1]
    simp

theorem applyRules_eq_ok : ∀ {rules : List (String × String)}
    {object object' : List (String × Value)},
    (∃ changed, applyRules hmac key rules object = .ok (object', changed)) ↔
      (∀ m ∈ object, Accepted key rules m) ∧ object' = object.filterMap (treated hmac key rules)
  | [], object, object' => by
    have hsame : object.filterMap (treated hmac key []) = object := by
      exact filterMap_eq_self fun m _ => by simp [treated, dropped, hashes]
    rw [hsame]
    simp [applyRules, Accepted, eq_comm]
  | rule :: rest, object, object' => by
    rw [applyRules]
    have hfilter (htakes : ∀ m ∈ object, Takes key rule m) :
        object.filterMap (treated hmac key (rule :: rest)) =
          (object.filterMap (stepped hmac key rule)).filterMap (treated hmac key rest) := by
      rw [List.filterMap_filterMap]
      exact List.filterMap_congr fun m hm => treated_cons (htakes m hm)
    have haccepted : (∀ m ∈ object, Accepted key (rule :: rest) m) ↔
        (∀ m ∈ object, Takes key rule m) ∧
          ∀ m ∈ object.filterMap (stepped hmac key rule), Accepted key rest m := by
      show (∀ m ∈ object, Takes key rule m ∧
        (¬ (names m.1 rule.1 = true ∧ rule.2 = "drop") → Accepted key rest m)) ↔ _
      rw [forall₂_and, List.forall_mem_filterMap]
      refine and_congr_right fun _ => forall₂_congr fun m _ => ?_
      exact (forall_stepped fun v => accepted_pseudonym (m := (m.1, v))).symm
    constructor
    · rintro ⟨changed, h⟩
      obtain ⟨⟨mid, c⟩, hmid, h⟩ := bind_eq_ok.1 h
      obtain ⟨⟨last, c'⟩, hlast, h⟩ := bind_eq_ok.1 h
      obtain ⟨htakes, rfl⟩ := applyRule_eq_ok.1 ⟨c, hmid⟩
      obtain ⟨hrest, rfl⟩ := applyRules_eq_ok.1 ⟨c', hlast⟩
      cases h
      exact ⟨haccepted.2 ⟨htakes, hrest⟩, (hfilter htakes).symm⟩
    · rintro ⟨hall, rfl⟩
      obtain ⟨htakes, hrest⟩ := haccepted.1 hall
      obtain ⟨c, hmid⟩ := applyRule_eq_ok.2 ⟨htakes, rfl⟩
      obtain ⟨c', hlast⟩ := applyRules_eq_ok.2 ⟨hrest, rfl⟩
      exact ⟨_, bind_eq_ok.2 ⟨_, hmid, bind_eq_ok.2 ⟨_, hlast, by rw [hfilter htakes]; rfl⟩⟩⟩

end Rules

section Payloads

variable {hmac : Hmac} {key : Option String} {definitions : List (String × Value)} {shape : Shape}
  {f g : List (String × String) → List (String × Value) → List (String × Value)}

def treatedAll (hmac : Hmac) (key : Option String) (rules : List (String × String))
    (object : List (String × Value)) : List (String × Value) :=
  object.filterMap (treated hmac key rules)

theorem entity_eq_ok {v v' : Value} :
    (∃ changed, entity hmac key definitions shape v = .ok (v', changed)) ↔
      (∀ object, v.asObject = some object →
        ∀ m ∈ object, Accepted key (rulesOf definitions shape object) m) ∧
      v' = onEntity definitions shape (treatedAll hmac key) v := by
  cases v with
  | obj object =>
    rw [entity]
    constructor
    · rintro ⟨changed, h⟩
      obtain ⟨⟨object', c⟩, hobject, h⟩ := bind_eq_ok.1 h
      obtain ⟨haccepted, rfl⟩ := applyRules_eq_ok.1 ⟨c, hobject⟩
      cases h
      refine ⟨fun o ho => ?_, rfl⟩
      obtain rfl := Option.some.inj ho
      exact haccepted
    · rintro ⟨haccepted, rfl⟩
      obtain ⟨c, hobject⟩ := applyRules_eq_ok.2 ⟨haccepted object rfl, rfl⟩
      exact ⟨c, bind_eq_ok.2 ⟨_, hobject, rfl⟩⟩
  | _ => simp [entity, onEntity, Value.asObject, eq_comm]

theorem entities_eq_ok : ∀ {many many' : List Value},
    (∃ changed, entities hmac key definitions shape many = .ok (many', changed)) ↔
      (∀ object ∈ many.filterMap Value.asObject,
        ∀ m ∈ object, Accepted key (rulesOf definitions shape object) m) ∧
      many' = many.map (onEntity definitions shape (treatedAll hmac key))
  | [], many' => by simp [entities, eq_comm]
  | one :: rest, many' => by
    rw [entities, List.forall_mem_filterMap, List.forall_mem_cons, List.map_cons]
    constructor
    · rintro ⟨changed, h⟩
      obtain ⟨⟨one', c⟩, hone, h⟩ := bind_eq_ok.1 h
      obtain ⟨⟨rest', c'⟩, hrest, h⟩ := bind_eq_ok.1 h
      obtain ⟨haccepted, rfl⟩ := entity_eq_ok.1 ⟨c, hone⟩
      obtain ⟨hacceptedRest, rfl⟩ := entities_eq_ok.1 ⟨c', hrest⟩
      cases h
      exact ⟨⟨haccepted, List.forall_mem_filterMap.1 hacceptedRest⟩, rfl⟩
    · rintro ⟨⟨haccepted, hacceptedRest⟩, rfl⟩
      obtain ⟨c, hone⟩ := entity_eq_ok.2 ⟨haccepted, rfl⟩
      obtain ⟨c', hrest⟩ := entities_eq_ok.2 ⟨List.forall_mem_filterMap.2 hacceptedRest, rfl⟩
      exact ⟨_, bind_eq_ok.2 ⟨_, hone, bind_eq_ok.2 ⟨_, hrest, rfl⟩⟩⟩

/-- The attribute of the path comes out of its entity, unless it was dropped. -/
theorem treatedAll_single {rules : List (String × String)} {name : String} {payload : Value} :
    treatedAll hmac key rules [(name, payload)] = if dropped rules name then [] else
      [(name, (pseudonym hmac (key.getD ""))^[hashes rules name] payload)] := by
  unfold treatedAll
  rw [List.filterMap_cons, List.filterMap_nil, treated]
  split_ifs <;> rfl

theorem targeted_eq_ok {name : String} {payload payload' : Value}
    (htargeted : shape.targeted = some name) :
    (∃ changed, apply hmac key definitions shape payload = .ok (payload', changed)) ↔
      (∀ m ∈ [(name, payload)], Accepted key (rulesOf definitions shape [(name, payload)]) m) ∧
        treatedAll hmac key (rulesOf definitions shape [(name, payload)]) [(name, payload)] =
          [(name, payload')] := by
  unfold apply
  rw [htargeted]
  dsimp only
  constructor
  · rintro ⟨changed, h⟩
    obtain ⟨⟨wrapped, c⟩, hentity, h⟩ := bind_eq_ok.1 h
    obtain ⟨haccepted, rfl⟩ := entity_eq_ok.1 ⟨c, hentity⟩
    refine ⟨haccepted _ rfl, ?_⟩
    rw [onEntity, treatedAll_single] at h
    rw [treatedAll_single]
    split_ifs at h ⊢
    · cases h
    · simp [Value.get] at h
      cases h
      rfl
  · rintro ⟨haccepted, h⟩
    have hall : ∀ object, (Value.obj [(name, payload)]).asObject = some object →
        ∀ m ∈ object, Accepted key (rulesOf definitions shape object) m := by
      intro object hobject
      cases hobject
      exact haccepted
    obtain ⟨c, hentity⟩ := entity_eq_ok.2 ⟨hall, rfl⟩
    refine ⟨c, bind_eq_ok.2 ⟨_, hentity, ?_⟩⟩
    rw [onEntity, h]
    simp [Value.get]
    rfl

theorem apply_eq_ok {payload payload' : Value} :
    (∃ changed, apply hmac key definitions shape payload = .ok (payload', changed)) ↔
      AcceptedWrite definitions shape key payload ∧
        Changed definitions shape (treatedAll hmac key) payload payload' := by
  rcases htargeted : shape.targeted with _ | name
  · unfold apply AcceptedWrite Changed written
    rw [htargeted]
    cases payload with
    | arr many =>
      dsimp only
      constructor
      · rintro ⟨changed, h⟩
        obtain ⟨⟨many', c⟩, hmany, h⟩ := bind_eq_ok.1 h
        obtain ⟨haccepted, rfl⟩ := entities_eq_ok.1 ⟨c, hmany⟩
        cases h
        exact ⟨⟨haccepted, by simp⟩, rfl⟩
      · rintro ⟨⟨haccepted, -⟩, rfl⟩
        obtain ⟨c, hmany⟩ := entities_eq_ok.2 ⟨haccepted, rfl⟩
        exact ⟨c, bind_eq_ok.2 ⟨_, hmany, rfl⟩⟩
    | _ =>
      dsimp only
      rw [entity_eq_ok]
      simp
  · rw [targeted_eq_ok htargeted]
    unfold AcceptedWrite Changed written
    rw [htargeted]
    simp only [List.forall_mem_singleton]
    constructor
    · rintro ⟨haccepted, htreated⟩
      refine ⟨⟨haccepted, fun n hn => ?_⟩, htreated⟩
      cases hn
      rw [treatedAll_single] at htreated
      by_contra hdropped
      rw [if_pos (by simpa using hdropped)] at htreated
      cases htreated
    · rintro ⟨⟨haccepted, -⟩, htreated⟩
      exact ⟨haccepted, htreated⟩

theorem exists_changed {payload : Value} (hkept : ∀ name, shape.targeted = some name →
    dropped (rulesOf definitions shape [(name, payload)]) name = false) :
    ∃ payload', Changed definitions shape (treatedAll hmac key) payload payload' := by
  unfold Changed
  rcases htargeted : shape.targeted with _ | name
  · cases payload <;> exact ⟨_, rfl⟩
  · dsimp only
    rw [treatedAll_single, hkept name htargeted, if_neg Bool.false_ne_true]
    exact ⟨_, rfl⟩

/-- Two changes of the same payload are one where they change each entity alike. -/
theorem changed_congr {payload payload' : Value}
    (h : Changed definitions shape f payload payload') :
    Changed definitions shape g payload payload' ↔ ∀ object ∈ written shape payload,
      f (rulesOf definitions shape object) object =
        g (rulesOf definitions shape object) object := by
  unfold Changed written at *
  rcases htargeted : shape.targeted with _ | name
  · rw [htargeted] at h
    have hone : ∀ one : Value, onEntity definitions shape f one = onEntity definitions shape g one ↔
        ∀ object, one.asObject = some object →
          f (rulesOf definitions shape object) object =
            g (rulesOf definitions shape object) object := by
      intro one
      cases one <;> simp [onEntity, Value.asObject]
    cases payload with
    | arr many =>
      dsimp only at h ⊢
      rw [h, Value.arr.injEq, List.map_inj_left, List.forall_mem_filterMap]
      exact forall₂_congr fun one _ => hone one
    | _ =>
      dsimp only at h ⊢
      rw [h, hone]
      simp
  · rw [htargeted] at h
    dsimp only at h ⊢
    rw [List.forall_mem_singleton, h, eq_comm]

end Payloads

section Growing

/-- A hash longer than its text, of zeros. -/
def growing : Hmac := fun _ text => List.replicate (text.length + 1) 0

def zeros (n : ℕ) : Value := .str (String.ofList (List.replicate n '0'))

theorem zeros_injective : Function.Injective zeros := by
  intro m n h
  simpa using congrArg List.length (String.ofList_injective (Value.str.inj h))

variable {key : String} {v : Value}

theorem hex_growing (text : String) :
    hex (growing key text) = String.ofList (List.replicate (2 * (text.length + 1)) '0') := by
  have hpair : ∀ n : ℕ, (List.replicate n (0 : UInt8)).flatMap (fun b =>
      [Value.hexDigit (b.toNat / 16), Value.hexDigit (b.toNat % 16)]) =
        List.replicate (2 * n) '0' := by
    intro n
    induction n with
    | zero => rfl
    | succ n ih =>
      rw [List.replicate_succ, List.flatMap_cons, ih, Nat.mul_succ, Nat.add_comm (2 * n) 2,
        List.replicate_add]
      rfl
  rw [hex, growing, hpair]

theorem once_zeros (n : ℕ) : once growing key (zeros n) = zeros (2 * (n + 1)) := by
  have hnull : isNull (zeros n) = false := by
    rw [zeros, isNull, decide_eq_false_iff_not]
    intro h
    have hmem : 'u' ∈ (String.ofList (List.replicate n '0')).toList := by
      rw [h]
      decide
    simp at hmem
  rw [once, hnull, if_neg (by decide), digest, zeros, textOf, hex_growing]
  simp [zeros]

/-- However often it is hashed again, a hash only grows. -/
theorem iterate_once_zeros (k : ℕ) : ∀ n : ℕ, ∃ m, (once growing key)^[k] (zeros n) = zeros m ∧
    n + k ≤ m := by
  induction k with
  | zero => exact fun n => ⟨n, rfl, le_refl _⟩
  | succ k ih =>
    intro n
    obtain ⟨m, hm, hle⟩ := ih (2 * (n + 1))
    exact ⟨m, by rw [Function.iterate_succ_apply, once_zeros, hm], by omega⟩

theorem once_of_not_null (hnull : isNull v = false) : ∃ n, once growing key v = zeros n :=
  ⟨_, by rw [once, hnull, if_neg (by decide), digest, hex_growing, zeros]⟩

theorem leaves_iterate {hmac : Hmac} (k : ℕ) : ∀ v : Value,
    leaves ((pseudonym hmac key)^[k] v) = (leaves v).map (once hmac key)^[k] := by
  induction k with
  | zero => simp
  | succ k ih =>
    intro v
    rw [Function.iterate_succ_apply, ih, leaves_pseudonym, List.map_map, Function.iterate_succ]

/-- Hashing again changes a value with something to hash. -/
theorem null_of_iterate_eq {k : ℕ} (hk : 2 ≤ k)
    (h : (pseudonym growing key)^[k] v = pseudonym growing key v) :
    ∀ l ∈ leaves v, isNull l = true := by
  intro l hl
  by_contra hnull
  obtain ⟨n, hn⟩ : ∃ n, once growing key l = zeros n :=
    once_of_not_null (Bool.eq_false_iff.2 hnull)
  have hleaves : (leaves v).map (once growing key)^[k] = (leaves v).map (once growing key) := by
    rw [← leaves_iterate, h, leaves_pseudonym]
  have hsame := List.map_inj_left.1 hleaves l hl
  obtain ⟨j, rfl⟩ := Nat.exists_eq_add_of_le' (show 1 ≤ k by omega)
  rw [Function.iterate_succ_apply, hn] at hsame
  obtain ⟨m, hm, hle⟩ : ∃ m, (once growing key)^[j] (zeros n) = zeros m ∧ n + j ≤ m :=
    iterate_once_zeros j n
  have := zeros_injective (hm.symm.trans hsame)
  omega

end Growing

section Minimised

variable {hmac : Hmac} {key : Option String} {definitions : List (String × Value)} {shape : Shape}
  {rules : List (String × String)} {object : List (String × Value)}

/-- What the rules make of an entity is what is meant where each member left is hashed as meant. -/
theorem treatedAll_eq_minimised_iff :
    treatedAll hmac key rules object = minimised hmac (key.getD "") rules object ↔
      ∀ m ∈ object, dropped rules m.1 = true ∨
        (pseudonym hmac (key.getD ""))^[hashes rules m.1] m.2 =
          if 0 < hashes rules m.1 then pseudonym hmac (key.getD "") m.2 else m.2 := by
  unfold treatedAll minimised
  rw [filterMap_inj fun m _ => by unfold treated; split_ifs <;> simp]
  refine forall₂_congr fun m _ => ?_
  unfold treated
  split_ifs with hdropped hhashed hhashed <;> simp_all

theorem iterate_of_once {k : ℕ} {v : Value} (h : k ≤ 1 ∨ ∀ l ∈ leaves v, isNull l = true) :
    (pseudonym hmac (key.getD ""))^[k] v =
      if 0 < k then pseudonym hmac (key.getD "") v else v := by
  rcases h with hk | hnull
  · rcases Nat.le_one_iff_eq_zero_or_eq_one.1 hk with rfl | rfl <;> rfl
  · have hself : pseudonym hmac (key.getD "") v = v := pseudonym_of_null hnull
    rw [Function.iterate_fixed hself, hself, ite_self]

/-- Whatever the keyed hash is, a write that is not refused reaches the broker minimised once
exactly when each of its members that no rule drops is hashed by one rule at most, or holds nothing
to hash. -/
theorem minimises_iff (definitions : List (String × Value)) (shape : Shape) (key : Option String)
    (payload : Value) :
    (∀ hmac payload' changed, apply hmac key definitions shape payload = .ok (payload', changed) →
      Changed definitions shape (minimised hmac (key.getD "")) payload payload') ↔
    (AcceptedWrite definitions shape key payload → Once definitions shape payload) := by
  constructor
  · intro h haccepted object hobject m hm
    obtain ⟨payload', hchanged⟩ :
        ∃ payload', Changed definitions shape (treatedAll growing key) payload payload' :=
      exists_changed haccepted.2
    obtain ⟨changed, happly⟩ := apply_eq_ok.2 ⟨haccepted, hchanged⟩
    have hentity := (changed_congr hchanged).1 (h growing payload' changed happly) object hobject
    rcases (treatedAll_eq_minimised_iff.1 hentity) m hm with hdropped | hsame
    · exact Or.inl hdropped
    · refine Or.inr (or_iff_not_imp_left.2 fun hmany => ?_)
      rw [if_pos (by omega)] at hsame
      exact null_of_iterate_eq (by omega) hsame
  · intro h hmac payload' changed happly
    obtain ⟨haccepted, hchanged⟩ := apply_eq_ok.1 ⟨changed, happly⟩
    refine (changed_congr hchanged).2 fun object hobject => treatedAll_eq_minimised_iff.2 ?_
    intro m hm
    exact (h haccepted object hobject m hm).imp_right iterate_of_once

def bikeTrips : List (String × Value) :=
  [("BikeTrip", .obj [("properties", .obj [("rider", .obj [("x-ingest", .str "keyedHash")])])])]

/-- A trip that names its type twice. -/
def trip (rider : Value) : Value :=
  .obj [("id", .str "urn:ngsi-ld:BikeTrip:1"), ("rider", rider),
    ("type", .arr [.str "BikeTrip", .str "BikeTrip"])]

/-- The rider is hashed for each of the two types: what is stored is the hash of a hash. -/
theorem hashed_twice : ¬ ∀ hmac definitions shape key payload payload' changed,
    apply hmac key definitions shape payload = .ok (payload', changed) →
      Changed definitions shape (minimised hmac (key.getD "")) payload payload' := by
  intro h
  have htwice : apply growing (some "key") bikeTrips {} (trip (.str "anna")) =
    .ok (trip (zeros 22), true) := by rfl
  have honce : onEntity bikeTrips {} (minimised growing "key") (trip (.str "anna")) =
    trip (zeros 10) := by rfl
  have hsame : trip (zeros 22) = trip (zeros 10) := (h _ _ _ _ _ _ _ htwice).trans honce
  simp [trip] at hsame
  exact absurd (zeros_injective hsame) (by decide)

end Minimised

end JoinedContext.Ingest

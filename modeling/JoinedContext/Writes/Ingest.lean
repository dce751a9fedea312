import JoinedContext.Core.JsonText
import JoinedContext.Library.Assoc
import JoinedContext.Library.Outcome
import JoinedContext.Relationships.Targets

/-!
# Minimisation at ingest

What a write's entities become before the broker sees them: the attributes their classes drop are
left out, and those they hash hold the keyed hash of their value. The rules of the classes are
applied one after the other to what the ones before left, so a rule that comes twice hashes a hash.
-/

namespace JoinedContext.Ingest

open Relationships (typesOf localName)

section Source

/-- Why a write cannot reach the broker minimised. -/
inductive Refusal where
  | noKey («attribute» : String)
  | unknown («attribute» mode : String)
  | unfit («attribute» : String)
deriving DecidableEq

/-- Where in a write payload the entities are: the entity of the path, the attribute of the path. -/
structure Shape where
  addressed : Option String := none
  targeted : Option String := none

def NGSI_LD_NULL : String := "urn:ngsi-ld:null"

/-- Whether a key is a term, or an IRI or compact IRI that ends in it. -/
def names (name term : String) : Bool :=
  (Text.stripSuffix term name).any fun head => head = "" || Text.endsWithAny ['/', '#', ':'] head

/-- The attributes of a class that are not kept as they are, with what happens to them. -/
def ingest (definitions : List (String × Value)) (className : String) : List (String × String) :=
  let properties := ((definitions.lookup className).bind fun d => d.get "properties").bind
    Value.asObject
  (properties.getD []).filterMap fun p =>
    ((p.2.get "x-ingest").bind Value.asStr).bind fun mode =>
      if mode = "keep" then none else some (p.1, mode)

def isNull : Value → Bool
  | .null => true
  | .str s => s = NGSI_LD_NULL
  | _ => false

def hex (bytes : List UInt8) : String :=
  String.ofList (bytes.flatMap fun b =>
    [Value.hexDigit (b.toNat / 16), Value.hexDigit (b.toNat % 16)])

def textOf : Value → String
  | .str s => s
  | other => other.toText

/-- The keyed hash: the bytes for a key and a text. -/
abbrev Hmac := String → String → List UInt8

variable (hmac : Hmac)

def digest (key : String) (v : Value) : Value := .str (hex (hmac key (textOf v)))

mutual

/-- An attribute's value hashed, and whether it changed. -/
def hashed (key name : String) : Value → Except Refusal (Value × Bool)
  | .arr instances => do
    let (instances, changed) ← hashedItems key name instances
    return (.arr instances, changed)
  | .obj members =>
    if ((members.lookup "type").bind Value.asStr).any (· ≠ "Property") then .error (.unfit name)
    else
      match members.lookup "value" with
      | none => .error (.unfit name)
      | some inner =>
        if isNull inner then .ok (.obj members, false)
        else .ok (.obj (Assoc.replace "value" (digest hmac key inner) members), true)
  | bare => if isNull bare then .ok (bare, false) else .ok (digest hmac key bare, true)

def hashedItems (key name : String) : List Value → Except Refusal (List Value × Bool)
  | [] => .ok ([], false)
  | v :: rest => do
    let (v, changed) ← hashed key name v
    let (rest, changed') ← hashedItems key name rest
    return (v :: rest, changed || changed')

end

variable (key : Option String)

/-- One member of an entity under one rule. -/
def applyMember (rule : String × String) (m : String × Value) :
    Except Refusal (Option (String × Value) × Bool) :=
  if names m.1 rule.1 then
    if rule.2 = "drop" then .ok (none, true)
    else if rule.2 = "keyedHash" then
      match key with
      | none => .error (.noKey rule.1)
      | some key => do
        let (v, changed) ← hashed hmac key rule.1 m.2
        return (some (m.1, v), changed)
    else .error (.unknown rule.1 rule.2)
  else .ok (some m, false)

/-- The members of an entity under one rule, in the order of their names. -/
def applyRule (rule : String × String) :
    List (String × Value) → Except Refusal (List (String × Value) × Bool)
  | [] => .ok ([], false)
  | m :: rest => do
    let (m, changed) ← applyMember hmac key rule m
    let (rest, changed') ← applyRule rule rest
    return (m.toList ++ rest, changed || changed')

def applyRules : List (String × String) → List (String × Value) →
    Except Refusal (List (String × Value) × Bool)
  | [], object => .ok (object, false)
  | rule :: rest, object => do
    let (object, changed) ← applyRule hmac key rule object
    let (object, changed') ← applyRules rest object
    return (object, changed || changed')

variable (definitions : List (String × Value)) (shape : Shape)

/-- The rules of an entity's classes, those of each type it names in turn. -/
def rulesOf (object : List (String × Value)) : List (String × String) :=
  ((typesOf object shape.addressed).map localName).flatMap (ingest definitions)

def entity : Value → Except Refusal (Value × Bool)
  | .obj object => do
    let (object, changed) ← applyRules hmac key (rulesOf definitions shape object) object
    return (.obj object, changed)
  | other => .ok (other, false)

def entities : List Value → Except Refusal (List Value × Bool)
  | [] => .ok ([], false)
  | one :: rest => do
    let (one, changed) ← entity hmac key definitions shape one
    let (rest, changed') ← entities rest
    return (one :: rest, changed || changed')

/-- The payload with every rule of its classes applied, and whether it changed. -/
def apply (payload : Value) : Except Refusal (Value × Bool) :=
  match shape.targeted with
  | some name => do
    let (wrapped, changed) ← entity hmac key definitions shape (.obj [(name, payload)])
    match wrapped.get name with
    | some kept => return (kept, changed)
    | none => throw (.unfit name)
  | none =>
    match payload with
    | .arr many => do
      let (many, changed) ← entities hmac key definitions shape many
      return (.arr many, changed)
    | one => entity hmac key definitions shape one

end Source

end JoinedContext.Ingest

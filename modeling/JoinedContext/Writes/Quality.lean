import JoinedContext.Query.Referenced
import JoinedContext.Writes.Units

/-!
# The quality flags of a write

The rules of a space are judged on the entities of a write: one that rejects refuses it, and the
others mark what is stored. The flags are those of an attribute: an attribute a rule judges loses
the ones it was sent with, and every instance of it carries the names of the rules that one of them
breaks.
-/

namespace JoinedContext.Quality

open Relationships (typesOf localName)
open Ingest (Shape)

section Source

def QUALITY_FLAGS : String := "qualityFlags"

def QUARANTINED_AT : String := "quarantinedAt"

def QUARANTINE_RULES : String := "quarantineRules"

/-- A number of a document, as its mantissa and its exponent. -/
abbrev Number := Int × Int

inductive QualityKind where
  | range
  | area
  | freshness
deriving DecidableEq

inductive QualityOutcome where
  | reject
  | flag
  | quarantine
deriving DecidableEq

structure BBox where
  minLon : Number
  minLat : Number
  maxLon : Number
  maxLat : Number
deriving DecidableEq

structure QualityRule where
  name : String
  entityType : String
  kind : QualityKind
  held : String
  min : Option Number := none
  max : Option Number := none
  bbox : Option BBox := none
  maxAhead : Option String := none
  outcome : Option QualityOutcome := none
deriving DecidableEq

def QualityRule.writeOutcome (rule : QualityRule) : QualityOutcome :=
  rule.outcome.getD (match rule.kind with
    | .freshness => .reject
    | .range => .flag
    | .area => .flag)

structure Verdict where
  rule : QualityRule
  broken : Option QualityOutcome

/-- Whether an entity is of a type, by its short name or an expanded IRI ending in it. -/
def isOfType (entity : Value) (ty : String) : Bool :=
  let named := fun t : String => t == ty || localName t == ty
  match entity.get "type" with
  | some (.str t) => named t
  | some (.arr ts) => (ts.filterMap Value.asStr).any named
  | _ => false

def isObject : Value → Bool
  | .obj _ => true
  | _ => false

/-- The instances of an attribute: one, or each of a multi-attribute array. -/
def instancesOf : Value → List Value
  | .null => []
  | .arr all => if all.all isObject ∧ all ≠ [] then all else [.arr all]
  | one => [one]

def instances (entity : Value) (held : String) : List Value :=
  (entity.get held).elim [] instancesOf

def valueOf (instance_ : Value) : Value := (instance_.get "value").getD instance_

def asNumber : Value → Option Number
  | .num mantissa exponent => some (mantissa, exponent)
  | _ => none

mutual

/-- Every `[lon, lat, ..]` position of a GeoJSON geometry, at any depth. -/
def positions : Value → List (Number × Number)
  | .arr items =>
    match items.head?.bind asNumber, items[1]?.bind asNumber with
    | some lon, some lat => [(lon, lat)]
    | _, _ => positionsOf items
  | _ => []

def positionsOf : List Value → List (Number × Number)
  | [] => []
  | item :: rest => positions item ++ positionsOf rest

end

/-- Seconds of a duration `P[nD][T[nH][nM][nS]]` from one second to 3650 days. -/
def durationSeconds (raw : String) : Option Nat := do
  let checked := fun n : Nat => if n < 2 ^ 64 then some n else none
  let rest ← Text.stripPrefix "P" raw
  let (days, time) ← match Text.splitOnce 'T' rest with
    | some (_, "") => none
    | some (d, t) => some (d, t)
    | none => some (rest, "")
  if days = "" ∧ time = "" then none else
  let total ← if days = "" then some 0 else do
    let d ← Text.stripSuffix "D" days
    checked ((← Query.parseU64 d) * 86400)
  let (total, time) ← [('H', 3600), ('M', 60), ('S', 1)].foldlM (fun (total, time) (unit, scale) =>
    match Text.splitOnce unit time with
    | some (n, tail) => do
      let part ← checked ((← Query.parseU64 n) * scale)
      return (← checked (total + part), tail)
    | none => some (total, time)) (total, time)
  if time = "" ∧ 1 ≤ total ∧ total ≤ 3650 * 86400 then some total else none

variable (crates : Crates) (below : Number → Number → Bool) (now : Instant)

def seconds (raw : Option String) : Option Int :=
  (raw.bind durationSeconds).map fun s => (s : Int) * Temporal.nanosPerSecond

def observedAt (instance_ : Value) : Option Instant :=
  ((instance_.get "observedAt").bind Value.asStr).bind crates.parseFromRfc3339

/-- Whether one instance breaks the write-time half of a rule. -/
def breaksOnWrite (rule : QualityRule) (instance_ : Value) : Bool :=
  match rule.kind with
  | .range => (asNumber (valueOf instance_)).any fun v =>
      rule.min.any (fun min => below v min) || rule.max.any fun max => below max v
  | .area =>
    match rule.bbox, (valueOf instance_).get "coordinates" with
    | some b, some coordinates => (positions coordinates).any fun (lon, lat) =>
        below lon b.minLon || below lat b.minLat || below b.maxLon lon || below b.maxLat lat
    | _, _ => false
  | .freshness =>
    match seconds rule.maxAhead, observedAt crates instance_ with
    | some ahead, some at_ => decide (now + ahead < at_)
    | _, _ => false

/-- The rules of an entity's type that a write is judged by. -/
def judging (entity : Value) (rules : List QualityRule) : List QualityRule :=
  (rules.filter fun rule => isOfType entity rule.entityType).filter fun rule =>
    rule.kind ≠ .freshness || rule.maxAhead.isSome

/-- The verdict of each rule of an entity's type on a write. -/
def onWrite (entity : Value) (rules : List QualityRule) : List Verdict :=
  (judging entity rules).map fun rule =>
    { rule
      broken := if (instances entity rule.held).any (breaksOnWrite crates below now rule) then
        some rule.writeOutcome else none }

/-- The first rejecting verdict, the one a refusal names. -/
def rejection (verdicts : List Verdict) : Option QualityRule :=
  (verdicts.find? fun v => v.broken = some .reject).map Verdict.rule

/-- A change of each instance of an attribute. -/
def mapInstances (f : Value → Value) : Value → Value
  | .null => .null
  | .arr all => if all.all isObject ∧ all ≠ [] then .arr (all.map f) else f (.arr all)
  | one => f one

def updateInstances (f : Value → Value) (held : String) (object : List (String × Value)) :
    List (String × Value) :=
  match object.lookup held with
  | some value => Assoc.replace held (mapInstances f value) object
  | none => object

def removeFlags : Value → Value
  | .obj o => .obj (Assoc.without QUALITY_FLAGS o)
  | other => other

def property (value : Value) : Value := .obj [("type", .str "Property"), ("value", value)]

/-- Whether an instance is its plain value. -/
def isPlain (instance_ : Value) : Bool :=
  !isObject instance_ || ((instance_.get "value").isNone && (instance_.get "type").isNone)

def putFlags (names : List String) : Value → Value
  | .obj o => .obj (Assoc.put QUALITY_FLAGS (property (.arr (names.map .str))) o)
  | other => other

def setFlags (names : List String) (instance_ : Value) : Value :=
  putFlags names (if isPlain instance_ then property instance_ else instance_)

/-- The flags with one more under its attribute. -/
def pushName (held name : String) (flags : List (String × List String)) :
    List (String × List String) :=
  Assoc.put held ((flags.lookup held).getD [] ++ [name]) flags

def markStep (state : List (String × Value) × List (String × List String)) (verdict : Verdict) :
    List (String × Value) × List (String × List String) :=
  (updateInstances removeFlags verdict.rule.held state.1,
    if verdict.broken = some .flag then pushName verdict.rule.held verdict.rule.name state.2
    else state.2)

/-- The Properties that hide an entity from all but its space's owner and steward. -/
def quarantine (rules : List String) (entity : List (String × Value)) : List (String × Value) :=
  Assoc.put QUARANTINE_RULES (property (.arr (rules.map .str)))
    (Assoc.put QUARANTINED_AT
      (property (.obj [("@type", .str "DateTime"), ("@value", .str (crates.toRfc3339 now))]))
      entity)

def quarantining (verdicts : List Verdict) : List String :=
  (verdicts.filter fun v => v.broken = some .quarantine).map fun v => v.rule.name

/-- Writes the flags and the quarantine of verdicts into an entity before it is stored. -/
def mark (entity : Value) (verdicts : List Verdict) : Value :=
  if (rejection verdicts).isSome then entity
  else match entity with
    | .obj object =>
      let (object, flags) := verdicts.foldl markStep (object, [])
      let object := flags.foldl
        (fun object (held, names) => updateInstances (setFlags names) held object) object
      if quarantining verdicts = [] then .obj object
      else .obj (quarantine crates now (quarantining verdicts) object)
    | entity => entity

inductive QualityRefusal where
  | rejected (rule : QualityRule)
  | unmarkable (rule : QualityRule)
deriving DecidableEq

variable (rules : List QualityRule) (shape : Shape)

/-- An entity as it is judged: a fragment names its type only through the path's id. -/
def typed (object : List (String × Value)) : Value :=
  .obj (Assoc.put "type" (.arr ((typesOf object shape.addressed).map .str)) object)

def judge (entity : Value) : Value × Except QualityRefusal Unit :=
  match entity with
  | .obj object =>
    let verdicts := onWrite crates below now (typed shape object) rules
    match rejection verdicts with
    | some rule => (.obj object, .error (.rejected rule))
    | none =>
      match verdicts.find? fun v => shape.targeted.isSome && v.broken = some .quarantine with
      | some verdict => (.obj object, .error (.unmarkable verdict.rule))
      | none => (mark crates now (.obj object) verdicts, .ok ())
  | entity => (entity, .ok ())

def judgeEach : List Value → List Value × Except QualityRefusal Unit
  | [] => ([], .ok ())
  | entity :: rest =>
    match judge crates below now rules shape entity with
    | (entity, .error refusal) => (entity :: rest, .error refusal)
    | (entity, .ok ()) =>
      let (rest, r) := judgeEach rest
      (entity :: rest, r)

/-- Judges every entity of a write payload and marks what the rules flag or quarantine; the payload
it leaves, and why it refuses. -/
def enforce (payload : Value) : Value × Except QualityRefusal Unit :=
  if rules.isEmpty then (payload, .ok ())
  else match shape.targeted with
    | some held =>
      let (wrapped, r) := judge crates below now rules shape (.obj [(held, payload)])
      ((wrapped.get held).getD .null, r)
    | none =>
      match payload with
      | .arr entities =>
        let (entities, r) := judgeEach crates below now rules shape entities
        (.arr entities, r)
      | entity => judge crates below now rules shape entity

end Source

section Spec

/-! ## What a write may come to -/

variable (crates : Crates) (below : Number → Number → Bool) (now : Instant)
  (rules : List QualityRule) (shape : Shape) (entity : Value) (held : String)

/-- Whether an instance of a rule's attribute breaks it. -/
def broken (rule : QualityRule) : Bool :=
  (instances entity rule.held).any (breaksOnWrite crates below now rule)

/-- The rules of one outcome that an entity breaks. -/
def brokenRules (outcome : QualityOutcome) : List QualityRule :=
  (judging entity rules).filter fun rule =>
    rule.writeOutcome = outcome && broken crates below now entity rule

/-- The flags of an attribute. -/
def flagNames : List String :=
  ((brokenRules crates below now rules entity .flag).filter fun rule => rule.held = held).map
    QualityRule.name

def quarantineNames : List String :=
  (brokenRules crates below now rules entity .quarantine).map QualityRule.name

/-- An instance as it is stored, under flags. Nothing is said of what becomes of an instance with
no type whose value stands in another member than `value`. -/
structure Carries (names : List String) (sent stored : Value) : Prop where
  flags : stored.get QUALITY_FLAGS =
    if names = [] then none else some (property (.arr (names.map .str)))
  rest : (∀ member ∈ ["object", "languageMap", "vocab"], sent.get member = none) →
    removeFlags stored = removeFlags sent ∨
      (isPlain sent = true ∧ names ≠ [] ∧ removeFlags stored = property (removeFlags sent))

/-- An attribute that is not a mark of a quarantined entity. -/
def Unhidden : Prop :=
  quarantineNames crates below now rules entity = [] ∨
    held ≠ QUARANTINED_AT ∧ held ≠ QUARANTINE_RULES

/-- An object as it is stored. Nothing is said of the flags an attribute was sent with that no rule
judges. -/
structure Marked (sent stored : Value) : Prop where
  judged : ∀ held, (∃ rule ∈ judging entity rules, rule.held = held) →
    Unhidden crates below now rules entity held →
      List.Forall₂ (Carries (flagNames crates below now rules entity held)) (instances sent held)
        (instances stored held)
  others : ∀ held, (∀ rule ∈ judging entity rules, rule.held ≠ held) →
    Unhidden crates below now rules entity held →
      (stored.get held).map (mapInstances removeFlags) =
        (sent.get held).map (mapInstances removeFlags)
  present : ∀ held, Unhidden crates below now rules entity held →
    (stored.get held).isSome = (sent.get held).isSome
  hidden : quarantineNames crates below now rules entity ≠ [] →
    stored.get QUARANTINED_AT = some (property
      (.obj [("@type", .str "DateTime"), ("@value", .str (crates.toRfc3339 now))])) ∧
    stored.get QUARANTINE_RULES = some (property
      (.arr ((quarantineNames crates below now rules entity).map .str)))

def StoredAs (sent stored : Value) : Prop :=
  match sent with
  | .obj object => isObject stored = true ∧
      Marked crates below now rules (typed shape object) (.obj object) stored
  | other => stored = other

/-- An entity that refuses its write: one that a rejecting rule judges broken, or, where only the
attribute is sent, a quarantining one. -/
def Refused : Value → Prop
  | .obj object => brokenRules crates below now rules (typed shape object) .reject ≠ [] ∨
      (shape.targeted.isSome = true ∧
        brokenRules crates below now rules (typed shape object) .quarantine ≠ [])
  | _ => False

/-- What a payload comes to. A refused batch goes nowhere, so nothing is said of what is left of
it. -/
structure Enforced (payload left : Value) (r : Except QualityRefusal Unit) : Prop where
  refused : (∃ refusal, r = .error refusal) ↔
    ∃ entity ∈ Units.entities shape payload, Refused crates below now rules shape entity
  unchanged : (∃ refusal, r = .error refusal) →
    (shape.targeted.isSome = true ∨ ∀ items, payload ≠ .arr items) → left = payload
  stored : r = .ok () → List.Forall₂ (StoredAs crates below now rules shape)
    (Units.entities shape payload) (Units.entities shape left)

end Spec

section Instances

/-! ## The instances of an attribute -/

variable {f g : Value → Value} {held a : String} {names : List String}
  {object : List (String × Value)} {value : Value}

end Instances

section Mark

/-! ## What the marking leaves under each name -/

variable {crates : Crates} {below : Number → Number → Bool} {now : Instant}
  {rules : List QualityRule} {shape : Shape} {entity : Value} {held a : String}
  {object : List (String × Value)} {flags : List (String × List String)}

/-- The names the flag verdicts on an attribute give it. -/
def verdictNames (verdicts : List Verdict) (held : String) : List String :=
  (verdicts.filter fun v => v.broken = some .flag && v.rule.held = held).map fun v => v.rule.name

/-- An attribute after the marking, before the quarantine. -/
def settled (verdicts : List Verdict) (held : String) (value : Value) : Value :=
  let value := if ∃ v ∈ verdicts, v.rule.held = held then mapInstances removeFlags value else value
  if verdictNames verdicts held = [] then value
  else mapInstances (setFlags (verdictNames verdicts held)) value

end Mark

section Whole

/-! ## A whole payload -/

variable {crates : Crates} {below : Number → Number → Bool} {now : Instant}
  {rules : List QualityRule} {shape : Shape} {payload entity : Value}

/-- What judging an entity comes to: it is refused and left as it is, or stored. -/
structure Judged (crates : Crates) (below : Number → Number → Bool) (now : Instant)
    (rules : List QualityRule) (shape : Shape) (sent left : Value)
    (r : Except QualityRefusal Unit) : Prop where
  refused : (∃ refusal, r = .error refusal) ↔ Refused crates below now rules shape sent
  unchanged : (∃ refusal, r = .error refusal) → left = sent
  stored : r = .ok () → StoredAs crates below now rules shape sent left
  hidden : r = .ok () → shape.targeted.isSome = true → ∀ object, sent = .obj object →
    quarantineNames crates below now rules (typed shape object) = []

/-- What is stored depends on what stands under each name. -/
theorem Marked.congr {sent stored stored' : Value}
    (h : Marked crates below now rules entity sent stored)
    (heq : ∀ held, stored'.get held = stored.get held) :
    Marked crates below now rules entity sent stored' := by
  have hinstances : ∀ held, instances stored' held = instances stored held := fun held => by
    rw [instances, instances, heq]
  refine ⟨fun held => ?_, fun held => ?_, fun held => ?_, fun hnames => ?_⟩
  · rw [hinstances]
    exact h.judged held
  · rw [heq]
    exact h.others held
  · rw [heq]
    exact h.present held
  · rw [heq, heq]
    exact h.hidden hnames

end Whole

section Instance

/-! ## Flags of an instance alone -/

end Instance

end JoinedContext.Quality

import JoinedContext.Core.JsonText
import JoinedContext.Library.Interpolate
import JoinedContext.Sources.Inputs
import JoinedContext.Sources.Targets
import Mathlib.Logic.Relation

/-!
# What the runner does with an input

An input is handed to the pinned runner, which fills the variables of its raw text, connects to the
hosts it names, reads the files it names, and does the same for every input nested in it.
-/

namespace JoinedContext.Sources

/-- The inputs that carry inputs of their own, and the field that holds them. -/
def WRAPPER_INPUTS : List (String × String) :=
  [("batched", "child"), ("broker", "inputs"), ("read_until", "input"), ("sequence", "inputs")]

/-- The runner's documentation of its inputs, where the catalogue of the repository has none. -/
structure Runner where
  /-- The fields of an input that name files, as the paths of its secret fields are written. -/
  fileFields : String → List String
  /-- The keys under which an input names hosts without a scheme. -/
  hostFields : String → Bool
  /-- The address a host stands for by itself, with no name service asked. -/
  resolve : String → Option IpAddr
  resolve_parse : ∀ {host ip}, IpAddr.parse host = some ip → resolve host = some ip
  resolve_numeric : ∀ {host ip}, resolve host = some ip → IpAddr.parse host = none →
    numericHost host = true ∨ '%' ∈ host.toList

/-- An input with its name. -/
abbrev Input := String × Value

/-- What the field of an input with inputs of its own holds. -/
def nestedValues (x : Input) : List Value :=
  match (WRAPPER_INPUTS.lookup x.1).bind x.2.get with
  | some (.arr items) => items
  | some v => [v]
  | none => []

/-- An input nested in another one, next to its label and its processors. -/
def Child (x y : Input) : Prop :=
  ∃ members, .obj members ∈ nestedValues x ∧ y ∈ members ∧ y.1 ∉ ["label", "processors"]

/-- The input itself, and the inputs nested in it at any depth. -/
def Nested (x y : Input) : Prop := Relation.ReflTransGen Child x y

/-- A variable the runner reads of a text: `${NAME}` or `${NAME:default}`, whether or not anything
closes it. -/
def Reads (text name : String) : Prop :=
  ∃ rest, ['$', '{'] ++ (name.toList ++ rest) <:+ text.toList ∧ (∀ c ∈ name.toList, inName c = true) ∧
    ∀ c, rest.head? = some c → inName c = false

/-- The value a path of fields leads to; `[]` after a field is any item of its list. -/
inductive FieldAt : List String → Value → Value → Prop
  | here {v} : FieldAt [] v v
  | field {key path v child target} : Text.stripSuffix "[]" key = none → v.get key = some child →
      FieldAt path child target → FieldAt (key :: path) v target
  | item {key list path v items child target} : Text.stripSuffix "[]" key = some list →
      v.get list = some (.arr items) → child ∈ items → FieldAt path child target →
        FieldAt (key :: path) v target

/-- A string of a value under the nearest key, `key` for a value that is no object. -/
inductive HasString : String → Value → String → String → Prop
  | here {key s} : HasString key (.str s) key s
  | item {key items v k s} : v ∈ items → HasString key v k s → HasString key (.arr items) k s
  | member {key members c k s} : c ∈ members → HasString c.1 c.2 k s →
      HasString key (.obj members) k s

def segmentsOf (path : String) : List String := Text.splitAny ['.'] path

/-- The texts of a field that holds one, or a list of them. -/
def stringsIn : Value → List String
  | .str s => [s]
  | .arr items => items.filterMap Value.asStr
  | _ => []

namespace Runner

variable (runner : Runner)

/-- A file an input reads. -/
def Opens (x : Input) (file : String) : Prop :=
  ∃ path ∈ runner.fileFields x.1, ∃ target, FieldAt (segmentsOf path) x.2 target ∧
    file ∈ stringsIn target

/-- A host inside an installation, as it is written: the machine itself by name, a token service,
or an address that is loopback, private or link-local. -/
def NamesInside (hostPort : String) : Prop :=
  let host := hostOf hostPort
  host = "localhost" ∨ endsWith ".localhost" host = true ∨
    (Text.splitAny ['.'] host).headD "" ∈ TOKEN_SERVICES ∨
      ∃ ip, runner.resolve host = some ip ∧ ip.Inside

/-- A host the checks do not refuse is outside. -/
theorem not_namesInside {hostPort : String} (h : refusedHost hostPort = none) :
    ¬runner.NamesInside hostPort := by
  unfold refusedHost at h
  dsimp only at h
  split_ifs at h with hmessage hpercent htoken hbroker hlocal hliteral
  simp only [Bool.or_eq_true, beq_iff_eq, not_or] at hlocal
  obtain ⟨⟨⟨⟨hlocalhost, hsuffix⟩, -⟩, -⟩, -⟩ := hlocal
  rintro (heq | heq | heq | ⟨ip, hip, hinside⟩)
  · exact hlocalhost heq
  · exact hsuffix heq
  · exact htoken (by simpa using heq)
  unfold refusedLiteral at hliteral
  split at hliteral
  · rename_i ip' hparse
    obtain rfl := Option.some.inj ((runner.resolve_parse hparse).symm.trans hip)
    simp [IpAddr.isPublic_of_inside hinside] at hliteral
  · rename_i hparse
    rcases runner.resolve_numeric hip hparse with hnumeric | hzone
    · exact hliteral hnumeric
    · exact hpercent (by simpa using hzone)

end Runner

/-- A file below a folder: no segment of it steps up. -/
def Below (folder file : String) : Prop :=
  startsWith folder file = true ∧ ".." ∉ Text.splitAny ['/'] file

end JoinedContext.Sources

import JoinedContext.Core.Yaml
import JoinedContext.Library.Outcome
import JoinedContext.Library.Text

/-!
# One model out of several

`mergeSources` merges the LinkML sources of a space into one: the first is the base, the members of
the others move in by name. What another source left to its own defaults is written out first.
-/

namespace JoinedContext.Jcctl.Merge

inductive MergeError where
  | clash (what name first second : String)
  | source (model reason : String)
  | repository (reason : String)
  deriving DecidableEq

abbrev Out := Except MergeError

/-- One model's LinkML document. -/
structure Source where
  model : String
  schema : Value

/-- The sections whose members are merged by name. -/
inductive Section where
  | classes
  | slots
  | enums
  | types
  | subsets
  deriving DecidableEq

def SECTIONS : List Section := [.classes, .slots, .enums, .types, .subsets]

def Section.key : Section → String
  | .classes => "classes"
  | .slots => "slots"
  | .enums => "enums"
  | .types => "types"
  | .subsets => "subsets"

def Section.what : Section → String
  | .classes => "class"
  | .slots => "slot"
  | .enums => "enum"
  | .types => "type"
  | .subsets => "subset"

/-- The sections whose members have an IRI, and where they write it. -/
def IRI_FIELDS : List (Section × String) :=
  [(.classes, "class_uri"), (.slots, "slot_uri"), (.enums, "enum_uri"), (.types, "uri")]

def mappingOf (source : Source) : Out Mapping :=
  match source.schema with
  | .obj schema => .ok schema
  | _ => .error (.source source.model "the LinkML source is not a YAML mapping")

def text (schema : Mapping) (field : String) : Option String :=
  (schema.lookup field).bind Value.asStr

def members (schema : Mapping) (key : String) : Mapping :=
  ((schema.lookup key).bind Value.asObject).getD []

/-- The default prefix of a source, which is one of its prefixes. -/
def defaultPrefix (source : Source) : Out (Option String) := do
  let schema ← mappingOf source
  match text schema "default_prefix" with
  | none => return none
  | some own =>
    if ((members schema "prefixes").lookup own).isSome then return some own
    else .error (.source source.model
      ("default_prefix `" ++ own ++ "` is not one of its prefixes"))

def eachMember (f : String → Value → Value) : Value → Value
  | .obj held => .obj (held.map fun c => (c.1, f c.1 c.2))
  | v => v

/-- The document with what a function makes of each member of a section. -/
def overMembers (key : String) (f : String → Value → Value) (schema : Mapping) : Mapping :=
  schema.map fun c => (c.1, if c.1 = key then eachMember f c.2 else c.2)

def overMapping (f : Mapping → Mapping) : Value → Value
  | .obj definition => .obj (f definition)
  | v => v

def fillRange (range : Option String) (slot : Mapping) : Mapping :=
  match range with
  | some range => Assoc.orPut "range" (.str range) slot
  | none => slot

def fillUri (own : Option String) (field name : String) (definition : Mapping) : Mapping :=
  match own with
  | some own => Assoc.orPut field (.str (own ++ ":" ++ name)) definition
  | none => definition

/-- A slot definition with the range it gets by default written out. -/
def ranged (range : Option String) (slot : Value) : Value := overMapping (fillRange range) slot

section

variable (own range : Option String)

def explicitAttribute (name : String) : Value → Value :=
  overMapping fun slot => fillRange range (fillUri own "slot_uri" name slot)

/-- A type has the IRI it writes, which LinkML requires. -/
def explicitMember (c : Section × String) (name : String) : Value → Value :=
  overMapping fun definition =>
    let definition := if c.1 = .types then definition else fillUri own c.2 name definition
    let definition := if c.1 = .slots then fillRange range definition else definition
    if c.1 = .classes then overMembers "attributes" (explicitAttribute own range) definition
    else definition

end

/-- One source with every IRI and range it left to its own defaults written out, where those
defaults are not the merged model's. -/
def explicit (source : Source) (basePrefix baseRange : Option String) : Out Mapping := do
  let schema ← mappingOf source
  let own := (← defaultPrefix source).filter fun own => some own ≠ basePrefix
  let range := (text schema "default_range").filter fun own => some own ≠ baseRange
  return IRI_FIELDS.foldl (fun schema c => overMembers c.1.key (explicitMember own range c) schema)
    schema

/-- The document with a member put into a section, which is made where it is missing. -/
def putMember (key name : String) (definition : Value) (schema : Mapping) : Out Mapping :=
  match (schema.lookup key).getD (.obj []) with
  | .obj held => .ok (Assoc.put key (.obj (Assoc.put name definition held)) schema)
  | _ => .error (.repository ("`" ++ key ++ "` of the base model is not a mapping"))

def mergePrefix (base model : String) (merged : Mapping) (c : String × Value) : Out Mapping :=
  match (members merged "prefixes").lookup c.1 with
  | some iri =>
    if iri.same c.2 then .ok merged else .error (.clash "prefix" c.1 base model)
  | none => putMember "prefixes" c.1 c.2 merged

def mergeImports (schema merged : Mapping) : Mapping :=
  match schema.lookup "imports", (merged.lookup "imports").getD (.arr []) with
  | some (.arr imports), .arr held =>
    Assoc.put "imports" (.arr (imports.foldl (fun held v =>
      if held.any fun w => w.same v then held else held ++ [v]) held)) merged
  | _, _ => merged

/-- The merged document and the model each of its members came from. -/
structure State where
  merged : Mapping
  owners : List ((String × String) × String)

/-- Whether two definitions of one name are the same. -/
def sameMember (s : Section) (baseRange : Option String) (held definition : Value) : Bool :=
  if s = .slots then (ranged baseRange held).same (ranged baseRange definition)
  else held.same definition

def mergeMember (base model : String) (baseRange : Option String) (s : Section) (st : State)
    (c : String × Value) : Out State :=
  match (members st.merged s.key).lookup c.1 with
  | some held =>
    if sameMember s baseRange held c.2 then .ok st
    else .error (.clash s.what c.1 ((st.owners.lookup (s.what, c.1)).getD base) model)
  | none => do
    let merged ← putMember s.key c.1 c.2 st.merged
    return ⟨merged, st.owners ++ [((s.what, c.1), model)]⟩

def mergeSection (base model : String) (baseRange : Option String) (schema : Mapping) (st : State)
    (s : Section) : Out State :=
  (members schema s.key).foldlM (mergeMember base model baseRange s) st

def mergeSource (base : String) (basePrefix baseRange : Option String) (st : State)
    (source : Source) : Out State := do
  let schema ← explicit source basePrefix baseRange
  let merged ← (members schema "prefixes").foldlM (mergePrefix base source.model) st.merged
  SECTIONS.foldlM (mergeSection base source.model baseRange schema)
    { st with merged := mergeImports schema merged }

/-- The base under the name of the merged model. -/
def renamed (name : String) (base : Source) (schema : Mapping) : Mapping :=
  let merged := Assoc.put "name" (.str name) schema
  match text merged "id" with
  | some id =>
    if base.model = name then merged
    else Assoc.put "id" (.str (match Text.rsplitOnce '/' id with
      | some (stem, _) => stem ++ "/" ++ name
      | none => name)) merged
  | none => merged

def mergeSources (name : String) : List Source → Out Mapping
  | [] => .error (.repository "there is no model to merge")
  | base :: rest => do
    let schema ← mappingOf base
    let basePrefix ← defaultPrefix base
    let merged := renamed name base schema
    let owners := SECTIONS.flatMap fun s =>
      (members merged s.key).map fun c => ((s.what, c.1), base.model)
    let st ← rest.foldlM (mergeSource base.model basePrefix (text schema "default_range"))
      ⟨merged, owners⟩
    return st.merged

end JoinedContext.Jcctl.Merge

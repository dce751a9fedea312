import JoinedContext.Jcctl.Absorb

/-!
# What the terms of a model mean

A term is a member of a model or an attribute of a class. It means an IRI and a range, written out
or left to the defaults of the model, and the rest of its definition. A merge holds every term of
its sources, and each means there what it meant in its source exactly when what is not written out
falls to the same default.
-/

namespace JoinedContext.Jcctl.Merge

inductive Term where
  | member (s : Section) (name : String)
  | attribute (className name : String)

namespace Term

/-- The definition of a term. -/
def body (doc : Mapping) : Term → Option Value
  | .member s name => (members doc s.key).lookup name
  | .attribute className name =>
    (((members doc Section.classes.key).lookup className).bind (Value.get "attributes")).bind
      (Value.get name)

def name : Term → String
  | .member _ name => name
  | .attribute _ name => name

/-- Where a term writes its IRI. -/
def field : Term → Option String
  | .member s _ => IRI_FIELDS.lookup s
  | .attribute _ _ => some "slot_uri"

/-- A type has only the IRI it writes. -/
def hasDefault : Term → Bool
  | .member s _ => s ∈ [.classes, .slots, .enums]
  | .attribute _ _ => true

def isSlot : Term → Bool
  | .member s _ => s = .slots
  | .attribute _ _ => true

end Term

/-- The IRI a prefix stands for, in either form. -/
def reference (v : Value) : Option String := v.asStr <|> (v.get "prefix_reference").bind Value.asStr

def prefixIri (doc : Mapping) (own : String) : Option String :=
  ((members doc "prefixes").lookup own).bind reference

/-- The IRI a text stands for: itself, or that of its prefix with the rest. -/
def expand (doc : Mapping) (text : String) : Option String :=
  match Text.splitOnce ':' text with
  | some (own, rest) =>
    if (Text.stripPrefix "//" rest).isSome then some text else (prefixIri doc own).map (· ++ rest)
  | none => none

def defaultIri (doc : Mapping) (name : String) : Option String :=
  (text doc "default_prefix").bind fun own => (prefixIri doc own).map (· ++ name)

def writtenIri (t : Term) (body : Value) : Option String :=
  t.field.bind fun field => (body.get field).bind Value.asStr

def writtenRange (body : Value) : Option String := (body.get "range").bind Value.asStr

structure Meaning where
  iri : Option String
  range : Option String
  attributes : String → Bool
  rest : String → Option Value

/-- What a definition means in a document. -/
def meaningOf (doc : Mapping) (t : Term) (body : Value) : Meaning where
  iri := match writtenIri t body with
    | some written => expand doc written
    | none => if t.hasDefault then defaultIri doc t.name else none
  range := if t.isSlot then writtenRange body <|> text doc "default_range" else none
  attributes name := ((body.get "attributes").bind (Value.get name)).isSome
  rest key :=
    if t.field = some key ∨ t.isSlot ∧ key = "range" then none
    else ((body.get key).filter fun v => key ≠ "attributes" ∨ !v.asObject.isSome).map Value.canon

def Term.meaning (doc : Mapping) (t : Term) : Option Meaning := (t.body doc).map (meaningOf doc t)

theorem Term.body_attribute {doc : Mapping} {className name : String} :
    (Term.attribute className name).body doc =
      (((members doc Section.classes.key).lookup className).bind (Value.get "attributes")).bind
        (Value.get name) := rfl

theorem Term.meaning_eq_some {doc : Mapping} {t : Term} {body : Value} (h : t.body doc = some body) :
    t.meaning doc = some (meaningOf doc t body) := by
  rw [Term.meaning, h, Option.map_some]

/-- A text under the prefixes of any of the documents. -/
def expandAll (docs : List Mapping) (text : String) : Option String :=
  docs.findSome? fun doc => expand doc text

/-- Whether a definition is a mapping that leaves a key out. -/
def leavesOut (body : Value) (key : String) : Bool :=
  match body with
  | .obj definition => (definition.lookup key).isNone
  | _ => false

/-- A source's default where it is not the base's. -/
def ownDefault (key : String) (base doc : Mapping) : Option String :=
  (text doc key).filter fun own => some own ≠ text base key

section

variable (docs : List Mapping) (base doc : Mapping) (t : Term) (body : Value)

/-- The IRI a definition is merged with: the one it writes, or the one of another default prefix
than the base's, which a mapping is given where it leaves its own out. -/
def spelled : Option String :=
  writtenIri t body <|>
    if t.hasDefault && t.field.any (leavesOut body) then
      (ownDefault "default_prefix" base doc).map (· ++ ":" ++ t.name)
    else none

/-- Whether the IRI a definition is merged with stands for its own with the prefixes of every
source, and one that falls to a default has the base's. -/
def IriSettled : Prop :=
  match spelled base doc t body with
  | some iri => expandAll docs iri = (meaningOf doc t body).iri
  | none => t.hasDefault = true → defaultIri base t.name = defaultIri doc t.name

/-- Whether a slot says its range, leaves it out where its source has a default, or has the base's
default. -/
def RangeSettled : Prop :=
  t.isSlot = true → (writtenRange body).isSome = true ∨
    (leavesOut body "range" = true ∧ (text doc "default_range").isSome = true) ∨
    text doc "default_range" = text base "default_range"

end

/-- The documents of the sources. -/
def docsOf (sources : List Source) : List Mapping :=
  sources.filterMap fun source => source.schema.asObject

/-- Whether every term of every source is settled. -/
def Settled (sources : List Source) : Prop :=
  ∀ base ∈ (docsOf sources).head?, ∀ doc ∈ docsOf sources, ∀ t body, Term.body doc t = some body →
    IriSettled (docsOf sources) base doc t body ∧ RangeSettled base doc t body

section Definitions

variable {doc : Mapping} {t : Term} {v w : Value}

/-- Mappings that are the same hold the same under a key. -/
theorem get_of_canon (h : v.canon = w.canon) (k : String) : v.get k = none ∧ w.get k = none ∨
    ∃ a b, v.get k = some a ∧ w.get k = some b ∧ a.canon = b.canon := by
  have hmap : (v.get k).map Value.canon = (w.get k).map Value.canon := by
    rw [← Value.get_canon, h, Value.get_canon]
  rcases hv : v.get k with _ | a
  · rw [hv] at hmap
    exact Or.inl ⟨rfl, Option.map_eq_none_iff.1 hmap.symm⟩
  · rw [hv] at hmap
    obtain ⟨b, hb, hab⟩ := Option.map_eq_some_iff.1 hmap.symm
    exact Or.inr ⟨a, b, rfl, hb, hab.symm⟩

theorem getStr_congr (h : v.canon = w.canon) (k : String) :
    (v.get k).bind Value.asStr = (w.get k).bind Value.asStr := by
  rcases get_of_canon h k with ⟨hv, hw⟩ | ⟨a, b, hv, hw, hab⟩
  · rw [hv, hw]
  · rw [hv, hw, Option.bind_some, Option.bind_some, ← a.asStr_canon, hab, b.asStr_canon]

theorem reference_congr (h : v.canon = w.canon) : reference v = reference w := by
  unfold reference
  rw [getStr_congr h, ← v.asStr_canon, h, w.asStr_canon]

/-- Two definitions that are the same mean the same. -/
theorem meaningOf_congr (h : v.canon = w.canon) : meaningOf doc t v = meaningOf doc t w := by
  have hattribute : ∀ name, ((v.get "attributes").bind (Value.get name)).isSome =
      ((w.get "attributes").bind (Value.get name)).isSome := by
    intro name
    rcases get_of_canon h "attributes" with ⟨hv, hw⟩ | ⟨a, b, hv, hw, hab⟩
    · rw [hv, hw]
    · rw [hv, hw, Option.bind_some, Option.bind_some]
      rcases get_of_canon hab name with ⟨ha, hb⟩ | ⟨c, d, ha, hb, -⟩
      · rw [ha, hb]
      · rw [ha, hb]
        rfl
  unfold meaningOf writtenIri writtenRange
  simp only [getStr_congr h, hattribute, Meaning.mk.injEq, true_and]
  funext k
  split_ifs
  · rfl
  · rcases get_of_canon h k with ⟨hv, hw⟩ | ⟨a, b, hv, hw, hab⟩
    · rw [hv, hw]
    · have hobject : a.asObject.isSome = b.asObject.isSome := by
        rw [← a.isSome_asObject_canon, hab, b.isSome_asObject_canon]
      rw [hv, hw, Option.filter_some, Option.filter_some, hobject]
      split_ifs
      · rw [Option.map_some, Option.map_some, hab]
      · rfl

theorem lookup_fillRange {range : Option String} {d : Mapping} (k : String) :
    (fillRange range d).lookup k = (d.lookup k <|> if k = "range" then range.map .str else none) := by
  unfold fillRange
  rcases range with _ | r
  · cases d.lookup k <;> simp
  · rw [Assoc.lookup_orPut]
    rfl

theorem lookup_fillUri {own : Option String} {field name : String} {d : Mapping} (k : String) :
    (fillUri own field name d).lookup k =
      (d.lookup k <|> if field = k then own.map fun p => .str (p ++ ":" ++ name) else none) := by
  unfold fillUri
  rcases own with _ | p
  · cases d.lookup k <;> simp
  · simp only [Assoc.lookup_orPut, eq_comm, Option.map_some]

/-- A definition as it is merged. -/
def Term.written (own range : Option String) : Term → Value → Value
  | .member s name => Merge.written own range s name
  | .attribute _ name => explicitAttribute own range name

theorem Term.written_of_not_object {own range : Option String} {t : Term}
    (hv : v.asObject = none) : t.written own range v = v := by
  rcases t with ⟨s, name⟩ | ⟨className, name⟩
  · cases s <;> cases v <;> first | rfl | cases hv
  · cases v <;> first | rfl | cases hv

theorem leavesOut_of_get {k : String} {a : Value} (h : v.get k = some a) : leavesOut v k = false := by
  cases v with
  | obj d =>
    have hlookup : d.lookup k = some a := h
    rw [leavesOut, hlookup]
    rfl
  | arr | null | bool | num | str => rfl

/-- What a definition holds as it is merged: what it held, with its IRI and its range where it is a
mapping that leaves them out. -/
theorem get_written (own range : Option String) (t : Term) (v : Value) {k : String}
    (hk : k ≠ "attributes") : (t.written own range v).get k = (v.get k <|>
      if leavesOut v k then
        (if t.hasDefault ∧ t.field = some k then own.map fun p => Value.str (p ++ ":" ++ t.name)
          else none) <|> if t.isSlot ∧ k = "range" then range.map Value.str else none
      else none) := by
  have hslot : ∀ d : Mapping, ∀ name, (fillRange range (fillUri own "slot_uri" name d)).lookup k =
      (d.lookup k <|> if (d.lookup k).isNone then
        (if "slot_uri" = k then own.map fun p => Value.str (p ++ ":" ++ name) else none) <|>
          if k = "range" then range.map Value.str else none else none) := by
    intro d name
    rw [lookup_fillRange, lookup_fillUri]
    cases d.lookup k <;> simp
  have huri : ∀ d : Mapping, ∀ field name, (fillUri own field name d).lookup k =
      (d.lookup k <|> if (d.lookup k).isNone then
        (if field = k then own.map fun p => Value.str (p ++ ":" ++ name) else none) else none) := by
    intro d field name
    rw [lookup_fillUri]
    cases d.lookup k <;> simp
  cases v with
  | obj d =>
    have hget : (Value.obj d).get k = d.lookup k := rfl
    have hleaves : leavesOut (.obj d) k = (d.lookup k).isNone := rfl
    rw [hleaves]
    rcases t with ⟨s, name⟩ | ⟨className, name⟩
    · cases s with
      | classes =>
        have hlookup : ((Term.member .classes name).written own range (.obj d)).get k =
            (fillUri own "class_uri" name d).lookup k := lookup_overMembers_of_ne hk
        rw [hlookup, huri]
        simp [Term.hasDefault, Term.isSlot, Term.field, IRI_FIELDS, Term.name, hget]
      | slots =>
        have hlookup : ((Term.member .slots name).written own range (.obj d)).get k =
            (fillRange range (fillUri own "slot_uri" name d)).lookup k := rfl
        rw [hlookup, hslot]
        simp [Term.hasDefault, Term.isSlot, Term.field, IRI_FIELDS, Assoc.lookup_cons,
          Term.name, hget]
      | enums =>
        have hlookup : ((Term.member .enums name).written own range (.obj d)).get k =
            (fillUri own "enum_uri" name d).lookup k := rfl
        rw [hlookup, huri]
        simp [Term.hasDefault, Term.isSlot, Term.field, IRI_FIELDS, Assoc.lookup_cons,
          Term.name, hget]
      | types =>
        have hlookup : ((Term.member .types name).written own range (.obj d)).get k =
            d.lookup k := rfl
        rw [hlookup]
        simp [Term.hasDefault, Term.isSlot]
      | subsets =>
        have hlookup : ((Term.member .subsets name).written own range (.obj d)).get k =
            d.lookup k := rfl
        rw [hlookup]
        simp [Term.hasDefault, Term.isSlot]
    · have hlookup : ((Term.attribute className name).written own range (.obj d)).get k =
          (fillRange range (fillUri own "slot_uri" name d)).lookup k := rfl
      rw [hlookup, hslot]
      simp [Term.hasDefault, Term.isSlot, Term.field, Term.name, hget]
  | arr | null | bool | num | str =>
    rw [Term.written_of_not_object rfl]
    simp [Value.get, leavesOut]

/-- The attributes of a class as they are merged. -/
theorem getAttributes_written (own range : Option String) (t : Term) (v : Value) :
    (t.written own range v).get "attributes" = (v.get "attributes").map fun attributes =>
      if t.field = some "class_uri" then eachMember (explicitAttribute own range) attributes
      else attributes := by
  have hslot : ∀ d : Mapping, ∀ name,
      (fillRange range (fillUri own "slot_uri" name d)).lookup "attributes" =
        d.lookup "attributes" := by
    intro d name
    simp [lookup_fillRange, lookup_fillUri]
  cases v with
  | obj d =>
    rcases t with ⟨s, name⟩ | ⟨className, name⟩
    · cases s with
      | classes =>
        have hlookup : ((Term.member .classes name).written own range (.obj d)).get "attributes" =
            (overMembers "attributes" (explicitAttribute own range)
              (fillUri own "class_uri" name d)).lookup "attributes" := rfl
        rw [hlookup, lookup_overMembers, lookup_fillUri]
        simp [Term.field, IRI_FIELDS]
      | slots =>
        refine (hslot d name).trans ?_
        simp [Term.field, IRI_FIELDS, Assoc.lookup_cons]
      | enums =>
        have hlookup : (fillUri own "enum_uri" name d).lookup "attributes" =
            d.lookup "attributes" := by simp [lookup_fillUri]
        refine hlookup.trans ?_
        simp [Term.field, IRI_FIELDS, Assoc.lookup_cons]
      | types => simp [Term.field, IRI_FIELDS, Assoc.lookup_cons]; rfl
      | subsets => simp [Term.field, IRI_FIELDS, Assoc.lookup_cons]; rfl
    · refine (hslot d name).trans ?_
      simp [Term.field]
  | arr | null | bool | num | str =>
    rw [Term.written_of_not_object rfl]
    simp [Value.get]

end Definitions

section Prefixes

variable {sources : List Source} {base doc merged : Mapping} {basePrefix : Option String}
  {source : Source}

theorem defaultPrefix_eq_ok {own : Option String} (hdoc : source.schema = .obj doc)
    (h : defaultPrefix source = .ok own) : own = text doc "default_prefix" ∧
      ∀ p, own = some p → ((members doc "prefixes").lookup p).isSome = true := by
  unfold defaultPrefix at h
  rw [mappingOf_eq_ok.2 hdoc] at h
  simp only [bind, Except.bind] at h
  split at h
  · rename_i hnone
    obtain rfl := Except.ok.inj h
    exact ⟨hnone.symm, nofun⟩
  · rename_i own' hown
    split_ifs at h with hdeclared
    obtain rfl := Except.ok.inj h
    exact ⟨hown.symm, fun p hp => Option.some.inj hp ▸ hdeclared⟩

theorem mem_docsOf : doc ∈ docsOf sources ↔ ∃ source ∈ sources, source.schema = .obj doc := by
  unfold docsOf
  rw [List.mem_filterMap]
  refine exists_congr fun source => and_congr_right fun _ => ?_
  cases source.schema <;> simp [Value.asObject]

theorem prefixIri_of_held (hmerged : Merged base basePrefix sources merged)
    (hdoc : doc ∈ docsOf sources) {p : String} :
    (members doc "prefixes").lookup p = none ∨ prefixIri doc p = prefixIri merged p := by
  obtain ⟨source, hsource, hobj⟩ := mem_docsOf.1 hdoc
  obtain ⟨schema, hschema, -, hprefixes⟩ := hmerged.held source hsource
  obtain ⟨doc', -, hobj', -, hothers, -⟩ := explicit_eq_ok hschema
  obtain rfl : doc = doc' := Value.obj.inj (hobj.symm.trans hobj')
  rcases hlookup : (members doc "prefixes").lookup p with _ | v
  · exact Or.inl rfl
  · obtain ⟨w, hw, hsame⟩ := hprefixes p v (by
      rwa [members_congr (hothers _ fun s => by cases s <;> decide)])
    refine Or.inr ?_
    unfold prefixIri
    rw [hlookup, hw, Option.bind_some, Option.bind_some]
    exact (reference_congr (of_decide_eq_true hsame)).symm

theorem exists_declared (hmerged : Merged base basePrefix sources merged) {p : String}
    (hp : prefixIri merged p ≠ none) : ∃ doc ∈ docsOf sources, prefixIri doc p = prefixIri merged p := by
  rcases hlookup : (members merged "prefixes").lookup p with _ | w
  · exact absurd (by rw [prefixIri, hlookup]; rfl) hp
  · obtain ⟨source, hsource, schema, hschema, hdeclared⟩ := hmerged.origin p w hlookup
    obtain ⟨doc, -, hobj, -, hothers, -⟩ := explicit_eq_ok hschema
    rw [members_congr (hothers _ fun s => by cases s <;> decide)] at hdeclared
    have hdoc := mem_docsOf.2 ⟨source, hsource, hobj⟩
    refine ⟨doc, hdoc, (prefixIri_of_held hmerged hdoc).resolve_left fun hnone => ?_⟩
    rw [hnone] at hdeclared
    cases hdeclared

theorem expand_of_held (hmerged : Merged base basePrefix sources merged)
    (hdoc : doc ∈ docsOf sources) (c : String) :
    expand doc c = none ∨ expand doc c = expand merged c := by
  unfold expand
  split
  · rename_i own rest hsplit
    split_ifs
    · exact Or.inr rfl
    · rcases prefixIri_of_held hmerged hdoc (p := own) with hnone | heq
      · exact Or.inl (by rw [prefixIri, hnone]; rfl)
      · exact Or.inr (by rw [heq])
  · exact Or.inl rfl

/-- A text stands in the merged document for what it stands for with the prefixes of any source. -/
theorem expandAll_docsOf (hmerged : Merged base basePrefix sources merged)
    (hne : docsOf sources ≠ []) (c : String) :
    expandAll (docsOf sources) c = expand merged c := by
  unfold expandAll
  rcases hsome : (docsOf sources).findSome? fun doc => expand doc c with _ | iri
  · rw [List.findSome?_eq_none_iff] at hsome
    by_contra hmergedIri
    obtain ⟨first, hfirst⟩ := List.exists_mem_of_ne_nil _ hne
    have hnone := hsome first hfirst
    unfold expand at hnone hmergedIri
    split at hnone
    · rename_i own rest hsplit
      rw [hsplit] at hmergedIri
      simp only at hmergedIri
      split_ifs at hnone hmergedIri
      obtain ⟨doc, hdoc, hdeclared⟩ := exists_declared hmerged (p := own) fun hp => by
        rw [hp] at hmergedIri
        exact hmergedIri rfl
      have hdocNone := hsome doc hdoc
      unfold expand at hdocNone
      rw [hsplit] at hdocNone
      simp only at hdocNone
      split_ifs at hdocNone
      rw [hdeclared] at hdocNone
      exact hmergedIri hdocNone.symm
    · rename_i hsplit
      rw [hsplit] at hmergedIri
      exact hmergedIri rfl
  · obtain ⟨doc, hdoc, hiri⟩ := List.exists_of_findSome?_eq_some hsome
    rcases expand_of_held hmerged hdoc c with hnone | heq
    · rw [hnone] at hiri
      cases hiri
    · rw [← heq, hiri]

theorem text_of_held (hmerged : Merged base basePrefix sources merged) {k : String}
    (hk : k ∈ ["default_prefix", "default_range"]) : text merged k = text base k := by
  unfold text
  rw [hmerged.texts k hk]

theorem defaultIri_of_held (hmerged : Merged base basePrefix sources merged)
    (hbase : base ∈ docsOf sources)
    (hdeclared : ∀ p, text base "default_prefix" = some p →
      ((members base "prefixes").lookup p).isSome = true) (name : String) :
    defaultIri merged name = defaultIri base name := by
  unfold defaultIri
  rw [text_of_held hmerged (by simp)]
  rcases hbegins : text base "default_prefix" with _ | p
  · rfl
  · rw [Option.bind_some, Option.bind_some,
      (prefixIri_of_held hmerged hbase (p := p)).resolve_left fun hnone => ?_]
    have hisSome := hdeclared p hbegins
    rw [hnone] at hisSome
    cases hisSome

end Prefixes

section Kept

variable {sources : List Source} {base doc merged : Mapping} {t : Term} {body : Value}

/-- A definition as a source with defaults of its own has it merged. -/
def Term.merge (base doc : Mapping) (t : Term) (body : Value) : Value :=
  t.written (ownDefault "default_prefix" base doc) (ownDefault "default_range" base doc) body

theorem ownDefault_eq {key : String} : ownDefault key base doc =
    if text doc key = text base key then none else text doc key := by
  unfold ownDefault
  rcases text doc key with _ | own
  · simp
  · rw [Option.filter_some]
    by_cases h : some own = text base key <;> simp [h]

theorem Term.field_ne {t : Term} {field : String} (h : t.field = some field) :
    field ≠ "attributes" ∧ field ≠ "range" := by
  rcases t with ⟨s, name⟩ | ⟨className, name⟩
  · cases s <;> simp [Term.field, IRI_FIELDS, Assoc.lookup_cons] at h <;> subst h <;> decide
  · obtain rfl := Option.some.inj h
    decide

theorem writtenIri_merge : writtenIri t (t.merge base doc body) = spelled base doc t body := by
  unfold spelled
  rcases hfield : t.field with _ | field
  · simp [writtenIri, hfield]
  · obtain ⟨hattributes, hrange⟩ := Term.field_ne hfield
    simp only [writtenIri, hfield, Option.bind_some, Option.any_some]
    rw [Term.merge, get_written _ _ _ _ hattributes]
    rcases hget : body.get field with _ | v
    · by_cases hleaves : leavesOut body field = true
      · by_cases hdefault : t.hasDefault = true
        · rcases ownDefault "default_prefix" base doc with _ | p
          · simp [hleaves, hdefault, hfield, hrange]
          · simp [hleaves, hdefault, hfield]
        · simp [hleaves, hdefault, hrange]
      · simp [hleaves]
    · simp [leavesOut_of_get hget]

theorem getAttributes_merge : (t.merge base doc body).get "attributes" = body.get "attributes" ∨
    ∃ f : String → Value → Value,
      (t.merge base doc body).get "attributes" = (body.get "attributes").map (eachMember f) := by
  unfold Term.merge
  rw [getAttributes_written]
  split_ifs
  · exact Or.inr ⟨_, rfl⟩
  · exact Or.inl Option.map_id'

theorem meaningOf_merge_attributes : (meaningOf merged t (t.merge base doc body)).attributes =
    (meaningOf doc t body).attributes := by
  funext name
  simp only [meaningOf]
  rcases @getAttributes_merge base doc t body with h | ⟨f, h⟩
  · rw [h]
  · rw [h]
    rcases body.get "attributes" with _ | attributes
    · rfl
    · cases attributes with
      | obj held =>
        simp only [Option.map_some, Option.bind_some, eachMember, Value.get_obj,
          Assoc.lookup_map_snd, Option.isSome_map]
      | arr | null | bool | num | str => rfl

theorem meaningOf_merge_rest : (meaningOf merged t (t.merge base doc body)).rest =
    (meaningOf doc t body).rest := by
  funext k
  simp only [meaningOf]
  split_ifs with hown
  · rfl
  · by_cases hk : k = "attributes"
    · subst hk
      rcases @getAttributes_merge base doc t body with h | ⟨f, h⟩
      · rw [h]
      · rw [h]
        rcases body.get "attributes" with _ | attributes
        · rfl
        · cases attributes <;> rfl
    · rw [not_or, not_and] at hown
      rw [Term.merge, get_written _ _ _ _ hk]
      have hrange : ¬ (t.isSlot = true ∧ k = "range") := fun h => hown.2 h.1 h.2
      simp [hown.1, hrange]

theorem meaningOf_merge_range (hdefault : text merged "default_range" = text base "default_range") :
    (meaningOf merged t (t.merge base doc body)).range = (meaningOf doc t body).range ↔
      RangeSettled base doc t body := by
  unfold RangeSettled
  simp only [meaningOf]
  by_cases hslot : t.isSlot = true
  · simp only [hslot, if_true, true_implies]
    have hfield : t.field ≠ some "range" := fun h => (Term.field_ne h).2 rfl
    have hget : writtenRange (t.merge base doc body) = (writtenRange body <|>
        if leavesOut body "range" then ownDefault "default_range" base doc else none) := by
      unfold writtenRange
      rw [Term.merge, get_written _ _ _ _ (by decide)]
      rcases hrange : body.get "range" with _ | v
      · by_cases hleaves : leavesOut body "range" = true
        · rcases ownDefault "default_range" base doc with _ | r <;>
            simp [hleaves, hslot, hfield]
        · simp [hleaves]
      · simp [leavesOut_of_get hrange]
    rw [hget, hdefault]
    rcases writtenRange body with _ | r
    · rw [ownDefault_eq]
      by_cases hsame : text doc "default_range" = text base "default_range"
      · simp [hsame]
      · rcases hown : text doc "default_range" with _ | r
        · have hbase : text base "default_range" ≠ none := fun h => hsame (hown.trans h.symm)
          simp [hbase, Ne.symm hbase]
        · rw [hown] at hsame
          by_cases hleaves : leavesOut body "range" = true
          · simp [hleaves, hsame]
          · simp [hleaves, hsame, Ne.symm hsame]
    · simp
  · simp [hslot]

theorem meaningOf_merge_iri {docs : List Mapping} (hexpand : ∀ c, expandAll docs c = expand merged c)
    (hdefault : ∀ name, defaultIri merged name = defaultIri base name) :
    (meaningOf merged t (t.merge base doc body)).iri = (meaningOf doc t body).iri ↔
      IriSettled docs base doc t body := by
  have hmerged : (meaningOf merged t (t.merge base doc body)).iri =
      match spelled base doc t body with
      | some iri => expandAll docs iri
      | none => if t.hasDefault then defaultIri base t.name else none := by
    simp only [meaningOf, writtenIri_merge, hexpand, hdefault]
  rw [hmerged]
  unfold IriSettled
  rcases hspelled : spelled base doc t body with _ | iri
  · have hwritten : writtenIri t body = none := by
      unfold spelled at hspelled
      rcases hw : writtenIri t body with _ | w
      · rfl
      · rw [hw] at hspelled
        cases hspelled
    simp only [meaningOf, hwritten]
    by_cases hdef : t.hasDefault = true <;> simp [hdef]
  · rfl

/-- A slot means the same with the document's default range written out. -/
theorem meaningOf_ranged {range : Option String} {v : Value} (hslot : t.isSlot = true)
    (hrange : text merged "default_range" = range) :
    meaningOf merged t (ranged range v) = meaningOf merged t v := by
  have hget : ∀ k, k ≠ "range" → (ranged range v).get k = v.get k := by
    intro k hk
    cases v with
    | obj d =>
      have hlookup : (fillRange range d).lookup k = d.lookup k := by simp [lookup_fillRange, hk]
      exact hlookup
    | arr | null | bool | num | str => rfl
  have hfield : writtenIri t (ranged range v) = writtenIri t v := by
    unfold writtenIri
    rcases hf : t.field with _ | field
    · rfl
    · rw [Option.bind_some, Option.bind_some, hget field (Term.field_ne hf).2]
  have hwritten : (writtenRange (ranged range v) <|> range) = (writtenRange v <|> range) := by
    unfold writtenRange
    cases v with
    | obj d =>
      have hlookup : (ranged range (.obj d)).get "range" = (d.lookup "range" <|> range.map .str) := by
        rw [ranged, overMapping, Value.get_obj, lookup_fillRange, if_pos rfl]
      rw [hlookup, Value.get_obj]
      rcases d.lookup "range" with _ | r
      · rcases range with _ | r <;> rfl
      · rfl
    | arr | null | bool | num | str => rfl
  unfold meaningOf
  rw [hfield, hget "attributes" (by decide), hrange, hwritten]
  simp only [Meaning.mk.injEq, true_and]
  funext k
  by_cases hk : k = "range"
  · simp [hk, hslot]
  · rw [hget k hk]

/-- A term means in the merged document what its definition as it is merged means there. -/
theorem meaning_of_held {sources : List Source} {basePrefix : Option String}
    (hmerged : Merged base basePrefix sources merged)
    (hbegins : basePrefix = text base "default_prefix") {doc : Mapping}
    (hdoc : doc ∈ docsOf sources) {t : Term} {body : Value} (hbody : t.body doc = some body) :
    t.meaning merged = some (meaningOf merged t (t.merge base doc body)) := by
  obtain ⟨source, hsource, hobj⟩ := mem_docsOf.1 hdoc
  obtain ⟨schema, hschema, hheld, -⟩ := hmerged.held source hsource
  obtain ⟨doc', own, hobj', hown, -, hmembers⟩ := explicit_eq_ok hschema
  obtain rfl : doc = doc' := Value.obj.inj (hobj.symm.trans hobj')
  obtain ⟨rfl, -⟩ := defaultPrefix_eq_ok hobj hown
  rw [hbegins] at hmembers
  have hmember : ∀ s name v, (members doc (Section.key s)).lookup name = some v →
      ∃ w, (members merged s.key).lookup name = some w ∧ sameMember s (text base "default_range") w
        ((Term.member s name).merge base doc v) = true := by
    intro s name v hv
    refine hheld s name _ ?_
    rw [hmembers s, Assoc.lookup_map_snd, hv]
    rfl
  rcases t with ⟨s, name⟩ | ⟨className, name⟩
  · obtain ⟨w, hw, hsame⟩ := hmember s name body hbody
    have hmeaning : Term.meaning merged (.member s name) =
        some (meaningOf merged (.member s name) w) := Term.meaning_eq_some hw
    rw [hmeaning]
    unfold sameMember at hsame
    split_ifs at hsame with hslots
    · rw [← meaningOf_ranged (by simp [Term.isSlot, hslots]) (text_of_held hmerged (by simp)),
        meaningOf_congr (of_decide_eq_true hsame),
        meaningOf_ranged (by simp [Term.isSlot, hslots]) (text_of_held hmerged (by simp))]
    · rw [meaningOf_congr (of_decide_eq_true hsame)]
  · obtain ⟨attributes, hattributes, hname⟩ := Option.bind_eq_some_iff.1 hbody
    obtain ⟨classBody, hclass, hget⟩ := Option.bind_eq_some_iff.1 hattributes
    obtain ⟨w, hw, hsame⟩ := hmember .classes className classBody hclass
    have hcanon : w.canon = ((Term.member .classes className).merge base doc classBody).canon :=
      of_decide_eq_true hsame
    have hmerge : ((Term.member .classes className).merge base doc classBody).get "attributes" =
        some (eachMember (explicitAttribute (ownDefault "default_prefix" base doc)
          (ownDefault "default_range" base doc)) attributes) := by
      rw [Term.merge, getAttributes_written, hget]
      rfl
    obtain ⟨-, hnone⟩ | ⟨a, b, ha, hb, hab⟩ := get_of_canon hcanon "attributes"
    · rw [hnone] at hmerge
      cases hmerge
    · obtain rfl := Option.some.inj (hb.symm.trans hmerge)
      have heach : (eachMember (explicitAttribute (ownDefault "default_prefix" base doc)
          (ownDefault "default_range" base doc)) attributes).get name =
            some ((Term.attribute className name).merge base doc body) := by
        cases attributes with
        | obj held =>
          rw [Value.get_obj] at hname
          rw [eachMember, Value.get_obj, Assoc.lookup_map_snd, hname]
          rfl
        | arr | null | bool | num | str => cases hname
      obtain ⟨-, hnone⟩ | ⟨c, d, hc, hd, hcd⟩ := get_of_canon hab name
      · rw [hnone] at heach
        cases heach
      · obtain rfl := Option.some.inj (hd.symm.trans heach)
        have hmeaning : Term.meaning merged (.attribute className name) =
            some (meaningOf merged (.attribute className name) c) := by
          refine Term.meaning_eq_some ?_
          rw [Term.body_attribute, hw, Option.bind_some, ha, Option.bind_some, hc]
        rw [hmeaning, meaningOf_congr hcd]

/-- The base of an accepted merge, and what the merge holds of its sources. -/
theorem exists_base {sources : List Source} {name : String}
    (h : mergeSources name sources = .ok merged) :
    ∃ base, base ∈ (docsOf sources).head? ∧ base ∈ docsOf sources ∧
      Merged base (text base "default_prefix") sources merged ∧
      ∀ p, text base "default_prefix" = some p →
        ((members base "prefixes").lookup p).isSome = true := by
  obtain ⟨source, rest, base, basePrefix, rfl, hobj, hbegins, hmerged⟩ := mergeSources_merged h
  obtain ⟨rfl, hdeclared⟩ := defaultPrefix_eq_ok hobj hbegins
  have hhead : base ∈ (docsOf (source :: rest)).head? := by
    simp [docsOf, hobj, Value.asObject]
  exact ⟨base, hhead, List.mem_of_mem_head? hhead, hmerged, hdeclared⟩

/-- An accepted merge keeps the meaning of a term exactly when the term is settled. -/
theorem meaning_kept_iff {sources : List Source} {name : String}
    (h : mergeSources name sources = .ok merged) {base doc : Mapping}
    (hbase : base ∈ (docsOf sources).head?) (hdoc : doc ∈ docsOf sources) {t : Term} {body : Value}
    (hbody : t.body doc = some body) : t.meaning merged = t.meaning doc ↔
      IriSettled (docsOf sources) base doc t body ∧ RangeSettled base doc t body := by
  obtain ⟨base', hbase', hmem, hmerged, hdeclared⟩ := exists_base h
  obtain rfl : base = base' := Option.some.inj (hbase.symm.trans hbase')
  rw [meaning_of_held hmerged rfl hdoc hbody, Term.meaning_eq_some hbody, Option.some.injEq]
  have hiri := @meaningOf_merge_iri base doc merged t body _
    (expandAll_docsOf hmerged (List.ne_nil_of_mem hmem))
    (defaultIri_of_held hmerged hmem hdeclared)
  have hrange := @meaningOf_merge_range _ doc _ t body
    (text_of_held hmerged (k := "default_range") (by simp))
  rw [← hiri, ← hrange]
  constructor
  · intro hsame
    rw [hsame]
    exact ⟨rfl, rfl⟩
  · rintro ⟨hsameIri, hsameRange⟩
    have hattributes := @meaningOf_merge_attributes base doc merged t body
    have hrest := @meaningOf_merge_rest base doc merged t body
    generalize meaningOf merged t (t.merge base doc body) = m at *
    generalize meaningOf doc t body = m' at *
    obtain ⟨iri, range, attributes, rest⟩ := m
    obtain ⟨iri', range', attributes', rest'⟩ := m'
    rw [Meaning.mk.injEq]
    exact ⟨hsameIri, hsameRange, hattributes, hrest⟩

/-- An accepted merge keeps what every term of every source means, and accepts no name with two
meanings, exactly when every term is settled. -/
theorem merge_keeps_meaning_iff {sources : List Source} {name : String}
    (h : mergeSources name sources = .ok merged) :
    ((∀ doc ∈ docsOf sources, ∀ t m, Term.meaning doc t = some m → t.meaning merged = some m) ∧
      ∀ doc ∈ docsOf sources, ∀ other ∈ docsOf sources, ∀ t m m',
        Term.meaning doc t = some m → t.meaning other = some m' → m = m') ↔ Settled sources := by
  constructor
  · rintro ⟨hkept, -⟩ base hbase doc hdoc t body hbody
    refine (meaning_kept_iff h hbase hdoc hbody).1 ?_
    rw [hkept doc hdoc t _ (Term.meaning_eq_some hbody), Term.meaning_eq_some hbody]
  · intro hsettled
    obtain ⟨base, hbase, -, -⟩ := exists_base h
    have hkept : ∀ doc ∈ docsOf sources, ∀ t m, Term.meaning doc t = some m →
        t.meaning merged = some m := by
      intro doc hdoc t m hm
      obtain ⟨body, hbody, -⟩ := Option.map_eq_some_iff.1 hm
      rw [(meaning_kept_iff h hbase hdoc hbody).2 (hsettled base hbase doc hdoc t body hbody), hm]
    refine ⟨hkept, fun doc hdoc other hother t m m' hm hm' => ?_⟩
    exact Option.some.inj ((hkept doc hdoc t m hm).symm.trans (hkept other hother t m' hm'))

/-- A model of one class, which its default prefix names. -/
def oneClass (own iri className : String) (body : Value) : Source :=
  ⟨own, .obj [("prefixes", .obj [(own, .str iri)]), ("default_prefix", .str own),
    ("classes", .obj [(className, body)])]⟩

theorem eq_of_body_oneClass {own iri className : String} {doc : Mapping} {t : Term} {body : Value}
    (hdoc : (oneClass own iri className (.obj [])).schema = .obj doc)
    (hbody : t.body doc = some body) : t = .member .classes className ∧ body = .obj [] := by
  obtain rfl := Value.obj.inj hdoc
  rcases t with ⟨s, name⟩ | ⟨class', name⟩
  · cases s with
    | classes =>
      have hlookup : [(className, Value.obj [])].lookup name = some body := hbody
      rw [Assoc.lookup_cons] at hlookup
      split_ifs at hlookup with hname
      · exact ⟨by rw [hname], (Option.some.inj hlookup).symm⟩
      · cases hlookup
    | slots | enums | types | subsets => cases hbody
  · have hlookup : (([(className, Value.obj [])].lookup class').bind (Value.get "attributes")).bind
        (Value.get name) = some body := hbody
    rw [Assoc.lookup_cons] at hlookup
    split_ifs at hlookup <;> cases hlookup

/-- A class with a mapping for its definition keeps its IRI. -/
theorem air_and_kpi_keep_their_meaning : ∃ merged,
    mergeSources "helsinki" [oneClass "sdm" "https://smartdatamodels.org/" "Air" (.obj []),
      oneClass "jc" "https://joinedcontext.com/models/" "Kpi" (.obj [])] = .ok merged ∧
    ∀ doc ∈ docsOf [oneClass "sdm" "https://smartdatamodels.org/" "Air" (.obj []),
        oneClass "jc" "https://joinedcontext.com/models/" "Kpi" (.obj [])],
      ∀ t m, Term.meaning doc t = some m → t.meaning merged = some m := by
  have hmerge : mergeSources "helsinki"
      [oneClass "sdm" "https://smartdatamodels.org/" "Air" (.obj []),
        oneClass "jc" "https://joinedcontext.com/models/" "Kpi" (.obj [])] = .ok _ := rfl
  refine ⟨_, hmerge, ((merge_keeps_meaning_iff hmerge).2 ?_).1⟩
  intro base hbase doc hdoc t body hbody
  obtain rfl := Option.some.inj hbase
  obtain ⟨source, hsource, hobj⟩ := mem_docsOf.1 hdoc
  rcases List.mem_pair.1 hsource with rfl | rfl
  · obtain ⟨rfl, rfl⟩ := eq_of_body_oneClass hobj hbody
    obtain rfl := Value.obj.inj hobj
    exact ⟨fun _ => rfl, nofun⟩
  · obtain ⟨rfl, rfl⟩ := eq_of_body_oneClass hobj hbody
    obtain rfl := Value.obj.inj hobj
    exact ⟨rfl, nofun⟩

/-- A class with an empty definition takes the IRI of the base's default prefix, and two of them
with two IRIs are accepted as one. -/
theorem territory_changes_its_iri : ∃ merged,
    mergeSources "helsinki" [oneClass "sdm" "https://smartdatamodels.org/" "Territory" .null,
      oneClass "jc" "https://joinedcontext.com/models/" "Territory" .null] = .ok merged ∧
    ∃ doc ∈ docsOf [oneClass "sdm" "https://smartdatamodels.org/" "Territory" .null,
        oneClass "jc" "https://joinedcontext.com/models/" "Territory" .null],
      ((Term.member .classes "Territory").meaning doc).map Meaning.iri =
        some (some "https://joinedcontext.com/models/Territory") ∧
      ((Term.member .classes "Territory").meaning merged).map Meaning.iri =
        some (some "https://smartdatamodels.org/Territory") := by
  refine ⟨_, rfl, _, List.mem_cons_of_mem _ List.mem_cons_self, ?_, ?_⟩
  · rfl
  · rfl

end Kept

end JoinedContext.Jcctl.Merge

import JoinedContext.Jcctl.Diff
import JoinedContext.Library.Assoc

/-!
# The nested object of a plan

The JSON plan shows the reported fields as one object, each field's path split at its dots. A member
name may hold dots itself, so two paths may run into each other: the object is built, and holds
every field where its path says, exactly when the fields that meet agree.
-/

namespace JoinedContext.Jcctl.Nest

section Source

/-- A member of an object set to a value: in the place of the one of its name, or behind all. -/
def insertMember (name : String) (v : Value) : List (String × Value) → List (String × Value)
  | [] => [(name, v)]
  | c :: rest => if c.1 = name then (name, v) :: rest else c :: insertMember name v rest

/-- A value set behind a path's segments; none where a segment is no object, which is a panic. -/
def insertAt (v : Value) : List String → List (String × Value) → Option (List (String × Value))
  | [], members => some members
  | [segment], members => some (insertMember segment v members)
  | segment :: rest, members =>
    match (members.lookup segment).getD (.obj []) with
    | .obj inner =>
      (insertAt v rest inner).map fun inner => insertMember segment (.obj inner) members
    | _ => none

def segments (path : String) : List String := Text.splitAny ['.'] path

def written (field : FieldDiff) : Value := field.declared.getD .null

def addField (root : List (String × Value)) (field : FieldDiff) : Option (List (String × Value)) :=
  insertAt (written field) (segments field.path) root

/-- Folds dotted field paths back into the nested object the JSON contract shows. -/
def nest (fields : List FieldDiff) : Option Value :=
  (fields.foldlM addField []).map .obj

end Source

section Positions

/-- The value behind a path's segments. -/
def valueAt : List String → Value → Option Value
  | [], v => some v
  | segment :: rest, .obj members => (members.lookup segment).bind (valueAt rest)
  | _ :: _, _ => none

variable {v w : Value} {members inner : List (String × Value)} {name other : String}
  {path p rest : List String}

@[simp] theorem valueAt_nil : valueAt [] v = some v := rfl

@[simp] theorem valueAt_cons_obj : valueAt (name :: rest) (.obj members) =
    (members.lookup name).bind (valueAt rest) := rfl

theorem valueAt_append : ∀ {path : List String} {v : Value},
    valueAt (path ++ rest) v = (valueAt path v).bind (valueAt rest)
  | [], v => rfl
  | segment :: path, v => by
    cases v with
    | obj members =>
      rw [List.cons_append, valueAt_cons_obj, valueAt_cons_obj]
      cases members.lookup segment with
      | none => rfl
      | some inner => exact valueAt_append
    | _ => rfl

/-- What lies inside a value lies inside an object. -/
theorem exists_obj_of_valueAt (h : valueAt (name :: rest) v = some w) :
    ∃ members, v = .obj members := by
  cases v with
  | obj members => exact ⟨members, rfl⟩
  | _ => cases h

theorem lookup_insertMember : ∀ {members : List (String × Value)},
    (insertMember name v members).lookup other =
      if other = name then some v else members.lookup other
  | [] => by rw [insertMember, Assoc.lookup_cons]
  | c :: rest => by
    rw [insertMember, Assoc.lookup_cons c.1 c.2 rest]
    by_cases hc : c.1 = name
    · rw [if_pos hc, Assoc.lookup_cons, hc]
      split_ifs <;> rfl
    · rw [if_neg hc, Assoc.lookup_cons c.1 c.2, lookup_insertMember]
      by_cases ho : other = name
      · rw [if_pos ho, if_pos ho, if_neg (ho ▸ Ne.symm hc)]
      · rw [if_neg ho, if_neg ho]

theorem insertMember_eq_self : ∀ {members : List (String × Value)},
    members.lookup name = some v → insertMember name v members = members
  | c :: rest, h => by
    rw [Assoc.lookup_cons] at h
    rw [insertMember]
    split_ifs at h ⊢ with hname hc hc
    · rw [← hname, ← Option.some.inj h]
    · exact absurd hname.symm hc
    · exact absurd hc.symm hname
    · rw [insertMember_eq_self h]

end Positions

section Insert

variable {v w : Value} {members result inner : List (String × Value)} {name segment : String}
  {path p rest : List String}

/-- What insertion below a segment does: the segment holds an object, or nothing yet. -/
theorem insertAt_cons (hrest : rest ≠ []) : insertAt v (segment :: rest) members = some result ↔
    ∃ inner changed, (members.lookup segment).getD (.obj []) = .obj inner ∧
      insertAt v rest inner = some changed ∧
        result = insertMember segment (.obj changed) members := by
  obtain ⟨next, more, rfl⟩ := List.exists_cons_of_ne_nil hrest
  rw [insertAt]
  · cases hheld : (members.lookup segment).getD (.obj []) with
    | obj inner =>
      simp only [Option.map_eq_some_iff, Value.obj.injEq, exists_and_left, exists_eq_left']
      exact exists_congr fun changed => and_congr_right fun _ => eq_comm
    | _ => simp
  · simp

theorem valueAt_insertAt : ∀ {path : List String} {members result : List (String × Value)},
    path ≠ [] → insertAt v path members = some result → valueAt path (.obj result) = some v
  | [segment], members, result, _, h => by
    obtain rfl := Option.some.inj h
    rw [valueAt_cons_obj, lookup_insertMember, if_pos rfl]
    rfl
  | segment :: next :: rest, members, result, _, h => by
    obtain ⟨inner, changed, -, hchanged, rfl⟩ := (insertAt_cons (by simp)).1 h
    rw [valueAt_cons_obj, lookup_insertMember, if_pos rfl]
    exact valueAt_insertAt (by simp) hchanged

/-- Inserting what is there already changes nothing. -/
theorem insertAt_eq_self : ∀ {path : List String} {members : List (String × Value)},
    valueAt path (.obj members) = some v → insertAt v path members = some members
  | [], members, _ => rfl
  | [segment], members, h => by
    rw [valueAt_cons_obj, Option.bind_eq_some_iff] at h
    obtain ⟨held, hheld, heq⟩ := h
    obtain rfl := Option.some.inj heq
    exact congrArg some (insertMember_eq_self hheld)
  | segment :: next :: rest, members, h => by
    rw [valueAt_cons_obj, Option.bind_eq_some_iff] at h
    obtain ⟨held, hheld, hrest⟩ := h
    obtain ⟨inner, rfl⟩ := exists_obj_of_valueAt hrest
    have hinner : (members.lookup segment).getD (.obj []) = .obj inner := by
      rw [hheld, Option.getD_some]
    exact (insertAt_cons (by simp)).2 ⟨inner, inner, hinner, insertAt_eq_self hrest,
      (insertMember_eq_self hheld).symm⟩

/-- Insertion succeeds where the path runs through objects, as far as there is anything. -/
theorem exists_insertAt : ∀ {path : List String} {members : List (String × Value)},
    (∀ p w, p <+: path → p ≠ path → valueAt p (.obj members) = some w → ∃ inner, w = .obj inner) →
      ∃ result, insertAt v path members = some result
  | [], members, _ => ⟨members, rfl⟩
  | [segment], members, _ => ⟨_, rfl⟩
  | segment :: next :: rest, members, h => by
    obtain ⟨inner, hinner, hbelow⟩ : ∃ inner, (members.lookup segment).getD (.obj []) = .obj inner ∧
        ∀ p w, p <+: next :: rest → p ≠ next :: rest → valueAt p (.obj inner) = some w →
          ∃ deeper, w = .obj deeper := by
      cases hheld : members.lookup segment with
      | none =>
        refine ⟨[], rfl, fun p w _ _ hw => ?_⟩
        cases p with
        | nil => exact ⟨[], (Option.some.inj hw).symm⟩
        | cons => cases hw
      | some held =>
        obtain ⟨inner, rfl⟩ := h [segment] held (by simp) (by simp) (by simp [hheld])
        refine ⟨inner, rfl, fun p w hp hne hw => h (segment :: p) w ?_ (by simpa using hne) ?_⟩
        · exact List.cons_prefix_cons.2 ⟨rfl, hp⟩
        · rw [valueAt_cons_obj, hheld]
          exact hw
    obtain ⟨changed, hchanged⟩ := exists_insertAt hbelow
    exact ⟨_, (insertAt_cons (by simp)).2 ⟨inner, changed, hinner, hchanged, rfl⟩⟩

/-- What insertion leaves elsewhere: above the path an object, beside it what was there. -/
theorem valueAt_insertAt_of_not_prefix : ∀ {path p : List String}
    {members result : List (String × Value)}, insertAt v path members = some result →
      ¬ path <+: p →
      (p <+: path ∧ ∃ inner, valueAt p (.obj result) = some (.obj inner)) ∨
        valueAt p (.obj result) = valueAt p (.obj members)
  | path, [], members, result, _, _ => Or.inl ⟨List.nil_prefix, result, rfl⟩
  | [], q :: p, members, result, _, hnot => absurd List.nil_prefix hnot
  | [segment], q :: p, members, result, h, hnot => by
    obtain rfl := Option.some.inj h
    have hne : q ≠ segment := fun heq => hnot (heq ▸ by simp)
    right
    rw [valueAt_cons_obj, lookup_insertMember, if_neg hne]
    rfl
  | segment :: next :: rest, q :: p, members, result, h, hnot => by
    obtain ⟨inner, changed, hinner, hchanged, rfl⟩ := (insertAt_cons (by simp)).1 h
    by_cases hq : q = segment
    · subst hq
      have hbelow : ¬ next :: rest <+: p := fun hprefix =>
        hnot (List.cons_prefix_cons.2 ⟨rfl, hprefix⟩)
      rw [valueAt_cons_obj, lookup_insertMember, if_pos rfl, valueAt_cons_obj]
      rcases valueAt_insertAt_of_not_prefix hchanged hbelow with ⟨hp, deeper, hdeeper⟩ | hsame
      · exact Or.inl ⟨List.cons_prefix_cons.2 ⟨rfl, hp⟩, deeper, hdeeper⟩
      · cases hheld : members.lookup q with
        | none =>
          rw [hheld] at hinner
          obtain rfl : [] = inner := Value.obj.inj hinner
          cases p with
          | nil =>
            exact Or.inl ⟨List.cons_prefix_cons.2 ⟨rfl, List.nil_prefix⟩, changed, rfl⟩
          | cons => exact Or.inr hsame
        | some held =>
          rw [hheld] at hinner
          obtain rfl : held = .obj inner := hinner
          exact Or.inr hsame
    · right
      rw [valueAt_cons_obj, lookup_insertMember, if_neg hq]
      rfl

end Insert

section Fields

variable {fields done : List FieldDiff} {field f g : FieldDiff} {root next : List (String × Value)}

theorem segments_ne_nil (path : String) : segments path ≠ [] := by
  simp [segments, Text.splitAny, List.splitOnP_ne_nil]

/-- Wherever the path of one field runs on from another's, the outer one's value holds the inner
one's there. -/
def Agree (fields : List FieldDiff) : Prop :=
  ∀ f ∈ fields, ∀ g ∈ fields, ∀ rest, segments g.path = segments f.path ++ rest →
    valueAt rest (written f) = some (written g)

/-- What the object holds once some of the fields are in it: each where its path says, and nothing
but objects outside them. -/
structure Holds (done : List FieldDiff) (root : List (String × Value)) : Prop where
  value : ∀ f ∈ done, valueAt (segments f.path) (.obj root) = some (written f)
  outside : ∀ p w, valueAt p (.obj root) = some w →
    (∃ inner, w = .obj inner) ∨ ∃ f ∈ done, segments f.path <+: p

theorem Holds.insert (hagree : Agree (done ++ [field])) (h : Holds done root) :
    ∃ next, addField root field = some next ∧ Holds (done ++ [field]) next := by
  have hfield : field ∈ done ++ [field] := by simp
  by_cases hinside : ∃ f ∈ done, segments f.path <+: segments field.path
  · -- the field lies in one that is there already, and is there with it
    obtain ⟨f, hf, rest, hrest⟩ := hinside
    have hthere : valueAt (segments field.path) (.obj root) = some (written field) := by
      rw [← hrest, valueAt_append, h.value f hf, Option.bind_some]
      exact hagree f (List.mem_append_left _ hf) field hfield rest hrest.symm
    refine ⟨root, insertAt_eq_self hthere, fun g hg => ?_, fun p w hw => ?_⟩
    · rcases List.mem_append.1 hg with hg | hg
      · exact h.value g hg
      · rwa [List.mem_singleton.1 hg]
    · exact (h.outside p w hw).imp_right fun ⟨g, hg, hp⟩ => ⟨g, List.mem_append_left _ hg, hp⟩
  · have hopen : ∀ p w, p <+: segments field.path → p ≠ segments field.path →
        valueAt p (.obj root) = some w → ∃ inner, w = .obj inner := fun p w hp _ hw =>
      (h.outside p w hw).resolve_right fun ⟨f, hf, hprefix⟩ => hinside ⟨f, hf, hprefix.trans hp⟩
    obtain ⟨next, hnext⟩ := exists_insertAt (v := written field) hopen
    have hset := valueAt_insertAt (segments_ne_nil field.path) hnext
    refine ⟨next, hnext, fun g hg => ?_, fun p w hw => ?_⟩
    · rcases List.mem_append.1 hg with hdone | hlast
      · by_cases hprefix : segments field.path <+: segments g.path
        · obtain ⟨rest, hrest⟩ := hprefix
          rw [← hrest, valueAt_append, hset, Option.bind_some]
          exact hagree field hfield g hg rest hrest.symm
        · rcases valueAt_insertAt_of_not_prefix hnext hprefix with ⟨hp, -⟩ | hsame
          · exact absurd ⟨g, hdone, hp⟩ hinside
          · rw [hsame, h.value g hdone]
      · rwa [List.mem_singleton.1 hlast]
    · by_cases hprefix : segments field.path <+: p
      · exact Or.inr ⟨field, hfield, hprefix⟩
      · rcases valueAt_insertAt_of_not_prefix hnext hprefix with ⟨-, inner, hinner⟩ | hsame
        · exact Or.inl ⟨inner, Option.some.inj (hw.symm.trans hinner)⟩
        · exact (h.outside p w (hsame ▸ hw)).imp_right fun ⟨g, hg, hp⟩ =>
            ⟨g, List.mem_append_left _ hg, hp⟩

theorem Holds.run : ∀ {fields done : List FieldDiff} {root : List (String × Value)},
    Agree (done ++ fields) → Holds done root →
      ∃ result, fields.foldlM addField root = some result ∧ Holds (done ++ fields) result
  | [], done, root, _, h => ⟨root, rfl, by rwa [List.append_nil]⟩
  | field :: fields, done, root, hagree, h => by
    rw [← List.singleton_append, ← List.append_assoc] at hagree
    obtain ⟨next, hnext, hheld⟩ := h.insert fun f hf g hg =>
      hagree f (List.mem_append_left _ hf) g (List.mem_append_left _ hg)
    obtain ⟨result, hresult, hall⟩ := Holds.run hagree hheld
    refine ⟨result, ?_, ?_⟩
    · rw [List.foldlM_cons, hnext]
      exact hresult
    · rwa [List.append_assoc] at hall

/-- The object of some fields holds each of them exactly when those that meet agree. -/
theorem nest_holds_iff (fields : List FieldDiff) :
    (∃ v, nest fields = some v ∧ ∀ f ∈ fields, valueAt (segments f.path) v = some (written f)) ↔
      Agree fields := by
  constructor
  · rintro ⟨v, -, hvalues⟩ f hf g hg rest hrest
    have hg := hvalues g hg
    rwa [hrest, valueAt_append, hvalues f hf, Option.bind_some] at hg
  · intro hagree
    have hempty : Holds [] [] := ⟨by simp, fun p w hw => by
      cases p with
      | nil => exact Or.inl ⟨[], (Option.some.inj hw).symm⟩
      | cons => cases hw⟩
    obtain ⟨result, hresult, hheld⟩ := Holds.run (by rwa [List.nil_append]) hempty
    exact ⟨.obj result, by rw [nest, hresult]; rfl, hheld.value⟩

end Fields

section Plan

/-- The plan of two manifests renders, and shows every reported field at its path with its declared
value, exactly when the reported fields whose paths meet agree. -/
theorem nest_diff_holds_iff (declared live : RawManifest) :
    (∃ v, nest (diff declared live) = some v ∧
      ∀ f ∈ diff declared live, valueAt (segments f.path) v = some (written f)) ↔
      Agree (diff declared live) :=
  nest_holds_iff _

/-- A manifest with labels. -/
def labelled (labels : List (String × Value))
    (h : (Value.obj [("labels", .obj labels)]).wellFormed = true) : RawManifest where
  apiVersion := API_VERSION
  kind := "ContextSpace"
  metadata := ⟨"air", some "smart", [("labels", .obj labels)]⟩
  spec := .obj []
  status := none
  rest_wellFormed := h
  spec_wellFormed := Value.wellFormed_nil

/-- Two new labels, the name of one of which runs on from the other's at a dot. -/
theorem nest_panics : ¬ ∀ declared live : RawManifest, ∃ v, nest (diff declared live) = some v ∧
    ∀ f ∈ diff declared live, valueAt (segments f.path) v = some (written f) := by
  intro h
  obtain ⟨v, hv, -⟩ := h
    (labelled [("tier", .str "gold"), ("tier.since", .str "2024")] (by decide +kernel))
    (labelled [] (by decide +kernel))
  have hnone : (nest (diff
      (labelled [("tier", .str "gold"), ("tier.since", .str "2024")] (by decide +kernel))
      (labelled [] (by decide +kernel)))).isSome = false := by decide +kernel
  rw [hv] at hnone
  cases hnone

end Plan

end JoinedContext.Jcctl.Nest

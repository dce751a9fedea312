import JoinedContext.Relationships.Rules
import JoinedContext.Library.SortedMap
import JoinedContext.Pdp.WriteGuard
import Mathlib.Data.String.Basic

/-!
# The targets of a write

Each entity of a write is checked against the stored ends of its classes, and the targets it names
are answered for the read of which of them exist. What a payload links is every target it names for
an end, in whatever form; what the check reads is one attribute in some of the forms.
-/

namespace JoinedContext.Relationships

open WriteGuard (namesAttribute)

section Check

/-- How much of an entity a write states. -/
inductive Extent where
  | whole
  | partly
deriving DecidableEq

/-- Where in a write payload the entities are: the entity of the path, the attribute of the path. -/
structure Shape where
  addressed : Option String := none
  targeted : Option String := none
  extent : Extent

inductive Rule where
  | targetMissing
  | targetWrongType
  | singleEndManyTargets
  | requiredEndMissing
  | targetTaken
deriving DecidableEq

def Rule.text : Rule → String
  | .targetMissing => "target-missing"
  | .targetWrongType => "target-wrong-type"
  | .singleEndManyTargets => "single-end-many-targets"
  | .requiredEndMissing => "required-end-missing"
  | .targetTaken => "target-taken"

structure Violation where
  rule : Rule
  className : String
  slot : String
  object : Option String
  target : String
deriving DecidableEq

def Violation.detail (v : Violation) : String :=
  let named := v.object.getD ""
  let slotOf := "\x60" ++ v.slot ++ "\x60 of \x60" ++ v.className ++ "\x60 "
  match v.rule with
  | .targetWrongType => slotOf ++ "points at a " ++ v.target ++ ", and \x60" ++ named ++
      "\x60 is not one (DM-70)"
  | .singleEndManyTargets => slotOf ++ "holds one " ++ v.target ++
      ", and the write gives it more than one (DM-70)"
  | .requiredEndMissing => slotOf ++ "is required: every \x60" ++ v.className ++
      "\x60 points at a " ++ v.target ++ " (DM-70)"
  | .targetTaken => slotOf ++ "is one-to-one, and another \x60" ++ v.className ++
      "\x60 already points at \x60" ++ named ++ "\x60; unlink it there first (DM-70)"
  | .targetMissing => slotOf ++ "points at \x60" ++ named ++ "\x60, which is no " ++ v.target ++
      " of this space you may read; create it first or name one that exists (DM-70)"

/-- A target a write names, and where. -/
structure Named where
  className : String
  slot : String
  target : String
deriving DecidableEq

/-- The targets of one write, by URN. -/
abbrev Targets := SortedMap String Named

/-- The types an entity of a write names, else the type of its id, else that of the id the request
addressed. -/
def typesOf (entity : List (String × Value)) (addressed : Option String) : List String :=
  match entity.lookup "type" <|> entity.lookup "@type" with
  | some (.str one) => [one]
  | some (.arr many) => many.filterMap Value.asStr
  | _ => ((((entity.lookup "id" <|> entity.lookup "@id").bind Value.asStr) <|> addressed).bind
      Urn.typeOfId).toList

def RelationshipRules.ofClass (rules : RelationshipRules) (entityType : String) :
    Option (String × List (String × StoredEnd)) :=
  (rules.byClass.lookup (localName entityType)).map fun ends => (localName entityType, ends)

/-- The stored ends of an entity's classes, in the order they are checked. -/
def RelationshipRules.bound (rules : RelationshipRules) (entity : List (String × Value))
    (addressed : Option String) : List Referencing :=
  (typesOf entity addressed).flatMap fun entityType =>
    ((rules.ofClass entityType).map fun c => c.2.map fun s => ⟨c.1, s.1, s.2⟩).getD []

def Referencing.violation (at_ : Referencing) (rule : Rule) (object : Option String) : Violation :=
  ⟨rule, at_.className, at_.slot, object, at_.storedEnd.target⟩

/-- Whether a target is of the type the end points at. -/
def Referencing.isOf (at_ : Referencing) (urn : String) : Bool :=
  (Urn.typeOfId urn).map localName == some (localName at_.storedEnd.target)

def addTargets (at_ : Referencing) : List String → Targets → Except Violation Targets
  | [], targets => .ok targets
  | urn :: rest, targets =>
    if at_.isOf urn = false then .error (at_.violation .targetWrongType (some urn))
    else
      addTargets at_ rest (targets.orInsert urn ⟨at_.className, at_.slot, at_.storedEnd.target⟩)

def checkEnd (at_ : Referencing) (entity : List (String × Value)) (extent : Extent)
    (targets : Targets) : Except Violation Targets :=
  match entity.lookup at_.slot with
  | none =>
    if at_.storedEnd.required = true ∧ extent = .whole then
      .error (at_.violation .requiredEndMissing none)
    else .ok targets
  | some value =>
    match objects value with
    | none =>
      if at_.storedEnd.required then .error (at_.violation .requiredEndMissing none)
      else .ok targets
    | some named =>
      if named = [] ∧ at_.storedEnd.required = true then
        .error (at_.violation .requiredEndMissing none)
      else if at_.storedEnd.many = false ∧ 1 < named.length then
        .error (at_.violation .singleEndManyTargets named[1]?)
      else addTargets at_ named targets

def checkEnds (entity : List (String × Value)) (extent : Extent) :
    List Referencing → Targets → Except Violation Targets
  | [], targets => .ok targets
  | at_ :: rest, targets => do checkEnds entity extent rest (← checkEnd at_ entity extent targets)

/-- Checks one entity of a write against the stored ends of its classes. -/
def checkEntity (rules : RelationshipRules) (shape : Shape) (entity : Value) (targets : Targets) :
    Except Violation Targets :=
  match entity with
  | .obj members => checkEnds members shape.extent (rules.bound members shape.addressed) targets
  | _ => .ok targets

def checkEntities (rules : RelationshipRules) (shape : Shape) :
    List Value → Targets → Except Violation Targets
  | [], targets => .ok targets
  | entity :: rest, targets => do
    checkEntities rules shape rest (← checkEntity rules shape entity targets)

/-- The entities of a payload; the bare value of an attribute stands under its name. -/
def entitiesOf (payload : Value) (shape : Shape) : List Value :=
  match shape.targeted with
  | some name => [.obj [(name, payload)]]
  | none =>
    match payload with
    | .arr entities => entities
    | entity => [entity]

/-- Checks every entity of a payload against the model's relationships and answers each target it
names. -/
def targetsOf (payload : Value) (shape : Shape) (rules : RelationshipRules) :
    Except Violation Targets :=
  if rules.byClass = [] then .ok .empty
  else checkEntities rules shape (entitiesOf payload shape) .empty

end Check

section Linked

/-- The targets a node of a list stands for, or the node alone. -/
def linkedBy : Option Value → List String
  | some (.str one) => if one = ngsiLdNull then [] else [one]
  | some (.arr many) => many.filterMap listed
  | some (.obj inner) => (listed (.obj inner)).toList
  | _ => []

mutual

/-- The targets one attribute value links: each instance names its `object`, be it a string, a node
or a list, and the targets of its `objectList`. -/
def linkedIn : Value → List String
  | .arr instances => linkedInAll instances
  | .obj members => linkedBy (members.lookup "object") ++ linkedBy (members.lookup "objectList")
  | _ => []

def linkedInAll : List Value → List String
  | [] => []
  | v :: rest => linkedIn v ++ linkedInAll rest

end

/-- A node alone as an `object`. -/
def nodeOf : Option Value → List String
  | some (.obj inner) => (listed (.obj inner)).toList
  | _ => []

mutual

/-- The targets of one attribute value in the forms the check does not read: a node alone, and a
list of objects. -/
def missedIn : Value → List String
  | .arr instances => missedInAll instances
  | .obj members => nodeOf (members.lookup "object") ++ linkedBy (members.lookup "objectList")
  | _ => []

def missedInAll : List Value → List String
  | [] => []
  | v :: rest => missedIn v ++ missedInAll rest

end

variable (entity : List (String × Value)) (slot : String)

/-- The values an entity states for a slot under an IRI or a compact IRI ending in it. -/
def spelledOut : List Value :=
  (entity.filter fun m => m.1 != slot && namesAttribute m.1 slot).map Prod.snd

/-- Every target an entity links on a slot. -/
def links : List String :=
  (entity.lookup slot).elim [] linkedIn ++ (spelledOut entity slot).flatMap linkedIn

/-- The targets the check reads. -/
def readAt : List String := (entity.lookup slot).elim [] namedBy

/-- The targets it does not read. -/
def missed : List String :=
  (entity.lookup slot).elim [] missedIn ++ (spelledOut entity slot).flatMap linkedIn

/-- Whether an entity says anything of a slot. -/
def Stated : Prop := (entity.lookup slot).isSome = true ∨ spelledOut entity slot ≠ []

theorem linkedBy_eq (o : Option Value) : linkedBy o = (objectOf o).getD [] ++ nodeOf o := by
  rcases o with _ | (_ | _ | _ | one | many | inner) <;> simp [linkedBy, objectOf, nodeOf]
  split_ifs <;> rfl

mutual

theorem linkedIn_perm : ∀ v : Value, (linkedIn v).Perm (namedBy v ++ missedIn v)
  | .arr instances => linkedInAll_perm instances
  | .obj members => by
    have hlinked : linkedIn (.obj members) = namedBy (.obj members) ++ missedIn (.obj members) := by
      rw [linkedIn, missedIn, linkedBy_eq (members.lookup "object"), List.append_assoc]
      rfl
    rw [hlinked]
  | .str text => by
    unfold namedBy objects
    split_ifs <;> exact .refl _
  | .null => .refl _
  | .bool _ => .refl _
  | .num _ _ => .refl _

theorem linkedInAll_perm : ∀ instances : List Value,
    (linkedInAll instances).Perm (objectsOfAll instances ++ missedInAll instances)
  | [] => .refl _
  | v :: rest => by
    rw [linkedInAll, objectsOfAll, missedInAll]
    refine ((linkedIn_perm v).append (linkedInAll_perm rest)).trans ?_
    rw [List.append_assoc, List.append_assoc]
    refine List.Perm.append_left _ ?_
    rw [← List.append_assoc, ← List.append_assoc]
    exact List.perm_append_comm.append_right _

end

/-- What an entity links is what the check reads and what it misses. -/
theorem links_perm : (links entity slot).Perm (readAt entity slot ++ missed entity slot) := by
  unfold links readAt missed
  rw [← List.append_assoc]
  refine List.Perm.append_right _ ?_
  cases entity.lookup slot with
  | none => exact .refl _
  | some value => exact linkedIn_perm value

theorem mem_links {urn : String} :
    urn ∈ links entity slot ↔ urn ∈ readAt entity slot ∨ urn ∈ missed entity slot := by
  rw [(links_perm entity slot).mem_iff, List.mem_append]

end Linked

section Checked

variable {rules : RelationshipRules} {shape : Shape} {at_ : Referencing}
variable {entity : List (String × Value)} {extent : Extent} {targets targets' : Targets}
variable {urn : String}

theorem mem_keys_orInsert {named : Named} {other : String} :
    urn ∈ (targets.orInsert other named).keys ↔ urn ∈ targets.keys ∨ urn = other := by
  rw [SortedMap.mem_keys, SortedMap.mem_keys, SortedMap.get?_orInsert]
  cases targets.get? urn <;> by_cases h : urn = other <;> simp [h]

theorem addTargets_eq_ok : ∀ {named : List String} {targets : Targets},
    addTargets at_ named targets = .ok targets' →
      (∀ urn ∈ named, at_.isOf urn = true) ∧
        ∀ urn, urn ∈ targets'.keys ↔ urn ∈ targets.keys ∨ urn ∈ named
  | [], targets, h => by
    cases h
    simp
  | first :: rest, targets, h => by
    rw [addTargets] at h
    split_ifs at h with hof
    obtain ⟨hrest, hkeys⟩ := addTargets_eq_ok h
    rw [Bool.not_eq_false] at hof
    refine ⟨List.forall_mem_cons.2 ⟨hof, hrest⟩, fun urn => ?_⟩
    rw [hkeys, mem_keys_orInsert, List.mem_cons, or_assoc]

/-- What a checked end is held to, of the targets that are read. -/
structure EndOk (at_ : Referencing) (entity : List (String × Value)) (extent : Extent) : Prop where
  typed : ∀ urn ∈ readAt entity at_.slot, at_.isOf urn = true
  single : at_.storedEnd.many = false → (readAt entity at_.slot).length ≤ 1
  required : at_.storedEnd.required = true →
    extent = .whole ∨ (entity.lookup at_.slot).isSome = true → readAt entity at_.slot ≠ []

theorem checkEnd_eq_ok (h : checkEnd at_ entity extent targets = .ok targets') :
    EndOk at_ entity extent ∧
      ∀ urn, urn ∈ targets'.keys ↔ urn ∈ targets.keys ∨ urn ∈ readAt entity at_.slot := by
  unfold checkEnd at h
  rcases hvalue : entity.lookup at_.slot with _ | value
  · have hread : readAt entity at_.slot = [] := by rw [readAt, hvalue]; rfl
    rw [hvalue] at h
    dsimp only at h
    split_ifs at h with hrequired
    cases h
    refine ⟨⟨by simp [hread], by simp [hread], fun hneeded hstated => ?_⟩, by simp [hread]⟩
    rcases hstated with hwhole | hsome
    · exact absurd ⟨hneeded, hwhole⟩ hrequired
    · rw [hvalue] at hsome
      cases hsome
  · have hread : readAt entity at_.slot = (objects value).getD [] := by rw [readAt, hvalue]; rfl
    rw [hvalue] at h
    dsimp only at h
    rcases hnamed : objects value with _ | named
    · rw [hnamed] at h hread
      dsimp only at h
      split_ifs at h with hrequired
      cases h
      rw [Option.getD_none] at hread
      exact ⟨⟨by simp [hread], by simp [hread], fun hneeded => absurd hneeded hrequired⟩,
        by simp [hread]⟩
    · rw [hnamed] at h hread
      dsimp only at h
      split_ifs at h with hrequired hsingle
      rw [Option.getD_some] at hread
      obtain ⟨htyped, hkeys⟩ := addTargets_eq_ok h
      refine ⟨⟨by rwa [hread], fun hmany => ?_, fun hneeded _ => ?_⟩, by rwa [hread]⟩
      · rw [hread]
        by_contra hmore
        exact hsingle ⟨hmany, by omega⟩
      · rw [hread]
        exact fun hnil => hrequired ⟨hnil, hneeded⟩

theorem checkEnds_eq_ok : ∀ {ends : List Referencing} {targets : Targets},
    checkEnds entity extent ends targets = .ok targets' →
      (∀ at_ ∈ ends, EndOk at_ entity extent) ∧
        ∀ urn, urn ∈ targets'.keys ↔ urn ∈ targets.keys ∨
          ∃ at_ ∈ ends, urn ∈ readAt entity at_.slot
  | [], targets, h => by
    cases h
    simp
  | at_ :: rest, targets, h => by
    obtain ⟨middle, hend, hrest⟩ := bind_eq_ok.1 h
    obtain ⟨hok, hkeys⟩ := checkEnd_eq_ok hend
    obtain ⟨hoks, hkeys'⟩ := checkEnds_eq_ok hrest
    refine ⟨List.forall_mem_cons.2 ⟨hok, hoks⟩, fun urn => ?_⟩
    rw [hkeys', hkeys, List.exists_mem_cons_iff, or_assoc]

/-- An end of a payload: one of the stored ends of the classes of one of its entities. -/
def IsEnd (rules : RelationshipRules) (shape : Shape) (entities : List Value)
    (entity : List (String × Value)) (at_ : Referencing) : Prop :=
  .obj entity ∈ entities ∧ at_ ∈ rules.bound entity shape.addressed

theorem checkEntities_eq_ok : ∀ {entities : List Value} {targets : Targets},
    checkEntities rules shape entities targets = .ok targets' →
      (∀ entity at_, IsEnd rules shape entities entity at_ → EndOk at_ entity shape.extent) ∧
        ∀ urn, urn ∈ targets'.keys ↔ urn ∈ targets.keys ∨
          ∃ entity at_, IsEnd rules shape entities entity at_ ∧ urn ∈ readAt entity at_.slot
  | [], targets, h => by
    cases h
    simp [IsEnd]
  | first :: rest, targets, h => by
    obtain ⟨middle, hentity, hrest⟩ := bind_eq_ok.1 h
    obtain ⟨hoks, hkeys⟩ := checkEntities_eq_ok hrest
    have hfirst : (∀ at_ entity, .obj entity = first → at_ ∈ rules.bound entity shape.addressed →
          EndOk at_ entity shape.extent) ∧
        ∀ urn, urn ∈ middle.keys ↔ urn ∈ targets.keys ∨ ∃ entity at_, .obj entity = first ∧
          at_ ∈ rules.bound entity shape.addressed ∧ urn ∈ readAt entity at_.slot := by
      unfold checkEntity at hentity
      cases first with
      | obj members =>
        obtain ⟨hends, hmiddle⟩ := checkEnds_eq_ok hentity
        simp only [Value.obj.injEq]
        refine ⟨fun at_ entity heq => heq ▸ hends at_, fun urn => ?_⟩
        rw [hmiddle]
        simp
      | _ =>
        cases hentity
        simp
    refine ⟨?_, fun urn => ?_⟩
    · rintro entity at_ ⟨hmem, hend⟩
      rcases List.mem_cons.1 hmem with heq | hmem
      · exact hfirst.1 at_ entity heq hend
      · exact hoks entity at_ ⟨hmem, hend⟩
    · rw [hkeys, hfirst.2, or_assoc, ← exists_or]
      simp only [IsEnd, List.mem_cons, or_and_right, exists_or, and_assoc]

theorem targetsOf_eq_ok {payload : Value} (h : targetsOf payload shape rules = .ok targets) :
    (∀ entity at_, IsEnd rules shape (entitiesOf payload shape) entity at_ →
        EndOk at_ entity shape.extent) ∧
      ∀ urn, urn ∈ targets.keys ↔ ∃ entity at_,
        IsEnd rules shape (entitiesOf payload shape) entity at_ ∧ urn ∈ readAt entity at_.slot := by
  unfold targetsOf at h
  split_ifs at h with hempty
  · have hnone : ∀ entity at_, ¬IsEnd rules shape (entitiesOf payload shape) entity at_ := by
      rintro entity at_ ⟨-, hend⟩
      simp [RelationshipRules.bound, RelationshipRules.ofClass, hempty] at hend
    cases h
    simp [hnone, SortedMap.keys, SortedMap.empty]
  · obtain ⟨hoks, hkeys⟩ := checkEntities_eq_ok h
    refine ⟨hoks, fun urn => ?_⟩
    rw [hkeys, SortedMap.mem_keys, SortedMap.get?_empty]
    simp

end Checked

section Sound

variable {rules : RelationshipRules} {shape : Shape} {payload : Value} {targets : Targets}

/-- What relationship checking promises of a stored end: every target the payload links on it is of
its type and answered, a single end has one target at most, and a required end has one wherever the
payload states the whole entity or anything of the end. -/
structure Obeys (at_ : Referencing) (entity : List (String × Value)) (extent : Extent)
    (targets : Targets) : Prop where
  typed : ∀ urn ∈ links entity at_.slot, at_.isOf urn = true
  single : at_.storedEnd.many = false → (links entity at_.slot).length ≤ 1
  required : at_.storedEnd.required = true → extent = .whole ∨ Stated entity at_.slot →
    links entity at_.slot ≠ []
  answered : ∀ urn ∈ links entity at_.slot, urn ∈ targets.keys

/-- What a payload links in a form that is not read, it also names in one that is read, of the
type and the number that the end takes; and a required end stated under no name that is read links
something. -/
structure ReadElsewhere (rules : RelationshipRules) (shape : Shape) (payload : Value)
    (at_ : Referencing) (entity : List (String × Value)) : Prop where
  typed : ∀ urn ∈ missed entity at_.slot, at_.isOf urn = true
  single : at_.storedEnd.many = false →
    (readAt entity at_.slot ++ missed entity at_.slot).length ≤ 1
  required : at_.storedEnd.required = true → entity.lookup at_.slot = none →
    spelledOut entity at_.slot ≠ [] → missed entity at_.slot ≠ []
  named : ∀ urn ∈ missed entity at_.slot, ∃ entity' at_',
    IsEnd rules shape (entitiesOf payload shape) entity' at_' ∧ urn ∈ readAt entity' at_'.slot

/-- A write that passes the check holds every stored end to its rules exactly where what it links in
a form the check does not read is named in one that it reads. -/
theorem targetsOf_sound_iff (rules : RelationshipRules) (shape : Shape) (payload : Value)
    (targets : Targets) (h : targetsOf payload shape rules = .ok targets) :
    (∀ entity at_, IsEnd rules shape (entitiesOf payload shape) entity at_ →
      Obeys at_ entity shape.extent targets) ↔
    ∀ entity at_, IsEnd rules shape (entitiesOf payload shape) entity at_ →
      ReadElsewhere rules shape payload at_ entity := by
  obtain ⟨hoks, hkeys⟩ := targetsOf_eq_ok h
  refine forall_congr' fun entity => forall_congr' fun at_ => forall_congr' fun hend => ?_
  have hok := hoks entity at_ hend
  have hperm := links_perm entity at_.slot
  constructor
  · intro hobeys
    refine ⟨fun urn hurn => ?_, fun hmany => ?_, fun hneeded hnone hspelled hnil => ?_,
      fun urn hurn => ?_⟩
    · exact hobeys.typed urn ((mem_links entity at_.slot).2 (Or.inr hurn))
    · rw [← hperm.length_eq]
      exact hobeys.single hmany
    · have hread : readAt entity at_.slot = [] := by rw [readAt, hnone]; rfl
      rw [hread, hnil] at hperm
      exact hobeys.required hneeded (Or.inr (Or.inr hspelled)) hperm.eq_nil
    · exact (hkeys urn).1 (hobeys.answered urn ((mem_links entity at_.slot).2 (Or.inr hurn)))
  · intro helse
    refine ⟨fun urn hurn => ?_, fun hmany => ?_, fun hneeded hstated hnil => ?_, fun urn hurn => ?_⟩
    · rcases (mem_links entity at_.slot).1 hurn with hread | hmissed
      · exact hok.typed urn hread
      · exact helse.typed urn hmissed
    · rw [hperm.length_eq]
      exact helse.single hmany
    · rw [hnil, List.nil_perm, List.append_eq_nil_iff] at hperm
      rcases hstated with hwhole | hsome | hspelled
      · exact hok.required hneeded (Or.inl hwhole) hperm.1
      · exact hok.required hneeded (Or.inr hsome) hperm.1
      · rcases hvalue : entity.lookup at_.slot with _ | value
        · exact helse.required hneeded hvalue hspelled hperm.2
        · exact hok.required hneeded (Or.inr (by rw [hvalue]; rfl)) hperm.1
    · rw [hkeys]
      rcases (mem_links entity at_.slot).1 hurn with hread | hmissed
      · exact ⟨entity, at_, hend, hread⟩
      · exact helse.named urn hmissed

end Sound

section Schools

def schoolEnd : StoredEnd :=
  { target := "School", many := false, required := true, onDelete := .restrict }

def courseEnd : StoredEnd :=
  { target := "Course", many := true, required := false, onDelete := .restrict }

def schoolRules : RelationshipRules where
  byClass := [("User", [("courses", courseEnd), ("school", schoolEnd)])]

def user (more : List (String × Value)) : List (String × Value) :=
  [("id", .str "urn:ngsi-ld:User:hel.fi:schools:u1"), ("type", .str "User"),
    ("school", .obj [("object", .str "urn:ngsi-ld:School:hel.fi:schools:s1")])] ++ more

theorem targetsOf_sound_user : ∃ targets,
    targetsOf (.obj (user [])) { extent := .whole } schoolRules = .ok targets ∧
      Obeys ⟨"User", "school", schoolEnd⟩ (user []) .whole targets := by
  refine ⟨_, rfl, (targetsOf_sound_iff schoolRules { extent := .whole } (.obj (user [])) _ rfl).2
    ?_ (user []) _ ⟨List.mem_singleton_self _, by decide +kernel⟩⟩
  rintro entity at_ ⟨hentity, hend⟩
  obtain rfl : entity = user [] := by simpa [entitiesOf] using hentity
  have hends : schoolRules.bound (user []) none =
      [⟨"User", "courses", courseEnd⟩, ⟨"User", "school", schoolEnd⟩] := by decide +kernel
  rw [hends] at hend
  have hmissed : ∀ slot ∈ ["courses", "school"], missed (user []) slot = [] ∧
      (readAt (user []) slot).length ≤ 1 ∧ spelledOut (user []) slot = [] := by decide +kernel
  have hslot : at_.slot ∈ ["courses", "school"] := by
    simp only [List.mem_cons, List.not_mem_nil, or_false] at hend
    rcases hend with rfl | rfl <;> simp
  obtain ⟨hmissed, hread, hspelled⟩ := hmissed _ hslot
  exact ⟨by simp [hmissed], fun _ => by simpa [hmissed] using hread,
    fun _ _ h => absurd hspelled h, by simp [hmissed]⟩

/-- A user whose courses are a list of objects, which names a school. -/
def listing : List (String × Value) :=
  user [("courses", .obj [("type", .str "ListRelationship"),
    ("objectList", .arr [.obj [("object", .str "urn:ngsi-ld:School:hel.fi:schools:s2")]])])]

/-- A list of objects is not read: a school is linked as a course, and nothing asks whether it
exists. -/
theorem targetsOf_not_sound_listing : ∃ targets,
    targetsOf (.obj listing) { extent := .whole } schoolRules = .ok targets ∧
      IsEnd schoolRules { extent := .whole } (entitiesOf (.obj listing) { extent := .whole })
        listing ⟨"User", "courses", courseEnd⟩ ∧
      ¬Obeys ⟨"User", "courses", courseEnd⟩ listing .whole targets ∧
      "urn:ngsi-ld:School:hel.fi:schools:s2" ∉ targets.keys := by
  refine ⟨_, rfl, ⟨List.mem_singleton_self _, by decide +kernel⟩, fun h => ?_, by decide +kernel⟩
  have htyped := h.typed "urn:ngsi-ld:School:hel.fi:schools:s2" (by decide +kernel)
  revert htyped
  decide +kernel

end Schools

end JoinedContext.Relationships

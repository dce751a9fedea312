import JoinedContext.Relationships.Plan
import JoinedContext.Relationships.Targets

/-!
# One-to-one targets

A write claims the one-to-one targets it gives its entities. A claim of a batch is held against the
claims of the entries before it and against what the space stores as the batch is checked, and a
target keeps one holder where each write claims all that it newly links.
-/

namespace JoinedContext.Relationships

section Check

/-- A one-to-one target a write gives an entity. -/
structure Claim where
  className : String
  slot : String
  object : String
  target : String
  holder : Option String
deriving DecidableEq

namespace Claim

def key (claim : Claim) : String × String × String := (claim.className, claim.slot, claim.object)

/-- The refusal of a claim whose target another source stores. -/
def taken (claim : Claim) : Violation :=
  ⟨.targetTaken, claim.className, claim.slot, some claim.object, claim.target⟩

end Claim

def holderOf (entity : List (String × Value)) (addressed : Option String) : Option String :=
  ((entity.lookup "id" <|> entity.lookup "@id").bind Value.asStr) <|> addressed

def claimsOfEnd (entity : List (String × Value)) (holder : Option String) (at_ : Referencing) :
    List Claim :=
  (readAt entity at_.slot).map fun urn =>
    ⟨at_.className, at_.slot, urn, at_.storedEnd.target, holder⟩

def claimsOfEntity (rules : RelationshipRules) (shape : Shape) (entity : Value) : List Claim :=
  match entity with
  | .obj members =>
    ((rules.bound members shape.addressed).filter fun at_ => at_.storedEnd.unique).flatMap
      (claimsOfEnd members (holderOf members shape.addressed))
  | _ => []

/-- The one-to-one targets a write gives its entities. -/
def claimsOf (payload : Value) (shape : Shape) (rules : RelationshipRules) : List Claim :=
  (entitiesOf payload shape).flatMap (claimsOfEntity rules shape)

variable {s : Store} (answers : Answers s)

end Check

section Twice

end Twice

section Holders

variable (rules : RelationshipRules)

/-- A slot of a class whose targets have one source each. -/
def RelationshipRules.Unique (className slot : String) : Prop :=
  ∃ ends storedEnd, rules.byClass.lookup className = some ends ∧ (slot, storedEnd) ∈ ends ∧
    storedEnd.unique = true

/-- The targets an entity links, in whatever form. -/
def Entity.links (e : Entity) (slot : String) : List String :=
  (e.attrs slot).flatMap fun i => linkedIn (.obj i)

structure Holds (e : Entity) (key : String × String × String) : Prop where
  unique : rules.Unique key.1 key.2.1
  isOf : key.1 ∈ e.types
  links : key.2.2 ∈ e.links key.2.1

/-- The broker's query sees the exclusive targets that the store links. -/
def Seen (s : Store) : Prop :=
  ∀ e ∈ s.entities, ∀ className slot, rules.Unique className slot →
    ∀ object ∈ e.links slot, object ∈ e.names slot

/-- What a write of an entity does to the store: the other entities stay or go, and it leaves the
entity with no type and no link but those it had and those the payload states. -/
def Written (payload : List (String × Value)) (s s' : Store) : Prop :=
  ∃ id, holderOf payload none = some id ∧ ∀ e' ∈ s'.entities, e' ∈ s.entities ∨ e'.id = id ∧
    (∀ type_ ∈ e'.types, (∃ e ∈ s.entities, e.id = id ∧ type_ ∈ e.types) ∨
      type_ ∈ (typesOf payload none).map localName) ∧
    ∀ slot, ∀ object ∈ e'.links slot, (∃ e ∈ s.entities, e.id = id ∧ object ∈ e.links slot) ∨
      object ∈ links payload slot

/-- A write claims what it newly links: it names its exclusive targets in a form that is read, it
states the classes the entity already has for them, and a class it adds takes nothing that the
entity links without being stated again. -/
structure ClaimsAll (payload : List (String × Value)) (s : Store) : Prop where
  read : ∀ className slot, rules.Unique className slot → missed payload slot = []
  classes : ∀ className slot, rules.Unique className slot → readAt payload slot ≠ [] →
    ∀ e ∈ s.entities, holderOf payload none = some e.id → className ∈ e.types →
      className ∈ (typesOf payload none).map localName
  added : ∀ className slot, rules.Unique className slot →
    className ∈ (typesOf payload none).map localName →
      ∀ e ∈ s.entities, holderOf payload none = some e.id → className ∉ e.types →
        ∀ object ∈ e.links slot, object ∈ readAt payload slot

/-- The writes of a batch in turn, each of which claims what it newly links. -/
inductive Writes : List Value → Store → Store → Prop where
  | nil {s : Store} : Writes [] s s
  | cons {payload : List (String × Value)} {rest : List Value} {s middle s' : Store} :
    Written payload s middle → ClaimsAll rules payload s → Writes rest middle s' →
      Writes (.obj payload :: rest) s s'

end Holders

section Exclusive

variable {rules : RelationshipRules} {extent : Extent} {s s' middle : Store}
variable {payload : List (String × Value)} {key : String × String × String} {holder : String}

/-- A batch claims a target for a holder. -/
def ClaimedBy (rules : RelationshipRules) (extent : Extent) (entries : List Value)
    (key : String × String × String) (holder : String) : Prop :=
  ∃ entry ∈ entries, ∃ claim ∈ claimsOf entry { extent } rules, claim.key = key ∧
    claim.holder = some holder

theorem mem_claimsOf (hunique : rules.Unique key.1 key.2.1)
    (hclass : key.1 ∈ (typesOf payload none).map localName)
    (hread : key.2.2 ∈ readAt payload key.2.1) :
    ∃ claim ∈ claimsOf (.obj payload) { extent } rules, claim.key = key ∧
      claim.holder = holderOf payload none := by
  obtain ⟨className, slot, object⟩ := key
  obtain ⟨ends, storedEnd, hlookup, hmem, hone⟩ := hunique
  obtain ⟨type_, htype, rfl⟩ := List.mem_map.1 hclass
  refine ⟨⟨localName type_, slot, object, storedEnd.target, holderOf payload none⟩, ?_, rfl, rfl⟩
  have hbound : (⟨localName type_, slot, storedEnd⟩ : Referencing) ∈ rules.bound payload none := by
    refine List.mem_flatMap.2 ⟨type_, htype, ?_⟩
    dsimp only at hlookup
    simpa [RelationshipRules.ofClass, hlookup] using hmem
  refine List.mem_flatMap.2 ⟨.obj payload, List.mem_singleton_self _, ?_⟩
  refine List.mem_flatMap.2 ⟨_, List.mem_filter.2 ⟨hbound, hone⟩, ?_⟩
  exact List.mem_map.2 ⟨object, hread, rfl⟩

variable (extent) in
/-- After a write, a holder of a target held it before or is claimed by the write. -/
theorem Written.holds (h : Written payload s s') (hclaims : ClaimsAll rules payload s)
    {e' : Entity} (he' : e' ∈ s'.entities) (hholds : Holds rules e' key) :
    (∃ e ∈ s.entities, e.id = e'.id ∧ Holds rules e key) ∨
      ClaimedBy rules extent [.obj payload] key e'.id := by
  obtain ⟨id, hid, hentities⟩ := h
  rcases hentities e' he' with hsame | ⟨rfl, htypes, hlinks⟩
  · exact Or.inl ⟨e', hsame, rfl, hholds⟩
  have hclaimed : key.1 ∈ (typesOf payload none).map localName →
      key.2.2 ∈ readAt payload key.2.1 → ClaimedBy rules extent [.obj payload] key e'.id := by
    intro hclass hread
    obtain ⟨claim, hclaim, hkey, hholder⟩ := mem_claimsOf hholds.unique hclass hread
    exact ⟨_, List.mem_singleton_self _, claim, hclaim, hkey, hholder.trans hid⟩
  rcases hlinks _ _ hholds.links with ⟨e, he, heid, hlinked⟩ | hlinked
  · by_cases hold : key.1 ∈ e.types
    · exact Or.inl ⟨e, he, heid, hholds.unique, hold, hlinked⟩
    · rcases htypes _ hholds.isOf with ⟨f, hf, hfid, htype⟩ | hclass
      · have heq : e = f := eq_of_id hf he (heid.trans hfid.symm)
        rw [heq] at hold
        exact absurd htype hold
      · refine Or.inr (hclaimed hclass ?_)
        exact hclaims.added _ _ hholds.unique hclass e he (by rw [heid, hid]) hold _ hlinked
  · have hread : key.2.2 ∈ readAt payload key.2.1 := by
      have hnone := hclaims.read _ _ hholds.unique
      simpa [mem_links, hnone] using hlinked
    refine Or.inr (hclaimed ?_ hread)
    rcases htypes _ hholds.isOf with ⟨e, he, heid, htype⟩ | hclass
    · exact hclaims.classes _ _ hholds.unique (List.ne_nil_of_mem hread) e he (by rw [heid, hid])
        htype
    · exact hclass

variable (extent) in
theorem Writes.holds {entries : List Value} (h : Writes rules entries s s') {e' : Entity}
    (he' : e' ∈ s'.entities) (hholds : Holds rules e' key) :
    (∃ e ∈ s.entities, e.id = e'.id ∧ Holds rules e key) ∨
      ClaimedBy rules extent entries key e'.id := by
  induction h with
  | nil => exact Or.inl ⟨e', he', rfl, hholds⟩
  | cons hwritten hclaims hrest ih =>
    rcases ih he' with ⟨e, he, heid, hmiddle⟩ | ⟨entry, hentry, hclaimed⟩
    · rcases hwritten.holds extent hclaims he hmiddle with
        ⟨f, hf, hfid, hbefore⟩ | ⟨entry, hentry, hclaimed⟩
      · exact Or.inl ⟨f, hf, hfid.trans heid, hbefore⟩
      · refine Or.inr ⟨entry, ?_, heid ▸ hclaimed⟩
        rw [List.mem_singleton.1 hentry]
        exact List.mem_cons_self
    · exact Or.inr ⟨entry, List.mem_cons_of_mem _ hentry, hclaimed⟩

variable {answers : Answers s} {claims taken : List Claim} {claim : Claim}

/-- Only the claim's own holder stores its target, as far as the check reads. -/
def Free (answers : Answers s) (claim : Claim) : Prop :=
  ∃ holders, storing answers claim.className claim.slot claim.object 2 0 = .ok holders ∧
    ∀ e ∈ holders, some e.id = claim.holder

theorem Free.congr {a b : Claim} (h : Free answers a) (hkey : a.key = b.key)
    (hholder : a.holder = b.holder) : Free answers b := by
  simp only [Claim.key, Prod.mk.injEq] at hkey
  obtain ⟨holders, hholders, hall⟩ := h
  rw [hkey.1, hkey.2.1, hkey.2.2] at hholders
  exact ⟨holders, hholders, fun e he => (hall e he).trans hholder⟩

/-- Two claims of one target that cannot both stand. -/
def Clash (a b : Claim) : Prop := a.key = b.key ∧ (a.holder ≠ b.holder ∨ b.holder = none)

end Exclusive

section Devices

end Devices

end JoinedContext.Relationships

import JoinedContext.Pdp.Admission
import JoinedContext.Query

/-!
# Prohibitions dominate

An entry of a prohibition takes back what it names from every request that can reach an entity it
selects. The code compares the names the entry lists with the strings the request lists, so an entry
that selects the same entities under another spelling is passed over.
-/

namespace JoinedContext.Prohibitions

open Evaluator

variable {E : Type} {B : Broker E} {crates : Crates} {F : Type} [Float64 F] {subject : Subject}
  {operation : Operation} {request : Request} {tenant : String} {policies : List PolicySpec}
  {now : Instant}

section Dominates

/-- Whether the entry's types can select an entity that the request selects. -/
def Reaches (B : Broker E) (request : Request) (info : RegistrationInfo) : Prop :=
  ∃ e, B.admitsType (grantedTypes [info]) e ∧ B.admitsType request.types e

/-- An entry of an applicable prohibition, reaching the request. -/
def ReachingEntry (B : Broker E) (subject : Subject) (operation : Operation) (request : Request)
    (policies : List PolicySpec) (now : Instant) (info : RegistrationInfo) : Prop :=
  ∃ policy ∈ prohibitions subject operation policies now, info ∈ policy.information ∧
    Reaches B request info

/-- What a constraint set shows no more of. -/
structure TakesBack (c : Constraints) (names : Finset String) : Prop where
  attrs : Disjoint names c.attrs
  served : Disjoint names c.served
  byType : ∀ slots ∈ c.attrsByType, Disjoint names slots.2
  asked : Disjoint names c.attrsAsked
  hidden : names ⊆ c.hidden

/-- Every reaching entry refuses the request or takes back what it names, and a read that asks only
for what they name is answered empty. -/
structure Dominates (B : Broker E) (crates : Crates) (F : Type) [Float64 F] (subject : Subject)
    (operation : Operation) (request : Request) (tenant : String) (policies : List PolicySpec)
    (now : Instant) : Prop where
  refused : ∀ info, ReachingEntry B subject operation request policies now info →
    grantedAttrs [info] = ∅ →
    evaluate crates F subject operation request tenant policies now = .deny
  takenBack : ∀ info, ReachingEntry B subject operation request policies now info → ∀ c,
    evaluate crates F subject operation request tenant policies now = .rewrite c →
    TakesBack c (grantedAttrs [info])
  emptied : operation.isWrite = false → request.attrs ≠ ∅ →
    (∀ a ∈ request.attrs, ∃ info,
      ReachingEntry B subject operation request policies now info ∧ a ∈ grantedAttrs [info]) →
    ∀ c, evaluate crates F subject operation request tenant policies now = .rewrite c →
      c.empty = true

/-- What the request is refused for, whatever the types of the entries: a write with a read-only
token, no grant, a prohibition that names the request and no attribute, or every attribute the
grants list withheld by name. -/
def RefusedAnyway (subject : Subject) (operation : Operation) (request : Request)
    (policies : List PolicySpec) (now : Instant) : Prop :=
  (subject.readOnly && operation.isWrite) = true ∨
  permissions subject operation policies now = [] ∨
  (∃ policy ∈ prohibitions subject operation policies now, policy.information = [] ∨
    ∃ info ∈ policy.information, speaksAbout request info = true ∧ grantedAttrs [info] = ∅) ∨
  (listedAttrs (permissions subject operation policies now) ≠ ∅ ∧
    listedAttrs (permissions subject operation policies now) ⊆
      withheldNames request (prohibitions subject operation policies now))

end Dominates

section Decision

theorem withheldByAll_eq_none :
    withheldByAll request (prohibitions subject operation policies now) = none ↔
      ∃ policy ∈ prohibitions subject operation policies now, policy.information = [] ∨
        ∃ info ∈ policy.information, speaksAbout request info = true ∧ grantedAttrs [info] = ∅ := by
  rw [← not_iff_not, ← ne_eq, Option.ne_none_iff_exists']
  simp only [withheldByAll_eq_some, exists_and_left, exists_eq, and_true]
  push Not
  rfl

theorem served_intersect {grants : List PolicySpec} :
    (intersect crates F operation request tenant grants now).served = listedAttrs grants := rfl

/-- Everything a rewrite says of the attributes it withholds. -/
theorem attrs_of_rewrite {c : Constraints}
    (h : evaluate crates F subject operation request tenant policies now = .rewrite c) :
    let withheld := withheldNames request (prohibitions subject operation policies now)
    let plain := intersect crates F operation request tenant
      (permissions subject operation policies now) now
    ¬ RefusedAnyway subject operation request policies now ∧
    c.hidden = withheld ∧ c.served = plain.served \ withheld ∧ c.attrs = plain.attrs \ withheld ∧
    c.attrsAsked = plain.attrsAsked \ withheld ∧ c.attrsByType = ∅ ∧
    (operation.isWrite = false → request.attrs ≠ ∅ → withheld ≠ ∅ → c.attrs = ∅ →
      c.empty = true) := by
  obtain ⟨hread, hne, names, hall, hkept⟩ := evaluate_eq_rewrite.1 h
  obtain ⟨hserved, hc⟩ := withhold_eq_some.1 hkept
  have hsome := hall
  obtain ⟨-, rfl⟩ := withheldByAll_eq_some.1 hall
  refine ⟨?_, ?_⟩
  · rintro (hdeny | hdeny | hdeny | ⟨hlisted, hsubset⟩)
    · rw [hread] at hdeny
      cases hdeny
    · exact hne hdeny
    · rw [withheldByAll_eq_none.2 hdeny] at hsome
      cases hsome
    · rw [served_intersect] at hserved
      exact (hserved.resolve_left hlisted) (Finset.sdiff_eq_empty_iff_subset.2 hsubset)
  · split_ifs at hc with hempty
    · subst hc
      rw [hempty]
      refine ⟨rfl, ?_, ?_, ?_, rfl, fun _ _ hnot => absurd rfl hnot⟩ <;> rw [Finset.sdiff_empty]
    · subst hc
      refine ⟨rfl, rfl, rfl, rfl, rfl, fun hr hattrs _ hleft => ?_⟩
      simp only [] at hleft
      simp [hr, hattrs, hleft]

theorem deny_of_refusedAnyway (crates : Crates) (F : Type) [Float64 F] (tenant : String)
    (h : RefusedAnyway subject operation request policies now) :
    evaluate crates F subject operation request tenant policies now = .deny := by
  rcases hc : evaluate crates F subject operation request tenant policies now with _ | c
  · rfl
  · exact absurd h (attrs_of_rewrite hc).1

theorem rewrite_of_not_refusedAnyway (crates : Crates) (F : Type) [Float64 F] (tenant : String)
    (h : ¬ RefusedAnyway subject operation request policies now) :
    ∃ c, evaluate crates F subject operation request tenant policies now = .rewrite c := by
  simp only [RefusedAnyway, not_or, Bool.not_eq_true] at h
  obtain ⟨hread, hne, hall, hlisted⟩ := h
  rw [← withheldByAll_eq_none, ← ne_eq, Option.ne_none_iff_exists'] at hall
  obtain ⟨names, hnames⟩ := hall
  obtain ⟨-, hwithheld⟩ := withheldByAll_eq_some.1 hnames
  have hkept : (intersect crates F operation request tenant
      (permissions subject operation policies now) now).served = ∅ ∨
      (intersect crates F operation request tenant
        (permissions subject operation policies now) now).served \ names ≠ ∅ := by
    rw [served_intersect]
    by_cases hempty : listedAttrs (permissions subject operation policies now) = ∅
    · exact Or.inl hempty
    · refine Or.inr fun hsub => hlisted ⟨hempty, ?_⟩
      rw [hwithheld] at hsub
      exact Finset.sdiff_eq_empty_iff_subset.1 hsub
  exact ⟨_, evaluate_eq_rewrite.2 ⟨hread, hne, names, hnames, withhold_eq_some.2 ⟨hkept, rfl⟩⟩⟩

end Decision

section Main

/-- The prohibitions dominate exactly when the request is refused for another reason, or every
reaching entry names attributes and each of them is named by an entry that shares a type name with
the request. -/
theorem dominates_iff :
    Dominates B crates F subject operation request tenant policies now ↔
      RefusedAnyway subject operation request policies now ∨
        ∀ info, ReachingEntry B subject operation request policies now info →
          grantedAttrs [info] ≠ ∅ ∧ grantedAttrs [info] ⊆
            withheldNames request (prohibitions subject operation policies now) := by
  constructor
  · rintro ⟨hrefused, htaken, -⟩
    by_cases hany : RefusedAnyway subject operation request policies now
    · exact Or.inl hany
    · obtain ⟨c, hc⟩ := rewrite_of_not_refusedAnyway crates F tenant hany
      refine Or.inr fun info hinfo => ⟨fun hnone => ?_, ?_⟩
      · rw [hrefused info hinfo hnone] at hc
        cases hc
      · rw [← (attrs_of_rewrite hc).2.1]
        exact (htaken info hinfo c hc).hidden
  · rintro (hany | hnames)
    · have hdeny := deny_of_refusedAnyway crates F tenant hany
      refine ⟨fun _ _ _ => hdeny, fun _ _ c hc => ?_, fun _ _ _ c hc => ?_⟩ <;>
      · rw [hdeny] at hc
        cases hc
    · refine ⟨fun info hinfo hnone => absurd hnone (hnames info hinfo).1,
        fun info hinfo c hc => ?_, fun hread hattrs hasked c hc => ?_⟩
      · obtain ⟨-, hhidden, hserved, hshown, hasked, hby, -⟩ := attrs_of_rewrite hc
        have hsub := (hnames info hinfo).2
        have hdisjoint : ∀ set : Finset String, Disjoint (grantedAttrs [info])
            (set \ withheldNames request (prohibitions subject operation policies now)) :=
          fun set => Finset.disjoint_sdiff.mono_left hsub
        refine ⟨?_, ?_, ?_, ?_, ?_⟩
        · rw [hshown]
          exact hdisjoint _
        · rw [hserved]
          exact hdisjoint _
        · rw [hby]
          exact fun _ h => absurd h (Finset.notMem_empty _)
        · rw [hasked]
          exact hdisjoint _
        · rw [hhidden]
          exact hsub
      · obtain ⟨-, -, -, hshown, -, -, hempties⟩ := attrs_of_rewrite hc
        have hall : request.attrs ⊆
            withheldNames request (prohibitions subject operation policies now) := fun a ha => by
          obtain ⟨info, hinfo, hin⟩ := hasked a ha
          exact (hnames info hinfo).2 hin
        obtain ⟨a, ha⟩ := Finset.nonempty_iff_ne_empty.2 hattrs
        refine hempties hread hattrs (Finset.ne_empty_of_mem (hall ha)) ?_
        rw [hshown, Finset.sdiff_eq_empty_iff_subset]
        intro b hb
        have hnarrow : (intersect crates F operation request tenant
            (permissions subject operation policies now) now).attrs =
            narrow request.attrs (listedAttrs (permissions subject operation policies now)) := by
          simp [intersect, hread]
        rw [hnarrow] at hb
        exact hall ((mem_narrow.1 hb).1.resolve_left hattrs)

end Main

section Expression

/-- A broker that reads a type name as an expression, in the syntax of its filters. -/
def expressionBroker : Broker Stored where
  filters := storedFilters
  hasType := (FilterLang.reader fun (name : String) (e : Stored) => decide (name ∈ e.types)).sat
  id := Stored.id
  carries := storedBroker.carries
  inScope := storedBroker.inScope
  within := storedBroker.within
  during := storedBroker.during

def visitorReads : PolicySpec where
  assignee := ⟨.role, "visitor"⟩
  operations := [.single .queryEntity]

def noSensors : PolicySpec where
  assignee := ⟨.role, "visitor"⟩
  operations := [.single .queryEntity]
  effect := .prohibition
  information := [{ entities := [{ entityType := "Sensor" }] }]

def sensorOrRoom : Request := Query.requested storedCrates [("type", "(Sensor|Room)")]

theorem types_sensorOrRoom : sensorOrRoom.types = {"(Sensor|Room)"} :=
  Query.splitList_of_notMem (by decide) (by decide) (by decide)

/-- Sensors are prohibited whole, and a request for sensors or rooms in one expression is granted. -/
theorem sensorOrRoom_granted :
    ¬ Dominates expressionBroker storedCrates ℚ visitor .queryEntity sensorOrRoom "city"
      [visitorReads, noSensors] 0 := by
  intro hdominates
  have hreaches : Reaches expressionBroker sensorOrRoom
      { entities := [{ entityType := "Sensor" }] } := by
    refine ⟨{ types := ["Sensor"], id := "urn:ngsi-ld:Sensor:s1" },
      Or.inr ⟨"Sensor", by decide, ?_⟩, Or.inr ⟨"(Sensor|Room)", ?_, ?_⟩⟩
    · exact (FilterLang.reader_sat).2 (by decide)
    · rw [types_sensorOrRoom]
      exact Finset.mem_singleton_self _
    · exact (FilterLang.reader_sat).2 (by decide)
  have hdeny := hdominates.refused _ ⟨noSensors, by decide, by decide, hreaches⟩ (by decide)
  have hgranted : (evaluate storedCrates ℚ visitor .queryEntity sensorOrRoom "city"
      [visitorReads, noSensors] 0).isDeny = false := by decide
  rw [hdeny] at hgranted
  cases hgranted

end Expression

end JoinedContext.Prohibitions

import JoinedContext.Pdp.Additive
import JoinedContext.Pdp.Narrowing

/-!
# What a filter may read

A filter says which entities have a value, so a type is considered only if it may serve every
attribute the request filters or orders on. Without a projection the gateway judges that by what
the grants list. With one it judges it by what is left of the slots after the caller's own `attrs`,
so a type is left out for an attribute it may serve and the caller did not ask for.
-/

namespace JoinedContext.Project

open Evaluator PolicyPdp
open JoinedContext.Additive (attrsOf empty_intersect)

/-- The narrowing that follows the evaluation: the projection, then the filter. -/
def filterRule (crates : Crates) (c : Constraints) (projection : Option ModelProjectionSpec)
    (request : Request) : Verdict :=
  match projection with
  | none => dropTypesThatMayNotBeFiltered c request
  | some projection =>
    match projectConstraints crates c projection with
    | .deny => .deny
    | .rewrite c => dropTypesThatMayNotBeFiltered c request

/-- Whether the grants and the projection let a type serve an attribute. -/
def MayServe (c : Constraints) (projection : Option ModelProjectionSpec) (kind a : String) : Prop :=
  a ∉ c.hidden ∧ (c.served = ∅ ∨ a ∈ c.served) ∧ ∀ p, projection = some p → a ∈ slotsOf p kind

/-- The types a decision is about before the filter is looked at. -/
def Considered (c : Constraints) (projection : Option ModelProjectionSpec) (kind : String) : Prop :=
  c.empty = false ∧ (projection = none → c.types = ∅ ∨ kind ∈ c.types) ∧
    ∀ p, projection = some p → kind ∈ narrow c.types p.classNames

/-- The types the query is forwarded for. -/
def Stays (verdict : Verdict) (kind : String) : Prop :=
  ∃ c, verdict = .rewrite c ∧ c.empty = false ∧ (c.types = ∅ ∨ kind ∈ c.types)

/-- A filter that reads the attributes a request refers to and no others. -/
def ReadsOnly (referenced : Finset String) (select : (String → Option Value) → Prop) : Prop :=
  ∀ e e', (∀ a ∈ referenced, e a = e' a) → (select e ↔ select e')

/-- A type stays exactly if it may serve what the request refers to, a hidden reference leaves
nothing, and no filter tells apart two entities that differ in what may not be read. -/
structure OracleClosed (c : Constraints) (projection : Option ModelProjectionSpec)
    (referenced : Finset String) (verdict : Verdict) : Prop where
  stays : ∀ kind, Stays verdict kind ↔ Considered c projection kind ∧
    ∀ a ∈ selecting referenced, MayServe c projection kind a
  hidden : ¬Disjoint (selecting referenced) c.hidden →
    ∀ c', verdict = .rewrite c' → c'.empty = true
  blind : ∀ kind, Stays verdict kind → ∀ select, ReadsOnly referenced select → ∀ e e',
    (∀ a, (a ∈ selecting {a} → MayServe c projection kind a) → e a = e' a) →
      (select e ↔ select e')

/-- When the projected filter is judged as the grants judge it: what is left of the caller's
attributes leaves out no reference of a type that may serve them all, and a projection without
classes is met with none. -/
def JudgedByGrants (c : Constraints) (projection : Option ModelProjectionSpec)
    (referenced : Finset String) : Prop :=
  ∀ p, projection = some p → c.empty = false → Disjoint (selecting referenced) c.hidden →
    (p.classNames = ∅ → c.types ≠ ∅ →
      selecting referenced = ∅ ∨ ¬selecting referenced ⊆ c.attrs) ∧
    ∀ kind ∈ narrow c.types p.classNames,
      (∀ a ∈ selecting referenced, MayServe c projection kind a) →
        c.attrs = ∅ ∨ selecting referenced ⊆ c.attrs

/-- What the evaluation leaves of the attributes: of a whitelist, some of it. -/
structure Whitelisted (c : Constraints) : Prop where
  classless : c.attrsByType = ∅
  attrs : c.empty = false → c.served ≠ ∅ → c.attrs ≠ ∅ ∧ c.attrs ⊆ c.served

section Rule

variable {crates : Crates} {c : Constraints} {request : Request} {kind : String}

theorem selecting_notSystem {referenced : Finset String} {a : String}
    (h : a ∈ selecting referenced) : SystemMembers.isEntitySystemMember a = false := by
  have hplain := (Finset.mem_filter.1 h).2
  simp only [Bool.and_eq_true, Bool.not_eq_true'] at hplain
  exact hplain.1

theorem stays_rewrite : Stays (.rewrite c) kind ↔
    c.empty = false ∧ (c.types = ∅ ∨ kind ∈ c.types) := by
  simp [Stays]

theorem not_disjoint_hidden {referenced : Finset String} :
    ¬Disjoint (selecting referenced) c.hidden ↔ ∃ a ∈ selecting referenced, a ∈ c.hidden :=
  Finset.not_disjoint_iff

/-- A hidden reference leaves nothing of any narrowing. -/
theorem empty_of_hidden {c' : Constraints} (hhidden : ¬Disjoint (selecting request.referenced) c.hidden)
    (h : dropTypesThatMayNotBeFiltered c request = .rewrite c') : c'.empty = true := by
  have hmeet : selecting request.referenced ∩ c.hidden ≠ ∅ := by
    rwa [ne_eq, ← Finset.disjoint_iff_inter_eq_empty]
  have hsome : selecting request.referenced ≠ ∅ := fun hnone => hmeet (by rw [hnone]; simp)
  unfold dropTypesThatMayNotBeFiltered at h
  simp only [] at h
  rw [if_neg hsome, if_pos hmeet] at h
  injection h with h
  rw [← h]

/-- Without a projection a filter is judged by what the grants list. -/
theorem stays_drop (hplain : c.attrsByType = ∅) :
    Stays (dropTypesThatMayNotBeFiltered c request) kind ↔
      c.empty = false ∧ (c.types = ∅ ∨ kind ∈ c.types) ∧
        ∀ a ∈ selecting request.referenced, a ∉ c.hidden ∧ (c.served = ∅ ∨ a ∈ c.served) := by
  unfold dropTypesThatMayNotBeFiltered
  simp only []
  split_ifs with hnone hhidden hserved
  · simp [stays_rewrite, hnone]
  · rw [ne_eq, ← Finset.disjoint_iff_inter_eq_empty, not_disjoint_hidden] at hhidden
    obtain ⟨a, ha, hin⟩ := hhidden
    simp only [stays_rewrite, Bool.true_eq_false, false_and, false_iff, not_and]
    exact fun _ _ hall => (hall a ha).1 hin
  · simp only [stays_rewrite, Bool.true_eq_false, false_and, false_iff, not_and]
    intro _ _ hall
    exact hserved.2 fun a ha => (hall a ha).2.resolve_left hserved.1
  · rw [stays_rewrite, not_not, ← Finset.disjoint_iff_inter_eq_empty] at *
    simp only [and_congr_right_iff, iff_self_and]
    intro _ _ a ha
    refine ⟨fun hin => Finset.disjoint_left.1 hhidden ha hin, ?_⟩
    by_cases hopen : c.served = ∅
    · exact Or.inl hopen
    · have hsubset : selecting request.referenced ⊆ c.served := by
        by_contra hnot
        exact hserved ⟨hopen, hnot⟩
      exact Or.inr (hsubset ha)

theorem kept_image {types referenced : Finset String} {slots : String → Finset String} :
    ((types.image fun name => (name, slots name)).filter fun entry => referenced ⊆ entry.2).image
      Prod.fst = types.filter fun name => referenced ⊆ slots name := by
  ext name
  simp only [Finset.mem_image, Finset.mem_filter]
  constructor
  · rintro ⟨_, ⟨⟨name, hname, rfl⟩, hslots⟩, rfl⟩
    exact ⟨hname, hslots⟩
  · rintro ⟨hname, hslots⟩
    exact ⟨(name, slots name), ⟨⟨name, hname, rfl⟩, hslots⟩, rfl⟩

/-- With slots for each type a filter is judged by the slots. -/
theorem stays_drop_slots {types : Finset String} {slots : String → Finset String}
    (htypes : c.types = types) (hne : types ≠ ∅)
    (hby : c.attrsByType = types.image fun name => (name, slots name)) :
    Stays (dropTypesThatMayNotBeFiltered c request) kind ↔
      c.empty = false ∧ kind ∈ types ∧
        ∀ a ∈ selecting request.referenced, a ∉ c.hidden ∧ a ∈ slots kind := by
  have hsome : c.attrsByType ≠ ∅ := by
    rw [hby]
    simpa using hne
  by_cases hnone : selecting request.referenced = ∅
  · unfold dropTypesThatMayNotBeFiltered
    simp [stays_rewrite, hnone, htypes, hne]
  by_cases hhidden : Disjoint (selecting request.referenced) c.hidden
  · have hclear : ∀ a ∈ selecting request.referenced, a ∉ c.hidden := fun _ ha =>
      Finset.disjoint_left.1 hhidden ha
    have hkept : (∀ a ∈ selecting request.referenced, a ∉ c.hidden ∧ a ∈ slots kind) ↔
        selecting request.referenced ⊆ slots kind :=
      ⟨fun h a ha => (h a ha).2, fun h a ha => ⟨hclear a ha, h ha⟩⟩
    rw [hkept]
    unfold dropTypesThatMayNotBeFiltered
    simp only []
    rw [if_neg hnone, if_neg (by rwa [ne_eq, not_not, ← Finset.disjoint_iff_inter_eq_empty]),
      if_neg hsome, hby, kept_image]
    by_cases hempty : types.filter (fun name => selecting request.referenced ⊆ slots name) = ∅
    · rw [if_pos hempty, stays_rewrite]
      simp only [Bool.true_eq_false, false_and, false_iff, not_and]
      intro _ hkind hslots
      exact Finset.eq_empty_iff_forall_notMem.1 hempty kind (Finset.mem_filter.2 ⟨hkind, hslots⟩)
    · rw [if_neg hempty, stays_rewrite]
      simp only [apply_ite Constraints.empty, ite_self, hempty, false_or, Finset.mem_filter]
  · obtain ⟨a, ha, hin⟩ := not_disjoint_hidden.1 hhidden
    constructor
    · rintro ⟨c', hrewrite, hfull, -⟩
      rw [empty_of_hidden hhidden hrewrite] at hfull
      cases hfull
    · rintro ⟨-, -, hall⟩
      exact ((hall a ha).1 hin).elim

/-- What the code asks of a projected type: the slots that are left of the caller's attributes. -/
def Left (c : Constraints) (p : ModelProjectionSpec) (kind : String) : Finset String :=
  narrowToIdentity c.attrs (slotsOf p kind)

theorem stays_filterRule_some {p : ModelProjectionSpec} :
    Stays (filterRule crates c (some p) request) kind ↔
      c.empty = false ∧ kind ∈ narrow c.types p.classNames ∧
        ∀ a ∈ selecting request.referenced, a ∉ c.hidden ∧ a ∈ Left c p kind := by
  unfold filterRule
  simp only []
  cases hproject : projectConstraints crates c p with
  | deny =>
    have hnone : narrow c.types p.classNames = ∅ := by
      by_contra hne
      rw [projectConstraints_eq_rewrite.2 ⟨hne, rfl⟩] at hproject
      cases hproject
    simp [Stays, hnone]
  | rewrite c' =>
    obtain ⟨hne, rfl⟩ := projectConstraints_eq_rewrite.1 hproject
    exact stays_drop_slots rfl hne rfl

theorem mem_left_of_slots {p : ModelProjectionSpec} {referenced : Finset String} {a : String}
    (hslots : slotsOf p kind ≠ ∅) (ha : a ∈ selecting referenced) :
    a ∈ Left c p kind ↔ a ∈ slotsOf p kind ∧ (c.attrs = ∅ ∨ a ∈ c.attrs) := by
  constructor
  · intro h
    have hmem := (mem_narrowToIdentity hslots h).resolve_left (by
      rw [selecting_notSystem ha]
      exact Bool.false_ne_true)
    exact hmem.symm
  · rintro ⟨hslot, hattrs⟩
    have hnarrow : a ∈ narrow c.attrs (slotsOf p kind) :=
      mem_narrow.2 ⟨hattrs, Or.inr hslot, fun h => hslots h.2⟩
    unfold Left narrowToIdentity
    simp only []
    rw [if_neg fun h => Finset.ne_empty_of_mem hnarrow h.1]
    exact hnarrow

theorem mem_classNames_of_narrow {p : ModelProjectionSpec} (hclasses : p.classNames ≠ ∅)
    (hkind : kind ∈ narrow c.types p.classNames) : kind ∈ p.classNames :=
  (mem_narrow.1 hkind).2.1.resolve_left hclasses

/-- Without slots what is left is what the caller may be told. -/
theorem left_of_no_slots {p : ModelProjectionSpec} (hslots : slotsOf p kind = ∅) :
    Left c p kind = c.attrs := by
  simp [Left, narrowToIdentity, narrow, hslots]

/-- A filter tells no two entities apart in what a type that stays may not serve. -/
theorem blind_of_mayServe {projection : Option ModelProjectionSpec} {referenced : Finset String}
    (hserve : ∀ a ∈ selecting referenced, MayServe c projection kind a)
    {select : (String → Option Value) → Prop} (hreads : ReadsOnly referenced select)
    {e e' : String → Option Value}
    (hagree : ∀ a, (a ∈ selecting {a} → MayServe c projection kind a) → e a = e' a) :
    select e ↔ select e' :=
  hreads e e' fun a ha => hagree a fun hselecting => hserve a
    (Finset.mem_filter.2 ⟨ha, (Finset.mem_filter.1 hselecting).2⟩)

theorem oracleClosed_none (hc : Whitelisted c) :
    OracleClosed c none request.referenced (filterRule crates c none request) := by
  have hstays : ∀ kind, Stays (filterRule crates c none request) kind ↔
      Considered c none kind ∧ ∀ a ∈ selecting request.referenced, MayServe c none kind a := by
    intro kind
    rw [filterRule, stays_drop hc.classless]
    simp [Considered, MayServe, and_assoc]
  exact ⟨hstays, fun hhidden c' h => empty_of_hidden hhidden h, fun kind hstay select hreads e e'
    hagree => blind_of_mayServe ((hstays kind).1 hstay).2 hreads hagree⟩

/-- For a type that is considered, the slots that are left are as good as what it may serve exactly
where the filter is judged as the grants judge it. -/
theorem left_iff_mayServe {p : ModelProjectionSpec} (hc : Whitelisted c) (hfull : c.empty = false)
    {referenced : Finset String} (hdisjoint : Disjoint (selecting referenced) c.hidden)
    (hjudged : JudgedByGrants c (some p) referenced)
    (hkind : kind ∈ narrow c.types p.classNames) :
    (∀ a ∈ selecting referenced, a ∈ Left c p kind) ↔
      ∀ a ∈ selecting referenced, MayServe c (some p) kind a := by
  obtain ⟨hclasses, hasked⟩ := hjudged p rfl hfull hdisjoint
  by_cases hslots : slotsOf p kind = ∅
  · have hnone : p.classNames = ∅ := by
      by_contra hne
      exact slotsOf_ne_empty (mem_classNames_of_narrow hne hkind) hslots
    have htypes : c.types ≠ ∅ := fun hempty => by
      rw [hnone, hempty] at hkind
      simp [narrow] at hkind
    rw [left_of_no_slots hslots]
    constructor
    · intro hleft a ha
      rcases hclasses hnone htypes with hempty | hnot
      · rw [hempty] at ha
        exact (Finset.notMem_empty a ha).elim
      · exact (hnot hleft).elim
    · intro hserve a ha
      have hslot := (hserve a ha).2.2 p rfl
      rw [hslots] at hslot
      exact (Finset.notMem_empty a hslot).elim
  · constructor
    · intro hleft a ha
      obtain ⟨hslot, hattrs⟩ := (mem_left_of_slots hslots ha).1 (hleft a ha)
      refine ⟨fun hin => Finset.disjoint_left.1 hdisjoint ha hin, ?_, ?_⟩
      · by_cases hopen : c.served = ∅
        · exact Or.inl hopen
        · obtain ⟨hne, hsubset⟩ := hc.attrs hfull hopen
          exact Or.inr (hsubset (hattrs.resolve_left hne))
      · rintro _ ⟨⟩
        exact hslot
    · intro hserve a ha
      refine (mem_left_of_slots hslots ha).2 ⟨(hserve a ha).2.2 p rfl, ?_⟩
      exact (hasked kind hkind hserve).imp_right fun hsubset => hsubset ha

theorem oracleClosed_some_iff {p : ModelProjectionSpec} (hc : Whitelisted c) :
    OracleClosed c (some p) request.referenced (filterRule crates c (some p) request) ↔
      JudgedByGrants c (some p) request.referenced := by
  constructor
  · rintro ⟨hstays, -, -⟩ _ ⟨⟩ hfull hdisjoint
    have hclear : ∀ a ∈ selecting request.referenced, a ∉ c.hidden := fun _ ha =>
      Finset.disjoint_left.1 hdisjoint ha
    refine ⟨fun hclasses htypes => ?_, fun kind hkind hserve => ?_⟩
    · by_contra hneither
      rw [not_or, not_not] at hneither
      obtain ⟨a, ha⟩ := Finset.nonempty_iff_ne_empty.2 hneither.1
      obtain ⟨kind, hkind⟩ := Finset.nonempty_iff_ne_empty.2 htypes
      have hslots : slotsOf p kind = ∅ := by
        have hfind : p.classes.find? (·.name == kind) = none := by
          have hnil : p.classes = [] := by simpa [ModelProjectionSpec.classNames] using hclasses
          rw [hnil]
          rfl
        simp [slotsOf, ModelProjectionSpec.attributesOf, hfind]
      have hstay : Stays (filterRule crates c (some p) request) kind :=
        stays_filterRule_some.2 ⟨hfull, mem_narrow.2 ⟨Or.inr hkind, Or.inl hclasses,
          fun h => htypes h.1⟩, fun b hb => ⟨hclear b hb, by
            rw [left_of_no_slots hslots]
            exact hneither.2 hb⟩⟩
      have hslot := (((hstays kind).1 hstay).2 a ha).2.2 p rfl
      rw [hslots] at hslot
      exact Finset.notMem_empty a hslot
    · have hconsidered : Considered c (some p) kind :=
        ⟨hfull, (fun h => by cases h), by rintro _ ⟨⟩; exact hkind⟩
      have hleft := (stays_filterRule_some.1 ((hstays kind).2 ⟨hconsidered, hserve⟩)).2.2
      by_cases hattrs : c.attrs = ∅
      · exact Or.inl hattrs
      · refine Or.inr fun a ha => ?_
        have hslots := Finset.ne_empty_of_mem ((hserve a ha).2.2 p rfl)
        exact ((mem_left_of_slots hslots ha).1 (hleft a ha).2).2.resolve_left hattrs
  · intro hjudged
    have hstays : ∀ kind, Stays (filterRule crates c (some p) request) kind ↔
        Considered c (some p) kind ∧
          ∀ a ∈ selecting request.referenced, MayServe c (some p) kind a := by
      intro kind
      rw [stays_filterRule_some]
      constructor
      · rintro ⟨hfull, hkind, hleft⟩
        have hdisjoint : Disjoint (selecting request.referenced) c.hidden :=
          Finset.disjoint_left.2 fun a ha => (hleft a ha).1
        exact ⟨⟨hfull, (fun h => by cases h), by rintro _ ⟨⟩; exact hkind⟩,
          (left_iff_mayServe hc hfull hdisjoint hjudged hkind).1 fun a ha => (hleft a ha).2⟩
      · rintro ⟨⟨hfull, -, hkind⟩, hserve⟩
        have hdisjoint : Disjoint (selecting request.referenced) c.hidden :=
          Finset.disjoint_left.2 fun a ha => (hserve a ha).1
        have hleft := (left_iff_mayServe hc hfull hdisjoint hjudged (hkind p rfl)).2 hserve
        exact ⟨hfull, hkind p rfl, fun a ha => ⟨(hserve a ha).1, hleft a ha⟩⟩
    refine ⟨hstays, fun hhidden c' h => ?_, fun kind hstay select hreads e e' hagree =>
      blind_of_mayServe ((hstays kind).1 hstay).2 hreads hagree⟩
    unfold filterRule at h
    simp only [] at h
    cases hproject : projectConstraints crates c p with
    | deny =>
      rw [hproject] at h
      cases h
    | rewrite c₁ =>
      rw [hproject] at h
      obtain ⟨-, rfl⟩ := projectConstraints_eq_rewrite.1 hproject
      refine empty_of_hidden ?_ h
      exact hhidden

end Rule

section Decision

variable {crates : Crates} {F : Type} [Float64 F] {subject : Subject} {operation : Operation}
  {request : Request} {space : String} {policies : List PolicySpec} {now : Instant}
  {c : Constraints} {projection : Option ModelProjectionSpec}

/-- Of a whitelist the caller is left some, and all of it where the caller narrows nothing. -/
theorem attrsOf_whitelist {listed : Finset String} (hlisted : listed ≠ ∅)
    (hleft : ¬(request.attrs ≠ ∅ ∧ listed ≠ ∅ ∧ attrsOf operation request listed = ∅)) :
    attrsOf operation request listed ≠ ∅ ∧ attrsOf operation request listed ⊆ listed ∧
      (operation.isWrite = true ∨ request.attrs = ∅ →
        attrsOf operation request listed = listed) := by
  unfold attrsOf at hleft ⊢
  split_ifs at hleft ⊢ with hwrite
  · exact ⟨hlisted, Finset.Subset.refl _, fun _ => rfl⟩
  · by_cases hnone : request.attrs = ∅
    · have hall : narrow request.attrs listed = listed := by simp [narrow, hlisted, hnone]
      rw [hall]
      exact ⟨hlisted, Finset.Subset.refl _, fun _ => rfl⟩
    · refine ⟨fun hempty => hleft ⟨hnone, hlisted, hempty⟩, fun a ha => ?_, ?_⟩
      · exact (mem_narrow.1 ha).2.1.resolve_left hlisted
      · rintro (h | h)
        · exact (hwrite h).elim
        · exact (hnone h).elim

/-- The evaluation leaves the decision some of what the grants list. -/
theorem whitelisted_of_evaluate
    (h : evaluate crates F subject operation request space policies now = .rewrite c) :
    Whitelisted c := by
  refine ⟨attrsByType_of_evaluate h, fun hfull hserved => ?_⟩
  obtain ⟨-, -, withheld, -, hkept⟩ := evaluate_eq_rewrite.1 h
  obtain ⟨-, rfl⟩ := withhold_eq_some.1 hkept
  split_ifs at hfull hserved ⊢ with hwithheld
  · obtain ⟨hne, hsubset, -⟩ := attrsOf_whitelist hserved (empty_intersect.1 hfull).2.2
    exact ⟨hne, hsubset⟩
  · rw [Bool.or_eq_false_iff] at hfull
    have hlisted : listedAttrs (permissions subject operation policies now) ≠ ∅ := fun hnone =>
      hserved (by
        change listedAttrs _ \ withheld = ∅
        rw [hnone, Finset.empty_sdiff])
    obtain ⟨-, hsubset, hall⟩ := attrsOf_whitelist hlisted (empty_intersect.1 hfull.1).2.2
    refine ⟨fun hnone => ?_, Finset.sdiff_subset_sdiff hsubset (Finset.Subset.refl _)⟩
    by_cases hasked : operation.isWrite = true ∨ request.attrs = ∅
    · have hattrs : attrsOf operation request (listedAttrs _) \ withheld = ∅ := hnone
      rw [hall hasked] at hattrs
      exact hserved hattrs
    · rw [not_or] at hasked
      have hattrs : (intersect crates F operation request space
        (permissions subject operation policies now) now).attrs \ withheld = ∅ := hnone
      have hempty := hfull.2
      simp [hasked.1, hasked.2, hattrs] at hempty

theorem whitelisted_hide (hiddenAttributes : Finset String) (hc : Whitelisted c) :
    Whitelisted (hide hiddenAttributes c) := by
  unfold hide
  split_ifs
  · exact hc
  · exact ⟨hc.classless, hc.attrs⟩

/-- The filter of a decision is judged by what may be served exactly where the projected filter is
judged as the grants judge it. -/
theorem oracleClosed_iff (hiddenAttributes : Finset String)
    (h : evaluate crates F subject operation request space policies now = .rewrite c) :
    OracleClosed (hide hiddenAttributes c) projection request.referenced
        (PolicyPdp.decide crates F subject operation request space policies hiddenAttributes
          projection now) ↔
      JudgedByGrants (hide hiddenAttributes c) projection request.referenced := by
  have hc := whitelisted_hide hiddenAttributes (whitelisted_of_evaluate h)
  have hdecide : PolicyPdp.decide crates F subject operation request space policies
      hiddenAttributes projection now =
        filterRule crates (hide hiddenAttributes c) projection request := by
    unfold PolicyPdp.decide
    rw [h]
    rfl
  rw [hdecide]
  cases projection with
  | none => exact ⟨fun _ p hp => (nomatch hp), fun _ => oracleClosed_none hc⟩
  | some p => exact oracleClosed_some_iff hc

end Decision

/-! ## A projection over what the caller asked to be returned -/

def reader : PolicySpec where
  assignee := ⟨.role, "visitor"⟩
  operations := [.single .queryEntity]
  information := [{ entities := [{ entityType := "Person" }], propertyNames := ["name", "age"] }]

def people : ModelProjectionSpec where
  classes := [{ name := "Person", slots := ["name", "age"] }]

/-- People over thirty, and of each the attributes named. -/
def overThirty (attrs : Finset String) : Request where
  types := {"Person"}
  attrs := attrs
  q := some "age>30"
  referenced := insert "age" attrs

theorem oracleClosed_overThirty :
    ∃ c, evaluate storedCrates ℚ visitor .queryEntity (overThirty {"age"}) "city" [reader] 0 =
        .rewrite c ∧
      OracleClosed (hide ∅ c) (some people) (overThirty {"age"}).referenced
        (PolicyPdp.decide storedCrates ℚ visitor .queryEntity (overThirty {"age"}) "city" [reader] ∅
          (some people) 0) := by
  refine ⟨_, rfl, (oracleClosed_iff ∅ rfl).2 ?_⟩
  rintro _ ⟨⟩ _ _
  exact ⟨fun hnone => absurd hnone (by decide), fun _ _ _ => Or.inr (by decide)⟩

/-- Asked for names alone, the people over thirty are none, though both attributes may be served. -/
theorem not_oracleClosed :
    ¬∀ (request : Request) (policies : List PolicySpec) (projection : Option ModelProjectionSpec)
      (c : Constraints), evaluate storedCrates ℚ visitor .queryEntity request "city" policies 0 =
          .rewrite c →
        OracleClosed (hide ∅ c) projection request.referenced
          (PolicyPdp.decide storedCrates ℚ visitor .queryEntity request "city" policies ∅ projection
            0) := by
  intro h
  have hclosed := h (overThirty {"name"}) [reader] (some people) _ rfl
  have hserve : ∀ a ∈ selecting (overThirty {"name"}).referenced,
      a ∉ (∅ : Finset String) ∧ a ∈ ({"name", "age"} : Finset String) ∧
        a ∈ slotsOf people "Person" := by decide
  have hstay := (hclosed.stays "Person").2 ⟨⟨by decide, nofun, by rintro _ ⟨⟩; decide⟩, fun a ha =>
    ⟨(hserve a ha).1, Or.inr (hserve a ha).2.1, by rintro _ ⟨⟩; exact (hserve a ha).2.2⟩⟩
  obtain ⟨c', hrewrite, hfull, -⟩ := hstay
  have hempty : (PolicyPdp.decide storedCrates ℚ visitor .queryEntity (overThirty {"name"}) "city"
      [reader] ∅ (some people) 0).constraints.all Constraints.empty = true := by decide
  rw [hrewrite] at hempty
  change c'.empty = true at hempty
  rw [hfull] at hempty
  cases hempty

end JoinedContext.Project

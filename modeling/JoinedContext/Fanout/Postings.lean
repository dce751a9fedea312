import JoinedContext.Fanout.Run

/-!
# What the index holds a filter under

The index posts every held filter under the terms of its key and under no others, without an empty
set, so that it is determined by the filters it holds.
-/

namespace JoinedContext.Fanout

section Buckets

variable {K : Type} {m m' : Buckets K} {k k' : K} {id id' : FilterId}

namespace Buckets

/-- No key has an empty set. -/
def Tidy (m : Buckets K) : Prop := ∀ k, m k ≠ some ∅

theorem Tidy.ext (h : Tidy m) (h' : Tidy m') (hmem : ∀ k id, id ∈ m.bucket k ↔ id ∈ m'.bucket k) :
    m = m' := by
  funext k
  have hk : m.bucket k = m'.bucket k := Finset.ext (hmem k)
  rcases hm : m k with _ | ids <;> rcases hm' : m' k with _ | ids' <;>
    simp only [bucket, hm, hm', Option.getD_none, Option.getD_some] at hk
  · rfl
  · exact absurd (hk ▸ hm') (h' k)
  · exact absurd (hk ▸ hm) (h k)
  · exact congrArg some hk

variable [DecidableEq K]

theorem mem_insertAt : id' ∈ (m.insertAt k id).bucket k' ↔
    id' ∈ m.bucket k' ∨ k' = k ∧ id' = id := by
  unfold insertAt bucket
  by_cases hk : k' = k
  · subst hk
    simp [or_comm]
  · simp [hk]

theorem mem_dropFrom : id' ∈ (m.dropFrom k id).bucket k' ↔
    id' ∈ m.bucket k' ∧ ¬ (k' = k ∧ id' = id) := by
  unfold dropFrom
  rcases hm : m k with _ | ids
  · simp only [iff_self_and]
    rintro hmem ⟨rfl, -⟩
    simp [bucket, hm] at hmem
  · by_cases hk : k' = k
    · subst hk
      simp only [bucket, Function.update_self, hm, Option.getD_some, true_and]
      split_ifs with hempty
      · have hnot : id' ∈ ids → id' = id := fun hmem => by
          by_contra hne
          exact Finset.notMem_empty id' (hempty ▸ Finset.mem_erase.2 ⟨hne, hmem⟩)
        simpa using hnot
      · simp [and_comm]
    · simp [bucket, hk]

theorem Tidy.insertAt (h : Tidy m) : Tidy (m.insertAt k id) := by
  intro k'
  unfold Buckets.insertAt
  by_cases hk : k' = k
  · subst hk
    simp
  · simpa [hk] using h k'

theorem Tidy.dropFrom (h : Tidy m) : Tidy (m.dropFrom k id) := by
  intro k'
  unfold Buckets.dropFrom
  rcases m k with _ | ids
  · exact h k'
  · by_cases hk : k' = k
    · subst hk
      simp only [Function.update_self]
      split_ifs with hempty
      · simp
      · simpa using hempty
    · simpa [hk] using h k'

theorem mem_insertAll : ∀ {ks : List K} {m : Buckets K},
    id' ∈ (ks.foldl (fun m k => m.insertAt k id) m).bucket k' ↔
      id' ∈ m.bucket k' ∨ k' ∈ ks ∧ id' = id
  | [], m => by simp
  | k :: ks, m => by
    rw [List.foldl_cons, mem_insertAll, mem_insertAt, List.mem_cons]
    tauto

theorem mem_dropAll : ∀ {ks : List K} {m : Buckets K},
    id' ∈ (ks.foldl (fun m k => m.dropFrom k id) m).bucket k' ↔
      id' ∈ m.bucket k' ∧ ¬ (k' ∈ ks ∧ id' = id)
  | [], m => by simp
  | k :: ks, m => by
    rw [List.foldl_cons, mem_dropAll, mem_dropFrom, List.mem_cons]
    tauto

theorem Tidy.insertAll : ∀ {ks : List K} {m : Buckets K}, Tidy m →
    Tidy (ks.foldl (fun m k => m.insertAt k id) m)
  | [], _, h => h
  | _ :: _, _, h => by
    rw [List.foldl_cons]
    exact Tidy.insertAll h.insertAt

theorem Tidy.dropAll : ∀ {ks : List K} {m : Buckets K}, Tidy m →
    Tidy (ks.foldl (fun m k => m.dropFrom k id) m)
  | [], _, h => h
  | _ :: _, _, h => by
    rw [List.foldl_cons]
    exact Tidy.dropAll h.dropFrom

end Buckets

end Buckets

section Bounds

def IsZero {F : Type} [GridFloat F] (a : F) : Prop :=
  Float64.le a (Float64.ofDecimal 0 0) = true ∧ Float64.le (Float64.ofDecimal 0 0) a = true

/-- The laws of `total_cmp`: a total order, which leaves the order of the numbers only between the
two zeros. -/
class LawfulGrid (F : Type) [GridFloat F] : Prop where
  total (a b : F) : GridFloat.totalLe a b = true ∨ GridFloat.totalLe b a = true
  trans {a b c : F} : GridFloat.totalLe a b = true → GridFloat.totalLe b c = true →
    GridFloat.totalLe a c = true
  antisymm {a b : F} : GridFloat.totalLe a b = true → GridFloat.totalLe b a = true → a = b
  of_lt {a b : F} : Float64.lt a b = true → GridFloat.totalLe a b = true
  of_le {a b : F} : Float64.le a b = true → GridFloat.totalLe a b = true ∨ IsZero a ∧ IsZero b

instance : LawfulGrid ℚ where
  total a b := (le_total a b).imp decide_eq_true decide_eq_true
  trans hab hbc := decide_eq_true ((of_decide_eq_true hab).trans (of_decide_eq_true hbc))
  antisymm hab hba := le_antisymm (of_decide_eq_true hab) (of_decide_eq_true hba)
  of_lt h := decide_eq_true (of_decide_eq_true h).le
  of_le h := Or.inl h

variable {F : Type} {bs bs' : Bounds F} {n n' : F} {id id' : FilterId}

namespace Bounds

def At (bs : Bounds F) (n : F) (id : FilterId) : Prop := ∃ ids, (n, ids) ∈ bs ∧ id ∈ ids

theorem at_nil : ¬ At ([] : Bounds F) n id := fun ⟨_, h, _⟩ => by cases h

theorem at_cons {b : F} {ids : Finset FilterId} : At ((b, ids) :: bs) n id ↔
    n = b ∧ id ∈ ids ∨ At bs n id := by
  constructor
  · rintro ⟨ids', hmem, hid⟩
    rcases List.mem_cons.1 hmem with heq | hmem
    · cases heq
      exact Or.inl ⟨rfl, hid⟩
    · exact Or.inr ⟨ids', hmem, hid⟩
  · rintro (⟨rfl, hid⟩ | ⟨ids', hmem, hid⟩)
    · exact ⟨ids, List.mem_cons_self, hid⟩
    · exact ⟨ids', List.mem_cons_of_mem _ hmem, hid⟩

theorem mem_union {p : F → Bool} : ∀ {bs : Bounds F} {out : Finset FilterId},
    id ∈ (bs.filter fun b => p b.1).foldl (fun out b => out ∪ b.2) out ↔
      id ∈ out ∨ ∃ n, p n = true ∧ At bs n id
  | [], out => by simp [at_nil]
  | (b, ids) :: bs, out => by
    simp only [at_cons]
    by_cases hp : p b = true
    · rw [List.filter_cons, if_pos hp, List.foldl_cons, mem_union, Finset.mem_union]
      constructor
      · rintro ((hid | hid) | ⟨n, hn, hat⟩)
        · exact Or.inl hid
        · exact Or.inr ⟨b, hp, Or.inl ⟨rfl, hid⟩⟩
        · exact Or.inr ⟨n, hn, Or.inr hat⟩
      · rintro (hid | ⟨n, hn, ⟨rfl, hid⟩ | hat⟩)
        · exact Or.inl (Or.inl hid)
        · exact Or.inl (Or.inr hid)
        · exact Or.inr ⟨n, hn, hat⟩
    · rw [List.filter_cons, if_neg hp, mem_union]
      constructor
      · rintro (hid | ⟨n, hn, hat⟩)
        · exact Or.inl hid
        · exact Or.inr ⟨n, hn, Or.inr hat⟩
      · rintro (hid | ⟨n, hn, ⟨rfl, hid⟩ | hat⟩)
        · exact Or.inl hid
        · exact absurd hn hp
        · exact Or.inr ⟨n, hn, hat⟩

variable [GridFloat F]

/-- In the order of the bounds, each once and with a filter. -/
structure Tidy (bs : Bounds F) : Prop where
  sorted : bs.Pairwise fun a b => GridFloat.totalLe a.1 b.1 = true ∧ a.1 ≠ b.1
  held : ∀ b ∈ bs, b.2 ≠ ∅

theorem mem_upTo : id ∈ upTo n bs ↔ ∃ b, GridFloat.totalLe b n = true ∧ At bs b id := by
  rw [upTo, mem_union (p := fun b => GridFloat.totalLe b n)]
  simp

theorem mem_downTo : id ∈ downTo n bs ↔ ∃ b, GridFloat.totalLe n b = true ∧ At bs b id := by
  rw [downTo, mem_union (p := fun b => GridFloat.totalLe n b)]
  simp

theorem Tidy.tail {b : F × Finset FilterId} (h : Tidy (b :: bs)) : Tidy bs :=
  ⟨(List.pairwise_cons.1 h.sorted).2, fun c hc => h.held c (List.mem_cons_of_mem _ hc)⟩

/-- The bounds after the first are other bounds. -/
theorem Tidy.not_at {b : F} {ids : Finset FilterId} (h : Tidy ((b, ids) :: bs)) : ¬ At bs b id := by
  rintro ⟨ids', hmem, -⟩
  exact ((List.pairwise_cons.1 h.sorted).1 _ hmem).2 rfl

theorem mem_dropFrom {b : F × Finset FilterId} : ∀ {bs : Bounds F}, b ∈ dropFrom n id bs →
    b.2 ≠ ∅ ∧ (∃ ids, (b.1, ids) ∈ bs) ∨ b ∈ bs
  | [], h => by cases h
  | (c, ids) :: bs, h => by
    unfold dropFrom at h
    split_ifs at h with hsame hempty
    · exact Or.inr (List.mem_cons_of_mem _ h)
    · rcases List.mem_cons.1 h with rfl | h
      · exact Or.inl ⟨hempty, ids, List.mem_cons_self⟩
      · exact Or.inr (List.mem_cons_of_mem _ h)
    · rcases List.mem_cons.1 h with rfl | h
      · exact Or.inr List.mem_cons_self
      · refine (mem_dropFrom h).imp ?_ (List.mem_cons_of_mem _)
        exact fun ⟨hheld, ids', hmem⟩ => ⟨hheld, ids', List.mem_cons_of_mem _ hmem⟩

theorem Tidy.dropFrom : ∀ {bs : Bounds F}, Tidy bs → Tidy (dropFrom n id bs)
  | [], h => h
  | (b, ids) :: bs, h => by
    obtain ⟨hb, hsorted⟩ := List.pairwise_cons.1 h.sorted
    refine ⟨?_, fun c hc => (mem_dropFrom hc).elim And.left (h.held c)⟩
    unfold Bounds.dropFrom
    split_ifs with hsame hempty
    · exact hsorted
    · exact List.pairwise_cons.2 ⟨hb, hsorted⟩
    · refine List.pairwise_cons.2 ⟨fun c hc => ?_, h.tail.dropFrom.sorted⟩
      rcases mem_dropFrom hc with ⟨-, ids', hmem⟩ | hmem
      · exact hb (c.1, ids') hmem
      · exact hb c hmem

variable [LawfulGrid F]

theorem sameBound_iff : sameBound n n' = true ↔ n = n' := by
  rw [sameBound, Bool.and_eq_true]
  constructor
  · exact fun h => LawfulGrid.antisymm h.1 h.2
  · rintro rfl
    have hrefl := (LawfulGrid.total n n).elim id id
    exact ⟨hrefl, hrefl⟩

theorem at_insertAt : ∀ {bs : Bounds F},
    At (insertAt n id bs) n' id' ↔ At bs n' id' ∨ n' = n ∧ id' = id
  | [] => by simp [insertAt, at_cons, at_nil]
  | (b, ids) :: bs => by
    unfold insertAt
    split_ifs with hsame hle
    · obtain rfl := sameBound_iff.1 hsame
      simp only [at_cons, Finset.mem_insert]
      tauto
    · simp only [at_cons, Finset.mem_singleton]
      tauto
    · rw [at_cons, at_cons, at_insertAt]
      tauto

theorem mem_insertAt {b : F × Finset FilterId} : ∀ {bs : Bounds F}, b ∈ insertAt n id bs →
    b.1 = n ∧ b.2 ≠ ∅ ∨ b ∈ bs
  | [], h => by simp_all [insertAt]
  | (c, ids) :: bs, h => by
    unfold insertAt at h
    split_ifs at h with hsame hle
    · rcases List.mem_cons.1 h with rfl | h
      · exact Or.inl ⟨(sameBound_iff.1 hsame).symm, Finset.insert_ne_empty _ _⟩
      · exact Or.inr (List.mem_cons_of_mem _ h)
    · rcases List.mem_cons.1 h with rfl | h
      · exact Or.inl ⟨rfl, Finset.singleton_ne_empty _⟩
      · exact Or.inr h
    · rcases List.mem_cons.1 h with rfl | h
      · exact Or.inr List.mem_cons_self
      · exact (mem_insertAt h).imp_right (List.mem_cons_of_mem _)

theorem Tidy.insertAt : ∀ {bs : Bounds F}, Tidy bs → Tidy (insertAt n id bs)
  | [], _ => ⟨List.pairwise_singleton _ _, by simp [Bounds.insertAt]⟩
  | (b, ids) :: bs, h => by
    obtain ⟨hb, hsorted⟩ := List.pairwise_cons.1 h.sorted
    have hrest : Tidy bs := ⟨hsorted, fun c hc => h.held c (List.mem_cons_of_mem _ hc)⟩
    refine ⟨?_, fun c hc => ?_⟩
    · unfold Bounds.insertAt
      split_ifs with hsame hle
      · exact List.pairwise_cons.2 ⟨hb, hsorted⟩
      · have hne : n ≠ b := fun heq => hsame (sameBound_iff.2 heq)
        refine List.pairwise_cons.2 ⟨fun c hc => ?_, h.sorted⟩
        rcases List.mem_cons.1 hc with rfl | hc
        · exact ⟨hle, hne⟩
        · refine ⟨LawfulGrid.trans hle (hb c hc).1, ?_⟩
          rintro rfl
          exact hne (LawfulGrid.antisymm hle (hb c hc).1)
      · refine List.pairwise_cons.2 ⟨fun c hc => ?_, hrest.insertAt.sorted⟩
        rcases mem_insertAt hc with ⟨hcn, -⟩ | hc
        · rw [hcn]
          exact ⟨(LawfulGrid.total n b).resolve_left hle, fun heq => hsame (sameBound_iff.2 heq.symm)⟩
        · exact hb c hc
    · exact (mem_insertAt hc).elim And.right (h.held c)

theorem at_dropFrom : ∀ {bs : Bounds F}, Tidy bs →
    (At (dropFrom n id bs) n' id' ↔ At bs n' id' ∧ ¬ (n' = n ∧ id' = id))
  | [], _ => by simp [dropFrom, at_nil]
  | (b, ids) :: bs, h => by
    have hfirst : ∀ {id}, ¬ At bs b id := h.not_at
    unfold dropFrom
    split_ifs with hsame hempty
    · obtain rfl := sameBound_iff.1 hsame
      have honly : id' ∈ ids → id' = id := fun hid => by
        by_contra hne
        exact Finset.notMem_empty id' (hempty ▸ Finset.mem_erase.2 ⟨hne, hid⟩)
      rw [at_cons]
      constructor
      · exact fun hat => ⟨Or.inr hat, fun ⟨heq, _⟩ => hfirst (heq ▸ hat)⟩
      · rintro ⟨⟨heq, hid⟩ | hat, hnot⟩
        · exact absurd ⟨heq, honly hid⟩ hnot
        · exact hat
    · obtain rfl := sameBound_iff.1 hsame
      simp only [at_cons, Finset.mem_erase]
      constructor
      · rintro (⟨heq, hne, hid⟩ | hat)
        · exact ⟨Or.inl ⟨heq, hid⟩, fun hsame => hne hsame.2⟩
        · exact ⟨Or.inr hat, fun ⟨heq, _⟩ => hfirst (heq ▸ hat)⟩
      · rintro ⟨⟨heq, hid⟩ | hat, hnot⟩
        · exact Or.inl ⟨heq, fun hsame => hnot ⟨heq, hsame⟩, hid⟩
        · exact Or.inr hat
    · have hne : n ≠ b := fun heq => hsame (sameBound_iff.2 heq)
      rw [at_cons, at_cons, at_dropFrom h.tail]
      constructor
      · rintro (⟨rfl, hid⟩ | ⟨hat, hnot⟩)
        · exact ⟨Or.inl ⟨rfl, hid⟩, fun hsame => hne hsame.1.symm⟩
        · exact ⟨Or.inr hat, hnot⟩
      · rintro ⟨hfirst | hat, hnot⟩
        · exact Or.inl hfirst
        · exact Or.inr ⟨hat, hnot⟩

/-- Two lists of bounds with the same filters at each bound are one list. -/
theorem Tidy.ext : ∀ {bs bs' : Bounds F}, Tidy bs → Tidy bs' →
    (∀ n id, At bs n id ↔ At bs' n id) → bs = bs'
  | [], [], _, _, _ => rfl
  | [], (b, ids) :: _, _, h', hat => by
    obtain ⟨id, hid⟩ := Finset.nonempty_iff_ne_empty.2 (h'.held _ List.mem_cons_self)
    exact absurd ((hat b id).2 (at_cons.2 (Or.inl ⟨rfl, hid⟩))) at_nil
  | (b, ids) :: _, [], h, _, hat => by
    obtain ⟨id, hid⟩ := Finset.nonempty_iff_ne_empty.2 (h.held _ List.mem_cons_self)
    exact absurd ((hat b id).1 (at_cons.2 (Or.inl ⟨rfl, hid⟩))) at_nil
  | (b, ids) :: bs, (b', ids') :: bs', h, h', hat => by
    obtain ⟨hb, -⟩ := List.pairwise_cons.1 h.sorted
    obtain ⟨hb', -⟩ := List.pairwise_cons.1 h'.sorted
    -- Each first bound is at or below the other.
    have heq : b = b' := by
      obtain ⟨id, hid⟩ := Finset.nonempty_iff_ne_empty.2 (h.held _ List.mem_cons_self)
      obtain ⟨id', hid'⟩ := Finset.nonempty_iff_ne_empty.2 (h'.held _ List.mem_cons_self)
      rcases at_cons.1 ((hat b id).1 (at_cons.2 (Or.inl ⟨rfl, hid⟩))) with ⟨heq, -⟩ | ⟨_, hmem, -⟩
      · exact heq
      rcases at_cons.1 ((hat b' id').2 (at_cons.2 (Or.inl ⟨rfl, hid'⟩))) with
        ⟨heq, -⟩ | ⟨_, hmem', -⟩
      · exact heq.symm
      exact LawfulGrid.antisymm (hb _ hmem').1 (hb' _ hmem).1
    subst heq
    have hids : ids = ids' := by
      ext id
      have := hat b id
      rw [at_cons, at_cons] at this
      constructor
      · exact fun hid => ((this.1 (Or.inl ⟨rfl, hid⟩)).resolve_right h'.not_at).2
      · exact fun hid => ((this.2 (Or.inl ⟨rfl, hid⟩)).resolve_right h.not_at).2
    subst hids
    have hrest : bs = bs' := by
      refine Tidy.ext h.tail h'.tail fun n id => ?_
      have := hat n id
      rw [at_cons, at_cons] at this
      constructor
      · intro hheld
        rcases this.1 (Or.inr hheld) with ⟨rfl, -⟩ | hheld'
        · exact absurd hheld h.not_at
        · exact hheld'
      · intro hheld
        rcases this.2 (Or.inr hheld) with ⟨rfl, -⟩ | hheld'
        · exact absurd hheld h'.not_at
        · exact hheld'
    rw [hrest]

end Bounds

namespace BoundsOf

variable {m m' : BoundsOf F} {attr attr' : String} [GridFloat F]

def At (m : BoundsOf F) (attr : String) (n : F) (id : FilterId) : Prop :=
  Bounds.At ((m attr).getD []) n id

/-- Every attribute in the map has bounds, in order. -/
def Tidy (m : BoundsOf F) : Prop := ∀ attr bs, m attr = some bs → bs ≠ [] ∧ Bounds.Tidy bs

theorem Tidy.getD (h : Tidy m) (attr : String) : Bounds.Tidy ((m attr).getD []) := by
  rcases hm : m attr with _ | bs
  · exact ⟨List.Pairwise.nil, by simp⟩
  · exact (h attr bs hm).2

theorem Tidy.dropBound (h : Tidy m) : Tidy (m.dropBound attr n id) := by
  intro attr' bs hbs
  unfold BoundsOf.dropBound at hbs
  rcases hm : m attr with _ | bounds <;> simp only [hm] at hbs
  · exact h attr' bs hbs
  · by_cases hattr : attr' = attr
    · subst hattr
      rw [Function.update_self] at hbs
      split_ifs at hbs with hempty
      obtain rfl := Option.some.inj hbs
      exact ⟨by simpa using hempty, (h attr' bounds hm).2.dropFrom⟩
    · exact h attr' bs (by simpa [hattr] using hbs)

variable [LawfulGrid F]

theorem at_insertAt : (m.insertAt attr n id).At attr' n' id' ↔
    m.At attr' n' id' ∨ (attr' = attr ∧ n' = n) ∧ id' = id := by
  unfold At insertAt
  by_cases hattr : attr' = attr
  · subst hattr
    simp [Bounds.at_insertAt]
  · simp [hattr]

theorem at_dropBound (h : Tidy m) : (m.dropBound attr n id).At attr' n' id' ↔
    m.At attr' n' id' ∧ ¬ ((attr' = attr ∧ n' = n) ∧ id' = id) := by
  unfold At dropBound
  rcases hm : m attr with _ | bs
  · simp only [iff_self_and]
    rintro hat ⟨⟨rfl, -⟩, -⟩
    rw [hm] at hat
    exact Bounds.at_nil hat
  · by_cases hattr : attr' = attr
    · subst hattr
      have hbs := (h attr' bs hm).2
      simp only [Function.update_self, hm, Option.getD_some, true_and]
      rw [← Bounds.at_dropFrom hbs]
      split_ifs with hempty
      · rw [List.isEmpty_iff.1 hempty]
        rfl
      · rfl
    · simp [hattr]

theorem Tidy.insertAt (h : Tidy m) : Tidy (m.insertAt attr n id) := by
  intro attr' bs hbs
  unfold BoundsOf.insertAt at hbs
  by_cases hattr : attr' = attr
  · subst hattr
    rw [Function.update_self, Option.some_inj] at hbs
    subst hbs
    refine ⟨fun hnil => ?_, (h.getD attr').insertAt⟩
    have hat : Bounds.At (Bounds.insertAt n id ((m attr').getD [])) n id :=
      Bounds.at_insertAt.2 (Or.inr ⟨rfl, rfl⟩)
    exact Bounds.at_nil (hnil ▸ hat)
  · exact h attr' bs (by simpa [hattr] using hbs)

theorem Tidy.ext (h : Tidy m) (h' : Tidy m') (hat : ∀ attr n id, m.At attr n id ↔ m'.At attr n id) :
    m = m' := by
  funext attr
  have hbs := (h.getD attr).ext (h'.getD attr) (hat attr)
  rcases hm : m attr with _ | bs <;> rcases hm' : m' attr with _ | bs' <;>
    simp only [hm, hm', Option.getD_none, Option.getD_some] at hbs
  · rfl
  · exact absurd hbs.symm (h' attr bs' hm').1
  · exact absurd hbs (h attr bs hm).1
  · exact congrArg some hbs

end BoundsOf

end Bounds

section Index

variable {F : Type}

/-- What a filter may be posted under. -/
inductive Term (F : Type) where
  | any
  | type (ty : String)
  | eq (attr value : String)
  | lower (attr : String) (n : F)
  | upper (attr : String) (n : F)
  | cell (c : Cell)
  | grid

def Key.Has : Key F → Term F → Prop
  | .any, .any => True
  | .types tys, .type ty => ty ∈ tys
  | .eq attr value, .eq attr' value' => (attr', value') = (attr, value)
  | .lower attr n, .lower attr' n' => attr' = attr ∧ n' = n
  | .upper attr n, .upper attr' n' => attr' = attr ∧ n' = n
  | .cells cs, .cell c => c ∈ cs
  | .cells _, .grid => True
  | _, _ => False

namespace Index

def Posts (ix : Index F) (id : FilterId) : Term F → Prop
  | .any => id ∈ ix.any
  | .type ty => id ∈ ix.byType.bucket ty
  | .eq attr value => id ∈ ix.eq.bucket (attr, value)
  | .lower attr n => ix.lower.At attr n id
  | .upper attr n => ix.upper.At attr n id
  | .cell c => id ∈ ix.grid.bucket c
  | .grid => id ∈ ix.onGrid

theorem lookup_sent (A : Antares F) {ix : Index F} (id id' : FilterId) (now : Instant) :
    (ix.sent A id now).filters.lookup id' =
      (ix.filters.lookup id').map fun f => if id' = id then f.sent A now else f := by
  show (ix.filters.map _).lookup id' = _
  induction ix.filters with
  | nil => rfl
  | cons c rest ih =>
    obtain ⟨k, f⟩ := c
    rw [List.map_cons]
    by_cases hk : k = id
    · rw [if_pos hk, Assoc.lookup_cons, Assoc.lookup_cons, ih]
      split_ifs with h₁ h₂
      · rfl
      · exact absurd (h₁.trans hk) h₂
      · rfl
      · rfl
    · rw [if_neg hk, Assoc.lookup_cons, Assoc.lookup_cons, ih]
      split_ifs with h₁ h₂
      · exact absurd (h₁.symm.trans h₂) hk
      · rfl
      · rfl
      · rfl

variable [GridFloat F]

/-- Its maps hold no empty set. -/
structure Tidy (ix : Index F) : Prop where
  byType : ix.byType.Tidy
  eq : ix.eq.Tidy
  lower : ix.lower.Tidy
  upper : ix.upper.Tidy
  grid : ix.grid.Tidy

theorem Tidy.dropKey {ix : Index F} (h : Tidy ix) (id : FilterId) :
    ∀ key : Key F, Tidy (ix.dropKey id key)
  | .any => ⟨h.byType, h.eq, h.lower, h.upper, h.grid⟩
  | .types _ => ⟨h.byType.dropAll, h.eq, h.lower, h.upper, h.grid⟩
  | .eq _ _ => ⟨h.byType, h.eq.dropFrom, h.lower, h.upper, h.grid⟩
  | .lower _ _ => ⟨h.byType, h.eq, h.lower.dropBound, h.upper, h.grid⟩
  | .upper _ _ => ⟨h.byType, h.eq, h.lower, h.upper.dropBound, h.grid⟩
  | .cells _ => ⟨h.byType, h.eq, h.lower, h.upper, h.grid.dropAll⟩

theorem Tidy.insertKey [LawfulGrid F] {ix : Index F} (h : Tidy ix) (id : FilterId) :
    ∀ key : Key F, Tidy (ix.insertKey id key)
  | .any => ⟨h.byType, h.eq, h.lower, h.upper, h.grid⟩
  | .types _ => ⟨h.byType.insertAll, h.eq, h.lower, h.upper, h.grid⟩
  | .eq _ _ => ⟨h.byType, h.eq.insertAt, h.lower, h.upper, h.grid⟩
  | .lower _ _ => ⟨h.byType, h.eq, h.lower.insertAt, h.upper, h.grid⟩
  | .upper _ _ => ⟨h.byType, h.eq, h.lower, h.upper.insertAt, h.grid⟩
  | .cells _ => ⟨h.byType, h.eq, h.lower, h.upper, h.grid.insertAll⟩

/-- The index of its filters: each is posted under the terms of its key, and nothing else is. -/
structure Canonical (ix : Index F) : Prop where
  ids : (ix.filters.map Prod.fst).Nodup
  posts : ∀ id t, ix.Posts id t ↔ ∃ f, ix.filters.lookup id = some f ∧ f.key.Has t
  tidy : Tidy ix

theorem Canonical.empty : Canonical (Index.empty : Index F) where
  ids := List.nodup_nil
  posts id t := by
    cases t <;> simp [Index.empty, Posts, Buckets.bucket, BoundsOf.At, Bounds.at_nil]
  tidy := by constructor <;> simp [Index.empty, Buckets.Tidy, BoundsOf.Tidy]

variable {ix ix' : Index F} {id id' : FilterId} {key : Key F} {t : Term F}

theorem remove_of_lookup {f : Filter F} (hid : ix.filters.lookup id = some f) :
    ix.remove id = { ix.dropKey id f.key with filters := Assoc.without id ix.filters } := by
  simp only [Index.remove, hid]
  cases f.key <;> rfl

theorem Canonical.sent (h : Canonical ix) (A : Antares F) (id : FilterId) (now : Instant) :
    Canonical (ix.sent A id now) := by
  have htidy := h.tidy
  refine ⟨?_, fun id' t => ?_, htidy.byType, htidy.eq, htidy.lower, htidy.upper, htidy.grid⟩
  · have hids := congrArg (List.map Prod.fst) (ix.faces_sent A id now)
    simp only [faces, List.map_map] at hids
    exact (hids : (ix.sent A id now).filters.map Prod.fst = ix.filters.map Prod.fst) ▸ h.ids
  · show ix.Posts id' t ↔ _
    rw [h.posts, lookup_sent]
    rcases ix.filters.lookup id' with _ | f
    · simp
    · have hkey : (if id' = id then f.sent A now else f).key = f.key := by
        split_ifs
        · exact (sent_key A f now).1
        · rfl
      simp [hkey]

variable [LawfulGrid F]

theorem posts_insertKey : (ix.insertKey id key).Posts id' t ↔
    ix.Posts id' t ∨ key.Has t ∧ id' = id := by
  cases key <;> cases t <;>
    simp [insertKey, Posts, Key.Has, Buckets.mem_insertAt, Buckets.mem_insertAll,
      BoundsOf.at_insertAt, or_comm]

theorem posts_dropKey (hlower : ix.lower.Tidy) (hupper : ix.upper.Tidy) :
    (ix.dropKey id key).Posts id' t ↔ ix.Posts id' t ∧ ¬ (key.Has t ∧ id' = id) := by
  cases key <;> cases t <;>
    simp [dropKey, Posts, Key.Has, Buckets.mem_dropFrom, Buckets.mem_dropAll,
      BoundsOf.at_dropBound hlower, BoundsOf.at_dropBound hupper, and_comm]

/-- Two indexes of the same filters are the same. -/
theorem Canonical.ext (h : Canonical ix) (h' : Canonical ix') (hfilters : ix.filters = ix'.filters) :
    ix = ix' := by
  have hposts : ∀ id t, ix.Posts id t ↔ ix'.Posts id t := fun id t => by
    rw [h.posts, h'.posts, hfilters]
  obtain ⟨filters, any, byType, eq, lower, upper, grid, onGrid⟩ := ix
  obtain ⟨filters', any', byType', eq', lower', upper', grid', onGrid'⟩ := ix'
  congr
  · exact Finset.ext fun id => hposts id .any
  · exact h.tidy.byType.ext h'.tidy.byType fun ty id => hposts id (.type ty)
  · exact h.tidy.eq.ext h'.tidy.eq fun k id => hposts id (.eq k.1 k.2)
  · exact h.tidy.lower.ext h'.tidy.lower fun attr n id => hposts id (.lower attr n)
  · exact h.tidy.upper.ext h'.tidy.upper fun attr n id => hposts id (.upper attr n)
  · exact h.tidy.grid.ext h'.tidy.grid fun c id => hposts id (.cell c)
  · exact Finset.ext fun id => hposts id .grid

theorem Canonical.remove (h : Canonical ix) (id : FilterId) : Canonical (ix.remove id) := by
  rcases hid : ix.filters.lookup id with _ | f
  · simpa only [Index.remove, hid] using h
  · rw [remove_of_lookup hid]
    have htidy := h.tidy.dropKey id f.key
    refine ⟨h.ids.sublist (List.filter_sublist.map _), fun id' t => ?_,
      htidy.byType, htidy.eq, htidy.lower, htidy.upper, htidy.grid⟩
    show (ix.dropKey id f.key).Posts id' t ↔ _
    rw [posts_dropKey h.tidy.lower h.tidy.upper, h.posts, Assoc.lookup_without]
    split_ifs with heq
    · subst heq
      simp [hid]
    · simp [heq]

theorem Canonical.insert (h : Canonical ix) (id : FilterId) (f : Filter F) :
    Canonical (ix.insert id f) := by
  have hremoved := h.remove id
  have hfilters : (ix.remove id).filters = Assoc.without id ix.filters := ix.filters_remove id
  have hnone : (ix.remove id).filters.lookup id = none := by
    rw [hfilters, Assoc.lookup_without, if_pos rfl]
  have htidy := hremoved.tidy.insertKey id f.key
  refine ⟨?_, fun id' t => ?_, htidy.byType, htidy.eq, htidy.lower, htidy.upper, htidy.grid⟩
  · show ((((ix.remove id).insertKey id f.key).filters ++ [(id, f)]).map Prod.fst).Nodup
    rw [filters_insertKey, List.map_append, List.nodup_append]
    refine ⟨hremoved.ids, by simp, fun a ha b hb hab => ?_⟩
    obtain rfl : b = id := by simpa using hb
    have := Assoc.lookup_isSome_iff.2 (hab ▸ ha)
    simp [hnone] at this
  · show ((ix.remove id).insertKey id f.key).Posts id' t ↔ ∃ g,
      (((ix.remove id).insertKey id f.key).filters ++ [(id, f)]).lookup id' = some g ∧ g.key.Has t
    rw [posts_insertKey, hremoved.posts, filters_insertKey, Assoc.lookup_append_singleton]
    by_cases heq : id' = id
    · subst heq
      simp [hnone]
    · simp [heq]

end Index

end Index

end JoinedContext.Fanout

import JoinedContext.Library.Assoc

/-!
# Names that two claim

A registry holds each name for the one who entered it. A name entered a second time is nobody's from
then on, whoever enters it again.
-/

namespace JoinedContext

structure Registry (κ β : Type) where
  held : List (κ × β) := []
  ambiguous : List κ := []

namespace Registry

variable {κ β : Type} [DecidableEq κ]

def enter (r : Registry κ β) (c : κ × β) : Registry κ β :=
  if c.1 ∈ r.ambiguous then r
  else if (r.held.lookup c.1).isSome then ⟨Assoc.without c.1 r.held, c.1 :: r.ambiguous⟩
  else ⟨Assoc.put c.1 c.2 r.held, r.ambiguous⟩

def enterAll (entries : List (κ × β)) (r : Registry κ β) : Registry κ β := entries.foldl enter r

/-- The entries of one name. -/
def under (entries : List (κ × β)) (k : κ) : List (κ × β) := entries.filter fun c => c.1 = k

theorem under_append_singleton (entries : List (κ × β)) (c : κ × β) (k : κ) :
    under (entries ++ [c]) k = under entries k ++ if c.1 = k then [c] else [] := by
  unfold under
  rw [List.filter_append, List.filter_singleton]
  simp

/-- The registry is what the entries leave: who a name was entered once for, and the names entered
more often. -/
structure Reflects (entries : List (κ × β)) (r : Registry κ β) : Prop where
  lookup : ∀ k v, r.held.lookup k = some v ↔ under entries k = [(k, v)]
  ambiguous : ∀ k, k ∈ r.ambiguous ↔ 2 ≤ (under entries k).length

theorem Reflects.enter {entries : List (κ × β)} {r : Registry κ β} (h : Reflects entries r)
    (c : κ × β) : Reflects (entries ++ [c]) (r.enter c) := by
  unfold Registry.enter
  split_ifs with hambiguous hheld
  · have hlen := (h.ambiguous c.1).1 hambiguous
    refine ⟨fun k v => ?_, fun k => ?_⟩ <;> rw [under_append_singleton]
    · split_ifs with hk
      · subst hk
        refine iff_of_false (fun hv => ?_) fun heq => ?_
        · rw [(h.lookup _ _).1 hv, List.length_singleton] at hlen
          omega
        · have := congrArg List.length heq
          rw [List.length_append, List.length_singleton, List.length_singleton] at this
          omega
      · rw [List.append_nil]
        exact h.lookup k v
    · split_ifs with hk
      · subst hk
        rw [List.length_append, List.length_singleton]
        exact iff_of_true hambiguous (by omega)
      · rw [List.append_nil]
        exact h.ambiguous k
  · obtain ⟨w, hw⟩ := Option.isSome_iff_exists.1 hheld
    have hone := (h.lookup _ _).1 hw
    refine ⟨fun k v => ?_, fun k => ?_⟩ <;> rw [under_append_singleton]
    · rw [Assoc.lookup_without]
      split_ifs with hk hck hck
      · subst hk
        rw [hone]
        simp
      · exact (hck hk.symm).elim
      · exact (hk hck.symm).elim
      · rw [List.append_nil]
        exact h.lookup k v
    · rw [List.mem_cons]
      split_ifs with hck
      · subst hck
        rw [hone]
        exact iff_of_true (Or.inl rfl) (Nat.le_refl 2)
      · rw [List.append_nil, or_iff_right fun hk => hck hk.symm]
        exact h.ambiguous k
  · have hnone : under entries c.1 = [] := by
      rw [← List.length_eq_zero_iff]
      have hlt := mt (h.ambiguous c.1).2 hambiguous
      rcases hu : under entries c.1 with _ | ⟨d, rest⟩
      · rfl
      · rw [hu, List.length_cons] at hlt
        obtain rfl : rest = [] := List.length_eq_zero_iff.1 (by omega)
        have hd : d.1 = c.1 := by
          have hmem : d ∈ under entries c.1 := hu ▸ List.mem_cons_self
          simpa using (List.mem_filter.1 hmem).2
        exact (hheld (by rw [(h.lookup c.1 d.2).2 (by rw [hu, ← hd])]; rfl)).elim
    refine ⟨fun k v => ?_, fun k => ?_⟩ <;> rw [under_append_singleton]
    · rw [Assoc.lookup_put]
      split_ifs with hk hck hck
      · subst hk
        rw [hnone, List.nil_append, Option.some.injEq, List.cons.injEq, and_iff_left rfl]
        exact ⟨fun h => by rw [← h], fun h => congrArg Prod.snd h⟩
      · exact (hck hk.symm).elim
      · exact (hk hck.symm).elim
      · rw [List.append_nil]
        exact h.lookup k v
    · split_ifs with hck
      · subst hck
        rw [hnone]
        exact iff_of_false hambiguous (by simp)
      · rw [List.append_nil]
        exact h.ambiguous k

theorem Reflects.enterAll {entries : List (κ × β)} {r : Registry κ β} (h : Reflects entries r)
    (l : List (κ × β)) : Reflects (entries ++ l) (enterAll l r) := by
  induction l generalizing entries r with
  | nil => rwa [List.append_nil]
  | cons c l ih =>
    have := ih (h.enter c)
    rwa [List.append_assoc, List.singleton_append] at this

/-- Entered in turn, a name is held exactly for the one who alone entered it. -/
theorem lookup_enterAll (entries : List (κ × β)) (k : κ) (v : β) :
    (enterAll entries {}).held.lookup k = some v ↔ under entries k = [(k, v)] := by
  have hempty : Reflects ([] : List (κ × β)) {} :=
    ⟨fun k v => by simp [under], fun k => by simp [under]⟩
  exact (hempty.enterAll entries).lookup k v

end Registry

end JoinedContext

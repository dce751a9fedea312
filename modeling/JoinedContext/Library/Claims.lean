import JoinedContext.Library.Assoc

/-!
# Names that are claimed once

Claims are entered in turn, each name with whoever claimed it last, and the first that clashes with the
one before it is refused.
-/

namespace JoinedContext.Claims

variable {κ β ε : Type} [DecidableEq κ]

/-- Enters the claims, unless one clashes with what is held of its name. -/
def enter (clash : κ → β → β → Option ε) : List (κ × β) → List (κ × β) → Except ε Unit
  | [], _ => .ok ()
  | (k, v) :: rest, held =>
    match (held.lookup k).bind fun w => clash k w v with
    | some e => .error e
    | none => enter clash rest (Assoc.put k v held)

variable {clash : κ → β → β → Option ε} {R : β → β → Prop} {entries held : List (κ × β)}

theorem enter_eq_ok_of (hclash : ∀ k v w, clash k v w = none ↔ R v w)
    (htrans : ∀ u v w, R u v → R v w → R u w) :
    enter clash entries held = .ok () ↔
      (∀ k v, held.lookup k = some v → ∀ c ∈ entries, c.1 = k → R v c.2) ∧
        entries.Pairwise fun c d => c.1 = d.1 → R c.2 d.2 := by
  induction entries generalizing held with
  | nil => simp [enter]
  | cons c rest ih =>
    obtain ⟨k, v⟩ := c
    have hhead : (held.lookup k).bind (fun w => clash k w v) = none ↔
        ∀ w, held.lookup k = some w → R w v := by
      rw [Option.bind_eq_none_iff]
      exact forall₂_congr fun w _ => hclash k w v
    rw [List.pairwise_cons, enter]
    cases hbind : (held.lookup k).bind fun w => clash k w v with
    | some e =>
      refine iff_of_false (by simp) fun hall => ?_
      rw [hhead.2 fun w hw => hall.1 k w hw (k, v) List.mem_cons_self rfl] at hbind
      cases hbind
    | none =>
      have hfirst := hhead.1 hbind
      simp only [ih, Assoc.lookup_put]
      constructor
      · rintro ⟨hheld, hrest⟩
        have hv : ∀ d ∈ rest, d.1 = k → R v d.2 := fun d hd hk => hheld k v (if_pos rfl) d hd hk
        refine ⟨fun a w hw d hd ha => ?_, fun d hd hk => hv d hd hk.symm, hrest⟩
        rcases List.mem_cons.1 hd with rfl | hd
        · exact hfirst w (by rw [show k = a from ha, hw])
        · by_cases hak : a = k
          · exact htrans w v d.2 (hfirst w (hak ▸ hw)) (hv d hd (ha.trans hak))
          · exact hheld a w (by rw [if_neg hak, hw]) d hd ha
      · rintro ⟨hheld, hv, hrest⟩
        refine ⟨fun a w hw d hd ha => ?_, hrest⟩
        split_ifs at hw with hak
        · cases hw
          exact hv d hd (hak.symm.trans ha.symm)
        · exact hheld a w hw d (List.mem_cons_of_mem _ hd) ha

/-- Where clashes are what a transitive relation leaves, the claims are entered exactly if no two of one
name clash. -/
theorem enter_eq_ok (hclash : ∀ k v w, clash k v w = none ↔ R v w)
    (htrans : ∀ u v w, R u v → R v w → R u w) :
    enter clash entries [] = .ok () ↔ entries.Pairwise fun c d => c.1 = d.1 → R c.2 d.2 := by
  rw [enter_eq_ok_of hclash htrans]
  simp

end JoinedContext.Claims

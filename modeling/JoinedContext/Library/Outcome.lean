import Mathlib.Logic.Basic

/-!
# What a computation that may fail ensures

The rules by which a property of every result of an `Except` computation is read off its steps.
-/

namespace JoinedContext

variable {ε α β γ : Type} {P : β → Prop} {Q : α → Prop}

/-- Whether every result of a computation has a property. -/
def Ensures (x : Except ε β) (P : β → Prop) : Prop := ∀ b, x = .ok b → P b

namespace Ensures

theorem pure {b : β} (h : P b) : Ensures (Pure.pure b : Except ε β) P := by
  intro b' hb'
  cases hb'
  exact h

theorem throw (e : ε) : Ensures (MonadExcept.throw e : Except ε β) P := by
  intro b hb
  cases hb

theorem bind {x : Except ε α} {f : α → Except ε β} (hx : Ensures x Q)
    (hf : ∀ a, Q a → Ensures (f a) P) : Ensures (x >>= f) P := by
  intro b hb
  rcases x with e | a
  · cases hb
  · exact hf a (hx a rfl) b hb

theorem any (x : Except ε α) : Ensures x fun _ => True := fun _ _ => trivial

theorem ite {c : Prop} [Decidable c] {x y : Except ε β} (hx : c → Ensures x P)
    (hy : ¬ c → Ensures y P) : Ensures (if c then x else y) P := by
  by_cases h : c
  · rw [if_pos h]
    exact hx h
  · rw [if_neg h]
    exact hy h

end Ensures

theorem isOk_iff {x : Except ε α} : x.isOk = true ↔ ∃ a, x = .ok a := by
  cases x <;> simp [Except.isOk, Except.toBool]

theorem bind_eq_ok {x : Except ε α} {f : α → Except ε β} {b : β} :
    x >>= f = .ok b ↔ ∃ a, x = .ok a ∧ f a = .ok b := by
  rcases x with e | a
  · constructor
    · intro h
      cases h
    · rintro ⟨_, h, -⟩
      cases h
  · constructor
    · intro h
      exact ⟨a, rfl, h⟩
    · rintro ⟨_, ⟨⟩, h⟩
      exact h

theorem toOption_eq_some {x : Except ε α} {a : α} : x.toOption = some a ↔ x = .ok a := by
  rcases x with e | b <;> simp [Except.toOption]

theorem toOption_bind {x : Except ε α} {f : α → Except ε β} :
    (x.bind f).toOption = x.toOption.bind fun a => (f a).toOption := by
  rcases x with e | a <;> rfl

theorem andThen_eq_ok {x : Except ε Unit} {y : Except ε β} {b : β} :
    (x >>= fun _ => y) = .ok b ↔ x = .ok () ∧ y = .ok b := by
  rw [bind_eq_ok]
  exact ⟨fun ⟨_, hx, hy⟩ => ⟨hx, hy⟩, fun h => ⟨(), h⟩⟩

theorem map_eq_ok {f : α → β} {x : Except ε α} {b : β} :
    f <$> x = .ok b ↔ ∃ a, x = .ok a ∧ f a = b := by
  rcases x with e | a
  · simp [Functor.map, Except.map]
  · simp [Functor.map, Except.map]

theorem forM_eq_ok {f : α → Except ε Unit} : ∀ {l : List α},
    l.forM f = .ok () ↔ ∀ a ∈ l, f a = .ok ()
  | [] => by simp [pure, Except.pure]
  | a :: l => by
    rw [List.forall_mem_cons, ← forM_eq_ok]
    exact andThen_eq_ok (x := f a) (y := l.forM f)

/-- What a list is mapped to comes from its items, each on its own. -/
theorem mem_of_mapM {g : α → Except ε β} : ∀ {items : List α} {results : List β},
    items.mapM g = .ok results →
      (∀ b ∈ results, ∃ a ∈ items, g a = .ok b) ∧ ∀ a ∈ items, ∃ b ∈ results, g a = .ok b
  | [], results, h => by
    obtain rfl := Except.ok.inj h
    simp
  | a :: items, results, h => by
    rw [List.mapM_cons, bind_eq_ok] at h
    obtain ⟨b, hb, h⟩ := h
    obtain ⟨rest, hrest, h⟩ := bind_eq_ok.1 h
    obtain rfl := Except.ok.inj h
    obtain ⟨hback, hforth⟩ := mem_of_mapM hrest
    constructor
    · intro b' hb'
      rcases List.mem_cons.1 hb' with rfl | hb'
      · exact ⟨a, List.mem_cons_self, hb⟩
      · obtain ⟨a', ha', hg⟩ := hback b' hb'
        exact ⟨a', List.mem_cons_of_mem _ ha', hg⟩
    · intro a' ha'
      rcases List.mem_cons.1 ha' with rfl | ha'
      · exact ⟨b, List.mem_cons_self, hb⟩
      · obtain ⟨b', hb', hg⟩ := hforth a' ha'
        exact ⟨b', List.mem_cons_of_mem _ hb', hg⟩

/-- A list is mapped to a list where each item is mapped to something. -/
theorem mapM_eq_map {g : α → Except ε β} {f : α → β} : ∀ {items : List α},
    (∀ a ∈ items, g a = .ok (f a)) → items.mapM g = .ok (items.map f)
  | [], _ => rfl
  | a :: items, h => by
    rw [List.mapM_cons, h a List.mem_cons_self,
      mapM_eq_map fun b hb => h b (List.mem_cons_of_mem _ hb)]
    rfl

theorem length_of_mapM {g : α → Except ε β} : ∀ {items : List α} {results : List β},
    items.mapM g = .ok results → results.length = items.length
  | [], results, h => by
    rw [List.mapM_nil] at h
    rw [← Except.ok.inj h]
    rfl
  | a :: items, results, h => by
    rw [List.mapM_cons] at h
    obtain ⟨b, -, hb⟩ := bind_eq_ok.1 h
    obtain ⟨rest, hrest, hpure⟩ := bind_eq_ok.1 hb
    rw [← Except.ok.inj hpure, List.length_cons, List.length_cons, length_of_mapM hrest]

theorem mapM_eq_ok {g : α → Except ε β} : ∀ {items : List α} {results : List β},
    items.mapM g = .ok results ↔
      (∀ a ∈ items, ∃ b, g a = .ok b) ∧ results = items.filterMap fun a => (g a).toOption
  | [], results => by
    rw [List.mapM_nil]
    constructor
    · intro h
      exact ⟨by simp, (Except.ok.inj h).symm⟩
    · rintro ⟨-, rfl⟩
      rfl
  | a :: items, results => by
    rw [List.mapM_cons, bind_eq_ok, List.forall_mem_cons]
    constructor
    · rintro ⟨b, hb, h⟩
      obtain ⟨rest, hrest, h⟩ := bind_eq_ok.1 h
      obtain rfl := Except.ok.inj h
      obtain ⟨hall, rfl⟩ := mapM_eq_ok.1 hrest
      exact ⟨⟨⟨b, hb⟩, hall⟩, by simp [hb, Except.toOption]⟩
    · rintro ⟨⟨⟨b, hb⟩, hall⟩, rfl⟩
      refine ⟨b, hb, bind_eq_ok.2 ⟨_, mapM_eq_ok.2 ⟨hall, rfl⟩, ?_⟩⟩
      simp [hb, Except.toOption, pure, Except.pure]

section Numbered

variable {σ : Type} {f : σ → α × Nat → Except ε σ} {g : α × Nat → Except ε β} {st st' st'' : σ}
  {a : α} {items : List α}

/-- Whether folding numbered items, whatever the first number is, leads from one state to
another. -/
def Folds (f : σ → α × Nat → Except ε σ) (st : σ) (items : List α) (st' : σ) : Prop :=
  ∀ k, (items.zipIdx k).foldlM f st = .ok st'

theorem Folds.nil : Folds f st [] st := fun _ => rfl

theorem Folds.cons (h : ∀ k, f st (a, k) = .ok st') (hrest : Folds f st' items st'') :
    Folds f st (a :: items) st'' := by
  intro k
  rw [List.zipIdx_cons, List.foldlM_cons, h k]
  exact hrest (k + 1)

/-- An item that may be there. -/
theorem Folds.option {o : Option α} {rest : List (Option α)}
    (h : ∀ a, o = some a → ∀ k, f st (a, k) = .ok st') (hnone : o = none → st' = st)
    (hrest : Folds f st' (rest.filterMap id) st'') :
    Folds f st ((o :: rest).filterMap id) st'' := by
  rcases o with _ | a
  · exact hnone rfl ▸ hrest
  · exact Folds.cons (h a rfl) hrest

/-- A fold over an item that every state refuses ends nowhere. -/
theorem not_folds_of_mem (ha : ∀ st k st', f st (a, k) ≠ .ok st') :
    ∀ {items : List α}, a ∈ items → ∀ st k st', (items.zipIdx k).foldlM f st ≠ .ok st'
  | b :: items, hmem, st, k, st', h => by
    rw [List.zipIdx_cons, List.foldlM_cons, bind_eq_ok] at h
    obtain ⟨next, hb, hrest⟩ := h
    rcases List.mem_cons.1 hmem with rfl | hmem
    · exact ha st k next hb
    · exact not_folds_of_mem ha hmem next (k + 1) st' hrest

theorem mapM_zipIdx_eq_ok {h : γ → α} {r : γ → β} : ∀ {l : List γ},
    (∀ c ∈ l, ∀ k, g (h c, k) = .ok (r c)) → ∀ k, ((l.map h).zipIdx k).mapM g = .ok (l.map r)
  | [], _, _ => rfl
  | c :: l, hg, k => by
    rw [List.map_cons, List.zipIdx_cons, List.mapM_cons, hg c List.mem_cons_self, List.map_cons]
    simp only [mapM_zipIdx_eq_ok (fun d hd => hg d (List.mem_cons_of_mem _ hd)) (k + 1), bind,
      Except.bind, pure, Except.pure]

end Numbered

@[simp] theorem mapError_ok {ε' : Type} {g : ε → ε'} {a : α} :
    (Except.ok a).mapError g = .ok a := rfl

@[simp] theorem mapError_error {ε' : Type} {g : ε → ε'} {e : ε} :
    (Except.error e : Except ε α).mapError g = .error (g e) := rfl

theorem mapError_eq_ok {ε' : Type} {g : ε → ε'} {x : Except ε α} {a : α} :
    x.mapError g = .ok a ↔ x = .ok a := by
  rcases x with e | a <;> simp

end JoinedContext

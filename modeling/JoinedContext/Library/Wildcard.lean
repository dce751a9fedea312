import Mathlib.Data.List.Basic

/-!
# Level patterns

A path is a list of levels and a pattern a list of levels that may be wildcards: one stands for a
single level, the other for every level that is left, none included. When one pattern reaches all
that another does, and when no path is reached by both, is read off the patterns.
-/

namespace JoinedContext.Wildcard

inductive Level (α : Type) where
  | lit (a : α)
  | one
  | rest
deriving DecidableEq

variable {α : Type}

def Matches : List (Level α) → List α → Prop
  | .rest :: _, _ => True
  | [], path => path = []
  | .one :: f, _ :: path => Matches f path
  | .lit a :: f, b :: path => b = a ∧ Matches f path
  | .one :: _, [] => False
  | .lit _ :: _, [] => False

/-- A path of the pattern with `z` under each of its wildcards. -/
def Fills (z : α) : List (Level α) → List α → Prop
  | .rest :: _, path => ∀ b ∈ path, b = z
  | [], path => path = []
  | .one :: f, b :: path => b = z ∧ Fills z f path
  | .lit a :: f, b :: path => b = a ∧ Fills z f path
  | .one :: _, [] => False
  | .lit _ :: _, [] => False

theorem matches_of_fills {z : α} : ∀ {f : List (Level α)} {path : List α}, Fills z f path →
    Matches f path
  | .rest :: _, _, _ => trivial
  | [], _, h => h
  | .one :: f, _ :: _, h => matches_of_fills (f := f) h.2
  | .lit _ :: _, _ :: _, h => ⟨h.1, matches_of_fills h.2⟩

theorem mem_of_fills {z b : α} : ∀ {f : List (Level α)} {path : List α}, Fills z f path →
    b ∈ path → b = z ∨ .lit b ∈ f
  | .rest :: _, _, h, hb => Or.inl (h b hb)
  | [], _, h, hb => by
    rw [h] at hb
    cases hb
  | .one :: _, _ :: _, h, hb => by
    rcases List.mem_cons.1 hb with rfl | hb
    · exact Or.inl h.1
    · exact (mem_of_fills h.2 hb).imp_right (List.mem_cons_of_mem _)
  | .lit _ :: _, _ :: _, h, hb => by
    rcases List.mem_cons.1 hb with rfl | hb
    · exact Or.inr (h.1 ▸ List.mem_cons_self)
    · exact (mem_of_fills h.2 hb).imp_right (List.mem_cons_of_mem _)

theorem exists_fills (z : α) : ∀ f : List (Level α), ∃ path, Fills z f path ∧ (f ≠ [] → path ≠ [])
  | [] => ⟨[], rfl, fun h => (h rfl).elim⟩
  | .rest :: _ => ⟨[z], fun _ hb => List.mem_singleton.1 hb, fun _ => List.cons_ne_nil _ _⟩
  | .one :: f => by
    obtain ⟨path, hpath, -⟩ := exists_fills z f
    exact ⟨z :: path, ⟨rfl, hpath⟩, fun _ => List.cons_ne_nil _ _⟩
  | .lit a :: f => by
    obtain ⟨path, hpath, -⟩ := exists_fills z f
    exact ⟨a :: path, ⟨rfl, hpath⟩, fun _ => List.cons_ne_nil _ _⟩

section Covers

variable [DecidableEq α]

/-- Whether every path `narrow` reaches, `wide` reaches too. -/
def covers : List (Level α) → List (Level α) → Bool
  | .rest :: _, _ => true
  | [], narrow => narrow.isEmpty
  | .one :: wide, part :: narrow => part ≠ .rest && covers wide narrow
  | .lit a :: wide, part :: narrow => part = .lit a && covers wide narrow
  | .one :: _, [] => false
  | .lit _ :: _, [] => false

theorem matches_of_covers : ∀ {w n : List (Level α)} {path : List α},
    covers w n = true → Matches n path → Matches w path
  | .rest :: _, _, _, _, _ => trivial
  | [], [], _, _, h => h
  | [], _ :: _, _, hcovers, _ => absurd hcovers Bool.false_ne_true
  | .one :: _, [], _, hcovers, _ => absurd hcovers Bool.false_ne_true
  | .lit _ :: _, [], _, hcovers, _ => absurd hcovers Bool.false_ne_true
  | .one :: w, part :: n, path, hcovers, h => by
    obtain ⟨hpart, hrest⟩ := Bool.and_eq_true_iff.1 hcovers
    cases part with
    | rest => simp at hpart
    | one =>
      cases path with
      | nil => exact h.elim
      | cons b path => exact matches_of_covers (w := w) hrest h
    | lit c =>
      cases path with
      | nil => exact h.elim
      | cons b path => exact matches_of_covers (w := w) hrest h.2
  | .lit a :: w, part :: n, path, hcovers, h => by
    obtain ⟨hpart, hrest⟩ := Bool.and_eq_true_iff.1 hcovers
    obtain rfl : part = .lit a := of_decide_eq_true hpart
    cases path with
    | nil => exact h.elim
    | cons b path => exact ⟨h.1, matches_of_covers hrest h.2⟩

/-- Where a pattern does not cover another, a path of the other with one fresh level under its
wildcards is outside it. -/
theorem exists_of_not_covers {z : α} : ∀ {w n : List (Level α)}, Level.lit z ∉ w →
    covers w n = false → ∃ path, Fills z n path ∧ ¬ Matches w path
  | .rest :: _, _, _, h => absurd h Bool.true_eq_false.mp
  | [], [], _, h => absurd h Bool.true_eq_false.mp
  | [], part :: n, _, _ => by
    obtain ⟨path, hfills, hne⟩ := exists_fills z (part :: n)
    exact ⟨path, hfills, hne (List.cons_ne_nil _ _)⟩
  | .one :: _, [], _, _ => ⟨[], rfl, id⟩
  | .lit _ :: _, [], _, _ => ⟨[], rfl, id⟩
  | .one :: _, .rest :: _, _, _ => ⟨[], List.forall_mem_nil _, id⟩
  | .lit _ :: _, .rest :: _, _, _ => ⟨[], List.forall_mem_nil _, id⟩
  | .one :: w, .one :: n, hz, h => by
    obtain ⟨path, hfills, hnot⟩ := exists_of_not_covers (w := w) (n := n)
      (fun hmem => hz (List.mem_cons_of_mem _ hmem)) (by simpa [covers] using h)
    exact ⟨z :: path, ⟨rfl, hfills⟩, hnot⟩
  | .one :: w, .lit b :: n, hz, h => by
    obtain ⟨path, hfills, hnot⟩ := exists_of_not_covers (w := w) (n := n)
      (fun hmem => hz (List.mem_cons_of_mem _ hmem)) (by simpa [covers] using h)
    exact ⟨b :: path, ⟨rfl, hfills⟩, hnot⟩
  | .lit a :: w, .one :: n, hz, _ => by
    obtain ⟨path, hfills, -⟩ := exists_fills z n
    refine ⟨z :: path, ⟨rfl, hfills⟩, fun hmatch => hz ?_⟩
    rw [← hmatch.1]
    exact List.mem_cons_self
  | .lit a :: w, .lit b :: n, hz, h => by
    by_cases hab : b = a
    · subst hab
      obtain ⟨path, hfills, hnot⟩ := exists_of_not_covers (w := w) (n := n)
        (fun hmem => hz (List.mem_cons_of_mem _ hmem)) (by simpa [covers] using h)
      exact ⟨b :: path, ⟨rfl, hfills⟩, fun hmatch => hnot hmatch.2⟩
    · obtain ⟨path, hfills, -⟩ := exists_fills z n
      exact ⟨b :: path, ⟨rfl, hfills⟩, fun hmatch => hab hmatch.1⟩

end Covers

section Clash

variable [DecidableEq α]

/-- Whether the patterns differ at a level before any wildcard for the rest, or in length. -/
def clash : List (Level α) → List (Level α) → Bool
  | [], [] => false
  | [], g :: _ => g ≠ .rest
  | f :: _, [] => f ≠ .rest
  | .rest :: _, _ :: _ => false
  | _ :: _, .rest :: _ => false
  | .lit a :: f, .lit b :: g => a ≠ b || clash f g
  | .lit _ :: f, .one :: g => clash f g
  | .one :: f, .lit _ :: g => clash f g
  | .one :: f, .one :: g => clash f g

theorem not_matches_of_clash : ∀ {f g : List (Level α)} {path : List α}, clash f g = true →
    Matches f path → ¬ Matches g path
  | [], .one :: _, _, _, rfl => id
  | [], .lit _ :: _, _, _, rfl => id
  | .one :: _, [], _ :: _, _, _ => List.cons_ne_nil _ _
  | .lit _ :: _, [], _ :: _, _, _ => List.cons_ne_nil _ _
  | .lit a :: f, .lit b :: g, c :: path, h, hf => fun hg => by
    obtain ⟨rfl, hf⟩ := hf
    obtain ⟨rfl, hg⟩ := hg
    exact not_matches_of_clash (f := f) (g := g) (by simpa [clash] using h) hf hg
  | .lit _ :: f, .one :: g, _ :: _, h, hf => not_matches_of_clash (f := f) (g := g) h hf.2
  | .one :: f, .lit _ :: g, _ :: _, h, hf => fun hg =>
    not_matches_of_clash (f := f) (g := g) h hf hg.2
  | .one :: f, .one :: g, _ :: _, h, hf => not_matches_of_clash (f := f) (g := g) h hf
  | [], .rest :: _, _, h, _ => by simp [clash] at h
  | .rest :: _, [], _, h, _ => by simp [clash] at h
  | .rest :: _, _ :: _, _, h, _ => absurd h Bool.false_ne_true
  | .one :: _, .rest :: _, _, h, _ => absurd h Bool.false_ne_true
  | .lit _ :: _, .rest :: _, _, h, _ => absurd h Bool.false_ne_true

/-- Patterns that do not clash reach a path in common, of levels of theirs and any other one. -/
theorem exists_of_not_clash (z : α) : ∀ {f g : List (Level α)}, clash f g = false →
    ∃ path, Matches f path ∧ Matches g path ∧ ∀ b ∈ path, b = z ∨ .lit b ∈ f ∨ .lit b ∈ g
  | [], [], _ => ⟨[], rfl, rfl, List.forall_mem_nil _⟩
  | [], .rest :: _, _ => ⟨[], rfl, trivial, List.forall_mem_nil _⟩
  | .rest :: _, [], _ => ⟨[], trivial, rfl, List.forall_mem_nil _⟩
  | [], .one :: _, h => by simp [clash] at h
  | [], .lit _ :: _, h => by simp [clash] at h
  | .one :: _, [], h => by simp [clash] at h
  | .lit _ :: _, [], h => by simp [clash] at h
  | .rest :: _, q :: g, _ => by
    obtain ⟨path, hfills, -⟩ := exists_fills z (q :: g)
    exact ⟨path, trivial, matches_of_fills hfills,
      fun _ hb => (mem_of_fills hfills hb).imp_right Or.inr⟩
  | .one :: f, .rest :: _, _ => by
    obtain ⟨path, hfills, -⟩ := exists_fills z (.one :: f)
    exact ⟨path, matches_of_fills hfills, trivial,
      fun _ hb => (mem_of_fills hfills hb).imp_right Or.inl⟩
  | .lit a :: f, .rest :: _, _ => by
    obtain ⟨path, hfills, -⟩ := exists_fills z (.lit a :: f)
    exact ⟨path, matches_of_fills hfills, trivial,
      fun _ hb => (mem_of_fills hfills hb).imp_right Or.inl⟩
  | .lit a :: f, .lit b :: g, h => by
    obtain ⟨hab, hrest⟩ : a = b ∧ clash f g = false := by simpa [clash] using h
    subst hab
    obtain ⟨path, hf, hg, hmem⟩ := exists_of_not_clash z hrest
    refine ⟨a :: path, ⟨rfl, hf⟩, ⟨rfl, hg⟩, List.forall_mem_cons.2 ⟨?_, fun c hc => ?_⟩⟩
    · exact Or.inr (Or.inl List.mem_cons_self)
    · exact (hmem c hc).imp_right
        (Or.imp (List.mem_cons_of_mem _) (List.mem_cons_of_mem _))
  | .lit a :: f, .one :: g, h => by
    obtain ⟨path, hf, hg, hmem⟩ := exists_of_not_clash z (f := f) (g := g) h
    refine ⟨a :: path, ⟨rfl, hf⟩, hg, List.forall_mem_cons.2 ⟨?_, fun c hc => ?_⟩⟩
    · exact Or.inr (Or.inl List.mem_cons_self)
    · exact (hmem c hc).imp_right
        (Or.imp (List.mem_cons_of_mem _) (List.mem_cons_of_mem _))
  | .one :: f, .lit b :: g, h => by
    obtain ⟨path, hf, hg, hmem⟩ := exists_of_not_clash z (f := f) (g := g) h
    refine ⟨b :: path, hf, ⟨rfl, hg⟩, List.forall_mem_cons.2 ⟨?_, fun c hc => ?_⟩⟩
    · exact Or.inr (Or.inr List.mem_cons_self)
    · exact (hmem c hc).imp_right
        (Or.imp (List.mem_cons_of_mem _) (List.mem_cons_of_mem _))
  | .one :: f, .one :: g, h => by
    obtain ⟨path, hf, hg, hmem⟩ := exists_of_not_clash z (f := f) (g := g) h
    refine ⟨z :: path, hf, hg, List.forall_mem_cons.2 ⟨Or.inl rfl, fun c hc => ?_⟩⟩
    exact (hmem c hc).imp_right
      (Or.imp (List.mem_cons_of_mem _) (List.mem_cons_of_mem _))

end Clash

end JoinedContext.Wildcard

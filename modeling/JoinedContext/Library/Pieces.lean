import JoinedContext.Library.Scan

/-!
# Pieces between separators

A list is cut at each occurrence of a separator, found from the left. A separator that overlaps
itself nowhere is found wherever it stands, whatever stands before it, so what was put together with
it comes apart again.
-/

namespace JoinedContext.Pieces

open Scan (Unbordered)

variable {α : Type} [DecidableEq α]

/-- The pieces from a place on, with what of a piece and of an occurrence was gone past. -/
def splitFrom (w : List α) : ℕ → List α → List α → List (List α)
  | _, piece, [] => [piece]
  | skip + 1, piece, _ :: l => splitFrom w skip piece l
  | 0, piece, a :: l =>
    if w <+: a :: l then piece :: splitFrom w (w.length - 1) [] l
    else splitFrom w 0 (piece ++ [a]) l

/-- `strings.Split` of Go. -/
def split (w l : List α) : List (List α) := splitFrom w 0 [] l

variable {w l m : List α}

omit [DecidableEq α] in
/-- A separator that ends nowhere as it begins overlaps itself nowhere. -/
theorem unbordered_of_drop (h : ∀ k < w.length, 0 < k → ¬ w.drop k <+: w) : Unbordered w := by
  rintro p q ⟨lead, hlead⟩
  by_cases hnil : lead = []
  · rw [hnil, List.nil_append] at hlead
    exact Or.inl (List.append_cancel_left hlead)
  right
  have hdrop : (w ++ q).drop lead.length = w ++ p := by rw [← hlead, List.drop_left]
  rcases Nat.lt_or_ge lead.length w.length with hshort | hlong
  · rw [List.drop_append_of_le_length hshort.le] at hdrop
    have hprefix : w.drop lead.length <+: w := List.prefix_of_prefix_length_le
      ⟨q, hdrop⟩ (List.prefix_append w p) (by simp)
    exact absurd hprefix (h lead.length hshort (List.length_pos_of_ne_nil hnil))
  · rw [List.drop_append, List.drop_eq_nil_of_le hlong, List.nil_append] at hdrop
    exact hdrop ▸ List.drop_suffix _ q

/-- The rest of an occurrence is gone past. -/
theorem splitFrom_skip (gone piece l : List α) :
    splitFrom w gone.length piece (gone ++ l) = splitFrom w 0 piece l := by
  induction gone with
  | nil => rfl
  | cons a gone ih => exact ih

theorem splitFrom_occurrence (hne : w ≠ []) (piece l : List α) :
    splitFrom w 0 piece (w ++ l) = piece :: split w l := by
  obtain ⟨a, tail, rfl⟩ := List.exists_cons_of_ne_nil hne
  have hfound : a :: tail <+: a :: (tail ++ l) := ⟨l, rfl⟩
  have hstep : splitFrom (a :: tail) 0 piece (a :: (tail ++ l)) =
      piece :: splitFrom (a :: tail) tail.length [] (tail ++ l) := if_pos hfound
  rw [List.cons_append, hstep, splitFrom_skip]
  rfl

theorem splitFrom_of_miss {a : α} {piece : List α} (h : ¬ w <+: a :: l) :
    splitFrom w 0 piece (a :: l) = splitFrom w 0 (piece ++ [a]) l := if_neg h

/-- An occurrence that stands before another ends before it. -/
theorem prefix_of_prefix_append (hborder : Unbordered w) (hl : l ≠ []) (h : w <+: l ++ (w ++ m)) :
    w <+: l := by
  obtain ⟨r, hr⟩ := h
  rcases hborder m r ⟨l, hr.symm⟩ with rfl | ⟨lead, hlead⟩
  · have hlength := congrArg List.length hr
    have hpos := List.length_pos_of_ne_nil hl
    simp only [List.length_append] at hlength
    omega
  · rw [← hlead, ← List.append_assoc] at hr
    exact ⟨lead, List.append_cancel_right hr⟩

theorem splitFrom_append (hborder : Unbordered w) (hne : w ≠ []) (m : List α) (l piece : List α) :
    splitFrom w 0 piece (l ++ (w ++ m)) = splitFrom w 0 piece l ++ split w m := by
  induction hn : l.length using Nat.strong_induction_on generalizing l piece with
  | _ n ih =>
    cases l with
    | nil => rw [List.nil_append, splitFrom_occurrence hne]; rfl
    | cons a l =>
      by_cases hfound : w <+: a :: l
      · obtain ⟨rest, hrest⟩ := hfound
        have hshort : rest.length < n := by
          have hpos := List.length_pos_of_ne_nil hne
          rw [← hn, ← hrest, List.length_append]
          omega
        rw [← hrest, List.append_assoc, splitFrom_occurrence hne, splitFrom_occurrence hne]
        exact congrArg (piece :: ·) (ih rest.length hshort rest [] rfl)
      · have hlater : ¬ w <+: a :: (l ++ (w ++ m)) := fun h =>
          hfound (prefix_of_prefix_append hborder (List.cons_ne_nil a l) h)
        rw [List.length_cons] at hn
        rw [List.cons_append, splitFrom_of_miss hlater, splitFrom_of_miss hfound]
        exact ih l.length (by omega) l _ rfl

/-- The pieces on both sides of a separator. -/
theorem split_append (hborder : Unbordered w) (hne : w ≠ []) (l m : List α) :
    split w (l ++ (w ++ m)) = split w l ++ split w m := splitFrom_append hborder hne m l []

theorem splitFrom_of_not_infix : ∀ {l piece : List α}, ¬ w <:+: l →
    splitFrom w 0 piece l = [piece ++ l]
  | [], piece, _ => by simp [splitFrom]
  | a :: l, piece, h => by
    have hhead : ¬ w <+: a :: l := fun hp => h hp.isInfix
    have htail : ¬ w <:+: l := fun hi => h (hi.trans (List.suffix_cons a l).isInfix)
    rw [splitFrom_of_miss hhead, splitFrom_of_not_infix htail, List.append_assoc,
      List.singleton_append]

theorem split_of_not_infix (h : ¬ w <:+: l) : split w l = [l] := splitFrom_of_not_infix h

/-- What was put together with a separator before each piece but the first. -/
theorem split_flatMap (hborder : Unbordered w) (hne : w ≠ []) (pieces : List (List α)) :
    ∀ first : List α,
      split w (first ++ pieces.flatMap (w ++ ·)) = split w first ++ pieces.flatMap (split w) := by
  induction pieces with
  | nil =>
    intro first
    rw [List.flatMap_nil, List.flatMap_nil, List.append_nil, List.append_nil]
  | cons piece pieces ih =>
    intro first
    rw [List.flatMap_cons, List.append_assoc, split_append hborder hne, ih, List.flatMap_cons]

theorem length_splitFrom_pos (l : List α) : ∀ (n : ℕ) (piece : List α),
    0 < (splitFrom w n piece l).length := by
  induction l with
  | nil =>
    intro n piece
    cases n <;> exact Nat.one_pos
  | cons a l ih =>
    intro n piece
    cases n with
    | zero =>
      unfold splitFrom
      split_ifs
      · exact Nat.succ_pos _
      · exact ih 0 _
    | succ n => exact ih n piece

theorem length_split_pos (w l : List α) : 0 < (split w l).length := length_splitFrom_pos l 0 []

theorem two_le_length_split (hborder : Unbordered w) (hne : w ≠ []) (h : w <:+: l) :
    2 ≤ (split w l).length := by
  obtain ⟨before, after, rfl⟩ := h
  have hbefore := length_split_pos w before
  have hafter := length_split_pos w after
  rw [List.append_assoc, split_append hborder hne, List.length_append]
  omega

/-- The last piece is what follows the last occurrence. -/
theorem getLast?_split (hborder : Unbordered w) (hne : w ≠ []) (l : List α) (hm : ¬ w <:+: m) :
    (split w (l ++ (w ++ m))).getLast? = some m := by
  rw [split_append hborder hne, split_of_not_infix hm, List.getLast?_append]
  rfl

/-- The first occurrence replaced. -/
def replaceOnce (w new : List α) : List α → List α
  | [] => []
  | a :: l => if w <+: a :: l then new ++ (a :: l).drop w.length else a :: replaceOnce w new l

theorem replaceOnce_append (hborder : Unbordered w) (hne : w ≠ []) (new : List α) :
    ∀ {l : List α}, ¬ w <:+: l → replaceOnce w new (l ++ (w ++ m)) = l ++ (new ++ m)
  | [], _ => by
    obtain ⟨a, tail, rfl⟩ := List.exists_cons_of_ne_nil hne
    have hfound : a :: tail <+: a :: (tail ++ m) := ⟨m, rfl⟩
    rw [List.nil_append, List.cons_append, replaceOnce, if_pos hfound, ← List.cons_append,
      List.drop_left, List.nil_append]
  | a :: l, h => by
    have hlater : ¬ w <+: a :: (l ++ (w ++ m)) := fun hp =>
      h (prefix_of_prefix_append hborder (List.cons_ne_nil a l) hp).isInfix
    have hrest : ¬ w <:+: l := fun hi => h (hi.trans (List.suffix_cons a l).isInfix)
    rw [List.cons_append, replaceOnce, if_neg hlater, replaceOnce_append hborder hne new hrest]
    rfl

omit [DecidableEq α] in
/-- What does not hold an item stands on one side of it. -/
theorem not_infix_append_cons {a : α} (ha : a ∉ w) (hl : ¬ w <:+: l) (hm : ¬ w <:+: m) :
    ¬ w <:+: l ++ a :: m := by
  rintro ⟨before, after, h⟩
  rw [List.append_assoc] at h
  have hne : w ≠ [] := by
    rintro rfl
    exact hl (List.nil_infix)
  rcases List.append_eq_append_iff.1 h with ⟨between, rfl, hbetween⟩ | ⟨between, rfl, hbetween⟩
  · rcases List.append_eq_append_iff.1 hbetween with ⟨more, rfl, -⟩ | ⟨more, rfl, hmore⟩
    · exact hl ⟨before, more, by simp⟩
    · cases more with
      | nil => exact hl ⟨before, [], by simp⟩
      | cons b more =>
        obtain ⟨rfl, -⟩ := List.cons.inj hmore
        exact ha (by simp)
  · cases between with
    | nil =>
      obtain ⟨b, rest, rfl⟩ := List.exists_cons_of_ne_nil hne
      obtain ⟨rfl, -⟩ := List.cons.inj hbetween
      exact ha List.mem_cons_self
    | cons b between =>
      obtain ⟨-, rfl⟩ := List.cons.inj hbetween
      exact hm ⟨between, after, by simp⟩

end JoinedContext.Pieces

import Mathlib.Data.List.Infix
import Mathlib.Data.List.TakeDrop
import Mathlib.Data.List.TakeWhile

/-!
# Walks from one occurrence of a needle to the next

A loop that looks for a needle, reads what follows it and goes on some way further sees every
occurrence but those that begin in what it goes past.
-/

namespace JoinedContext.Scan

variable {α : Type} [DecidableEq α] {needle l p : List α} {skip : List α → List α}

/-- What follows the first occurrence of the needle. -/
def after? (needle : List α) : List α → Option (List α)
  | [] => needle.isPrefixOf? []
  | c :: rest =>
    match needle.isPrefixOf? (c :: rest) with
    | some after => some after
    | none => after? needle rest

def scanFrom (needle : List α) (skip : List α → List α) : Nat → List α → List (List α)
  | 0, _ => []
  | fuel + 1, l =>
    match after? needle l with
    | none => []
    | some after => after :: scanFrom needle skip fuel (skip after)

/-- What follows each occurrence of the needle, where the search goes on at `skip` of it. -/
def scan (needle : List α) (skip : List α → List α) (l : List α) : List (List α) :=
  scanFrom needle skip l.length l

/-- A needle that overlaps itself nowhere. -/
def Unbordered (needle : List α) : Prop :=
  ∀ p q, needle ++ p <:+ needle ++ q → p = q ∨ needle ++ p <:+ q

theorem exists_after? : ∀ {l : List α}, needle ++ p <:+ l →
    ∃ q, after? needle l = some q ∧ needle ++ q <:+ l ∧ p <:+ q
  | [], h => by
    obtain ⟨rfl, rfl⟩ := List.append_eq_nil_iff.1 (List.suffix_nil.1 h)
    exact ⟨[], rfl, h, List.suffix_rfl⟩
  | c :: rest, h => by
    unfold after?
    cases hfirst : needle.isPrefixOf? (c :: rest) with
    | some q =>
      have hq : needle ++ q = c :: rest := List.isPrefixOf?_eq_some_iff_append_eq.1 hfirst
      have hlen := hq ▸ h.length_le
      rw [List.length_append, List.length_append] at hlen
      refine ⟨q, rfl, hq ▸ List.suffix_rfl, ?_⟩
      exact List.suffix_of_suffix_length_le ((List.suffix_append needle p).trans h)
        (hq ▸ List.suffix_append needle q) (by omega)
    | none =>
      rcases List.suffix_cons_iff.1 h with heq | hrest
      · rw [List.isPrefixOf?_eq_some_iff_append_eq.2 heq] at hfirst
        cases hfirst
      · obtain ⟨q, hq, hsuffix, hp⟩ := exists_after? hrest
        exact ⟨q, hq, hsuffix.trans (List.suffix_cons c rest), hp⟩

theorem suffix_of_after? : ∀ {l q : List α}, after? needle l = some q → needle ++ q <:+ l
  | [], q, h => by
    rw [← List.isPrefixOf?_eq_some_iff_append_eq.1 h]
  | c :: rest, q, h => by
    unfold after? at h
    split at h
    · rename_i after hfirst
      obtain rfl := Option.some.inj h
      rw [← List.isPrefixOf?_eq_some_iff_append_eq.1 hfirst]
    · exact (suffix_of_after? h).trans (List.suffix_cons c rest)

/-- The needle stands behind a text only where the text ends. -/
def First (needle text : List α) : Prop :=
  ∀ front back, text ++ needle = front ++ (needle ++ back) → back = []

/-- What is found follows the needle behind a text in which it does not stand earlier. -/
theorem after?_eq_some : ∀ {l q : List α}, after? needle l = some q ↔
    ∃ text, l = text ++ (needle ++ q) ∧ First needle text
  | [], q => by
    rw [after?, List.isPrefixOf?_eq_some_iff_append_eq]
    constructor
    · intro h
      obtain ⟨rfl, rfl⟩ := List.append_eq_nil_iff.1 h
      exact ⟨[], rfl, fun front back h =>
        (List.append_eq_nil_iff.1 (List.append_eq_nil_iff.1 h.symm).2).2⟩
    · rintro ⟨text, h, -⟩
      exact (List.append_eq_nil_iff.1 h.symm).2
  | c :: rest, q => by
    unfold after?
    cases hfirst : needle.isPrefixOf? (c :: rest) with
    | some after =>
      rw [List.isPrefixOf?_eq_some_iff_append_eq] at hfirst
      simp only [Option.some.injEq]
      constructor
      · rintro rfl
        refine ⟨[], hfirst.symm, fun front back h => ?_⟩
        have hlen := congrArg List.length h
        simp only [List.nil_append, List.length_append] at hlen
        exact List.length_eq_zero_iff.1 (by omega)
      · rintro ⟨text, htext, hearly⟩
        -- The needle at the front of the list is at the end of the text, which is empty then.
        have hsame : needle ++ after = (text ++ needle) ++ q := by
          rw [hfirst, htext, List.append_assoc]
        obtain ⟨between, hbetween, hafter⟩ | ⟨between, hbetween, -⟩ :=
          List.append_eq_append_iff.1 hsame
        · obtain rfl := hearly [] between (by rw [hbetween, List.nil_append])
          rw [hafter, List.nil_append]
        · have hlen := congrArg List.length hbetween
          simp only [List.length_append] at hlen
          obtain rfl : text = [] := List.length_eq_zero_iff.1 (by omega)
          exact List.append_cancel_left (by rw [hfirst, htext, List.nil_append])
    | none =>
      have hnot : ∀ after, needle ++ after ≠ c :: rest := fun after h => by
        rw [List.isPrefixOf?_eq_some_iff_append_eq.2 h] at hfirst
        cases hfirst
      rw [after?_eq_some]
      constructor
      · rintro ⟨text, rfl, hearly⟩
        refine ⟨c :: text, rfl, fun front back h => ?_⟩
        cases front with
        | nil =>
          refine (hnot (back ++ q) ?_).elim
          rw [← List.append_assoc, ← List.nil_append (needle ++ back), ← h, List.append_assoc,
            List.cons_append]
        | cons d front => exact hearly front back (List.cons.inj h).2
      · rintro ⟨text, htext, hearly⟩
        cases text with
        | nil => exact (hnot q htext.symm).elim
        | cons d text =>
          obtain ⟨rfl, rfl⟩ := List.cons.inj htext
          exact ⟨text, rfl, fun front back h =>
            hearly (c :: front) back (congrArg (c :: ·) h)⟩

/-- A walk visits occurrences of the needle. -/
theorem suffix_of_mem_scanFrom (hskip : ∀ q, skip q <:+ q) : ∀ {n : Nat} {l : List α},
    p ∈ scanFrom needle skip n l → needle ++ p <:+ l
  | n + 1, l, h => by
    unfold scanFrom at h
    split at h
    · cases h
    · rename_i after hafter
      have hfirst := suffix_of_after? hafter
      rcases List.mem_cons.1 h with rfl | h
      · exact hfirst
      · exact ((suffix_of_mem_scanFrom hskip h).trans (hskip after)).trans
          ((List.suffix_append needle after).trans hfirst)

theorem mem_scanFrom (hborder : Unbordered needle) (hne : needle ≠ []) (hskip : ∀ q, skip q <:+ q) :
    ∀ {n : Nat} {l : List α}, l.length ≤ n → needle ++ p <:+ l →
      p ∈ scanFrom needle skip n l ∨
        ∃ q ∈ scanFrom needle skip n l, needle ++ p <:+ q ∧ ¬needle ++ p <:+ skip q
  | 0, l, hn, h => by
    rw [List.length_eq_zero_iff.1 (Nat.le_zero.1 hn), List.suffix_nil] at h
    exact (hne (List.append_eq_nil_iff.1 h).1).elim
  | n + 1, l, hn, h => by
    obtain ⟨q, hq, hsuffix, hp⟩ := exists_after? h
    have hneedle := List.length_pos_iff.2 hne
    have hlen := hsuffix.length_le
    have hskipped := (hskip q).length_le
    have hpq := hp.length_le
    rw [List.length_append] at hlen
    simp only [scanFrom, hq, List.mem_cons, exists_eq_or_imp]
    have hover : needle ++ p <:+ needle ++ q := List.suffix_of_suffix_length_le h hsuffix (by
      rw [List.length_append, List.length_append]
      omega)
    rcases hborder p q hover with rfl | hlater
    · exact .inl (.inl rfl)
    by_cases hpassed : needle ++ p <:+ skip q
    · rcases mem_scanFrom (n := n) hborder hne hskip (by omega) hpassed with hmem | hmem
      · exact .inl (.inr hmem)
      · exact .inr (.inr hmem)
    · exact .inr (.inl ⟨hlater, hpassed⟩)

/-- An occurrence is visited, or it begins in what the walk goes past after one it visits. -/
theorem mem_scan (hborder : Unbordered needle) (hne : needle ≠ []) (hskip : ∀ q, skip q <:+ q)
    (h : needle ++ p <:+ l) :
    p ∈ scan needle skip l ∨ ∃ q ∈ scan needle skip l, needle ++ p <:+ q ∧ ¬needle ++ p <:+ skip q :=
  mem_scanFrom hborder hne hskip le_rfl h

/-- Where nothing that is gone past holds the needle's first item, every occurrence is visited. -/
theorem mem_scan_of_notMem {c : α} {rest : List α} (hborder : Unbordered (c :: rest))
    (hskip : ∀ q, skip q <:+ q)
    (hfree : ∀ q ∈ scan (c :: rest) skip l, ∃ front, q = front ++ skip q ∧ c ∉ front)
    (h : c :: rest ++ p <:+ l) : p ∈ scan (c :: rest) skip l := by
  rcases mem_scan hborder (List.cons_ne_nil c rest) hskip h with hmem | ⟨q, hq, ⟨lead, hlead⟩, hpassed⟩
  · exact hmem
  · obtain ⟨front, hfront, hc⟩ := hfree q hq
    exfalso
    rw [hfront] at hlead
    rcases List.append_eq_append_iff.1 hlead with ⟨between, rfl, hbetween⟩ | ⟨between, rfl, hbetween⟩
    · rcases between with _ | ⟨d, between⟩
      · exact hpassed ⟨[], by simpa using hbetween⟩
      · obtain ⟨rfl, -⟩ := List.cons.inj hbetween
        exact hc (by simp)
    · exact hpassed ⟨between, hbetween.symm⟩

omit [DecidableEq α] in
/-- What begins in the part that is dropped begins before anything that ends it. -/
theorem exists_lead {keep : α → Bool} {c : α} {rest q : List α} (h : c :: rest <:+ q)
    (hpassed : ¬c :: rest <:+ q.dropWhile keep) :
    ∃ lead, q = lead ++ c :: rest ∧ keep c = true ∧ ∀ d ∈ lead, keep d = true := by
  obtain ⟨lead, rfl⟩ := h
  have hlead : ∀ d ∈ lead, keep d = true := by
    by_contra hstop
    apply hpassed
    have hdrop : lead.dropWhile keep ≠ [] := fun hnil => hstop (List.dropWhile_eq_nil_iff.1 hnil)
    rw [List.dropWhile_append, if_neg (by simpa using hdrop)]
    exact List.suffix_append _ _
  refine ⟨lead, rfl, ?_, hlead⟩
  by_contra hc
  apply hpassed
  rw [List.dropWhile_append_of_pos hlead, List.dropWhile_cons_of_neg hc]

end JoinedContext.Scan

import Mathlib.Computability.RegularExpressions

/-!
# Ways through a pattern

A way through a regular pattern is a word of atoms: sets of characters, each of which takes one
character of the text, and assertions, which take none and look at the characters on either side. A
way matches a part of a text; where it passes an assertion that holds nowhere but at an end of the
text, that end is where the part begins or ends.
-/

namespace JoinedContext.Ways

variable {α ι : Type}

inductive Atom (α ι : Type) where
  | set (p : α → Bool)
  | look (i : ι)

/-- A pattern with its ways as the words it matches. -/
abbrev Pattern (α ι : Type) := RegularExpression (Atom α ι)

section Matching

variable (holds : ι → Option α → Option α → Bool)

/-- A way matches the part of a text between what stands before it and after it. -/
def Matches : List (Atom α ι) → List α → List α → List α → Prop
  | [], _, mid, _ => mid = []
  | .set p :: rest, before, mid, after =>
    ∃ c mid', mid = c :: mid' ∧ p c = true ∧ Matches rest (before ++ [c]) mid' after
  | .look i :: rest, before, mid, after =>
    holds i before.getLast? (mid ++ after).head? = true ∧ Matches rest before mid after

/-- A pattern is found in a text: a way through it matches some part. -/
def Finds (r : Pattern α ι) (text : List α) : Prop :=
  ∃ way ∈ r.matches', ∃ before mid after, text = before ++ mid ++ after ∧
    Matches holds way before mid after

/-- Whatever a pattern matches is a whole text. -/
def WholeOnly (r : Pattern α ι) : Prop :=
  ∀ way ∈ r.matches', ∀ before mid after, Matches holds way before mid after →
    before = [] ∧ after = []

def Atom.isLook : Atom α ι → Bool
  | .set _ => false
  | .look _ => true

/-- A way passes an assertion where it ends: no character is taken after it. -/
def AtLast (i : ι) : List (Atom α ι) → Prop
  | [] => False
  | .set _ :: rest => AtLast i rest
  | .look j :: rest => (j = i ∧ rest.all Atom.isLook = true) ∨ AtLast i rest

/-- An assertion that holds at the start of a text only. -/
def AtStart (i : ι) : Prop := ∀ c next, holds i (some c) next = false

/-- An assertion that holds at the end of a text only. -/
def AtEnd (i : ι) : Prop := ∀ prev c, holds i prev (some c) = false

end Matching

section Anchors

variable {holds : ι → Option α → Option α → Bool} {i : ι}

theorem before_eq_nil (hstart : AtStart holds i) : ∀ {way : List (Atom α ι)}
    {before mid after : List α}, .look i ∈ way → Matches holds way before mid after → before = []
  | .set p :: rest, before, mid, after, hmem, h => by
    obtain ⟨c, mid', -, -, hrest⟩ := h
    have hnil := before_eq_nil hstart ((List.mem_cons.1 hmem).resolve_left nofun) hrest
    simp at hnil
  | .look j :: rest, before, mid, after, hmem, h => by
    rcases List.mem_cons.1 hmem with heq | hmem
    · cases heq
      rcases hlast : before.getLast? with _ | c
      · exact List.getLast?_eq_none_iff.1 hlast
      · have hholds := h.1
        rw [hlast, hstart] at hholds
        cases hholds
    · exact before_eq_nil hstart hmem h.2

theorem after_eq_nil (hend : AtEnd holds i) : ∀ {way : List (Atom α ι)}
    {before mid after : List α}, .look i ∈ way → Matches holds way before mid after → after = []
  | .set p :: rest, before, mid, after, hmem, h => by
    obtain ⟨c, mid', -, -, hrest⟩ := h
    exact after_eq_nil hend ((List.mem_cons.1 hmem).resolve_left nofun) hrest
  | .look j :: rest, before, mid, after, hmem, h => by
    rcases List.mem_cons.1 hmem with heq | hmem
    · cases heq
      rcases hhead : (mid ++ after).head? with _ | c
      · exact (List.append_eq_nil_iff.1 (List.head?_eq_none_iff.1 hhead)).2
      · have hholds := h.1
        rw [hhead, hend] at hholds
        cases hholds
    · exact after_eq_nil hend hmem h.2

/-- A way that takes no character is assertions only. -/
theorem isLook_of_matches_nil : ∀ {way : List (Atom α ι)} {before after : List α},
    Matches holds way before [] after → way.all Atom.isLook = true
  | [], _, _, _ => rfl
  | .set p :: rest, before, after, h => by
    obtain ⟨c, mid', hmid, -⟩ := h
    cases hmid
  | .look i :: rest, before, after, h => by
    rw [List.all_cons, isLook_of_matches_nil h.2]
    rfl

theorem mid_eq_nil : ∀ {way : List (Atom α ι)} {before mid after : List α},
    way.all Atom.isLook = true → Matches holds way before mid after → mid = []
  | [], _, _, _, _, h => h
  | .set p :: rest, _, _, _, hall, _ => by simp [Atom.isLook] at hall
  | .look i :: rest, _, _, _, hall, h => by
    rw [List.all_cons, Bool.and_eq_true] at hall
    exact mid_eq_nil hall.2 h.2

theorem mem_of_atLast : ∀ {way : List (Atom α ι)}, AtLast i way → .look i ∈ way
  | .set _ :: _, h => List.mem_cons_of_mem _ (mem_of_atLast h)
  | .look _ :: _, Or.inl h => by
    rw [h.1]
    exact List.mem_cons_self
  | .look _ :: _, Or.inr h => List.mem_cons_of_mem _ (mem_of_atLast h)

/-- What a way passes where it ends holds between the end of the match and what comes after. -/
theorem holds_of_atLast : ∀ {way : List (Atom α ι)} {before mid after : List α}, AtLast i way →
    Matches holds way before mid after → holds i (before ++ mid).getLast? after.head? = true
  | .set p :: rest, before, mid, after, hlast, h => by
    obtain ⟨c, mid', rfl, -, hrest⟩ := h
    have hholds : holds i (before ++ [c] ++ mid').getLast? after.head? = true :=
      holds_of_atLast (show AtLast i rest from hlast) hrest
    rwa [List.append_assoc, List.singleton_append] at hholds
  | .look j :: rest, before, mid, after, hlast, h => by
    rcases hlast with ⟨rfl, hall⟩ | hlast
    · have hmid := mid_eq_nil hall h.2
      subst hmid
      rw [List.append_nil]
      exact h.1
    · exact holds_of_atLast hlast h.2

end Anchors

section Padding

variable {holds : ι → Option α → Option α → Bool} {c : α}

/-- A character put before a text leaves a match, where each assertion of the way that holds at the
start of a text holds after the character. -/
theorem matches_cons : ∀ {way : List (Atom α ι)} {before mid after : List α},
    (∀ i, .look i ∈ way → ∀ next, holds i none next = true → holds i (some c) next = true) →
      Matches holds way before mid after → Matches holds way (c :: before) mid after
  | [], _, _, _, _, h => h
  | .set p :: rest, before, mid, after, hpad, h => by
    obtain ⟨d, mid', hmid, hd, hrest⟩ := h
    exact ⟨d, mid', hmid, hd, matches_cons (fun i hi => hpad i (List.mem_cons_of_mem _ hi)) hrest⟩
  | .look i :: rest, before, mid, after, hpad, h => by
    refine ⟨?_, matches_cons (fun i hi => hpad i (List.mem_cons_of_mem _ hi)) h.2⟩
    rw [List.getLast?_cons]
    have hholds := h.1
    cases hlast : before.getLast? with
    | none =>
      rw [hlast] at hholds
      exact hpad i List.mem_cons_self _ hholds
    | some d =>
      rw [hlast] at hholds
      exact hholds

/-- A character put after a text leaves a match, where each assertion at the end of the way that
holds at the end of the text holds before the character. -/
theorem matches_append : ∀ {way : List (Atom α ι)} {before mid : List α},
    (∀ i, AtLast i way → holds i (before ++ mid).getLast? none = true →
        holds i (before ++ mid).getLast? (some c) = true) →
      Matches holds way before mid [] → Matches holds way before mid [c]
  | [], _, _, _, h => h
  | .set p :: rest, before, mid, hpad, h => by
    obtain ⟨d, mid', rfl, hd, hrest⟩ := h
    refine ⟨d, mid', rfl, hd, matches_append (fun i hi => ?_) hrest⟩
    rw [List.append_assoc, List.singleton_append]
    exact hpad i hi
  | .look i :: rest, before, mid, hpad, h => by
    refine ⟨?_, matches_append (fun j hj => hpad j (Or.inr hj)) h.2⟩
    have hholds := h.1
    cases mid with
    | nil =>
      have hlook := hpad i (Or.inl ⟨rfl, isLook_of_matches_nil h.2⟩)
      rw [List.append_nil] at hlook
      exact hlook hholds
    | cons d mid' => exact hholds

end Padding

section Literals

/-- The pattern with one way. -/
def ofWay (way : List (Atom α ι)) : Pattern α ι :=
  way.foldr (fun atom r => .char atom * r) 1

theorem mem_ofWay : ∀ {way other : List (Atom α ι)},
    other ∈ (ofWay way).matches' ↔ other = way
  | [], other => Language.mem_one other
  | atom :: rest, other => by
    have hcons : (ofWay (atom :: rest)).matches' = {[atom]} * (ofWay rest).matches' := rfl
    rw [hcons, Language.mem_mul]
    constructor
    · rintro ⟨first, hfirst, more, hmore, rfl⟩
      rw [Set.mem_singleton_iff.1 hfirst, mem_ofWay.1 hmore, List.singleton_append]
    · rintro rfl
      exact ⟨[atom], rfl, rest, mem_ofWay.2 rfl, rfl⟩

/-- The pattern whose ways are given. -/
def ofWays (ways : List (List (Atom α ι))) : Pattern α ι :=
  ways.foldr (fun way r => ofWay way + r) 0

theorem mem_ofWays {other : List (Atom α ι)} : ∀ {ways : List (List (Atom α ι))},
    other ∈ (ofWays ways).matches' ↔ other ∈ ways
  | [] => by
    rw [ofWays, List.foldr_nil, RegularExpression.matches'_zero]
    simp [Language.notMem_zero]
  | way :: ways => by
    have hcons : (ofWays (way :: ways)).matches' = (ofWay way).matches' + (ofWays ways).matches' :=
      rfl
    rw [hcons, Language.mem_add, mem_ofWay, mem_ofWays, List.mem_cons]

variable [DecidableEq α] {holds : ι → Option α → Option α → Bool}

def literal (c : α) : Atom α ι := .set fun d => d == c

/-- The way of a literal takes that text. -/
theorem matches_literals {rest : List (Atom α ι)} : ∀ {cs before mid after : List α},
    Matches holds (cs.map literal ++ rest) before mid after ↔
      ∃ mid', mid = cs ++ mid' ∧ Matches holds rest (before ++ cs) mid' after
  | [], before, mid, after => by simp
  | c :: cs, before, mid, after => by
    rw [List.map_cons, List.cons_append, literal, Matches]
    constructor
    · rintro ⟨d, mid', rfl, hd, hrest⟩
      obtain ⟨mid'', rfl, hmore⟩ := matches_literals.1 hrest
      rw [beq_iff_eq] at hd
      subst hd
      exact ⟨mid'', rfl, by simpa using hmore⟩
    · rintro ⟨mid', rfl, hrest⟩
      refine ⟨c, cs ++ mid', rfl, beq_self_eq_true c, matches_literals.2 ⟨mid', rfl, ?_⟩⟩
      simpa using hrest

end Literals

section Search

variable (holds : ι → Option α → Option α → Bool)

/-- Whether a way matches at the front of what is left of a text. -/
def matchesAt : List (Atom α ι) → List α → List α → Bool
  | [], _, _ => true
  | .set _ :: _, _, [] => false
  | .set p :: way, before, c :: text => p c && matchesAt way (before ++ [c]) text
  | .look i :: way, before, text => holds i before.getLast? text.head? && matchesAt way before text

def search (way : List (Atom α ι)) : List α → List α → Bool
  | before, [] => matchesAt holds way before []
  | before, c :: text => matchesAt holds way before (c :: text) || search way (before ++ [c]) text

variable {holds}

theorem matchesAt_iff : ∀ {way : List (Atom α ι)} {before text : List α},
    matchesAt holds way before text = true ↔
      ∃ mid after, text = mid ++ after ∧ Matches holds way before mid after
  | [], before, text => by simp [matchesAt, Matches]
  | .set p :: way, before, [] => by
    simp only [matchesAt, Bool.false_eq_true, false_iff]
    rintro ⟨mid, after, htext, c, mid', rfl, -⟩
    cases htext
  | .set p :: way, before, c :: text => by
    rw [matchesAt, Bool.and_eq_true, matchesAt_iff]
    constructor
    · rintro ⟨hc, mid, after, rfl, h⟩
      exact ⟨c :: mid, after, rfl, c, mid, rfl, hc, h⟩
    · rintro ⟨mid, after, htext, d, mid', rfl, hd, h⟩
      cases htext
      exact ⟨hd, mid', after, rfl, h⟩
  | .look i :: way, before, text => by
    rw [matchesAt, Bool.and_eq_true, matchesAt_iff]
    constructor
    · rintro ⟨hi, mid, after, rfl, h⟩
      exact ⟨mid, after, rfl, hi, h⟩
    · rintro ⟨mid, after, rfl, hi, h⟩
      exact ⟨hi, mid, after, rfl, h⟩

theorem search_iff {way : List (Atom α ι)} : ∀ {before text : List α},
    search holds way before text = true ↔
      ∃ skipped mid after, text = skipped ++ mid ++ after ∧
        Matches holds way (before ++ skipped) mid after
  | before, [] => by
    rw [search, matchesAt_iff]
    constructor
    · rintro ⟨mid, after, htext, h⟩
      exact ⟨[], mid, after, htext, by rwa [List.append_nil]⟩
    · rintro ⟨skipped, mid, after, htext, h⟩
      obtain ⟨rfl, rfl, rfl⟩ : skipped = [] ∧ mid = [] ∧ after = [] := by
        simpa using htext.symm
      exact ⟨[], [], rfl, by rwa [List.append_nil] at h⟩
  | before, c :: text => by
    rw [search, Bool.or_eq_true, matchesAt_iff, search_iff]
    constructor
    · rintro (⟨mid, after, htext, h⟩ | ⟨skipped, mid, after, rfl, h⟩)
      · exact ⟨[], mid, after, htext, by rwa [List.append_nil]⟩
      · exact ⟨c :: skipped, mid, after, rfl, by rwa [List.append_assoc] at h⟩
    · rintro ⟨skipped, mid, after, htext, h⟩
      cases skipped with
      | nil => exact Or.inl ⟨mid, after, htext, by rwa [List.append_nil] at h⟩
      | cons d skipped =>
        cases htext
        exact Or.inr ⟨skipped, mid, after, rfl, by rwa [List.append_assoc]⟩

/-- A search along each of a pattern's ways finds the pattern. -/
theorem search_ofWays {ways : List (List (Atom α ι))} {text : List α} :
    (ways.any fun way => search holds way [] text) = true ↔ Finds holds (ofWays ways) text := by
  rw [List.any_eq_true, Finds]
  refine exists_congr fun way => ?_
  rw [mem_ofWays, search_iff]
  rfl

end Search

end JoinedContext.Ways

import JoinedContext.Library.Calendar
import JoinedContext.Library.Numeral
import JoinedContext.Library.Periodic
import JoinedContext.Library.Text
import Mathlib.Data.List.Forall2

/-!
# Five-field cron

A schedule names minutes as Vixie cron reads it. The reader checks the hour only where the minute
field names the minute, and the month only where the hour field names the hour; so an expression
that is not cron can be accepted, and what it means depends on the minute it is first read at.
-/

namespace JoinedContext.Cron

section Reader

/-- The values a part of a field names: every `step` from `low` to `high`. -/
structure Span where
  low : ℕ
  high : ℕ
  step : ℕ

def Span.names (s : Span) (value : ℕ) : Bool :=
  decide (s.low ≤ value ∧ value ≤ s.high ∧ (value - s.low) % s.step = 0)

/-- The digits of a text, with no sign before them. -/
def decimal (s : String) : Option ℕ := Numeral.digits s.toList

def u32 (s : String) : Option ℕ := (Numeral.natOf s).filter (· < 2 ^ 32)

variable (number : String → Option ℕ) (min max : ℕ)

def readRange (part range : String) : Option (ℕ × ℕ) :=
  if range = "*" then some (min, max)
  else match Text.splitOnce '-' range with
    | some (a, b) => do return (← number a, ← number b)
    | none => do
      let n ← number range
      -- A number with a step starts at it and runs to the field's end.
      return (n, if '/' ∈ part.toList then max else n)

def readPart (part : String) : Option Span := do
  let (range, step) ← match Text.splitOnce '/' part with
    | some (range, step) => ((number step).filter (0 < ·)).map fun s => (range, s)
    | none => some (part, 1)
  let (low, high) ← readRange number min max part range
  if low < min ∨ high > max ∨ low > high then none
  else return ⟨low, high, step⟩

/-- A field, or none where a part of it is not `*`, `n`, `a-b`, `*/s`, `n/s` or `a-b/s`. -/
def readField (field : String) : Option (List Span) :=
  (Text.splitAny [','] field).mapM (readPart number min max)

def fieldMatches (field : String) (value min max : ℕ) : Option Bool :=
  (Text.splitAny [','] field).foldlM (fun any part => do
    let span ← readPart u32 min max part
    return any || span.names value) false

structure Fields where
  minute : String
  hour : String
  day : String
  month : String
  weekday : String
deriving DecidableEq

def splitWhitespace (s : String) : List String :=
  ((s.toList.splitOnP Text.whitespace).map String.ofList).filter (· ≠ "")

def fields (cron : String) : Option Fields :=
  match splitWhitespace cron with
  | [minute, hour, day, month, weekday] => some ⟨minute, hour, day, month, weekday⟩
  | _ => none

def weekdayMatches (field : String) (weekday : ℕ) : Option Bool := do
  if ← fieldMatches field weekday 0 7 then return true
  else if weekday = 0 then fieldMatches field 7 0 7
  else return false

/-- Whether the expression names a minute; none for one that turns out not to be cron. -/
def matchesAt (cron : String) (minute hour day month weekday : ℕ) : Option Bool := do
  let f ← fields cron
  let weekdayOk ← weekdayMatches f.weekday weekday
  let dayOk ← fieldMatches f.day day 1 31
  let dayAndWeekday :=
    if f.day ≠ "*" ∧ f.weekday ≠ "*" then dayOk || weekdayOk else dayOk && weekdayOk
  if ← fieldMatches f.minute minute 0 59 then
    if ← fieldMatches f.hour hour 0 23 then
      return (← fieldMatches f.month month 1 12) && dayAndWeekday
    else some false
  else some false

def isValid (cron : String) : Bool := (matchesAt cron 0 0 1 1 0).isSome

/-- The minutes of a day the two fields name. -/
def dayMinutes (hours minutes : String) : Option (List ℕ) :=
  (List.range 24).foldlM (fun day hour => do
    if ← fieldMatches hours hour 0 23 then
      (List.range 60).foldlM (fun day minute => do
        if ← fieldMatches minutes minute 0 59 then return day ++ [hour * 60 + minute]
        else return day) day
    else return day) []

def shortestGapMinutes (cron : String) : Option ℕ := do
  let f ← fields cron
  if isValid cron then Periodic.shortestGap (24 * 60) (← dayMinutes f.hour f.minute) else none

end Reader

section Grammar

/-- The texts of a part and what they name. -/
inductive IsPart (number : String → Option ℕ) (min max : ℕ) : String → Span → Prop
  | every : IsPart number min max "*" ⟨min, max, 1⟩
  | one {a n} : number a = some n → IsPart number min max a ⟨n, n, 1⟩
  | range {a b low high} : number a = some low → number b = some high →
      IsPart number min max (a ++ "-" ++ b) ⟨low, high, 1⟩
  | everyStep {s step} : number s = some step →
      IsPart number min max ("*" ++ "/" ++ s) ⟨min, max, step⟩
  | oneStep {a s n step} : number a = some n → number s = some step →
      IsPart number min max (a ++ "/" ++ s) ⟨n, max, step⟩
  | rangeStep {a b s low high step} : number a = some low → number b = some high →
      number s = some step → IsPart number min max (a ++ "-" ++ b ++ "/" ++ s) ⟨low, high, step⟩

/-- A part within the bounds of its field. -/
structure Part (number : String → Option ℕ) (min max : ℕ) (part : String) (span : Span) : Prop where
  text : IsPart number min max part span
  low : min ≤ span.low
  high : span.high ≤ max
  ordered : span.low ≤ span.high
  step : 0 < span.step

/-- A field is a list of parts. -/
def Spans (number : String → Option ℕ) (min max : ℕ) (field : String) (spans : List Span) : Prop :=
  ∃ parts, parts ≠ [] ∧ field = Text.join "," parts ∧
    List.Forall₂ (Part number min max) parts spans

variable (number : String → Option ℕ) (min max : ℕ)

def Field (field : String) : Prop := ∃ spans, Spans number min max field spans

def Names (field : String) (value : ℕ) : Prop :=
  ∃ spans, Spans number min max field spans ∧ ∃ span ∈ spans, span.names value = true

/-- What a reader of numbers reads: digits, with a sign or without. -/
structure Reader : Prop where
  plain : ∀ {a n}, number a = some n → ∀ c ∈ a.toList, c.isDigit = true ∨ c = '+'

variable {number min max} {part field : String} {span : Span} {spans : List Span} {value : ℕ}

theorem Reader.notMem (r : Reader number) {a : String} {n : ℕ} (h : number a = some n) {c : Char}
    (hc : c.isDigit = false) (hplus : c ≠ '+') : c ∉ a.toList := fun hmem => by
  rcases r.plain h c hmem with hdigit | rfl
  · rw [hc] at hdigit
    cases hdigit
  · exact hplus rfl

theorem Reader.ne_star (r : Reader number) {a : String} {n : ℕ} (h : number a = some n) :
    a ≠ "*" := fun ha => r.notMem h (c := '*') (by decide) (by decide) (by rw [ha]; decide)

theorem plain_of_digits {cs : List Char} {n : ℕ} (h : Numeral.digits cs = some n) :
    ∀ c ∈ cs, c.isDigit = true := by
  unfold Numeral.digits at h
  split_ifs at h with hdigits
  exact fun c hc => List.all_eq_true.1 hdigits.2 c hc

theorem plain_of_natOf {a : String} {n : ℕ} (h : Numeral.natOf a = some n) :
    ∀ c ∈ a.toList, c.isDigit = true ∨ c = '+' := by
  unfold Numeral.natOf at h
  split at h
  · next rest heq =>
    rw [heq]
    intro c hc
    rcases List.mem_cons.1 hc with rfl | hc
    · exact Or.inr rfl
    · exact Or.inl (plain_of_digits h c hc)
  · exact fun c hc => Or.inl (plain_of_digits h c hc)

theorem natOf_of_u32 {a : String} {n : ℕ} (h : u32 a = some n) : Numeral.natOf a = some n :=
  (Option.filter_eq_some_iff.1 h).1

theorem natOf_of_decimal {a : String} {n : ℕ} (h : decimal a = some n) :
    Numeral.natOf a = some n := by
  unfold Numeral.natOf
  split
  · next rest heq =>
    have := plain_of_digits h '+' (heq ▸ List.mem_cons_self)
    simp at this
  · exact h

theorem decimal_of_natOf {a : String} {n : ℕ} (h : Numeral.natOf a = some n)
    (hplus : '+' ∉ a.toList) : decimal a = some n := by
  unfold Numeral.natOf at h
  split at h
  · next rest heq => exact (hplus (heq ▸ List.mem_cons_self)).elim
  · exact h

theorem reader_natOf : Reader Numeral.natOf := ⟨fun h => plain_of_natOf h⟩

theorem reader_u32 : Reader u32 := ⟨fun h => plain_of_natOf (natOf_of_u32 h)⟩

theorem reader_decimal : Reader decimal := ⟨fun h c hc => Or.inl (plain_of_digits h c hc)⟩

theorem readRange_eq_some (r : Reader number) {range : String} {low high : ℕ} :
    readRange number min max part range = some (low, high) ↔
      (range = "*" ∧ low = min ∧ high = max) ∨
      (∃ a b, range = a ++ "-" ++ b ∧ number a = some low ∧ number b = some high) ∨
      (number range = some low ∧ high = if '/' ∈ part.toList then max else low) := by
  unfold readRange
  constructor
  · intro h
    by_cases hstar : range = "*"
    · rw [if_pos hstar] at h
      cases h
      exact Or.inl ⟨hstar, rfl, rfl⟩
    rw [if_neg hstar] at h
    split at h
    · next a b hsplit =>
      have htext : range = a ++ "-" ++ b := by
        rw [String.append_assoc]
        exact String.toList_injective (by rw [Text.splitOnce_eq_some hsplit]; simp)
      simp only [Option.bind_eq_bind, Option.bind_eq_some_iff, Option.pure_def,
        Option.some.injEq, Prod.mk.injEq] at h
      obtain ⟨x, hx, y, hy, rfl, rfl⟩ := h
      exact Or.inr (Or.inl ⟨a, b, htext, hx, hy⟩)
    · simp only [Option.bind_eq_bind, Option.bind_eq_some_iff, Option.pure_def,
        Option.some.injEq, Prod.mk.injEq] at h
      obtain ⟨x, hx, rfl, rfl⟩ := h
      exact Or.inr (Or.inr ⟨hx, rfl⟩)
  · rintro (⟨rfl, rfl, rfl⟩ | ⟨a, b, rfl, ha, hb⟩ | ⟨h, rfl⟩)
    · rfl
    · have hdash := r.notMem ha (c := '-') (by decide) (by decide)
      have hstar : a ++ "-" ++ b ≠ "*" := fun heq => by
        have hmem : '-' ∈ (a ++ "-" ++ b).toList := by simp
        rw [heq] at hmem
        exact absurd hmem (by decide)
      have hsplit : Text.splitOnce '-' (a ++ "-" ++ b) = some (a, b) := by
        rw [String.append_assoc]
        exact Text.splitOnce_append_append hdash b
      simp [hstar, hsplit, ha, hb]
    · have hdash := r.notMem h (c := '-') (by decide) (by decide)
      simp [r.ne_star h, Text.splitOnce_eq_none hdash, h]

/-- What the reader makes of a part, before its bounds are looked at. -/
theorem isPart_iff (r : Reader number) {low high step : ℕ} :
    IsPart number min max part ⟨low, high, step⟩ ↔
      (∃ range s, Text.splitOnce '/' part = some (range, s) ∧ number s = some step ∧
        readRange number min max part range = some (low, high)) ∨
      (Text.splitOnce '/' part = none ∧ step = 1 ∧
        readRange number min max part part = some (low, high)) := by
  have hslash : ∀ {a n}, number a = some n → '/' ∉ a.toList := fun h =>
    r.notMem h (by decide) (by decide)
  have hsteps : ∀ range s : String, '/' ∈ (range ++ "/" ++ s).toList := fun range s => by simp
  have hsplit : ∀ {range : String} (s : String), '/' ∉ range.toList →
      Text.splitOnce '/' (range ++ "/" ++ s) = some (range, s) := fun s h => by
    rw [String.append_assoc]
    exact Text.splitOnce_append_append h s
  have hrange : ∀ {a b n k}, number a = some n → number b = some k →
      '/' ∉ (a ++ "-" ++ b).toList := fun ha hb => by simp [hslash ha, hslash hb]
  simp only [readRange_eq_some r]
  constructor
  · intro h
    cases h with
    | every => exact Or.inr ⟨by decide, rfl, Or.inl ⟨rfl, rfl, rfl⟩⟩
    | one ha =>
      exact Or.inr ⟨Text.splitOnce_eq_none (hslash ha), rfl,
        Or.inr (Or.inr ⟨ha, (if_neg (hslash ha)).symm⟩)⟩
    | range ha hb =>
      exact Or.inr ⟨Text.splitOnce_eq_none (hrange ha hb), rfl, Or.inr (Or.inl ⟨_, _, rfl, ha, hb⟩)⟩
    | everyStep hs => exact Or.inl ⟨_, _, hsplit _ (by decide), hs, Or.inl ⟨rfl, rfl, rfl⟩⟩
    | oneStep ha hs =>
      exact Or.inl ⟨_, _, hsplit _ (hslash ha), hs,
        Or.inr (Or.inr ⟨ha, (if_pos (hsteps _ _)).symm⟩)⟩
    | rangeStep ha hb hs =>
      exact Or.inl ⟨_, _, hsplit _ (hrange ha hb), hs, Or.inr (Or.inl ⟨_, _, rfl, ha, hb⟩)⟩
  · rintro (⟨range, s, hpart, hs, h⟩ | ⟨hpart, rfl, h⟩)
    · obtain rfl : part = range ++ "/" ++ s :=
        String.toList_injective (by rw [Text.splitOnce_eq_some hpart]; simp)
      rcases h with ⟨rfl, rfl, rfl⟩ | ⟨a, b, rfl, ha, hb⟩ | ⟨ha, rfl⟩
      · exact .everyStep hs
      · exact .rangeStep ha hb hs
      · rw [if_pos (hsteps _ _)]
        exact .oneStep ha hs
    · rcases h with ⟨rfl, rfl, rfl⟩ | ⟨a, b, rfl, ha, hb⟩ | ⟨ha, rfl⟩
      · exact .every
      · exact .range ha hb
      · rw [if_neg (hslash ha)]
        exact .one ha

/-- The reader reads the parts of the grammar and nothing else. -/
theorem readPart_eq_some (r : Reader number) :
    readPart number min max part = some span ↔ Part number min max part span := by
  obtain ⟨low, high, step⟩ := span
  have hread : readPart number min max part = some ⟨low, high, step⟩ ↔
      ((∃ range s, Text.splitOnce '/' part = some (range, s) ∧ number s = some step ∧
        readRange number min max part range = some (low, high)) ∨
      (Text.splitOnce '/' part = none ∧ step = 1 ∧
        readRange number min max part part = some (low, high))) ∧
      0 < step ∧ min ≤ low ∧ high ≤ max ∧ low ≤ high := by
    have hbounds : ∀ {l h k}, ((if l < min ∨ h > max ∨ l > h then none
        else pure ⟨l, h, k⟩ : Option Span) = some ⟨low, high, step⟩) ↔
        (l = low ∧ h = high ∧ k = step) ∧ min ≤ low ∧ high ≤ max ∧ low ≤ high := by
      intro l h k
      simp only [Option.ite_none_left_eq_some, Option.pure_def, Option.some.injEq, Span.mk.injEq]
      omega
    unfold readPart
    cases Text.splitOnce '/' part with
    | none =>
      simp only [Option.bind_eq_bind, Option.bind_eq_some_iff, Prod.exists, hbounds, reduceCtorEq,
        false_and, exists_false, false_or]
      constructor
      · rintro ⟨_, _, hpair, _, _, h, ⟨rfl, rfl, rfl⟩, hle⟩
        cases hpair
        exact ⟨⟨trivial, rfl, h⟩, by omega, hle⟩
      · rintro ⟨⟨-, rfl, h⟩, -, hle⟩
        exact ⟨_, _, rfl, _, _, h, ⟨rfl, rfl, rfl⟩, hle⟩
    | some pair =>
      obtain ⟨range, s⟩ := pair
      simp only [Option.bind_eq_bind, Option.bind_eq_some_iff, Prod.exists, hbounds,
        Option.map_eq_some_iff, Option.filter_eq_some_iff, decide_eq_true_eq, Option.some.injEq,
        Prod.mk.injEq, reduceCtorEq, false_and, or_false]
      constructor
      · rintro ⟨_, _, ⟨_, ⟨hs, hstep⟩, rfl, rfl⟩, _, _, h, ⟨rfl, rfl, rfl⟩, hle⟩
        exact ⟨⟨_, _, ⟨rfl, rfl⟩, hs, h⟩, hstep, hle⟩
      · rintro ⟨⟨_, _, ⟨rfl, rfl⟩, hs, h⟩, hstep, hle⟩
        exact ⟨_, _, ⟨_, ⟨hs, hstep⟩, rfl, rfl⟩, _, _, h, ⟨rfl, rfl, rfl⟩, hle⟩
  rw [hread, ← isPart_iff r]
  exact ⟨fun ⟨h, hstep, hlow, hhigh, hle⟩ => ⟨h, hlow, hhigh, hle, hstep⟩,
    fun h => ⟨h.text, h.step, h.low, h.high, h.ordered⟩⟩

theorem mapM_eq_some {α β : Type} {f : α → Option β} : ∀ {l : List α} {l' : List β},
    l.mapM f = some l' ↔ List.Forall₂ (fun a b => f a = some b) l l'
  | [], l' => by
    simp [List.forall₂_nil_left_iff, eq_comm]
  | a :: l, l' => by
    rw [List.mapM_cons, List.forall₂_cons_left_iff]
    simp only [Option.bind_eq_bind, Option.bind_eq_some_iff, Option.pure_def, Option.some.injEq,
      mapM_eq_some]
    exact ⟨fun ⟨b, hb, rest, hrest, heq⟩ => ⟨b, rest, hb, hrest, heq.symm⟩,
      fun ⟨b, rest, hb, hrest, heq⟩ => ⟨b, hb, rest, hrest, heq.symm⟩⟩

theorem comma_notMem (r : Reader number) (h : IsPart number min max part span) :
    ',' ∉ part.toList := by
  have hnumber : ∀ {a n}, number a = some n → ',' ∉ a.toList := fun h =>
    r.notMem h (by decide) (by decide)
  cases h with
  | every => decide
  | one ha => exact hnumber ha
  | range ha hb => simp [hnumber ha, hnumber hb]
  | everyStep hs => simp [hnumber hs]
  | oneStep ha hs => simp [hnumber ha, hnumber hs]
  | rangeStep ha hb hs => simp [hnumber ha, hnumber hb, hnumber hs]

theorem exists_of_mem_forall₂ {α β : Type} {R : α → β → Prop} {l : List α} {l' : List β}
    (h : List.Forall₂ R l l') {a : α} (ha : a ∈ l) : ∃ b, R a b := by
  induction h with
  | nil => cases ha
  | cons hab _ ih =>
    rcases List.mem_cons.1 ha with rfl | ha
    · exact ⟨_, hab⟩
    · exact ih ha

/-- The parts of a field are what its commas part. -/
theorem spans_iff (r : Reader number) : Spans number min max field spans ↔
    List.Forall₂ (Part number min max) (Text.splitAny [','] field) spans := by
  constructor
  · rintro ⟨parts, hne, rfl, h⟩
    have hplain : ∀ part ∈ parts, ',' ∉ part.toList := fun part hpart => by
      obtain ⟨span, hspan⟩ := exists_of_mem_forall₂ h hpart
      exact comma_notMem r hspan.text
    rwa [show Text.splitAny [','] (Text.join "," parts) = parts from
      Text.splitAny_join hne hplain]
  · exact fun h => ⟨_, Text.splitAny_ne_nil _ _, (Text.join_splitAny ',' field).symm, h⟩

/-- The reader reads the fields of the grammar and nothing else. -/
theorem readField_eq_some (r : Reader number) :
    readField number min max field = some spans ↔ Spans number min max field spans := by
  rw [readField, mapM_eq_some, spans_iff r]
  simp only [readPart_eq_some r]

theorem field_iff (r : Reader number) :
    Field number min max field ↔ (readField number min max field).isSome = true := by
  rw [Option.isSome_iff_exists]
  exact exists_congr fun spans => (readField_eq_some r).symm

theorem names_iff (r : Reader number) (h : readField number min max field = some spans) :
    Names number min max field value ↔ spans.any (·.names value) = true := by
  rw [List.any_eq_true]
  constructor
  · rintro ⟨spans', hspans', hnames⟩
    rw [← readField_eq_some r, h] at hspans'
    cases hspans'
    exact hnames
  · exact fun hnames => ⟨spans, (readField_eq_some r).1 h, hnames⟩

/-- A field names a value within its bounds. -/
theorem Field.names (h : Field number min max field) :
    ∃ value, min ≤ value ∧ value ≤ max ∧ Names number min max field value := by
  obtain ⟨spans, hspans⟩ := h
  obtain ⟨parts, hne, -, hparts⟩ := id hspans
  cases hparts with
  | nil => exact (hne rfl).elim
  | cons hpart _ =>
    exact ⟨_, hpart.low, hpart.ordered.trans hpart.high, _, hspans, _, List.mem_cons_self,
      decide_eq_true ⟨le_rfl, hpart.ordered, by rw [Nat.sub_self, Nat.zero_mod]⟩⟩

/-! ## Readers that read more numbers -/

section Mono

variable {number' : String → Option ℕ} (hle : ∀ {a n}, number a = some n → number' a = some n)

include hle in
theorem IsPart.mono (h : IsPart number min max part span) : IsPart number' min max part span := by
  cases h with
  | every => exact .every
  | one ha => exact .one (hle ha)
  | range ha hb => exact .range (hle ha) (hle hb)
  | everyStep hs => exact .everyStep (hle hs)
  | oneStep ha hs => exact .oneStep (hle ha) (hle hs)
  | rangeStep ha hb hs => exact .rangeStep (hle ha) (hle hb) (hle hs)

include hle in
theorem Spans.mono (h : Spans number min max field spans) : Spans number' min max field spans := by
  obtain ⟨parts, hne, hfield, hparts⟩ := h
  exact ⟨parts, hne, hfield, hparts.imp fun _ _ hpart => { hpart with text := hpart.text.mono hle }⟩

end Mono

/-- A field that is read with and without signs names the same values in both. -/
theorem names_decimal_iff (hd : Field decimal min max field) (hu : Field u32 min max field) :
    Names decimal min max field value ↔ Names u32 min max field value := by
  obtain ⟨spans, hspans⟩ := hd
  obtain ⟨spans', hspans'⟩ := hu
  have h := (readField_eq_some reader_natOf).2 (hspans.mono natOf_of_decimal)
  have h' := (readField_eq_some reader_natOf).2 (hspans'.mono natOf_of_u32)
  obtain rfl : spans = spans' := Option.some.inj (h.symm.trans h')
  rw [names_iff reader_decimal ((readField_eq_some reader_decimal).2 hspans),
    names_iff reader_u32 ((readField_eq_some reader_u32).2 hspans')]

theorem plus_notMem (h : Field decimal min max field) : '+' ∉ field.toList := by
  intro hplus
  obtain ⟨spans, hspans⟩ := h
  obtain ⟨part, hpart, hplus⟩ : ∃ part ∈ Text.splitAny [','] field, '+' ∈ part.toList :=
    Text.mem_splitAny_of_mem hplus (by decide)
  obtain ⟨span, hspan⟩ := exists_of_mem_forall₂ ((spans_iff reader_decimal).1 hspans) hpart
  have hnumber : ∀ {a n}, decimal a = some n → '+' ∉ a.toList := fun h hmem =>
    absurd (plain_of_digits h _ hmem) (by decide)
  revert hplus
  cases hspan.text with
  | every => decide
  | one ha => exact hnumber ha
  | range ha hb => simp [hnumber ha, hnumber hb]
  | everyStep hs => simp [hnumber hs]
  | oneStep ha hs => simp [hnumber ha, hnumber hs]
  | rangeStep ha hb hs => simp [hnumber ha, hnumber hb, hnumber hs]

theorem IsPart.unsigned (h : IsPart u32 min max part span) (hplus : '+' ∉ part.toList) :
    IsPart decimal min max part span := by
  have hnumber : ∀ {a n}, u32 a = some n → '+' ∉ a.toList → decimal a = some n := fun h =>
    decimal_of_natOf (natOf_of_u32 h)
  cases h with
  | every => exact .every
  | one ha => exact .one (hnumber ha hplus)
  | range ha hb =>
    simp only [String.toList_append, List.mem_append, not_or] at hplus
    exact .range (hnumber ha hplus.1.1) (hnumber hb hplus.2)
  | everyStep hs =>
    simp only [String.toList_append, List.mem_append, not_or] at hplus
    exact .everyStep (hnumber hs hplus.2)
  | oneStep ha hs =>
    simp only [String.toList_append, List.mem_append, not_or] at hplus
    exact .oneStep (hnumber ha hplus.1.1) (hnumber hs hplus.2)
  | rangeStep ha hb hs =>
    simp only [String.toList_append, List.mem_append, not_or] at hplus
    exact .rangeStep (hnumber ha hplus.1.1.1.1) (hnumber hb hplus.1.1.2) (hnumber hs hplus.2)

theorem field_unsigned (h : Field u32 min max field) (hplus : '+' ∉ field.toList) :
    Field decimal min max field := by
  obtain ⟨spans, hspans⟩ := h
  refine ⟨spans, (spans_iff reader_decimal).2 ?_⟩
  have hparts := (spans_iff reader_u32).1 hspans
  have hplain : ∀ part ∈ Text.splitAny [','] field, '+' ∉ part.toList := fun part hpart hmem =>
    hplus (Text.mem_of_mem_splitAny hpart hmem)
  clear hspans
  generalize Text.splitAny [','] field = parts at hparts hplain
  induction hparts with
  | nil => exact .nil
  | cons hpart _ ih =>
    rw [List.forall_mem_cons] at hplain
    exact .cons { hpart with text := hpart.text.unsigned hplain.1 } (ih hplain.2)

end Grammar

section Minutes

variable {number : String → Option ℕ} {min max : ℕ} {f : Fields} {field cron : String}
  {minute hour day month weekday value : ℕ}

theorem fieldMatches_eq : fieldMatches field value min max =
    (readField u32 min max field).map fun spans => spans.any (·.names value) := by
  unfold fieldMatches readField
  suffices h : ∀ (parts : List String) (any : Bool),
      parts.foldlM (fun any part => do
        let span ← readPart u32 min max part
        return any || span.names value) any =
      (parts.mapM (readPart u32 min max)).map fun spans => any || spans.any (·.names value) by
    simpa using h _ false
  intro parts
  induction parts with
  | nil => simp
  | cons part parts ih =>
    intro any
    rw [List.foldlM_cons, List.mapM_cons]
    cases readPart u32 min max part with
    | none => rfl
    | some span =>
      simp only [Option.bind_eq_bind, Option.bind_some, Option.pure_def] at ih ⊢
      rw [ih]
      cases parts.mapM (readPart u32 min max) <;> simp [Bool.or_assoc]

/-- A field that is one says of each value whether it names it. -/
theorem fieldMatches_of_field (h : Field u32 min max field) (value : ℕ) :
    ∃ b, fieldMatches field value min max = some b ∧
      (b = true ↔ Names u32 min max field value) := by
  obtain ⟨spans, hspans⟩ := h
  have hread := (readField_eq_some reader_u32).2 hspans
  exact ⟨_, by rw [fieldMatches_eq, hread, Option.map_some], (names_iff reader_u32 hread).symm⟩

theorem fieldMatches_of_not (h : ¬Field u32 min max field) :
    fieldMatches field value min max = none := by
  rw [field_iff reader_u32, Bool.not_eq_true, Option.isSome_eq_false_iff,
    Option.isNone_iff_eq_none] at h
  rw [fieldMatches_eq, h, Option.map_none]

structure Fields.Valid (number : String → Option ℕ) (f : Fields) : Prop where
  minute : Field number 0 59 f.minute
  hour : Field number 0 23 f.hour
  day : Field number 1 31 f.day
  month : Field number 1 12 f.month
  weekday : Field number 0 7 f.weekday

/-- Sunday is 0 or 7. -/
def NamesWeekday (number : String → Option ℕ) (field : String) (weekday : ℕ) : Prop :=
  Names number 0 7 field weekday ∨ weekday = 0 ∧ Names number 0 7 field 7

/-- The rule of the two day fields: either one is enough, or both name the day. -/
def Fields.NamesDay (number : String → Option ℕ) (either : Bool) (f : Fields) (day weekday : ℕ) :
    Prop :=
  if either then Names number 1 31 f.day day ∨ NamesWeekday number f.weekday weekday
  else Names number 1 31 f.day day ∧ NamesWeekday number f.weekday weekday

/-- The fields that are read for a minute are fields. -/
def Fields.ReadAt (f : Fields) (minute hour : ℕ) : Prop :=
  Field u32 0 59 f.minute ∧ Field u32 1 31 f.day ∧ Field u32 0 7 f.weekday ∧
    (Names u32 0 59 f.minute minute → Field u32 0 23 f.hour ∧
      (Names u32 0 23 f.hour hour → Field u32 1 12 f.month))

theorem weekdayMatches_of_field (h : Field u32 0 7 field) (weekday : ℕ) : ∃ b,
    weekdayMatches field weekday = some b ∧ (b = true ↔ NamesWeekday u32 field weekday) := by
  obtain ⟨b, hb, hnames⟩ := fieldMatches_of_field h weekday
  obtain ⟨c, hc, hsunday⟩ := fieldMatches_of_field h 7
  rw [NamesWeekday, ← hnames, ← hsunday, weekdayMatches, hb, hc]
  cases b with
  | true => exact ⟨true, rfl, by simp⟩
  | false =>
    by_cases hweekday : weekday = 0
    · exact ⟨c, by simp [hweekday], by simp [hweekday]⟩
    · exact ⟨false, by simp [hweekday], by simp [hweekday]⟩

/-- What is read for a minute, and what comes of it. -/
theorem matchesAt_spec (hf : fields cron = some f) :
    ((matchesAt cron minute hour day month weekday).isSome = true ↔ f.ReadAt minute hour) ∧
    (matchesAt cron minute hour day month weekday = some true ↔
      f.Valid u32 ∧ Names u32 0 59 f.minute minute ∧ Names u32 0 23 f.hour hour ∧
        Names u32 1 12 f.month month ∧
        f.NamesDay u32 (f.day ≠ "*" ∧ f.weekday ≠ "*") day weekday) := by
  unfold matchesAt Fields.ReadAt
  simp only [hf, Option.bind_eq_bind, Option.bind_some]
  by_cases hweekday : Field u32 0 7 f.weekday
  swap
  · rw [weekdayMatches, fieldMatches_of_not hweekday]
    exact ⟨by simp [hweekday], by simpa using fun h => absurd h.weekday hweekday⟩
  obtain ⟨w, hw, hnamesWeekday⟩ := weekdayMatches_of_field hweekday weekday
  rw [hw, Option.bind_some]
  by_cases hday : Field u32 1 31 f.day
  swap
  · rw [fieldMatches_of_not hday]
    exact ⟨by simp [hday], by simpa using fun h => absurd h.day hday⟩
  obtain ⟨d, hd, hnamesDay⟩ := fieldMatches_of_field hday day
  rw [hd, Option.bind_some]
  by_cases hminute : Field u32 0 59 f.minute
  swap
  · rw [fieldMatches_of_not hminute]
    exact ⟨by simp [hminute], by simpa using fun h => absurd h.minute hminute⟩
  obtain ⟨m, hm, hnamesMinute⟩ := fieldMatches_of_field hminute minute
  rw [hm, Option.bind_some, ← hnamesMinute]
  cases m with
  | false => simp [hweekday, hday, hminute]
  | true =>
    rw [if_pos rfl]
    by_cases hhour : Field u32 0 23 f.hour
    swap
    · rw [fieldMatches_of_not hhour]
      exact ⟨by simp [hhour], by simpa using fun h => absurd h.hour hhour⟩
    obtain ⟨h, hh, hnamesHour⟩ := fieldMatches_of_field hhour hour
    rw [hh, Option.bind_some, ← hnamesHour]
    cases h with
    | false => simp [hweekday, hday, hminute, hhour]
    | true =>
      rw [if_pos rfl]
      by_cases hmonth : Field u32 1 12 f.month
      swap
      · rw [fieldMatches_of_not hmonth]
        exact ⟨by simp [hmonth], by simpa using fun h => absurd h.month hmonth⟩
      obtain ⟨mo, hmo, hnamesMonth⟩ := fieldMatches_of_field hmonth month
      have hvalid : f.Valid u32 := ⟨hminute, hhour, hday, hmonth, hweekday⟩
      rw [hmo, Option.bind_some, ← hnamesMonth]
      refine ⟨by simp [hweekday, hday, hminute, hhour, hmonth], ?_⟩
      unfold Fields.NamesDay
      rw [← hnamesDay, ← hnamesWeekday]
      by_cases heither : f.day ≠ "*" ∧ f.weekday ≠ "*"
      · simp [hvalid, heither]
      · simp [hvalid, heither]

/-! ## The minutes of a day -/

theorem foldlM_append {α β : Type} {step : List β → α → Option (List β)} {g : α → List β} :
    ∀ {items : List α} (acc : List β),
      (∀ acc, ∀ item ∈ items, step acc item = some (acc ++ g item)) →
      items.foldlM step acc = some (acc ++ items.flatMap g)
  | [], acc, _ => by simp
  | item :: items, acc, h => by
    rw [List.foldlM_cons, h acc item List.mem_cons_self, Option.bind_eq_bind, Option.bind_some,
      foldlM_append _ fun acc item hitem => h acc item (List.mem_cons_of_mem _ hitem),
      List.flatMap_cons, List.append_assoc]

/-- The minutes of an hour, counted from midnight. -/
def hourMinutes (minute : ℕ → Bool) (h : ℕ) : List ℕ :=
  (List.range 60).flatMap fun m => if minute m then [h * 60 + m] else []

/-- The minutes of the hours, counted from midnight. -/
def namedMinutes (hour minute : ℕ → Bool) : List ℕ :=
  (List.range 24).flatMap fun h => if hour h then hourMinutes minute h else []

variable {hour minute : ℕ → Bool}

theorem mem_hourMinutes {h t : ℕ} :
    t ∈ hourMinutes minute h ↔ t / 60 = h ∧ minute (t % 60) = true := by
  rw [hourMinutes, List.mem_flatMap]
  constructor
  · rintro ⟨m, hm, ht⟩
    have hm := List.mem_range.1 hm
    split_ifs at ht with hminute
    · obtain rfl := List.mem_singleton.1 ht
      have hmod : (h * 60 + m) % 60 = m := by omega
      exact ⟨by omega, by rwa [hmod]⟩
    · cases ht
  · rintro ⟨rfl, hminute⟩
    refine ⟨t % 60, List.mem_range.2 (by omega), ?_⟩
    rw [if_pos hminute, List.mem_singleton]
    omega

theorem mem_namedMinutes {t : ℕ} : t ∈ namedMinutes hour minute ↔
    t < 24 * 60 ∧ hour (t / 60) = true ∧ minute (t % 60) = true := by
  rw [namedMinutes, List.mem_flatMap]
  constructor
  · rintro ⟨h, hh, ht⟩
    have hh := List.mem_range.1 hh
    split_ifs at ht with hhour
    · obtain ⟨rfl, hminute⟩ := mem_hourMinutes.1 ht
      exact ⟨by omega, hhour, hminute⟩
    · cases ht
  · rintro ⟨ht, hhour, hminute⟩
    refine ⟨t / 60, List.mem_range.2 (by omega), ?_⟩
    rw [if_pos hhour]
    exact mem_hourMinutes.2 ⟨rfl, hminute⟩

theorem pairwise_hourMinutes (h : ℕ) : (hourMinutes minute h).Pairwise (· < ·) := by
  refine List.pairwise_flatMap.2 ⟨fun m _ => by split_ifs <;> simp,
    List.pairwise_lt_range.imp fun hlt t ht t' ht' => ?_⟩
  split_ifs at ht ht'
  all_goals simp only [List.mem_singleton, List.not_mem_nil] at ht ht'
  omega

theorem pairwise_namedMinutes : (namedMinutes hour minute).Pairwise (· < ·) := by
  have hmem : ∀ {h t}, t ∈ (if hour h then hourMinutes minute h else []) → t / 60 = h := by
    intro h t ht
    split_ifs at ht
    · exact (mem_hourMinutes.1 ht).1
    · cases ht
  refine List.pairwise_flatMap.2 ⟨fun h _ => ?_,
    List.pairwise_lt_range.imp fun hlt t ht t' ht' => ?_⟩
  · split_ifs
    · exact pairwise_hourMinutes h
    · exact .nil
  · have := hmem ht
    have := hmem ht'
    omega

theorem dayMinutes_eq {hours minutes : String}
    (hhour : ∀ h, fieldMatches hours h 0 23 = some (hour h))
    (hminute : ∀ m, fieldMatches minutes m 0 59 = some (minute m)) :
    dayMinutes hours minutes = some (namedMinutes hour minute) := by
  have hinner : ∀ h acc, (List.range 60).foldlM (fun day m => do
      if ← fieldMatches minutes m 0 59 then return day ++ [h * 60 + m] else return day) acc =
      some (acc ++ hourMinutes minute h) :=
    fun h acc => foldlM_append acc fun acc m _ => by
      rw [hminute, Option.bind_eq_bind, Option.bind_some]
      cases minute m <;> simp
  rw [dayMinutes, foldlM_append [] fun acc h _ => ?_, List.nil_append]
  · rfl
  · rw [hhour, Option.bind_eq_bind, Option.bind_some]
    cases hour h with
    | false => simp
    | true => exact hinner h acc

/-- The minutes the two fields name, in their order. -/
theorem dayMinutes_spec {hours minutes : String} (hhours : Field u32 0 23 hours)
    (hminutes : Field u32 0 59 minutes) : ∃ day, dayMinutes hours minutes = some day ∧
      day.Pairwise (· < ·) ∧ ∀ t, t ∈ day ↔
        t < 24 * 60 ∧ Names u32 0 23 hours (t / 60) ∧ Names u32 0 59 minutes (t % 60) := by
  choose hour hhour hnamesHour using fieldMatches_of_field hhours
  choose minute hminute hnamesMinute using fieldMatches_of_field hminutes
  refine ⟨_, dayMinutes_eq hhour hminute, pairwise_namedMinutes, fun t => ?_⟩
  rw [mem_namedMinutes, hnamesHour, hnamesMinute]

end Minutes

section Schedules

/-- What `matches` says of a minute of the calendar, counted from 1 January 1970. -/
def matchesMinute (cron : String) (t : ℕ) : Option Bool :=
  let date := Calendar.date (t / (24 * 60))
  matchesAt cron (t % 60) (t / 60 % 24) date.day date.month date.weekday

/-- The five fields of an expression are fields, with no sign before a number. -/
def Documented (cron : String) : Prop := ∃ f, fields cron = some f ∧ f.Valid decimal

/-- A day field that begins with a star leaves the other to say which days. -/
def starred (field : String) : Bool := Text.startsWith '*' field

def Fields.NamesMinute (number : String → Option ℕ) (either : Bool) (f : Fields) (t : ℕ) : Prop :=
  Names number 0 59 f.minute (t % 60) ∧ Names number 0 23 f.hour (t / 60 % 24) ∧
    Names number 1 12 f.month (Calendar.date (t / (24 * 60))).month ∧
    f.NamesDay number either (Calendar.date (t / (24 * 60))).day
      (Calendar.date (t / (24 * 60))).weekday

/-- The minutes Vixie cron runs an expression at. -/
def Vixie (cron : String) (t : ℕ) : Prop :=
  ∃ f, fields cron = some f ∧ f.Valid decimal ∧
    f.NamesMinute decimal (!starred f.day && !starred f.weekday) t

/-- Neither day field leaves a day out. -/
def Unrestricted (cron : String) : Prop :=
  ∀ f, fields cron = some f → (∀ day, 0 < day → day ≤ 31 → Names decimal 1 31 f.day day) ∧
    ∀ weekday < 7, NamesWeekday decimal f.weekday weekday

/-- An expression means what it means to cron. -/
structure Means (cron : String) : Prop where
  accepted : isValid cron = true ↔ Documented cron
  answered : Documented cron → ∀ t, (matchesMinute cron t).isSome = true
  matched : ∀ t, matchesMinute cron t = some true ↔ Vixie cron t
  gap : Documented cron → ∃ gap, shortestGapMinutes cron = some gap ∧
    (∀ t t', Vixie cron t → Vixie cron t' → t < t' → t + gap ≤ t') ∧
    (Unrestricted cron → ∃ t, Vixie cron t ∧ Vixie cron (t + gap))

/-- Where the reader keeps to cron: it has no sign to read over and no step too large to read, it
is first read at a minute that shows it what is not a field, and a day field that begins with a
star restricts nothing or is nothing but the star. -/
structure Fields.Kept (f : Fields) : Prop where
  signs : f.Valid u32 →
    ∀ field ∈ [f.minute, f.hour, f.day, f.month, f.weekday], '+' ∉ field.toList
  hour : Field u32 0 59 f.minute → Field u32 1 31 f.day → Field u32 0 7 f.weekday →
    ¬Field u32 0 23 f.hour → Names u32 0 59 f.minute 0
  month : Field u32 0 59 f.minute → Field u32 1 31 f.day → Field u32 0 7 f.weekday →
    Field u32 0 23 f.hour → ¬Field u32 1 12 f.month →
    Names u32 0 59 f.minute 0 ∧ Names u32 0 23 f.hour 0
  steps : f.Valid decimal → f.Valid u32
  days : f.Valid decimal → f.day = "*" ∨ f.weekday = "*" ∨
    (starred f.day = false ∧ starred f.weekday = false) ∨
    ((∀ month day, Names decimal 1 12 f.month month → 0 < day → day ≤ Calendar.longest month →
      Names decimal 1 31 f.day day) ∧ ∀ weekday < 7, NamesWeekday decimal f.weekday weekday)

variable {f : Fields} {cron : String} {number : String → Option ℕ} {min max value : ℕ}
  {field : String}

theorem Fields.Valid.readAt (h : f.Valid u32) (minute hour : ℕ) : f.ReadAt minute hour :=
  ⟨h.minute, h.day, h.weekday, fun _ => ⟨h.hour, fun _ => h.month⟩⟩

theorem Fields.Valid.unsigned (h : f.Valid u32)
    (hplus : ∀ field ∈ [f.minute, f.hour, f.day, f.month, f.weekday], '+' ∉ field.toList) :
    f.Valid decimal := by
  simp only [List.forall_mem_cons, List.not_mem_nil, false_implies, implies_true, and_true] at hplus
  obtain ⟨hminute, hhour, hday, hmonth, hweekday⟩ := hplus
  exact ⟨field_unsigned h.minute hminute, field_unsigned h.hour hhour, field_unsigned h.day hday,
    field_unsigned h.month hmonth, field_unsigned h.weekday hweekday⟩

theorem Fields.Valid.plus_notMem (h : f.Valid decimal) :
    ∀ field ∈ [f.minute, f.hour, f.day, f.month, f.weekday], '+' ∉ field.toList := by
  simp only [List.forall_mem_cons, List.not_mem_nil, false_implies, implies_true, and_true]
  exact ⟨Cron.plus_notMem h.minute, Cron.plus_notMem h.hour, Cron.plus_notMem h.day,
    Cron.plus_notMem h.month, Cron.plus_notMem h.weekday⟩

theorem Names.le (r : Reader number) (h : Names number min max field value) :
    min ≤ value ∧ value ≤ max := by
  obtain ⟨spans, hspans, span, hspan, hnames⟩ := h
  have hparts := ((spans_iff r).1 hspans).flip
  obtain ⟨part, hpart⟩ := exists_of_mem_forall₂ hparts hspan
  obtain ⟨hlow, hhigh, -⟩ := of_decide_eq_true hnames
  exact ⟨hpart.low.trans hlow, hhigh.trans hpart.high⟩

theorem namesWeekday_iff (hd : Field decimal 0 7 field) (hu : Field u32 0 7 field) {weekday : ℕ} :
    NamesWeekday decimal field weekday ↔ NamesWeekday u32 field weekday := by
  rw [NamesWeekday, NamesWeekday, names_decimal_iff hd hu, names_decimal_iff hd hu]

/-- With and without signs, the fields name the same minutes. -/
theorem Fields.Valid.namesMinute_iff (hd : f.Valid decimal) (hu : f.Valid u32) {either : Bool}
    {t : ℕ} : f.NamesMinute decimal either t ↔ f.NamesMinute u32 either t := by
  unfold Fields.NamesMinute Fields.NamesDay
  rw [names_decimal_iff hd.minute hu.minute, names_decimal_iff hd.hour hu.hour,
    names_decimal_iff hd.month hu.month, names_decimal_iff hd.day hu.day,
    namesWeekday_iff hd.weekday hu.weekday]

theorem isValid_iff (hf : fields cron = some f) : isValid cron = true ↔ f.ReadAt 0 0 :=
  (matchesAt_spec hf).1

theorem matchesMinute_isSome (hf : fields cron = some f) {t : ℕ} :
    (matchesMinute cron t).isSome = true ↔ f.ReadAt (t % 60) (t / 60 % 24) :=
  (matchesAt_spec hf).1

theorem matchesMinute_eq_true (hf : fields cron = some f) {t : ℕ} :
    matchesMinute cron t = some true ↔
      f.Valid u32 ∧ f.NamesMinute u32 (f.day ≠ "*" ∧ f.weekday ≠ "*") t :=
  (matchesAt_spec hf).2

theorem documented_iff (hf : fields cron = some f) : Documented cron ↔ f.Valid decimal := by
  unfold Documented
  rw [hf]
  simp

theorem vixie_iff (hf : fields cron = some f) {t : ℕ} : Vixie cron t ↔
    f.Valid decimal ∧ f.NamesMinute decimal (!starred f.day && !starred f.weekday) t := by
  unfold Vixie
  rw [hf]
  simp

/-! ## What is accepted -/

theorem Fields.Kept.valid_iff (h : f.Kept) : f.ReadAt 0 0 ↔ f.Valid decimal := by
  constructor
  · rintro ⟨hminute, hday, hweekday, hread⟩
    have hhour : Field u32 0 23 f.hour := by
      by_contra hhour
      exact hhour (hread (h.hour hminute hday hweekday hhour)).1
    have hmonth : Field u32 1 12 f.month := by
      by_contra hmonth
      obtain ⟨hm, hh⟩ := h.month hminute hday hweekday hhour hmonth
      exact hmonth ((hread hm).2 hh)
    have hvalid : f.Valid u32 := ⟨hminute, hhour, hday, hmonth, hweekday⟩
    exact hvalid.unsigned (h.signs hvalid)
  · exact fun hvalid => (h.steps hvalid).readAt 0 0

/-- An expression whose fields are read at every minute is read in all of them. -/
theorem valid_of_readAt (h : ∀ minute < 60, ∀ hour < 24, f.ReadAt minute hour) : f.Valid u32 := by
  obtain ⟨minute, -, hle, hminute⟩ := (h 0 (by omega) 0 (by omega)).1.names
  obtain ⟨hhour, -⟩ := (h minute (by omega) 0 (by omega)).2.2.2 hminute
  obtain ⟨hour, -, hle', hnames⟩ := hhour.names
  obtain ⟨hm, hd, hw, hread⟩ := h minute (by omega) hour (by omega)
  exact ⟨hm, hhour, hd, (hread hminute).2 hnames, hw⟩

/-! ## The rule of the day fields -/

theorem starred_star : starred "*" = true := by decide

theorem exists_weekday (h : Field decimal 0 7 field) :
    ∃ weekday < 7, NamesWeekday decimal field weekday := by
  obtain ⟨value, -, hle, hnames⟩ := h.names
  by_cases hvalue : value = 7
  · exact ⟨0, by omega, Or.inr ⟨rfl, hvalue ▸ hnames⟩⟩
  · exact ⟨value, by omega, Or.inl hnames⟩

/-- Where a kept day field begins with a star, either rule names the same days. -/
theorem Fields.Kept.namesMinute_iff (h : f.Kept) (hvalid : f.Valid decimal) {t : ℕ} :
    f.NamesMinute decimal (f.day ≠ "*" ∧ f.weekday ≠ "*") t ↔
      f.NamesMinute decimal (!starred f.day && !starred f.weekday) t := by
  have hne : ∀ {field : String}, starred field = false → field ≠ "*" := fun h hstar => by
    rw [hstar, starred_star] at h
    cases h
  unfold Fields.NamesMinute
  refine and_congr_right fun _ => and_congr_right fun _ => and_congr_right fun hmonth => ?_
  unfold Fields.NamesDay
  rcases h.days hvalid with hday | hweekday | ⟨hday, hweekday⟩ | ⟨hdays, hweekdays⟩
  · simp [hday, starred_star]
  · simp [hweekday, starred_star]
  · simp [hday, hweekday, hne hday, hne hweekday]
  · have hdate := Calendar.valid_date (t / (24 * 60))
    have hday := hdays _ _ hmonth hdate.day_pos
      (hdate.day_le.trans (Calendar.daysIn_le_longest _ _))
    have hweekday := hweekdays _ hdate.weekday_lt
    split_ifs <;> simp [hday, hweekday]

/-- If one day field alone never names a day, each of the two names all of them. -/
theorem names_all (hvalid : f.Valid decimal) (h : ∀ n, Names decimal 1 12 f.month
      (Calendar.date n).month → (Names decimal 1 31 f.day (Calendar.date n).day ↔
      NamesWeekday decimal f.weekday (Calendar.date n).weekday)) :
    (∀ month day, Names decimal 1 12 f.month month → 0 < day → day ≤ Calendar.longest month →
      Names decimal 1 31 f.day day) ∧ ∀ weekday < 7, NamesWeekday decimal f.weekday weekday := by
  obtain ⟨month, hpos, hle, hmonth⟩ := hvalid.month.names
  obtain ⟨w, hw⟩ := Calendar.exists_weekdays hpos hle
  -- The same day falls a weekday later in the next year, so a weekday is named with the one after.
  have hnext : ∀ k < 7, (NamesWeekday decimal f.weekday ((w + k) % 7) ↔
      NamesWeekday decimal f.weekday ((w + k + 1) % 7)) := fun k hk => by
    obtain ⟨n, n', hn, hn'⟩ := hw k hk
    have hday := h n (by rwa [hn])
    have hday' := h n' (by rwa [hn'])
    rw [hn] at hday
    rw [hn'] at hday'
    exact hday.symm.trans hday'
  have hall : ∀ k ≤ 7, (NamesWeekday decimal f.weekday ((w + k) % 7) ↔
      NamesWeekday decimal f.weekday (w % 7)) := by
    intro k hk
    induction k with
    | zero => rfl
    | succ k ih => exact (hnext k (by omega)).symm.trans (ih (by omega))
  have hweekday : ∀ weekday < 7, (NamesWeekday decimal f.weekday weekday ↔
      NamesWeekday decimal f.weekday (w % 7)) := fun weekday hweekday => by
    have := hall ((weekday + 7 - w % 7) % 7) (by omega)
    rwa [show (w + (weekday + 7 - w % 7) % 7) % 7 = weekday by omega] at this
  obtain ⟨weekday, hlt, hnamed⟩ := exists_weekday hvalid.weekday
  have hweekdays : ∀ weekday < 7, NamesWeekday decimal f.weekday weekday := fun weekday' hlt' =>
    (hweekday weekday' hlt').2 ((hweekday weekday hlt).1 hnamed)
  refine ⟨fun month day hmonth hday hle => ?_, hweekdays⟩
  have hbounds := hmonth.le reader_decimal
  obtain ⟨n, hn, hn'⟩ := Calendar.exists_longest (by omega) hbounds.2 hday hle
  have := (h n (hn ▸ hmonth)).2 (hweekdays _ (Calendar.valid_date n).weekday_lt)
  rwa [hn'] at this

/-- The two rules name the same minutes only of a kept pair of day fields. -/
theorem days_of_matched (hvalid : f.Valid decimal)
    (h : ∀ t, f.NamesMinute decimal (f.day ≠ "*" ∧ f.weekday ≠ "*") t ↔
      f.NamesMinute decimal (!starred f.day && !starred f.weekday) t) :
    f.day = "*" ∨ f.weekday = "*" ∨ (starred f.day = false ∧ starred f.weekday = false) ∨
    ((∀ month day, Names decimal 1 12 f.month month → 0 < day → day ≤ Calendar.longest month →
      Names decimal 1 31 f.day day) ∧ ∀ weekday < 7, NamesWeekday decimal f.weekday weekday) := by
  by_cases hday : f.day = "*"
  · exact Or.inl hday
  by_cases hweekday : f.weekday = "*"
  · exact Or.inr (Or.inl hweekday)
  refine Or.inr (Or.inr ?_)
  by_cases hstar : starred f.day = false ∧ starred f.weekday = false
  · exact Or.inl hstar
  refine Or.inr (names_all hvalid fun n hmonth => ?_)
  obtain ⟨minute, -, hminute, hnamesMinute⟩ := hvalid.minute.names
  obtain ⟨hour, -, hhour, hnamesHour⟩ := hvalid.hour.names
  have ht := h (n * (24 * 60) + hour * 60 + minute)
  unfold Fields.NamesMinute at ht
  rw [show (n * (24 * 60) + hour * 60 + minute) / (24 * 60) = n by omega,
    show (n * (24 * 60) + hour * 60 + minute) / 60 % 24 = hour by omega,
    show (n * (24 * 60) + hour * 60 + minute) % 60 = minute by omega] at ht
  have hcode : decide (f.day ≠ "*" ∧ f.weekday ≠ "*") = true := decide_eq_true ⟨hday, hweekday⟩
  have hvixie : (!starred f.day && !starred f.weekday) = false := by
    simpa [Bool.and_eq_false_iff, not_and_or] using hstar
  simp only [hnamesMinute, hnamesHour, hmonth, true_and, Fields.NamesDay, hcode, hvixie,
    if_true, Bool.false_eq_true, if_false] at ht
  exact ⟨fun hd => (ht.1 (Or.inl hd)).2, fun hw => (ht.1 (Or.inr hw)).1⟩

/-! ## The shortest gap -/

/-- A minute cron names is at a time of day the fields name. -/
theorem names_of_vixie (hf : fields cron = some f) (hu : f.Valid u32) {t : ℕ}
    (h : Vixie cron t) : t % (24 * 60) < 24 * 60 ∧
      Names u32 0 23 f.hour (t % (24 * 60) / 60) ∧
        Names u32 0 59 f.minute (t % (24 * 60) % 60) := by
  obtain ⟨hvalid, hm, hh, -⟩ := (vixie_iff hf).1 h
  rw [names_decimal_iff hvalid.minute hu.minute] at hm
  rw [names_decimal_iff hvalid.hour hu.hour] at hh
  have hhour : t % (24 * 60) / 60 = t / 60 % 24 := by omega
  have hminute : t % (24 * 60) % 60 = t % 60 := by omega
  rw [hhour, hminute]
  exact ⟨by omega, hh, hm⟩

/-- Every time of day the fields name is named of the days of a named month. -/
theorem vixie_of_names (hf : fields cron = some f) (hvalid : f.Valid decimal) (hu : f.Valid u32)
    (hall : Unrestricted cron) {n t : ℕ}
    (hmonth : Names decimal 1 12 f.month (Calendar.date n).month)
    (h : t < 24 * 60 ∧ Names u32 0 23 f.hour (t / 60) ∧ Names u32 0 59 f.minute (t % 60)) :
    Vixie cron (n * (24 * 60) + t) := by
  obtain ⟨ht, hh, hm⟩ := h
  obtain ⟨hdays, hweekdays⟩ := hall f hf
  have hdate := Calendar.valid_date n
  have hdayle := hdate.day_le.trans ((Calendar.daysIn_le_longest _ _).trans (Calendar.longest_le _))
  have hd := hdays _ hdate.day_pos hdayle
  have hw := hweekdays _ hdate.weekday_lt
  refine (vixie_iff hf).2 ⟨hvalid, ?_⟩
  unfold Fields.NamesMinute Fields.NamesDay
  rw [show (n * (24 * 60) + t) / (24 * 60) = n by omega,
    show (n * (24 * 60) + t) / 60 % 24 = t / 60 by omega,
    show (n * (24 * 60) + t) % 60 = t % 60 by omega,
    names_decimal_iff hvalid.minute hu.minute, names_decimal_iff hvalid.hour hu.hour]
  refine ⟨hm, hh, hmonth, ?_⟩
  split_ifs
  · exact Or.inl hd
  · exact ⟨hd, hw⟩

theorem gap_spec (hf : fields cron = some f) (h : f.Kept) (hvalid : f.Valid decimal) :
    ∃ gap, shortestGapMinutes cron = some gap ∧
      (∀ t t', Vixie cron t → Vixie cron t' → t < t' → t + gap ≤ t') ∧
      (Unrestricted cron → ∃ t, Vixie cron t ∧ Vixie cron (t + gap)) := by
  have hu := h.steps hvalid
  obtain ⟨day, hday, hsorted, hmem⟩ := dayMinutes_spec hu.hour hu.minute
  obtain ⟨minute, -, hminute, hnamesMinute⟩ := hu.minute.names
  obtain ⟨hour, -, hhour, hnamesHour⟩ := hu.hour.names
  have hne : day ≠ [] := List.ne_nil_of_mem ((hmem (hour * 60 + minute)).2
    ⟨by omega, by rwa [show (hour * 60 + minute) / 60 = hour by omega],
      by rwa [show (hour * 60 + minute) % 60 = minute by omega]⟩)
  obtain ⟨gap, hgap⟩ : ∃ gap, Periodic.shortestGap (24 * 60) day = some gap :=
    Option.isSome_iff_exists.1 (Periodic.shortestGap_isSome hne)
  have hlt : ∀ t ∈ day, t < 24 * 60 := fun t ht => ((hmem t).1 ht).1
  have hnamed : ∀ {t}, Vixie cron t → t % (24 * 60) ∈ day := fun ht =>
    (hmem _).2 (names_of_vixie hf hu ht)
  refine ⟨gap, ?_, fun t t' ht ht' hbefore =>
    Periodic.add_shortestGap_le hsorted hlt hgap (hnamed ht) (hnamed ht') hbefore, fun hall => ?_⟩
  · rw [shortestGapMinutes, hf, Option.bind_eq_bind, Option.bind_some,
      if_pos ((isValid_iff hf).2 (hu.readAt 0 0)), hday]
    exact hgap
  · obtain ⟨month, hpos, hle, hmonth⟩ := hvalid.month.names
    obtain ⟨n, hn, hn'⟩ := Calendar.exists_next hpos hle
    have hvixie : ∀ {n t}, (Calendar.date n).month = month → t ∈ day →
        Vixie cron (n * (24 * 60) + t) := fun hn ht =>
      vixie_of_names hf hvalid hu hall (hn ▸ hmonth) ((hmem _).1 ht)
    obtain ⟨t, ht, t', ht', heq | heq⟩ := Periodic.exists_shortestGap hsorted hlt hgap
    · exact ⟨n * (24 * 60) + t, hvixie hn ht, by rw [Nat.add_assoc, heq]; exact hvixie hn ht'⟩
    · refine ⟨n * (24 * 60) + t, hvixie hn ht, ?_⟩
      rw [Nat.add_assoc, heq, ← Nat.add_assoc, ← Nat.succ_mul]
      exact hvixie hn' ht'

/-- An expression means what it means to cron exactly where the reader keeps to cron. -/
theorem means_iff (cron : String) : Means cron ↔ ∀ f, fields cron = some f → f.Kept := by
  constructor
  · intro h f hf
    have hread : f.ReadAt 0 0 → f.Valid decimal := fun hread =>
      (documented_iff hf).1 (h.accepted.1 ((isValid_iff hf).2 hread))
    have hsteps : f.Valid decimal → f.Valid u32 := fun hvalid => by
      refine valid_of_readAt fun minute hminute hour hhour => ?_
      have := (matchesMinute_isSome hf).1
        (h.answered ((documented_iff hf).2 hvalid) (hour * 60 + minute))
      rwa [show (hour * 60 + minute) % 60 = minute by omega,
        show (hour * 60 + minute) / 60 % 24 = hour by omega] at this
    refine ⟨fun hvalid => (hread (hvalid.readAt 0 0)).plus_notMem, ?_, ?_, hsteps, fun hvalid => ?_⟩
    · intro hminute hday hweekday hhour
      by_contra hzero
      exact hhour (hsteps (hread ⟨hminute, hday, hweekday, fun h => (hzero h).elim⟩)).hour
    · intro hminute hday hweekday hhour hmonth
      by_contra hzero
      exact hmonth (hsteps (hread ⟨hminute, hday, hweekday, fun hm =>
        ⟨hhour, fun hh => (hzero ⟨hm, hh⟩).elim⟩⟩)).month
    · refine days_of_matched hvalid fun t => ?_
      have hmatched := h.matched t
      rw [matchesMinute_eq_true hf, vixie_iff hf,
        ← hvalid.namesMinute_iff (hsteps hvalid)] at hmatched
      simpa only [hvalid, hsteps hvalid, true_and] using hmatched
  · intro h
    cases hf : fields cron with
    | none =>
      have hnone : ¬Documented cron := fun ⟨f, hf', _⟩ => by
        rw [hf] at hf'
        cases hf'
      have hmatches : ∀ {m h d mo w}, matchesAt cron m h d mo w = none := by
        intros
        rw [matchesAt, hf]
        rfl
      have hvixie : ∀ t, ¬Vixie cron t := fun t ⟨f, hf', hvalid, _⟩ => hnone ⟨f, hf', hvalid⟩
      refine ⟨?_, fun h => (hnone h).elim, fun t => ?_, fun h => (hnone h).elim⟩
      · simp [isValid, hmatches, hnone]
      · simp [matchesMinute, hmatches, hvixie]
    | some f =>
      have hkept := h f hf
      refine ⟨?_, fun hvalid t => ?_, fun t => ?_, fun hvalid =>
        gap_spec hf hkept ((documented_iff hf).1 hvalid)⟩
      · rw [isValid_iff hf, documented_iff hf, hkept.valid_iff]
      · exact (matchesMinute_isSome hf).2 ((hkept.steps ((documented_iff hf).1 hvalid)).readAt _ _)
      · rw [matchesMinute_eq_true hf, vixie_iff hf]
        constructor
        · rintro ⟨hvalid, hnames⟩
          have hd := hvalid.unsigned (hkept.signs hvalid)
          exact ⟨hd, (hkept.namesMinute_iff hd).1 ((hd.namesMinute_iff hvalid).2 hnames)⟩
        · rintro ⟨hd, hnames⟩
          have hvalid := hkept.steps hd
          exact ⟨hvalid, (hd.namesMinute_iff hvalid).1 ((hkept.namesMinute_iff hd).2 hnames)⟩

/-- The twenty-fourth hour is accepted, as no run at midnight reads it. -/
theorem unread_hour : ¬∀ cron, Means cron := by
  intro h
  have haccepted := (h "5 24 * * *").accepted.1 (by decide)
  have hfields : fields "5 24 * * *" = some ⟨"5", "24", "*", "*", "*"⟩ := by decide
  have hhour := ((documented_iff hfields).1 haccepted).hour
  rw [field_iff reader_decimal] at hhour
  revert hhour
  decide

end Schedules

end JoinedContext.Cron

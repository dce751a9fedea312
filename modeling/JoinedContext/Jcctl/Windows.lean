import JoinedContext.Library.Assoc
import JoinedContext.Library.Text
import Mathlib.Algebra.GroupWithZero.Nat

/-!
# The window of a temporal query

A derived pipeline's window is a duration of days, hours, minutes and seconds, rendered as a number
of seconds.
-/

namespace JoinedContext.Jcctl.Windows

def dayUnits : List (Char × ℕ) := [('D', 86400)]

def timeUnits : List (Char × ℕ) := [('H', 3600), ('M', 60), ('S', 1)]

/-- What the scan holds: the total, the digits not yet followed by a letter, and whether there was
a letter. -/
structure Reading where
  total : ℕ
  digits : List Char
  seen : Bool
deriving DecidableEq

def decimal (digits : List Char) : ℕ := digits.foldl (fun n c => n * 10 + (c.toNat - 48)) 0

/-- `str::parse::<u64>` of digits. -/
def parseDigits (digits : List Char) : Option ℕ :=
  if digits ≠ [] ∧ decimal digits < 2 ^ 64 then some (decimal digits) else none

/-- One character of a part. The sum is checked; the product before it wraps. -/
def readChar (units : List (Char × ℕ)) (r : Reading) (c : Char) : Option Reading :=
  if c.isDigit then some { r with digits := r.digits ++ [c] }
  else do
    let unit ← units.lookup c
    let count ← parseDigits r.digits
    let total := r.total + count * unit % 2 ^ 64
    if total < 2 ^ 64 then some ⟨total, [], true⟩ else none

def badWindow (window : String) : String :=
  window ++ " is not a duration of days, hours, minutes or seconds (PL-31)"

def scan (window : String) : Option Reading := do
  let rest ← Text.stripPrefix "P" window
  let (date, time) := (Text.splitOnce 'T' rest).getD (rest, "")
  let r ← date.toList.foldlM (readChar dayUnits) ⟨0, [], false⟩
  time.toList.foldlM (readChar timeUnits) r

/-- Seconds in an ISO 8601 duration of fixed-length parts. -/
def windowSeconds (window : String) : Except String ℕ :=
  match scan window with
  | none => .error (badWindow window)
  | some r =>
    if r.seen ∧ r.digits = [] ∧ 0 < r.total then .ok r.total else .error (badWindow window)

section Durations

/-- The digits of a part: at least one. -/
structure Count where
  digits : List Char
  ne : digits ≠ []
  all_digits : ∀ c ∈ digits, c.isDigit = true

structure Part where
  count : Count
  letter : Char
  unit : ℕ

namespace Part

def text (p : Part) : List Char := p.count.digits ++ [p.letter]

def seconds (p : Part) : ℕ := decimal p.count.digits * p.unit

/-- A count of 64 bits whose product with the unit has more. -/
def Wraps (p : Part) : Prop := decimal p.count.digits < 2 ^ 64 ∧ 2 ^ 64 ≤ p.seconds

end Part

def written (parts : List Part) : List Char := parts.flatMap Part.text

def secondsOf (parts : List Part) : ℕ := (parts.map Part.seconds).sum

def partOf (letter : Char) (unit : ℕ) (count : Option Count) : List Part :=
  count.toList.map fun count => ⟨count, letter, unit⟩

/-- A duration of days, hours, minutes and seconds, one of them at least. -/
structure IsoDuration where
  days : Option Count
  hours : Option Count
  minutes : Option Count
  seconds : Option Count
  some_part : days.isSome ∨ hours.isSome ∨ minutes.isSome ∨ seconds.isSome

namespace IsoDuration

def date (d : IsoDuration) : List Part := partOf 'D' 86400 d.days

def time (d : IsoDuration) : List Part :=
  partOf 'H' 3600 d.hours ++ partOf 'M' 60 d.minutes ++ partOf 'S' 1 d.seconds

def parts (d : IsoDuration) : List Part := d.date ++ d.time

/-- The `T` stands before the parts of the time, when there are any. -/
def text (d : IsoDuration) : List Char :=
  'P' :: (written d.date ++ if d.time = [] then [] else 'T' :: written d.time)

end IsoDuration

/-- Parts of the one kind, then, with at most a `T` among or behind their digits, parts of the
other; the order and the number of parts of a kind are left open. -/
def Loose (text : List Char) : Prop :=
  ∃ date time : List Part, date ++ time ≠ [] ∧
    (∀ p ∈ date, (p.letter, p.unit) ∈ dayUnits) ∧ (∀ p ∈ time, (p.letter, p.unit) ∈ timeUnits) ∧
    (text = 'P' :: written date ∧ time = [] ∨
      ∃ before after, text = 'P' :: (written date ++ before ++ 'T' :: after) ∧
        before ++ after = written time)

end Durations

section Reading

variable {units : List (Char × ℕ)} {r r' : Reading} {digits chars : List Char} {parts : List Part}

theorem foldlM_digits : ∀ {digits : List Char} {r : Reading}, (∀ c ∈ digits, c.isDigit = true) →
    digits.foldlM (readChar units) r = some { r with digits := r.digits ++ digits }
  | [], r, _ => by simp
  | c :: digits, r, h => by
    obtain ⟨hc, hdigits⟩ := List.forall_mem_cons.1 h
    have hfirst : readChar units r c = some { r with digits := r.digits ++ [c] } := if_pos hc
    rw [List.foldlM_cons, hfirst, Option.bind_eq_bind, Option.bind_some, foldlM_digits hdigits]
    simp

/-- The letters of the units are no digits and stand there once, each with a unit of one second at
least. -/
structure Designators (units : List (Char × ℕ)) : Prop where
  no_digit : ∀ u ∈ units, u.1.isDigit = false
  lookup : ∀ u ∈ units, units.lookup u.1 = some u.2
  pos : ∀ u ∈ units, 0 < u.2

theorem designators_day : Designators dayUnits :=
  ⟨by decide, by decide, by decide⟩

theorem designators_time : Designators timeUnits :=
  ⟨by decide, by decide, by decide⟩

theorem foldlM_text (hunits : Designators units) {p : Part} (hp : (p.letter, p.unit) ∈ units)
    {total : ℕ} {seen : Bool} :
    p.text.foldlM (readChar units) ⟨total, [], seen⟩ =
      if decimal p.count.digits < 2 ^ 64 ∧ total + p.seconds % 2 ^ 64 < 2 ^ 64 then
        some ⟨total + p.seconds % 2 ^ 64, [], true⟩ else none := by
  have hletter : p.letter.isDigit = false := hunits.no_digit _ hp
  have hunit : units.lookup p.letter = some p.unit := hunits.lookup _ hp
  have hne := p.count.ne
  rw [Part.text, List.foldlM_append, foldlM_digits p.count.all_digits, List.nil_append,
    Option.bind_eq_bind, Option.bind_some, List.foldlM_cons, readChar, hletter,
    if_neg Bool.false_ne_true, hunit, parseDigits]
  have hseconds : decimal p.count.digits * p.unit = p.seconds := rfl
  simp only [Option.bind_eq_bind, Option.bind_some]
  by_cases hcount : decimal p.count.digits < 2 ^ 64
  · rw [if_pos ⟨hne, hcount⟩, Option.bind_some, hseconds]
    by_cases hsum : total + p.seconds % 2 ^ 64 < 2 ^ 64
    · rw [if_pos hsum, if_pos ⟨hcount, hsum⟩]
      rfl
    · rw [if_neg hsum, if_neg fun h => hsum h.2]
      rfl
  · rw [if_neg fun h => hcount h.2, if_neg fun h => hcount h.1]
    rfl

/-- Parts whose products fit are read as their sum, or not at all where it does not fit. -/
theorem foldlM_written (hunits : Designators units) :
    ∀ {parts : List Part} {total : ℕ} {seen : Bool}, (∀ p ∈ parts, (p.letter, p.unit) ∈ units) →
      (∀ p ∈ parts, ¬ p.Wraps) → total < 2 ^ 64 →
      (written parts).foldlM (readChar units) ⟨total, [], seen⟩ =
        if total + secondsOf parts < 2 ^ 64 then
          some ⟨total + secondsOf parts, [], seen || !parts.isEmpty⟩ else none
  | [], total, seen, _, _, htotal => by
    have hsum : total + secondsOf [] < 2 ^ 64 := htotal
    rw [if_pos hsum, List.isEmpty_nil, Bool.not_true, Bool.or_false]
    rfl
  | p :: parts, total, seen, hin, hfits, htotal => by
    obtain ⟨hp, hparts⟩ := List.forall_mem_cons.1 hin
    obtain ⟨hpfits, hfits⟩ := List.forall_mem_cons.1 hfits
    have hsum : secondsOf (p :: parts) = p.seconds + secondsOf parts := by simp [secondsOf]
    have hwritten : written (p :: parts) = p.text ++ written parts := List.flatMap_cons
    rw [hwritten, List.foldlM_append, foldlM_text hunits hp, hsum]
    by_cases hcount : decimal p.count.digits < 2 ^ 64
    · have hseconds : p.seconds < 2 ^ 64 := by
        by_contra hover
        exact hpfits ⟨hcount, not_lt.1 hover⟩
      rw [Nat.mod_eq_of_lt hseconds]
      by_cases hnext : total + p.seconds < 2 ^ 64
      · rw [if_pos ⟨hcount, hnext⟩, Option.bind_eq_bind, Option.bind_some,
          foldlM_written hunits hparts hfits hnext]
        simp [Nat.add_assoc]
      · rw [if_neg (fun h => hnext h.2), if_neg (by omega)]
        rfl
    · have hlarge : decimal p.count.digits ≤ p.seconds :=
        Nat.le_mul_of_pos_right _ (hunits.pos _ hp)
      rw [if_neg (fun h => hcount h.1), if_neg (by omega)]
      rfl

/-- What a scan accepts is digits and letters in turn, the last digits left over. -/
theorem exists_parts : ∀ {chars : List Char} {r r' : Reading}, (∀ c ∈ r.digits, c.isDigit = true) →
    chars.foldlM (readChar units) r = some r' →
      ∃ parts : List Part, (∀ p ∈ parts, (p.letter, p.unit) ∈ units) ∧
        r.digits ++ chars = written parts ++ r'.digits ∧ r'.seen = (r.seen || !parts.isEmpty) ∧
        ∀ c ∈ r'.digits, c.isDigit = true
  | [], r, r', hdigits, h => by
    obtain rfl := Option.some.inj h
    exact ⟨[], by simp, by simp [written], by simp, hdigits⟩
  | c :: rest, r, r', hdigits, h => by
    rw [List.foldlM_cons, Option.bind_eq_bind, Option.bind_eq_some_iff] at h
    obtain ⟨next, hnext, hrest⟩ := h
    unfold readChar at hnext
    split_ifs at hnext with hc
    · obtain rfl := Option.some.inj hnext
      have hall : ∀ d ∈ r.digits ++ [c], d.isDigit = true := by
        intro d hd
        rcases List.mem_append.1 hd with hd | hd
        · exact hdigits d hd
        · rwa [List.mem_singleton.1 hd]
      obtain ⟨parts, hparts, htext, hseen, htail⟩ := exists_parts hall hrest
      exact ⟨parts, hparts, by simpa using htext, hseen, htail⟩
    · simp only [Option.bind_eq_bind, Option.bind_eq_some_iff] at hnext
      obtain ⟨unit, hunit, count, hcount, hsum⟩ := hnext
      have hne : r.digits ≠ [] := by
        unfold parseDigits at hcount
        split_ifs at hcount with hboth
        exact hboth.1
      split_ifs at hsum
      obtain rfl := Option.some.inj hsum
      obtain ⟨parts, hparts, htext, hseen, htail⟩ := exists_parts (by simp) hrest
      refine ⟨⟨⟨r.digits, hne, hdigits⟩, c, unit⟩ :: parts, ?_, ?_, by simp [hseen], htail⟩
      · exact List.forall_mem_cons.2 ⟨Assoc.mem_of_lookup hunit, hparts⟩
      · rw [written, List.flatMap_cons, Part.text]
        simpa [written] using htext

end Reading

section Windows

variable {window : String}

theorem isDigit_T : ('T' : Char).isDigit = false := rfl

theorem notMem_T {parts : List Part} (h : ∀ p ∈ parts, (p.letter, p.unit) ∈ dayUnits) :
    'T' ∉ written parts := by
  intro hmem
  obtain ⟨p, hp, hc⟩ := List.mem_flatMap.1 hmem
  rcases List.mem_append.1 hc with hc | hc
  · have hdigit := p.count.all_digits _ hc
    rw [isDigit_T] at hdigit
    cases hdigit
  · obtain ⟨hletter, -⟩ := Prod.mk.inj (List.mem_singleton.1 (h p hp))
    rw [← List.mem_singleton.1 hc] at hletter
    exact absurd hletter (by decide)

namespace IsoDuration

variable (d : IsoDuration)

theorem date_units : ∀ p ∈ d.date, (p.letter, p.unit) ∈ dayUnits := by
  intro p hp
  obtain ⟨count, -, rfl⟩ := List.mem_map.1 hp
  exact List.mem_singleton_self _

theorem time_units : ∀ p ∈ d.time, (p.letter, p.unit) ∈ timeUnits := by
  intro p hp
  simp only [time, partOf, List.mem_append, List.mem_map] at hp
  rcases hp with (⟨count, -, rfl⟩ | ⟨count, -, rfl⟩) | ⟨count, -, rfl⟩ <;> simp [timeUnits]

theorem parts_ne : d.parts ≠ [] := by
  have hsome := d.some_part
  intro h
  simp_all [parts, date, time, partOf]

/-- Reading a duration: its date, then what stands behind the `T`. -/
theorem scan_text (hwindow : window.toList = d.text) :
    scan window = ((written d.date).foldlM (readChar dayUnits) ⟨0, [], false⟩).bind
      ((written d.time).foldlM (readChar timeUnits)) := by
  have hrest : window = "P" ++ String.ofList
      (written d.date ++ if d.time = [] then [] else 'T' :: written d.time) := by
    apply String.toList_inj.1
    simp [hwindow, IsoDuration.text]
  have hprefix := Text.stripPrefix_eq_some.2 (hrest ▸ String.toList_append)
  rw [scan, hprefix, Option.bind_eq_bind, Option.bind_some]
  by_cases htime : d.time = []
  · have hno := notMem_T d.date_units
    rw [if_pos htime, List.append_nil,
      Text.splitOnce_eq_none (by rwa [String.toList_ofList]), htime]
    simp [written]
  · rw [if_neg htime, Text.splitOnce_append (notMem_T d.date_units)]
    simp

end IsoDuration

/-- A duration of which no product of a 64-bit count wraps, or whose length fits 64 bits, is its
length, or refused when that is zero or does not fit. -/
theorem windowSeconds_text (d : IsoDuration) (hwindow : window.toList = d.text)
    (hfits : ∀ p ∈ d.parts, ¬ p.Wraps) :
    windowSeconds window = if 0 < secondsOf d.parts ∧ secondsOf d.parts < 2 ^ 64 then
      .ok (secondsOf d.parts) else .error (badWindow window) := by
  have hsum : secondsOf d.parts = secondsOf d.date + secondsOf d.time := by
    simp [IsoDuration.parts, secondsOf]
  have hfits_date : ∀ p ∈ d.date, ¬ p.Wraps := fun p hp => hfits p (List.mem_append_left _ hp)
  have hfits_time : ∀ p ∈ d.time, ¬ p.Wraps := fun p hp => hfits p (List.mem_append_right _ hp)
  rw [windowSeconds, d.scan_text hwindow,
    foldlM_written designators_day d.date_units hfits_date (by decide), Nat.zero_add]
  by_cases hdate : secondsOf d.date < 2 ^ 64
  · rw [if_pos hdate, Option.bind_some,
      foldlM_written designators_time d.time_units hfits_time hdate, ← hsum]
    by_cases hall : secondsOf d.parts < 2 ^ 64
    · have hseen : ¬ d.date = [] ∨ ¬ d.time = [] := by
        have hne := d.parts_ne
        rwa [IsoDuration.parts, ne_eq, List.append_eq_nil_iff, not_and_or] at hne
      rw [if_pos hall]
      simp only [hseen, hall, and_true, true_and, Bool.false_or, Bool.or_eq_true, Bool.not_eq_true',
        List.isEmpty_eq_false_iff, ne_eq]
    · rw [if_neg hall, if_neg fun h => hall h.2]
  · rw [if_neg hdate, Option.bind_none, if_neg (by omega)]

theorem error_eq {why : String} (h : windowSeconds window = .error why) :
    why = badWindow window := by
  unfold windowSeconds at h
  split at h
  · exact (Except.error.inj h).symm
  · split_ifs at h
    exact (Except.error.inj h).symm

theorem loose_of_windowSeconds {n : ℕ} (h : windowSeconds window = .ok n) :
    Loose window.toList := by
  unfold windowSeconds at h
  split at h
  · cases h
  · rename_i r hscan
    split_ifs at h with hr
    obtain ⟨hseen, hdigits, -⟩ := hr
    simp only [scan, Option.bind_eq_bind, Option.bind_eq_some_iff] at hscan
    obtain ⟨rest, hprefix, middle, hdate, htime⟩ := hscan
    obtain ⟨dates, hdates, hdatetext, hdateseen, hmiddle⟩ := exists_parts (by simp) hdate
    obtain ⟨times, htimes, htimetext, htimeseen, -⟩ := exists_parts hmiddle htime
    have hwindow : window.toList = 'P' :: rest.toList := Text.stripPrefix_eq_some.1 hprefix
    have hsome : dates ++ times ≠ [] := by
      intro hempty
      obtain ⟨rfl, rfl⟩ := List.append_eq_nil_iff.1 hempty
      simp_all
    rw [hdigits, List.append_nil] at htimetext
    refine ⟨dates, times, hsome, hdates, htimes, ?_⟩
    cases hsplit : Text.splitOnce 'T' rest with
    | none =>
      rw [hsplit] at hdatetext htime htimetext
      obtain rfl := Option.some.inj htime
      have hnil : times = [] := by
        have hempty : written times = [] := by
          rw [← htimetext, hdigits]
          rfl
        cases times with
        | nil => rfl
        | cons p times => simp [written, Part.text] at hempty
      refine Or.inl ⟨?_, hnil⟩
      have hrest : rest.toList = written dates ++ middle.digits := hdatetext
      rw [hwindow, hrest, hdigits, List.append_nil]
    | some split =>
      obtain ⟨before, after⟩ := split
      rw [hsplit] at hdatetext htimetext
      refine Or.inr ⟨middle.digits, after.toList, ?_, htimetext⟩
      have hbefore : before.toList = written dates ++ middle.digits := hdatetext
      rw [hwindow, Text.splitOnce_eq_some hsplit, hbefore]

/-- Every duration is read exactly, where its seconds are neither none nor past 64 bits; it is
refused where they are, unless a product past 64 bits is what takes them there. Nothing is read from
a text of another form. -/
theorem windowSeconds_exact (window : String) :
    (∀ d : IsoDuration, window.toList = d.text →
      (secondsOf d.parts < 2 ^ 64 ∨ ∀ p ∈ d.parts, ¬ p.Wraps) →
        windowSeconds window = if 0 < secondsOf d.parts ∧ secondsOf d.parts < 2 ^ 64 then
          .ok (secondsOf d.parts) else .error (badWindow window)) ∧
      (¬ Loose window.toList → windowSeconds window = .error (badWindow window)) := by
  refine ⟨fun d hwindow hfits => windowSeconds_text d hwindow ?_, fun hform => ?_⟩
  · rcases hfits with hsum | hfits
    · intro p hp hwraps
      have hle : p.seconds ≤ secondsOf d.parts := by
        obtain ⟨before, after, hsplit⟩ := List.append_of_mem hp
        rw [secondsOf, hsplit, List.map_append, List.map_cons, List.sum_append, List.sum_cons]
        omega
      exact absurd (hwraps.2.trans hle) (by omega)
    · exact hfits
  · cases h : windowSeconds window with
    | ok n => exact absurd (loose_of_windowSeconds h) hform
    | error why => rw [error_eq h]

/-- The duration of no seconds is a duration, and refused. -/
theorem windowSeconds_zero_refused : ¬ ∀ (window : String) (n : ℕ), windowSeconds window = .ok n ↔
    ∃ d : IsoDuration, window.toList = d.text ∧ secondsOf d.parts = n := by
  intro h
  have hzero : windowSeconds "PT0S" = .ok 0 :=
    (h "PT0S" 0).2 ⟨⟨none, none, none, some ⟨['0'], by decide, by simp⟩, by decide⟩, by decide,
      by decide⟩
  exact absurd hzero (by decide +kernel)

end Windows

end JoinedContext.Jcctl.Windows

import Mathlib.Tactic.Common
import Mathlib.Tactic.SplitIfs

/-!
# The Gregorian calendar

The dates of the days from 1 January 1970 on, one day after another. Every day of a month comes
(`exists_longest`), and the days of 1971 fall one weekday later than those of 1970.
-/

namespace JoinedContext.Calendar

/-- A date; weekday 0 is Sunday. -/
structure Date where
  year : ℕ
  month : ℕ
  day : ℕ
  weekday : ℕ
deriving DecidableEq

def leap (year : ℕ) : Bool := year % 4 = 0 && (year % 100 ≠ 0 || year % 400 = 0)

def daysIn (leap : Bool) (month : ℕ) : ℕ :=
  match month with
  | 2 => if leap then 29 else 28
  | 4 | 6 | 9 | 11 => 30
  | _ => 31

/-- The most days a month has in any year. -/
def longest (month : ℕ) : ℕ := daysIn true month

def Date.next (d : Date) : Date :=
  let weekday := (d.weekday + 1) % 7
  if d.day < daysIn (leap d.year) d.month then ⟨d.year, d.month, d.day + 1, weekday⟩
  else if d.month < 12 then ⟨d.year, d.month + 1, 1, weekday⟩
  else ⟨d.year + 1, 1, 1, weekday⟩

/-- The date of a day, counted from 1 January 1970, a Thursday. -/
def date : ℕ → Date
  | 0 => ⟨1970, 1, 1, 4⟩
  | n + 1 => (date n).next

section Dates

variable {n year month day w : ℕ}

structure Date.Valid (d : Date) : Prop where
  month_pos : 0 < d.month
  month_le : d.month ≤ 12
  day_pos : 0 < d.day
  day_le : d.day ≤ daysIn (leap d.year) d.month
  weekday_lt : d.weekday < 7

theorem daysIn_pos (leap : Bool) (month : ℕ) : 28 ≤ daysIn leap month := by
  unfold daysIn
  split <;> (try split_ifs) <;> omega

theorem daysIn_le_longest (leap : Bool) (month : ℕ) : daysIn leap month ≤ longest month := by
  unfold longest daysIn
  cases leap <;> split <;> simp

theorem longest_le (month : ℕ) : longest month ≤ 31 := by
  unfold longest daysIn
  split <;> simp

theorem Date.Valid.next {d : Date} (h : d.Valid) : d.next.Valid := by
  have hm := h.month_pos
  have hdays := fun month => daysIn_pos (leap d.year) month
  have hdays' := daysIn_pos (leap (d.year + 1)) 1
  have hw : (d.weekday + 1) % 7 < 7 := Nat.mod_lt _ (by omega)
  unfold Date.next
  dsimp only
  split_ifs with hday hmonth
  · exact ⟨hm, h.month_le, by simp, by simp; omega, hw⟩
  · exact ⟨by simp, by simp; omega, by simp, by have := hdays (d.month + 1); simp; omega, hw⟩
  · exact ⟨by simp, by simp, by simp, by simp; omega, hw⟩

theorem valid_date (n : ℕ) : (date n).Valid := by
  induction n with
  | zero => exact ⟨by decide, by decide, by decide, by decide, by decide⟩
  | succ n ih => exact ih.next

/-- The days of a month follow its first. -/
theorem date_day (h : date n = ⟨year, month, 1, w⟩) (hw : w < 7) :
    ∀ {k : ℕ}, k < daysIn (leap year) month → date (n + k) = ⟨year, month, 1 + k, (w + k) % 7⟩
  | 0, _ => by
    rw [Nat.add_zero, h, Nat.add_zero, Nat.add_zero, Nat.mod_eq_of_lt hw]
  | k + 1, hk => by
    rw [← Nat.add_assoc, date, date_day h hw (by omega), Date.next]
    dsimp only
    rw [if_pos (by omega), Nat.mod_add_mod]
    rfl

/-- A month follows the one before it. -/
theorem date_nextMonth (h : date n = ⟨year, month, 1, w⟩) (hw : w < 7) (hmonth : month < 12) :
    date (n + daysIn (leap year) month) =
      ⟨year, month + 1, 1, (w + daysIn (leap year) month) % 7⟩ := by
  have hdays := daysIn_pos (leap year) month
  obtain ⟨k, hk⟩ : ∃ k, daysIn (leap year) month = k + 1 :=
    ⟨_, (Nat.sub_add_cancel (by omega)).symm⟩
  rw [hk, ← Nat.add_assoc, date, date_day h hw (by omega), Date.next]
  dsimp only
  rw [if_neg (by omega), if_pos hmonth, Nat.mod_add_mod]
  rfl

/-- The days of a year before a month, which has a month before it. -/
def before (leap : Bool) : ℕ → ℕ
  | 0 => 0
  | month + 1 => before leap month + daysIn leap (month + 1)

theorem date_month (h : date n = ⟨year, 1, 1, w⟩) (hw : w < 7) : ∀ {month : ℕ}, month < 12 →
    date (n + before (leap year) month) =
      ⟨year, month + 1, 1, (w + before (leap year) month) % 7⟩
  | 0, _ => by
    rw [before, Nat.add_zero, h, Nat.add_zero, Nat.add_zero, Nat.mod_eq_of_lt hw]
  | month + 1, hmonth => by
    have := date_nextMonth (date_month h hw (Nat.lt_of_succ_lt hmonth))
      (Nat.mod_lt _ (by omega)) (by omega)
    rwa [Nat.mod_add_mod, Nat.add_assoc n, Nat.add_assoc w] at this

theorem date_of_year (h : date n = ⟨year, 1, 1, w⟩) (hw : w < 7) (hpos : 0 < month)
    (hmonth : month ≤ 12) {k : ℕ} (hk : k < daysIn (leap year) month) :
    date (n + before (leap year) (month - 1) + k) =
      ⟨year, month, 1 + k, (w + before (leap year) (month - 1) + k) % 7⟩ := by
  have := date_month h hw (show month - 1 < 12 by omega)
  rw [Nat.sub_add_cancel hpos] at this
  rw [date_day this (Nat.mod_lt _ (by omega)) hk, Nat.mod_add_mod]

/-- A year follows the one before it. -/
theorem date_nextYear (h : date n = ⟨year, 1, 1, w⟩) (hw : w < 7) :
    date (n + before (leap year) 12) = ⟨year + 1, 1, 1, (w + before (leap year) 12) % 7⟩ := by
  have hlast := date_of_year h hw (show 0 < 12 by omega) (by omega) (k := 30)
    (show 30 < 31 by omega)
  have hsum : n + before (leap year) 12 = n + before (leap year) (12 - 1) + 30 + 1 := rfl
  rw [hsum, date, hlast, Date.next]
  dsimp only
  rw [if_neg (by simp [daysIn]), if_neg (by omega), Nat.mod_add_mod]
  rfl

theorem date_1971 : date 365 = ⟨1971, 1, 1, 5⟩ := by
  have h := date_nextYear (n := 0) rfl (show 4 < 7 by omega)
  rwa [show before (leap 1970) 12 = 365 by decide, Nat.zero_add] at h

theorem date_1972 : date 730 = ⟨1972, 1, 1, 6⟩ := by
  have h := date_nextYear date_1971 (by omega)
  rwa [show before (leap 1971) 12 = 365 by decide] at h

/-- Every day a month ever has comes. -/
theorem exists_longest (hpos : 0 < month) (hmonth : month ≤ 12) (hday : 0 < day)
    (h : day ≤ longest month) : ∃ n, (date n).month = month ∧ (date n).day = day := by
  have hdate := date_of_year date_1972 (by omega) hpos hmonth (k := day - 1)
    (show day - 1 < longest month by omega)
  refine ⟨_, by rw [hdate], ?_⟩
  rw [hdate]
  exact Nat.add_sub_cancel' hday

/-- A month has two days one after the other. -/
theorem exists_next (hpos : 0 < month) (hmonth : month ≤ 12) :
    ∃ n, (date n).month = month ∧ (date (n + 1)).month = month := by
  have hdays := daysIn_pos (leap 1970) month
  have hfirst := date_of_year (n := 0) rfl (by omega) hpos hmonth (k := 0) (by omega)
  have hsecond := date_of_year (n := 0) rfl (by omega) hpos hmonth (k := 1) (by omega)
  exact ⟨_, by rw [hfirst], by rw [hsecond]⟩

/-- The same day of a month falls on one weekday in 1970 and on the next in 1971. -/
theorem exists_weekdays (hpos : 0 < month) (hmonth : month ≤ 12) : ∃ w, ∀ k < 7, ∃ n n',
    date n = ⟨1970, month, 1 + k, (w + k) % 7⟩ ∧
      date n' = ⟨1971, month, 1 + k, (w + k + 1) % 7⟩ := by
  refine ⟨4 + before false (month - 1), fun k hk => ?_⟩
  have hk' : ∀ leap, k < daysIn leap month := fun leap => by
    have := daysIn_pos leap month
    omega
  have hnext := date_of_year date_1971 (by omega) hpos hmonth (hk' _)
  have hsum : 5 + before (leap 1971) (month - 1) + k = 4 + before false (month - 1) + k + 1 := by
    have : leap 1971 = false := by decide
    rw [this]
    omega
  rw [hsum] at hnext
  exact ⟨_, _, date_of_year (n := 0) rfl (by omega) hpos hmonth (hk' _), hnext⟩

end Dates

end JoinedContext.Calendar

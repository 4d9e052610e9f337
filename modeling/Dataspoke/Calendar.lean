import Mathlib.Order.Basic
import Mathlib.Tactic.IntervalCases

/-!
# The proleptic Gregorian calendar

Days are counted from 1970-01-01. The year, the month and the date of a day are those of the
`Date` of the source language; their lexicographic order is the order of the days.
-/

namespace Dataspoke
namespace Calendar

def dayFromYear (y : ℤ) : ℤ := 365*(y-1970) + (y-1969)/4 - (y-1901)/100 + (y-1601)/400

def leap (y : ℤ) : ℤ := if y%4 = 0 ∧ (y%100 ≠ 0 ∨ y%400 = 0) then 1 else 0

/-- A year has 146097/400 days on the average, so the estimate is off by at most one. -/
def yearFromDay (d : ℤ) : ℤ :=
  let y := 1970 + 400*d/146097
  if d < dayFromYear y then y-1
  else if dayFromYear (y+1) ≤ d then y+1
  else y

def monthStart (l : ℤ) : ℕ → ℤ
  | 0 => 0
  | 1 => 31
  | 2 => 59+l
  | 3 => 90+l
  | 4 => 120+l
  | 5 => 151+l
  | 6 => 181+l
  | 7 => 212+l
  | 8 => 243+l
  | 9 => 273+l
  | 10 => 304+l
  | 11 => 334+l
  | _ => 365+l

def dayWithinYear (d : ℤ) : ℤ := d - dayFromYear (yearFromDay d)

/-- The month of a day within a year, January is 0. -/
def monthWithin (l n : ℤ) : ℕ :=
  if n < 31 then 0
  else if n < 59+l then 1
  else if n < 90+l then 2
  else if n < 120+l then 3
  else if n < 151+l then 4
  else if n < 181+l then 5
  else if n < 212+l then 6
  else if n < 243+l then 7
  else if n < 273+l then 8
  else if n < 304+l then 9
  else if n < 334+l then 10
  else 11

def monthFromDay (d : ℤ) : ℕ := monthWithin (leap (yearFromDay d)) (dayWithinYear d)

def dateFromDay (d : ℤ) : ℤ :=
  dayWithinYear d - monthStart (leap (yearFromDay d)) (monthFromDay d) + 1

/-- The weekday of a day, Sunday is 0; day 0 was a Thursday. -/
def weekDay (d : ℤ) : ℤ := (d+4)%7

/-- The day of a date whose month is in range; its date may be out of the month. -/
def makeDay (y : ℤ) (m : ℕ) (date : ℤ) : ℤ := dayFromYear y + monthStart (leap y) m + (date-1)

theorem dayFromYear_succ (y : ℤ) : dayFromYear (y+1) = dayFromYear y + 365 + leap y := by
  unfold dayFromYear leap
  split <;> omega

theorem leap_mem (y : ℤ) : leap y = 0 ∨ leap y = 1 := by
  unfold leap
  split
  · exact Or.inr rfl
  · exact Or.inl rfl

theorem yearFromDay_spec (d : ℤ) :
    dayFromYear (yearFromDay d) ≤ d ∧ d < dayFromYear (yearFromDay d + 1) := by
  unfold yearFromDay
  generalize hy : 1970 + 400*d/146097 = y
  dsimp only
  have hlow : dayFromYear (y-1) ≤ d := by
    unfold dayFromYear
    omega
  have hhigh : d < dayFromYear (y+1+1) := by
    unfold dayFromYear
    omega
  split
  · rw [sub_add_cancel]
    exact ⟨hlow,‹_›⟩
  split
  · exact ⟨‹_›,hhigh⟩
  · exact ⟨by omega,by omega⟩

theorem dayFromYear_le {y y' : ℤ} (h : y ≤ y') : dayFromYear y ≤ dayFromYear y' := by
  unfold dayFromYear
  omega

theorem yearFromDay_mono {d d' : ℤ} (h : d ≤ d') : yearFromDay d ≤ yearFromDay d' := by
  by_contra hlt
  have := dayFromYear_le (show yearFromDay d' + 1 ≤ yearFromDay d by omega)
  have hd := (yearFromDay_spec d).1
  have hd' := (yearFromDay_spec d').2
  omega

theorem dayWithinYear_range (d : ℤ) :
    0 ≤ dayWithinYear d ∧ dayWithinYear d < 365 + leap (yearFromDay d) := by
  have h := yearFromDay_spec d
  rw [dayFromYear_succ] at h
  unfold dayWithinYear
  omega

theorem monthStart_lt {l : ℤ} (hl : l = 0 ∨ l = 1) {m : ℕ} (hm : m ≤ 11) :
    monthStart l m < monthStart l (m+1) := by
  interval_cases m <;> simp only [monthStart] <;> omega

theorem monthStart_le {l : ℤ} (hl : l = 0 ∨ l = 1) {m m' : ℕ} (h : m ≤ m') (hm : m' ≤ 12) :
    monthStart l m ≤ monthStart l m' := by
  induction m', h using Nat.le_induction with
  | base => exact le_rfl
  | succ m' _ ih => exact (ih (by omega)).trans (monthStart_lt hl (by omega)).le

theorem monthWithin_spec {l n : ℤ} (hn : 0 ≤ n ∧ n < 365+l) :
    monthWithin l n ≤ 11 ∧ monthStart l (monthWithin l n) ≤ n ∧
      n < monthStart l (monthWithin l n + 1) := by
  fun_cases monthWithin l n <;> exact ⟨by decide,by simp only [monthStart]; omega,
    by simp only [monthStart]; omega⟩

theorem monthFromDay_spec (d : ℤ) : monthFromDay d ≤ 11 ∧
    monthStart (leap (yearFromDay d)) (monthFromDay d) ≤ dayWithinYear d ∧
      dayWithinYear d < monthStart (leap (yearFromDay d)) (monthFromDay d + 1) :=
  monthWithin_spec (dayWithinYear_range d)

theorem monthStart_succ_le {l : ℤ} (hl : l = 0 ∨ l = 1) {m : ℕ} (hm : m ≤ 11) :
    monthStart l (m+1) ≤ monthStart l m + 31 := by
  interval_cases m <;> simp only [monthStart] <;> omega

theorem dateFromDay_range (d : ℤ) : 1 ≤ dateFromDay d ∧ dateFromDay d ≤ 31 := by
  obtain ⟨hle,hstart,hend⟩ := monthFromDay_spec d
  have hlength := monthStart_succ_le (leap_mem (yearFromDay d)) hle
  unfold dateFromDay
  omega

/-- The fields of a day give the day again, and a date set back gives the day as many days
before. -/
theorem makeDay_fields (d k : ℤ) :
    makeDay (yearFromDay d) (monthFromDay d) (dateFromDay d - k) = d - k := by
  unfold makeDay dateFromDay dayWithinYear
  omega

theorem fields_lt {d d' : ℤ} (h : d < d') : yearFromDay d < yearFromDay d' ∨
    yearFromDay d = yearFromDay d' ∧ (monthFromDay d < monthFromDay d' ∨
      monthFromDay d = monthFromDay d' ∧ dateFromDay d < dateFromDay d') := by
  have hyear := yearFromDay_mono h.le
  by_cases hy : yearFromDay d < yearFromDay d'
  · exact Or.inl hy
  have hy : yearFromDay d = yearFromDay d' := by omega
  refine Or.inr ⟨hy,?_⟩
  have hwithin : dayWithinYear d < dayWithinYear d' := by
    unfold dayWithinYear
    rw [hy]
    omega
  obtain ⟨hle,hstart,hend⟩ := monthFromDay_spec d
  obtain ⟨hle',hstart',hend'⟩ := monthFromDay_spec d'
  rw [← hy] at hstart' hend'
  rcases lt_trichotomy (monthFromDay d) (monthFromDay d') with hm | hm | hm
  · exact Or.inl hm
  · refine Or.inr ⟨hm,?_⟩
    unfold dateFromDay
    rw [← hy,← hm]
    omega
  · have hmonth : monthStart (leap (yearFromDay d)) (monthFromDay d' + 1) ≤
        monthStart (leap (yearFromDay d)) (monthFromDay d) :=
      monthStart_le (leap_mem (yearFromDay d)) hm (by omega)
    omega

end Calendar
end Dataspoke

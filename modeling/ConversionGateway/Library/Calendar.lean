import Mathlib.Data.List.Basic

/-! # The Gregorian calendar

The civil date of a day counted from 1970-01-01, computed on years that begin
in March so that the leap day comes last.
-/
namespace Calendar

structure Date where
  year : ℕ
  month : ℕ
  day : ℕ
deriving DecidableEq

/-- Days from 0000-03-01 to 1970-01-01. -/
def epoch : ℕ := 719468

/-- Day of the year counted from March, and the year. -/
def marchYear (z : ℕ) : ℕ × ℕ :=
  let r := z % 146097
  let century := min (r / 36524) 3
  let r := r - century * 36524
  let olympiad := min (r / 1461) 24
  let r := r - olympiad * 1461
  let year := min (r / 365) 3
  (r - year * 365,400 * (z / 146097) + 100 * century + 4 * olympiad + year)

/-- The month of a day of such a year, March being 0, and the day of the month. -/
def monthDay (dayOfYear : ℕ) : ℕ × ℕ :=
  let m := (5 * dayOfYear + 2) / 153
  (m,dayOfYear - (153 * m + 2) / 5 + 1)

def civil (days : ℕ) : Date :=
  let (dayOfYear,year) := marchYear (days + epoch)
  let (m,d) := monthDay dayOfYear
  if m < 10 then ⟨year,m + 3,d⟩ else ⟨year + 1,m - 9,d⟩

theorem marchYear_day_le (z : ℕ) : (marchYear z).1 ≤ 365 := by
  simp only [marchYear]
  have h := Nat.mod_lt z (show 0 < 146097 by decide)
  omega

theorem monthDay_range {n : ℕ} (h : n ≤ 365) :
    (monthDay n).1 ≤ 11 ∧ 1 ≤ (monthDay n).2 ∧ (monthDay n).2 ≤ 31 := by
  simp only [monthDay]
  omega

theorem civil_month (days : ℕ) : 1 ≤ (civil days).month ∧ (civil days).month ≤ 12 := by
  have h := (monthDay_range (marchYear_day_le (days + epoch))).1
  simp only [civil]
  split <;> simp only <;> omega

theorem civil_day (days : ℕ) : 1 ≤ (civil days).day ∧ (civil days).day ≤ 31 := by
  have h := (monthDay_range (marchYear_day_le (days + epoch))).2
  simp only [civil]
  split <;> exact h

/-- Up to the last day of the year 9999 no year beyond it is begun. -/
theorem marchYear_year {z : ℕ} (h₁ : epoch ≤ z) (h₂ : z ≤ 3652364) :
    1 ≤ (marchYear z).2 ∧ (marchYear z).2 ≤ 9999 ∧ ((marchYear z).2 = 9999 → (marchYear z).1 ≤ 305) := by
  simp only [marchYear, epoch] at *
  omega

theorem civil_year {days : ℕ} (h : days ≤ 2932896) :
    1 ≤ (civil days).year ∧ (civil days).year ≤ 9999 := by
  have hz : days + epoch ≤ 3652364 := by
    unfold epoch
    omega
  obtain ⟨hlo,hhi,hlast⟩ := marchYear_year (Nat.le_add_left epoch days) hz
  simp only [civil]
  split
  · exact ⟨hlo,hhi⟩
  · next hm =>
    have hd : 306 ≤ (marchYear (days + epoch)).1 := by
      simp only [monthDay] at hm
      omega
    simp only
    omega

example : civil 0 = ⟨1970,1,1⟩ := by decide
example : civil 2932896 = ⟨9999,12,31⟩ := by decide

end Calendar

import Mathlib.Data.Nat.Notation
import Mathlib.Order.Basic

/-!
# The proleptic Gregorian calendar

Dates and their ordinals, by the formulas of Python's `datetime`: the first of January of year 1
has ordinal 1. Ordinals keep the order of dates, and every ordinal up to the last day of year
9999 is that of a date.
-/
namespace Library

namespace Calendar

/-- `_is_leap`. -/
def isLeap (year : ℕ) : Bool := year % 4 = 0 ∧ (year % 100 ≠ 0 ∨ year % 400 = 0)

/-- `_days_before_year`: the number of days before the first of January. -/
def daysBeforeYear (year : ℕ) : ℕ :=
  let y := year - 1
  y * 365 + y / 4 - y / 100 + y / 400

/-- `_days_in_month`. -/
def daysInMonth (leap : Bool) : ℕ → ℕ
  | 2 => if leap then 29 else 28
  | 4 | 6 | 9 | 11 => 30
  | _ => 31

/-- `_days_before_month`: the number of days of the year before the month. -/
def daysBeforeMonth (leap : Bool) : ℕ → ℕ
  | 0 | 1 => 0
  | month + 1 => daysBeforeMonth leap month + daysInMonth leap month

/-- A day of the years 1 to 9999. -/
structure Date where
  year : ℕ
  month : ℕ
  day : ℕ
  year_pos : 1 ≤ year
  year_le : year ≤ 9999
  month_pos : 1 ≤ month
  month_le : month ≤ 12
  day_pos : 1 ≤ day
  day_le : day ≤ daysInMonth (isLeap year) month

/-- `_ymd2ord`. -/
def Date.toOrdinal (d : Date) : ℕ :=
  daysBeforeYear d.year + daysBeforeMonth (isLeap d.year) d.month + d.day

def daysInYear (year : ℕ) : ℕ := if isLeap year then 366 else 365

theorem daysBeforeYear_succ {year : ℕ} (h : 1 ≤ year) :
    daysBeforeYear (year + 1) = daysBeforeYear year + daysInYear year := by
  obtain ⟨y, rfl⟩ : ∃ y, year = y + 1 := ⟨year - 1, by omega⟩
  have h4 : (y + 1) / 4 = y / 4 + if (y + 1) % 4 = 0 then 1 else 0 := by split <;> omega
  have h100 : (y + 1) / 100 = y / 100 + if (y + 1) % 100 = 0 then 1 else 0 := by split <;> omega
  have h400 : (y + 1) / 400 = y / 400 + if (y + 1) % 400 = 0 then 1 else 0 := by split <;> omega
  have hle : y / 100 ≤ y / 4 := by omega
  have hdvd : (y + 1) % 100 = 0 → (y + 1) % 4 = 0 := by omega
  have hdvd' : (y + 1) % 400 = 0 → (y + 1) % 100 = 0 := by omega
  simp only [daysBeforeYear, daysInYear, isLeap, decide_eq_true_eq, Nat.add_sub_cancel, h4, h100, h400]
  generalize y / 4 = a at *
  generalize y / 100 = b at *
  by_cases hd4 : (y + 1) % 4 = 0
  · by_cases hd100 : (y + 1) % 100 = 0
    · by_cases hd400 : (y + 1) % 400 = 0 <;> simp only [hd4, hd100, hd400] <;> simp <;> omega
    · have hd400 : ¬ (y + 1) % 400 = 0 := fun h => hd100 (hdvd' h)
      simp [hd4, hd100, hd400]
      omega
  · have hd100 : ¬ (y + 1) % 100 = 0 := fun h => hd4 (hdvd h)
    have hd400 : ¬ (y + 1) % 400 = 0 := fun h => hd100 (hdvd' h)
    simp [hd4, hd100, hd400]
    omega

theorem daysBeforeYear_mono {y y' : ℕ} (hy : 1 ≤ y) (h : y < y') :
    daysBeforeYear y + daysInYear y ≤ daysBeforeYear y' := by
  obtain ⟨k, rfl⟩ := Nat.exists_eq_add_of_lt h
  induction k with
  | zero => exact Nat.le_of_eq (daysBeforeYear_succ hy).symm
  | succ k ih =>
    have hnext := @daysBeforeYear_succ (y + k + 1) (by omega)
    have hle := ih (by omega)
    rw [show y + (k + 1) + 1 = y + k + 1 + 1 by omega, hnext]
    omega

/-- The months of a year fill it. -/
theorem daysBeforeMonth_le (leap : Bool) :
    ∀ m ≤ 12, 1 ≤ m → daysBeforeMonth leap m + daysInMonth leap m ≤ if leap then 366 else 365 := by
  cases leap <;> decide

theorem daysBeforeMonth_mono (leap : Bool) :
    ∀ m' ≤ 12, ∀ m < m', 1 ≤ m →
      daysBeforeMonth leap m + daysInMonth leap m ≤ daysBeforeMonth leap m' := by
  cases leap <;> decide

/-- The order of year, month and day. -/
def Date.Before (d d' : Date) : Prop :=
  d.year < d'.year ∨ d.year = d'.year ∧ (d.month < d'.month ∨ d.month = d'.month ∧ d.day < d'.day)

theorem Date.toOrdinal_lt {d d' : Date} (h : d.Before d') : d.toOrdinal < d'.toOrdinal := by
  have hday := d.day_le
  have hday' := d'.day_pos
  simp only [Date.toOrdinal]
  rcases h with hyear | ⟨hyear, hmonth | ⟨hmonth, hlt⟩⟩
  · have hmonths := daysBeforeMonth_le (isLeap d.year) d.month d.month_le d.month_pos
    have hyears := daysBeforeYear_mono d.year_pos hyear
    rw [daysInYear] at hyears
    omega
  · rw [hyear] at hday ⊢
    have hmonths := daysBeforeMonth_mono (isLeap d'.year) d'.month d'.month_le d.month hmonth
      d.month_pos
    omega
  · rw [hyear, hmonth]
    omega

/-! ## From ordinals back to dates -/

/-- The year that day `n` falls in, counted from 0, and the days of it that are over. -/
def yearOf (n : ℕ) : ℕ × ℕ :=
  let n400 := n / 146097
  let n100 := n % 146097 / 36524
  let n4 := n % 146097 % 36524 / 1461
  let n1 := n % 146097 % 36524 % 1461 / 365
  let year := n400 * 400 + 1 + n100 * 100 + n4 * 4 + n1
  if n1 = 4 ∨ n100 = 4 then (year - 1, 365) else (year, n % 146097 % 36524 % 1461 % 365)

/-- The month in which `n` days of the year are over, and the day of the month. -/
def monthOf (leap : Bool) (n : ℕ) : ℕ × ℕ :=
  let month := (n + 50) / 32
  if n < daysBeforeMonth leap month then (month - 1, n - daysBeforeMonth leap (month - 1) + 1)
  else (month, n - daysBeforeMonth leap month + 1)

/-- The ordinal of the last day of year 9999. -/
def maxOrdinal : ℕ := 3652059

section Cycle

variable {a b c d : ℕ}

theorem daysBeforeYear_cycle (hb : b ≤ 3) (hc : c ≤ 24) (hd : d ≤ 3) :
    daysBeforeYear (400 * a + 100 * b + 4 * c + d + 1) =
      146097 * a + 36524 * b + 1461 * c + 365 * d := by
  have h4 : (400 * a + 100 * b + 4 * c + d) / 4 = 100 * a + 25 * b + c := by omega
  have h100 : (400 * a + 100 * b + 4 * c + d) / 100 = 4 * a + b := by omega
  have h400 : (400 * a + 100 * b + 4 * c + d) / 400 = a := by omega
  rw [daysBeforeYear, Nat.add_sub_cancel, h4, h100, h400]
  omega

theorem isLeap_cycle (hb : b ≤ 3) (hc : c ≤ 24) (hd : d ≤ 3) :
    isLeap (400 * a + 100 * b + 4 * c + d + 1) = true ↔ d = 3 ∧ (c ≠ 24 ∨ b = 3) := by
  simp only [isLeap, decide_eq_true_eq]
  constructor
  · intro h
    omega
  · intro h
    omega

end Cycle

/-- The year of a day, by cycles of 400, 100, 4 and 1 years. The last day of a leap year is over
the end of its cycle. -/
theorem yearOf_spec (n : ℕ) :
    1 ≤ (yearOf n).1 ∧ daysBeforeYear (yearOf n).1 + (yearOf n).2 = n ∧
      (yearOf n).2 < daysInYear (yearOf n).1 := by
  unfold yearOf
  obtain ⟨a, ha⟩ : ∃ a, n / 146097 = a := ⟨_, rfl⟩
  obtain ⟨b, hb⟩ : ∃ b, n % 146097 / 36524 = b := ⟨_, rfl⟩
  obtain ⟨c, hc⟩ : ∃ c, n % 146097 % 36524 / 1461 = c := ⟨_, rfl⟩
  obtain ⟨d, hd⟩ : ∃ d, n % 146097 % 36524 % 1461 / 365 = d := ⟨_, rfl⟩
  obtain ⟨r, hr⟩ : ∃ r, n % 146097 % 36524 % 1461 % 365 = r := ⟨_, rfl⟩
  have hn : n = 146097 * a + 36524 * b + 1461 * c + 365 * d + r := by omega
  have hc' : c ≤ 24 := by omega
  have hr' : r < 365 := by omega
  simp only [ha, hb, hc, hd, hr]
  by_cases hlast : d = 4 ∨ b = 4
  · rw [if_pos hlast]
    -- the cycle that ends with this day
    obtain ⟨b', c', hb', hc', hleap, hyear, hday⟩ : ∃ b' c', b' ≤ 3 ∧ c' ≤ 24 ∧
        (c' ≠ 24 ∨ b' = 3) ∧ a * 400 + 1 + b * 100 + c * 4 + d - 1 =
          400 * a + 100 * b' + 4 * c' + 3 + 1 ∧
        146097 * a + 36524 * b' + 1461 * c' + 365 * 3 + 365 = n := by
      by_cases hb4 : b = 4
      · exact ⟨3, 24, by omega⟩
      · exact ⟨b, c, by omega⟩
    have hcycle := @isLeap_cycle a b' c' 3 hb' hc' (Nat.le_refl 3)
    simp only [hyear]
    rw [daysBeforeYear_cycle hb' hc' (Nat.le_refl 3), daysInYear, hcycle.mpr ⟨rfl, hleap⟩]
    exact ⟨by omega, hday, by decide⟩
  · rw [if_neg hlast]
    have hb' : b ≤ 3 := by omega
    have hd' : d ≤ 3 := by omega
    have hyear : a * 400 + 1 + b * 100 + c * 4 + d = 400 * a + 100 * b + 4 * c + d + 1 := by omega
    simp only [hyear]
    rw [daysBeforeYear_cycle hb' hc' hd', daysInYear]
    refine ⟨by omega, hn.symm, ?_⟩
    split <;> omega

theorem monthOf_spec (leap : Bool) : ∀ n < if leap then 366 else 365,
    1 ≤ (monthOf leap n).1 ∧ (monthOf leap n).1 ≤ 12 ∧ 1 ≤ (monthOf leap n).2 ∧
      (monthOf leap n).2 ≤ daysInMonth leap (monthOf leap n).1 ∧
      daysBeforeMonth leap (monthOf leap n).1 + (monthOf leap n).2 = n + 1 := by
  cases leap <;> decide +kernel

/-- `_ord2ymd`. -/
def Date.ofOrdinal (n : ℕ) (hpos : 1 ≤ n) (hle : n ≤ maxOrdinal) : Date where
  year := (yearOf (n - 1)).1
  month := (monthOf (isLeap (yearOf (n - 1)).1) (yearOf (n - 1)).2).1
  day := (monthOf (isLeap (yearOf (n - 1)).1) (yearOf (n - 1)).2).2
  year_pos := (yearOf_spec _).1
  year_le := by
    have hspec := (yearOf_spec (n - 1)).2.1
    have hend : daysBeforeYear 10000 = maxOrdinal := by decide
    by_contra hyear
    have hmono : daysBeforeYear 10000 ≤ daysBeforeYear (yearOf (n - 1)).1 := by
      rcases Nat.lt_or_eq_of_le (Nat.lt_of_not_le hyear) with hlt | heq
      · exact Nat.le_trans (Nat.le_add_right _ _) (daysBeforeYear_mono (by decide) hlt)
      · exact Nat.le_of_eq (congrArg daysBeforeYear heq)
    omega
  month_pos := (monthOf_spec _ _ (yearOf_spec _).2.2).1
  month_le := (monthOf_spec _ _ (yearOf_spec _).2.2).2.1
  day_pos := (monthOf_spec _ _ (yearOf_spec _).2.2).2.2.1
  day_le := (monthOf_spec _ _ (yearOf_spec _).2.2).2.2.2.1

/-- **Every ordinal in range is that of its date.** -/
@[simp] theorem Date.toOrdinal_ofOrdinal {n : ℕ} (hpos : 1 ≤ n) (hle : n ≤ maxOrdinal) :
    (Date.ofOrdinal n hpos hle).toOrdinal = n := by
  have hyear := (yearOf_spec (n - 1)).2.1
  have hmonth := (monthOf_spec _ _ (yearOf_spec (n - 1)).2.2).2.2.2.2
  simp only [Date.toOrdinal, Date.ofOrdinal]
  omega

theorem Date.toOrdinal_pos (d : Date) : 1 ≤ d.toOrdinal := by
  have hday := d.day_pos
  simp only [Date.toOrdinal]
  omega

theorem Date.toOrdinal_le (d : Date) : d.toOrdinal ≤ maxOrdinal := by
  have hmonths := daysBeforeMonth_le (isLeap d.year) d.month d.month_le d.month_pos
  have hday := d.day_le
  have hend : daysBeforeYear 10000 = maxOrdinal := by decide
  have hyears := @daysBeforeYear_mono d.year 10000 d.year_pos (Nat.lt_succ_of_le d.year_le)
  simp only [Date.toOrdinal]
  rw [daysInYear] at hyears
  omega

end Calendar

end Library

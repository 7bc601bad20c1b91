import FineTuneHarness.Library.Calendar
import FineTuneHarness.Library.FixedWidth
import FineTuneHarness.State.Models
import Mathlib.Data.String.Basic

/-!
# UTC date times and their texts

An `Instant` of a record is an aware `datetime` of the code. Here are its fields, by which
`datetime` compares, and the text that SQLite keeps and compares in its place. The text drops
the fraction of a whole second, so texts differ in length.
-/
namespace FineTuneHarness

open Library

/-- `datetime(year, month, day, hour, minute, second, microsecond, tzinfo=timezone.utc)`. -/
structure DateTime extends Calendar.Date where
  hour : Nat
  minute : Nat
  second : Nat
  microsecond : Nat
  hour_lt : hour < 24
  minute_lt : minute < 60
  second_lt : second < 60
  microsecond_lt : microsecond < 1000000

namespace DateTime

/-- What two date times of one time zone are compared by. -/
def fields (d : DateTime) : List Nat :=
  [d.year, d.month, d.day, d.hour, d.minute, d.second, d.microsecond]

/-- `a < b`. -/
def before (a b : DateTime) : Bool := a.fields < b.fields

/-- `"%0*d" % (width, n)`. -/
def decimal (width n : Nat) : List Char := numeral 10 Nat.digitChar width n

/-- The fraction, where there is one, and the offset. -/
def isoFraction (microsecond : Nat) : List Char :=
  if microsecond = 0 then "+00:00".toList
  else '.' :: (decimal 6 microsecond ++ "+00:00".toList)

/-- The text of `isoformat`, character by character. -/
def isoChars (d : DateTime) : List Char :=
  decimal 4 d.year ++ '-' :: (decimal 2 d.month ++ '-' :: (decimal 2 d.day ++ 'T' ::
    (decimal 2 d.hour ++ ':' :: (decimal 2 d.minute ++ ':' :: (decimal 2 d.second ++
      isoFraction d.microsecond)))))

def isoformat (d : DateTime) : String := String.ofList d.isoChars

/-! ## The order of the texts -/

theorem digitChar_lt (m n : Nat) (hmn : m < n) (hn : n < 10) : Nat.digitChar m < Nat.digitChar n := by
  revert m
  revert n
  decide

theorem decimal_lt {k m n : Nat} {u v : List Char} (hm : m < 10 ^ k) (hn : n < 10 ^ k) :
    decimal k m ++ u < decimal k n ++ v ↔ m < n ∨ m = n ∧ u < v := by
  rw [append_lt_append_iff (by simp [decimal])]
  exact or_congr (numeral_lt_numeral_iff digitChar_lt hm hn)
    (and_congr_left' (numeral_inj digitChar_lt hm hn))

theorem isoFraction_lt {m n : Nat} (hm : m < 1000000) (hn : n < 1000000) :
    isoFraction m < isoFraction n ↔ m < n := by
  unfold isoFraction
  by_cases hm0 : m = 0
  · by_cases hn0 : n = 0
    · rw [if_pos hm0, if_pos hn0, hm0, hn0]
      exact iff_of_false (List.lt_irrefl _) (Nat.lt_irrefl 0)
    · -- `+` comes before `.`
      rw [if_pos hm0, if_neg hn0]
      refine iff_of_true ?_ (by omega)
      exact List.cons_lt_cons_iff.mpr (.inl (by decide))
  · by_cases hn0 : n = 0
    · rw [if_neg hm0, if_pos hn0]
      refine iff_of_false (fun h => ?_) (by omega)
      rcases List.cons_lt_cons_iff.mp h with hlt | ⟨heq, -⟩
      · exact absurd hlt (by decide)
      · exact absurd heq (by decide)
    · rw [if_neg hm0, if_neg hn0, cons_lt_cons_self, decimal_lt hm hn]
      simp

theorem fields_lt {a b : DateTime} : a.fields < b.fields ↔
    a.year < b.year ∨ a.year = b.year ∧ (a.month < b.month ∨ a.month = b.month ∧
      (a.day < b.day ∨ a.day = b.day ∧ (a.hour < b.hour ∨ a.hour = b.hour ∧
        (a.minute < b.minute ∨ a.minute = b.minute ∧ (a.second < b.second ∨
          a.second = b.second ∧ a.microsecond < b.microsecond))))) := by
  simp [fields, List.cons_lt_cons_iff]

/-- Every field fits the width it is written with. -/
theorem month_lt (d : DateTime) : d.month < 10 ^ 2 := by
  have := d.month_le
  omega

theorem day_lt (d : DateTime) : d.day < 10 ^ 2 := by
  have hmonth : ∀ leap, ∀ m ≤ 12, Calendar.daysInMonth leap m ≤ 31 := by decide
  have := hmonth (Calendar.isLeap d.year) d.month d.month_le
  have := d.day_le
  omega

/-- **Texts are in the order of the fields.** -/
theorem isoformat_lt {a b : DateTime} : a.isoformat < b.isoformat ↔ a.fields < b.fields := by
  have hyear : ∀ d : DateTime, d.year < 10 ^ 4 := fun d => Nat.lt_succ_of_le d.year_le
  have hhour : ∀ d : DateTime, d.hour < 10 ^ 2 := fun d => by have := d.hour_lt; omega
  have hminute : ∀ d : DateTime, d.minute < 10 ^ 2 := fun d => by have := d.minute_lt; omega
  have hsecond : ∀ d : DateTime, d.second < 10 ^ 2 := fun d => by have := d.second_lt; omega
  rw [String.lt_iff_toList_lt, isoformat, isoformat, String.toList_ofList, String.toList_ofList,
    isoChars, isoChars, fields_lt, decimal_lt (hyear a) (hyear b), cons_lt_cons_self,
    decimal_lt a.month_lt b.month_lt, cons_lt_cons_self, decimal_lt a.day_lt b.day_lt,
    cons_lt_cons_self, decimal_lt (hhour a) (hhour b), cons_lt_cons_self,
    decimal_lt (hminute a) (hminute b), cons_lt_cons_self, decimal_lt (hsecond a) (hsecond b),
    isoFraction_lt a.microsecond_lt b.microsecond_lt]

/-! ## Instants -/

/-- The ordinal of the first of January 1970. -/
def epochOrdinal : Int := 719163

/-- The microseconds since the epoch. -/
def toInstant (d : DateTime) : Int :=
  (((d.toOrdinal - epochOrdinal) * 24 + d.hour) * 60 + d.minute) * 60000000 +
    (d.second * 1000000 + d.microsecond)

theorem toInstant_lt_of_fields {a b : DateTime} (h : a.fields < b.fields) :
    a.toInstant < b.toInstant := by
  have hhour := a.hour_lt
  have hminute := a.minute_lt
  have hsecond := a.second_lt
  have hmicro := a.microsecond_lt
  have hday : a.toDate.Before b.toDate ∨ a.toOrdinal = b.toOrdinal ∧
      (a.hour < b.hour ∨ a.hour = b.hour ∧ (a.minute < b.minute ∨ a.minute = b.minute ∧
        (a.second < b.second ∨ a.second = b.second ∧ a.microsecond < b.microsecond))) := by
    rw [fields_lt] at h
    rcases h with hyear | ⟨hyear, hmonth | ⟨hmonth, hday | ⟨hday, htime⟩⟩⟩
    · exact .inl (.inl hyear)
    · exact .inl (.inr ⟨hyear, .inl hmonth⟩)
    · exact .inl (.inr ⟨hyear, .inr ⟨hmonth, hday⟩⟩)
    · refine .inr ⟨?_, htime⟩
      rw [Calendar.Date.toOrdinal, Calendar.Date.toOrdinal, hyear, hmonth, hday]
  simp only [toInstant]
  rcases hday with hbefore | ⟨hday, htime⟩
  · have hordinal := Calendar.Date.toOrdinal_lt hbefore
    omega
  · omega

theorem toInstant_eq_of_fields {a b : DateTime} (h : a.fields = b.fields) :
    a.toInstant = b.toInstant := by
  simp only [fields, List.cons.injEq, and_true] at h
  obtain ⟨hyear, hmonth, hday, hhour, hminute, hsecond, hmicro⟩ := h
  simp only [toInstant, Calendar.Date.toOrdinal, hyear, hmonth, hday, hhour, hminute, hsecond, hmicro]

/-- **The fields are in the order of time.** -/
theorem toInstant_lt {a b : DateTime} : a.toInstant < b.toInstant ↔ a.fields < b.fields := by
  constructor
  · intro h
    rcases lt_trichotomy a.fields b.fields with hlt | heq | hgt
    · exact hlt
    · exact absurd (toInstant_eq_of_fields heq) (Int.ne_of_lt h)
    · exact absurd (toInstant_lt_of_fields hgt) (Int.not_lt.mpr (Int.le_of_lt h))
  · exact toInstant_lt_of_fields

/-- The first microsecond of year 1 and the last one of year 9999. -/
def minInstant : Int := -62135596800000000

def maxInstant : Int := 253402300799999999

/-- There is a date time for the instant. -/
def InRange (i : Int) : Prop := minInstant ≤ i ∧ i ≤ maxInstant

instance (i : Int) : Decidable (InRange i) := inferInstanceAs (Decidable (_ ∧ _))

/-- The instants of date times are those in range. -/
theorem toInstant_inRange (d : DateTime) : InRange d.toInstant := by
  have hpos := d.toOrdinal_pos
  have hle := d.toOrdinal_le
  have hhour := d.hour_lt
  have hminute := d.minute_lt
  have hsecond := d.second_lt
  have hmicro := d.microsecond_lt
  simp only [Calendar.maxOrdinal] at hle
  simp only [InRange, minInstant, maxInstant, toInstant, epochOrdinal]
  omega

/-- The date time of an instant. -/
def ofInstant (i : Int) (h : InRange i) : DateTime where
  toDate := Calendar.Date.ofOrdinal (i / 86400000000 + epochOrdinal).toNat
    (by simp only [InRange, minInstant, maxInstant] at h; simp only [epochOrdinal]; omega)
    (by
      simp only [InRange, minInstant, maxInstant] at h
      simp only [epochOrdinal, Calendar.maxOrdinal]
      omega)
  hour := (i % 86400000000 / 3600000000).toNat
  minute := (i % 3600000000 / 60000000).toNat
  second := (i % 60000000 / 1000000).toNat
  microsecond := (i % 1000000).toNat
  hour_lt := by omega
  minute_lt := by omega
  second_lt := by omega
  microsecond_lt := by omega

@[simp] theorem toInstant_ofInstant (i : Int) (h : InRange i) :
    (ofInstant i h).toInstant = i := by
  have hday : (0 : Int) ≤ i / 86400000000 + epochOrdinal := by
    simp only [InRange, minInstant] at h
    simp only [epochOrdinal]
    omega
  simp only [toInstant, ofInstant, Calendar.Date.toOrdinal_ofOrdinal, Int.toNat_of_nonneg hday]
  omega

end DateTime

end FineTuneHarness

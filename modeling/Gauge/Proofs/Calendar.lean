import Gauge.Calendar
import Mathlib.Algebra.BigOperators.Intervals
import Mathlib.Algebra.Order.BigOperators.Group.Finset
import Mathlib.Tactic.IntervalCases
import Mathlib.Tactic.Ring

/-!
The calendar by its rules: how long years and months are, and how many days lie between 1 January 1970 and a
date when they are counted one year, one month and one day after the other. The date that is computed for a
count of days is one that the calendar has, and counting leads back to it.
-/

namespace Gauge
namespace Date

def yearLength (year : Int) : Nat := if isLeap year then 366 else 365

def monthLength (year : Int) : Nat → Nat
  | 2 => if isLeap year then 29 else 28
  | 4 | 6 | 9 | 11 => 30
  | _ => 31

theorem monthLength_le (year : Int) (month : Nat) : monthLength year month ≤ 31 := by
  unfold monthLength
  repeat' split
  all_goals decide

/-- A date that the calendar has. -/
structure IsValid (d : Date) : Prop where
  month_pos : 1 ≤ d.month
  month_le : d.month ≤ 12
  day_pos : 1 ≤ d.day
  day_le : d.day ≤ monthLength d.year d.month

/-- The days of so many years from one on. -/
def daysOfYears (first : Int) (years : Nat) : Nat := ∑ i ∈ Finset.range years, yearLength (first + i)

def daysOfMonths (year : Int) (month : Nat) : Nat := ∑ m ∈ Finset.Ico 1 month, monthLength year m

/-- The days from 1 January 1970 to a date, counted year by year, month by month and day by day. -/
def count (d : Date) : Int :=
  daysOfYears 1970 (d.year - 1970).toNat - daysOfYears d.year (1970 - d.year).toNat +
    daysOfMonths d.year d.month + (d.day - 1)

theorem isLeap_iff (year : Int) :
    isLeap year = true ↔ year % 4 = 0 ∧ (year % 100 ≠ 0 ∨ year % 400 = 0) := by
  simp [isLeap]

/-- The days from the beginning of the year 0 to that of another. -/
def yearStart (year : Int) : Int := 365 * year + (year + 3) / 4 - (year + 99) / 100 + (year + 399) / 400

theorem yearStart_add_one (year : Int) : yearStart (year + 1) = yearStart year + yearLength year := by
  have hleap := isLeap_iff year
  simp only [yearStart, yearLength]
  split <;> rename_i h <;> simp only [h, true_iff, false_iff, Bool.false_eq_true] at hleap <;> omega

theorem daysOfYears_eq (first : Int) (years : Nat) :
    daysOfYears first years = yearStart (first + years) - yearStart first := by
  induction years with
  | zero => simp [daysOfYears]
  | succ years ih =>
      rw [daysOfYears, Finset.sum_range_succ, ← daysOfYears, Nat.cast_add, ih, Nat.cast_succ, ← add_assoc,
        yearStart_add_one]
      ring

theorem count_eq (d : Date) :
    d.count = yearStart d.year - yearStart 1970 + daysOfMonths d.year d.month + (d.day - 1) := by
  simp only [count, daysOfYears_eq]
  rcases Int.le_total d.year 1970 with h | h
  · have hforth : (d.year - 1970).toNat = 0 := by omega
    have hback : d.year + (1970 - d.year).toNat = 1970 := by omega
    rw [hforth, hback]
    simp
  · have hforth : (1970 + (d.year - 1970).toNat : Int) = d.year := by omega
    have hback : (1970 - d.year).toNat = 0 := by omega
    rw [hforth, hback]
    simp

/-- Days of the months of a year that begins in March. -/
theorem daysOfMonths_eq (year : Int) {month : Nat} (hpos : 1 ≤ month) (hle : month ≤ 12) :
    daysOfMonths year month =
      if month ≤ 2 then 31 * (month - 1) else (153 * (month - 3) + 2) / 5 + if isLeap year then 60 else 59 := by
  unfold daysOfMonths monthLength
  generalize isLeap year = leap
  interval_cases month <;> revert leap <;> decide

/-! Years that begin in March. -/

def ofMarch (year : Int) (day : Nat) : Date :=
  let month := (5 * day + 2) / 153
  { year := year + (if month < 10 then 0 else 1)
    month := if month < 10 then month + 3 else month - 9
    day := day - (153 * month + 2) / 5 + 1 }

/-- The days of a year that begins in March, of which February may have one more. -/
def IsDayOfMarchYear (year : Int) (day : Nat) : Prop := day < 365 + if isLeap (year + 1) then 1 else 0

theorem isValid_ofMarch {year : Int} {day : Nat} (h : IsDayOfMarchYear year day) : (ofMarch year day).IsValid := by
  have hday : day < 366 := by simp only [IsDayOfMarchYear] at h; split at h <;> omega
  obtain ⟨month, hmonth⟩ : ∃ month, month = (5 * day + 2) / 153 := ⟨_, rfl⟩
  have hle : month ≤ 11 := by omega
  have hstart : (153 * month + 2) / 5 ≤ day := by omega
  have hend : day < (153 * (month + 1) + 2) / 5 := by omega
  constructor
  · simp only [ofMarch, ← hmonth]; split <;> omega
  · simp only [ofMarch, ← hmonth]; split <;> omega
  · simp only [ofMarch]; omega
  · simp only [IsDayOfMarchYear] at h
    simp only [ofMarch, ← hmonth]
    clear hmonth
    -- only in February, the last month, does it matter whether the year is a leap year
    interval_cases month <;> simp only [monthLength] <;> simp <;> split at h <;> simp_all <;> omega

theorem count_ofMarch {year : Int} {day : Nat} (h : IsDayOfMarchYear year day) :
    (ofMarch year day).count =
      yearStart year + (if isLeap year then 60 else 59) - yearStart 1970 + day := by
  have hday : day < 366 := by simp only [IsDayOfMarchYear] at h; split at h <;> omega
  have hvalid := isValid_ofMarch h
  rw [count_eq, daysOfMonths_eq _ hvalid.month_pos hvalid.month_le]
  obtain ⟨month, hmonth⟩ : ∃ month, month = (5 * day + 2) / 153 := ⟨_, rfl⟩
  have hle : month ≤ 11 := by omega
  have hnext := yearStart_add_one year
  simp only [yearLength, Nat.cast_ite] at hnext
  simp only [ofMarch, ← hmonth]
  by_cases hm : month < 10
  · simp only [hm, if_true, add_zero]
    rw [if_neg (show ¬ month + 3 ≤ 2 by omega)]
    split <;> push_cast <;> omega
  · simp only [hm, if_false, hnext]
    rw [if_pos (show month - 9 ≤ 2 by omega)]
    split <;> push_cast <;> omega

/-! The days of an era. -/

/-- A day of an era within its century, and within four years of that. -/
theorem yearOfEra_parts {c k s : Nat} (hc : c < 4) (hs : s < 1461) (h : 1461 * k + s < 36524) :
    yearOfEra (36524 * c + 1461 * k + s) = 100 * c + 4 * k + min (s / 365) 3 := by
  have hquads : (36524 * c + 1461 * k + s) / 1460 = 25 * c + k + (24 * c + k + s) / 1460 := by omega
  have hcentury : (36524 * c + 1461 * k + s) / 36524 = c := by omega
  have hera : (36524 * c + 1461 * k + s) / 146096 = 0 := by omega
  have hlast : (24 * c + k + s) / 1460 = if 24 * c + k + s < 1460 then 0 else 1 := by split <;> omega
  rw [yearOfEra, hquads, hcentury, hera, hlast]
  split <;> omega

theorem daysBefore_parts {c k j : Nat} (hk : k < 25) (hj : j ≤ 3) :
    daysBefore (100 * c + 4 * k + j) = 36524 * c + 1461 * k + 365 * j := by
  simp only [daysBefore]
  omega

theorem isDayOfMarchYear {day : Nat} (h : day < 146097) :
    yearOfEra day < 400 ∧ daysBefore (yearOfEra day) ≤ day ∧
      IsDayOfMarchYear (yearOfEra day) (day - daysBefore (yearOfEra day)) := by
  -- the leap day that ends an era is in none of its centuries
  by_cases hlast : day = 146096
  · subst hlast
    simp only [IsDayOfMarchYear]
    decide
  · obtain ⟨c, k, s, hc, hs, hk, rfl⟩ : ∃ c k s, c < 4 ∧ s < 1461 ∧ 1461 * k + s < 36524 ∧
        day = 36524 * c + 1461 * k + s :=
      ⟨day / 36524, day % 36524 / 1461, day % 36524 % 1461, by omega, by omega, by omega, by omega⟩
    rw [yearOfEra_parts hc hs hk, daysBefore_parts (by omega) (by omega)]
    refine ⟨by omega, by omega, ?_⟩
    have hleap := isLeap_iff ((100 * c + 4 * k + min (s / 365) 3 : Nat) + 1)
    simp only [IsDayOfMarchYear]
    split
    · omega
    · rename_i hnot
      simp only [hnot, Bool.false_eq_true, false_iff] at hleap
      omega

theorem yearStart_era (q : Int) (year : Nat) (h : year < 400) :
    yearStart (q * 400 + year) + (if isLeap (q * 400 + year) then 60 else 59) = q * era + daysBefore year + 60 := by
  have hleap := isLeap_iff (q * 400 + year)
  simp only [yearStart, era, daysBefore]
  split <;> rename_i h <;> simp only [h, true_iff, false_iff, Bool.false_eq_true] at hleap <;> omega

theorem isLeap_era (q year : Int) : isLeap (q * 400 + year) = isLeap year := by
  rw [Bool.eq_iff_iff, isLeap_iff, isLeap_iff]
  omega

theorem ofDays_eq (days : Int) :
    let z := days + epoch
    let day := (z % era).toNat
    ofDays days = ofMarch (z / era * 400 + yearOfEra day) (day - daysBefore (yearOfEra day)) := rfl

theorem ofDays_spec (days : Int) : (ofDays days).IsValid ∧ (ofDays days).count = days := by
  rw [ofDays_eq]
  obtain ⟨z, hz⟩ : ∃ z, z = days + epoch := ⟨_, rfl⟩
  obtain ⟨q, hq⟩ : ∃ q, q = z / era := ⟨_, rfl⟩
  obtain ⟨day, hday⟩ : ∃ day, day = (z % era).toNat := ⟨_, rfl⟩
  simp only [← hz, ← hq, ← hday]
  simp only [epoch, era] at hz hq hday
  obtain ⟨hyear, hstart, hmarch⟩ := isDayOfMarchYear (show day < 146097 by omega)
  have hmarch' : IsDayOfMarchYear (q * 400 + yearOfEra day) (day - daysBefore (yearOfEra day)) := by
    simp only [IsDayOfMarchYear, add_assoc, isLeap_era] at hmarch ⊢
    exact hmarch
  refine ⟨isValid_ofMarch hmarch', ?_⟩
  have hera := yearStart_era q (yearOfEra day) hyear
  have hepoch : yearStart 1970 = 719528 := by decide
  rw [count_ofMarch hmarch', hera, hepoch]
  simp only [era]
  omega

/-! The year of a count of days. -/

theorem daysOfMonths_add_day_le {d : Date} (h : d.IsValid) :
    daysOfMonths d.year d.month + d.day ≤ yearLength d.year :=
  calc daysOfMonths d.year d.month + d.day
      ≤ daysOfMonths d.year d.month + monthLength d.year d.month := Nat.add_le_add_left h.day_le _
    _ = daysOfMonths d.year (d.month + 1) := (Finset.sum_Ico_succ_top h.month_pos _).symm
    _ ≤ daysOfMonths d.year 13 :=
        Finset.sum_le_sum_of_subset (Finset.Ico_subset_Ico_right (Nat.succ_le_succ h.month_le))
    _ = yearLength d.year := by
        simp only [daysOfMonths, yearLength, Finset.sum_Ico_succ_top, monthLength, Nat.one_le_ofNat,
          Nat.reduceAdd, Nat.reduceLeDiff, Finset.Ico_self, Finset.sum_empty]
        split <;> rfl

theorem yearStart_mono {y z : Int} (h : y ≤ z) : yearStart y ≤ yearStart z := by
  simp only [yearStart]
  omega

/-- The days of a year and of those after it are the ones from its beginning on. -/
theorem le_year_iff {d : Date} (h : d.IsValid) (year : Int) :
    year ≤ d.year ↔ yearStart year - yearStart 1970 ≤ d.count := by
  have hcount := count_eq d
  have hpos := h.day_pos
  constructor
  · intro hle
    have := yearStart_mono hle
    omega
  · intro hle
    by_contra hlt
    have hnext := yearStart_mono (show d.year + 1 ≤ year by omega)
    have hday := daysOfMonths_add_day_le h
    rw [yearStart_add_one] at hnext
    omega

end Date

namespace Moment

/-- A date that the calendar has and a time that the clock shows. -/
structure IsValid (m : Moment) : Prop where
  date : m.date.IsValid
  hour_lt : m.hour < 24
  minute_lt : m.minute < 60
  second_lt : m.second < 60

def count (m : Moment) : Int := m.date.count * 86400 + m.hour * 3600 + m.minute * 60 + m.second

theorem ofSeconds_spec (seconds : Int) :
    (ofSeconds seconds).IsValid ∧ (ofSeconds seconds).count = seconds := by
  obtain ⟨hvalid, hcount⟩ := Date.ofDays_spec (seconds / 86400)
  refine ⟨⟨hvalid, ?_, ?_, ?_⟩, ?_⟩
  all_goals simp only [ofSeconds, count, day, hcount]
  all_goals omega

end Moment

end Gauge

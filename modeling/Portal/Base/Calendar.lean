import Mathlib.Tactic.Common
import Mathlib.Tactic.IntervalCases
import Mathlib.Tactic.Linarith
import Mathlib.Data.Int.Order.Basic

/-!
# The proleptic Gregorian calendar by day numbers

Day `0` is 0001-01-01.  `dayNumber` counts the days before a date, `ofDayNumber` reads the date of
a day back; on valid dates they are inverse to each other.

* `ofDayNumber_dayNumber`, `ofDayNumber_valid`   the two directions;
* `exists_date_within`      a date that every year has comes within any 366 days in a row;
* `exists_weekday_within`   so does each weekday of each month;
* `ofDayNumber_leapDay`     29 February falls in leap years only.
-/

namespace Portal
namespace Calendar

structure Date where
  year : Int
  month : Nat
  day : Nat
deriving DecidableEq, Repr

def isLeap (y : Int) : Bool := decide (y % 4 = 0 ∧ (y % 100 ≠ 0 ∨ y % 400 = 0))

def daysInMonth (leap : Bool) : Nat → Nat
  | 1 => 31 | 2 => if leap then 29 else 28 | 3 => 31 | 4 => 30 | 5 => 31 | 6 => 30
  | 7 => 31 | 8 => 31 | 9 => 30 | 10 => 31 | 11 => 30 | 12 => 31 | _ => 0

/-- the days of the year before the first of the month -/
def daysBeforeMonth (leap : Bool) : Nat → Nat
  | 0 => 0
  | 1 => 0
  | m + 1 => daysBeforeMonth leap m + daysInMonth leap m

def daysBeforeYear (y : Int) : Int := 365 * (y - 1) + (y - 1) / 4 - (y - 1) / 100 + (y - 1) / 400

def Date.Valid (d : Date) : Prop :=
  1 ≤ d.month ∧ d.month ≤ 12 ∧ 1 ≤ d.day ∧ d.day ≤ daysInMonth (isLeap d.year) d.month

def dayNumber (d : Date) : Int :=
  daysBeforeYear d.year + daysBeforeMonth (isLeap d.year) d.month + d.day - 1

/-- the year of a day: the mean-year estimate, which is off by at most one -/
def yearOf (n : Int) : Int :=
  let y := n * 400 / 146097 + 1
  if n < daysBeforeYear y then y - 1 else if daysBeforeYear (y + 1) ≤ n then y + 1 else y

/-- the first month from `m` on that reaches past a day of the year -/
def monthFrom (leap : Bool) (doy : Nat) : Nat → Nat → Nat
  | 0, m => m
  | k + 1, m =>
    if doy < daysBeforeMonth leap m + daysInMonth leap m then m else monthFrom leap doy k (m + 1)

def monthOf (leap : Bool) (doy : Nat) : Nat := monthFrom leap doy 11 1

def ofDayNumber (n : Int) : Date :=
  let y := yearOf n
  let doy := (n - daysBeforeYear y).toNat
  let m := monthOf (isLeap y) doy
  ⟨y, m, doy - daysBeforeMonth (isLeap y) m + 1⟩

/-- days from Sunday: day `0`, 0001-01-01, is a Monday -/
def weekday (n : Int) : Nat := ((n + 1) % 7).toNat

/-! ## years -/

def yearLength (leap : Bool) : Nat := if leap then 366 else 365

theorem daysBeforeYear_succ (y : Int) :
    daysBeforeYear (y + 1) = daysBeforeYear y + yearLength (isLeap y) := by
  unfold daysBeforeYear yearLength isLeap
  by_cases h : y % 4 = 0 ∧ (y % 100 ≠ 0 ∨ y % 400 = 0)
  · rw [decide_eq_true h]
    simp only [if_true]
    omega
  · rw [decide_eq_false h]
    simp only [Bool.false_eq_true, if_false]
    omega

theorem yearLength_bounds (b : Bool) : 365 ≤ yearLength b ∧ yearLength b ≤ 366 := by
  cases b <;> decide

theorem daysBeforeYear_mono {y z : Int} (h : y ≤ z) : daysBeforeYear y ≤ daysBeforeYear z := by
  unfold daysBeforeYear
  omega

theorem yearOf_bounds (n : Int) :
    daysBeforeYear (yearOf n) ≤ n ∧ n < daysBeforeYear (yearOf n + 1) := by
  unfold yearOf
  simp only []
  split
  · rename_i h
    refine ⟨?_, by rwa [sub_add_cancel]⟩
    unfold daysBeforeYear at h ⊢
    omega
  · split
    · rename_i h
      refine ⟨h, ?_⟩
      unfold daysBeforeYear at h ⊢
      omega
    · rename_i h1 h2
      exact ⟨not_lt.mp h1, not_le.mp h2⟩

theorem yearOf_unique {n y : Int} (h1 : daysBeforeYear y ≤ n) (h2 : n < daysBeforeYear (y + 1)) :
    yearOf n = y := by
  obtain ⟨a1, a2⟩ := yearOf_bounds n
  by_contra hne
  rcases lt_or_gt_of_ne hne with h | h
  · have := daysBeforeYear_mono (show yearOf n + 1 ≤ y from h)
    omega
  · have := daysBeforeYear_mono (show y + 1 ≤ yearOf n from h)
    omega

/-! ## months -/

theorem daysBeforeMonth_succ (leap : Bool) {m : Nat} (h : 1 ≤ m) :
    daysBeforeMonth leap (m + 1) = daysBeforeMonth leap m + daysInMonth leap m := by
  obtain ⟨k, rfl⟩ := Nat.exists_eq_add_of_le' h
  rfl

theorem daysBeforeMonth_mono (leap : Bool) {m k : Nat} (h : 1 ≤ m) (hk : m ≤ k) :
    daysBeforeMonth leap m ≤ daysBeforeMonth leap k := by
  induction k, hk using Nat.le_induction with
  | base => exact le_refl _
  | succ k hk ih =>
    rw [daysBeforeMonth_succ leap (le_trans h hk)]
    exact le_trans ih (Nat.le_add_right _ _)

theorem daysInMonth_le (leap : Bool) (m : Nat) : daysInMonth leap m ≤ 31 := by
  unfold daysInMonth
  split <;> cases leap <;> decide

theorem daysBeforeMonth_last (leap : Bool) :
    daysBeforeMonth leap 12 + daysInMonth leap 12 = yearLength leap := by
  cases leap <;> rfl

theorem dayOfYear_lt {leap : Bool} {m d : Nat} (h1 : 1 ≤ m) (h2 : m ≤ 12)
    (h3 : d < daysInMonth leap m) : daysBeforeMonth leap m + d < yearLength leap := by
  have hl := daysBeforeMonth_last leap
  rcases Nat.lt_or_ge m 12 with hm | hm
  · have hs := daysBeforeMonth_succ leap h1
    have := daysBeforeMonth_mono leap (show 1 ≤ m + 1 by omega) (show m + 1 ≤ 12 from hm)
    omega
  · have e : m = 12 := by omega
    subst e
    omega

/-- what the search from month `m` finds, with `k` months to go -/
theorem monthFrom_bounds (leap : Bool) (doy : Nat) (h : doy < yearLength leap) (k m : Nat)
    (hm : 1 ≤ m) (hk : m + k = 12) (hd : daysBeforeMonth leap m ≤ doy) :
    1 ≤ monthFrom leap doy k m ∧ monthFrom leap doy k m ≤ 12 ∧
      daysBeforeMonth leap (monthFrom leap doy k m) ≤ doy ∧
      doy < daysBeforeMonth leap (monthFrom leap doy k m)
        + daysInMonth leap (monthFrom leap doy k m) := by
  induction k generalizing m with
  | zero =>
    have e : m = 12 := by omega
    subst e
    have hl := daysBeforeMonth_last leap
    refine ⟨hm, le_refl 12, hd, ?_⟩
    show doy < daysBeforeMonth leap 12 + daysInMonth leap 12
    omega
  | succ k ih =>
    unfold monthFrom
    split
    · rename_i hlt
      exact ⟨hm, by omega, hd, hlt⟩
    · rename_i hge
      refine ih (m + 1) (by omega) (by omega) ?_
      rw [daysBeforeMonth_succ leap hm]
      omega

theorem monthOf_bounds (leap : Bool) (doy : Nat) (h : doy < yearLength leap) :
    1 ≤ monthOf leap doy ∧ monthOf leap doy ≤ 12 ∧
      daysBeforeMonth leap (monthOf leap doy) ≤ doy ∧
      doy < daysBeforeMonth leap (monthOf leap doy) + daysInMonth leap (monthOf leap doy) :=
  monthFrom_bounds leap doy h 11 1 (le_refl 1) rfl (Nat.zero_le _)

theorem monthOf_unique (leap : Bool) (m d : Nat) (h1 : 1 ≤ m) (h2 : m ≤ 12)
    (h3 : d < daysInMonth leap m) : monthOf leap (daysBeforeMonth leap m + d) = m := by
  obtain ⟨a1, a2, a3, a4⟩ := monthOf_bounds leap _ (dayOfYear_lt h1 h2 h3)
  generalize monthOf leap (daysBeforeMonth leap m + d) = k at a1 a2 a3 a4
  by_contra hne
  rcases Nat.lt_or_gt_of_ne hne with h | h
  · have hs := daysBeforeMonth_succ leap a1
    have := daysBeforeMonth_mono leap (show 1 ≤ k + 1 by omega) (show k + 1 ≤ m from h)
    omega
  · have hs := daysBeforeMonth_succ leap h1
    have := daysBeforeMonth_mono leap (show 1 ≤ m + 1 by omega) (show m + 1 ≤ k from h)
    omega

/-! ## the two directions -/

theorem ofDayNumber_dayNumber (d : Date) (h : d.Valid) : ofDayNumber (dayNumber d) = d := by
  obtain ⟨y, m, k⟩ := d
  obtain ⟨h1, h2, h3, h4⟩ := h
  simp only at h1 h2 h3 h4
  have hlt := dayOfYear_lt h1 h2 (show k - 1 < daysInMonth (isLeap y) m by omega)
  have hn : dayNumber ⟨y, m, k⟩
      = daysBeforeYear y + ((daysBeforeMonth (isLeap y) m + (k - 1) : Nat) : Int) := by
    simp only [dayNumber]
    omega
  have hy : yearOf (dayNumber ⟨y, m, k⟩) = y := by
    apply yearOf_unique
    · rw [hn]; omega
    · rw [hn, daysBeforeYear_succ]; omega
  have hd : (dayNumber ⟨y, m, k⟩ - daysBeforeYear y).toNat
      = daysBeforeMonth (isLeap y) m + (k - 1) := by
    rw [hn]; omega
  simp only [ofDayNumber, hy, hd, monthOf_unique (isLeap y) m (k - 1) h1 h2 (by omega)]
  congr 1
  omega

theorem ofDayNumber_valid (n : Int) : (ofDayNumber n).Valid := by
  obtain ⟨a1, a2⟩ := yearOf_bounds n
  rw [daysBeforeYear_succ] at a2
  obtain ⟨b1, b2, b3, b4⟩ := monthOf_bounds (isLeap (yearOf n))
    (n - daysBeforeYear (yearOf n)).toNat (by omega)
  refine ⟨b1, b2, ?_, ?_⟩
  · simp only [ofDayNumber]; omega
  · simp only [ofDayNumber]; omega

theorem ofDayNumber_leapDay {n : Int} (hm : (ofDayNumber n).month = 2)
    (hd : (ofDayNumber n).day = 29) : isLeap (yearOf n) = true := by
  obtain ⟨_, _, _, h⟩ := ofDayNumber_valid n
  rw [hm, hd] at h
  cases hl : isLeap (ofDayNumber n).year with
  | true => exact hl
  | false =>
    rw [hl] at h
    exact absurd h (by decide)

/-! ## what comes within a year -/

theorem dayNumber_succ_year (y : Int) (m d : Nat) (h1 : 1 ≤ m) (h2 : m ≤ 12) :
    dayNumber ⟨y, m, d⟩ + 365 ≤ dayNumber ⟨y + 1, m, d⟩ ∧
      dayNumber ⟨y + 1, m, d⟩ ≤ dayNumber ⟨y, m, d⟩ + 366 := by
  simp only [dayNumber, daysBeforeYear_succ]
  interval_cases m <;> cases isLeap y <;> cases isLeap (y + 1) <;>
    simp only [daysBeforeMonth, daysInMonth, yearLength, Bool.false_eq_true, if_true, if_false] <;>
    omega

def EveryYear (m d : Nat) : Prop := 1 ≤ m ∧ m ≤ 12 ∧ 1 ≤ d ∧ d ≤ daysInMonth false m

theorem EveryYear.valid {m d : Nat} (h : EveryYear m d) (y : Int) : Date.Valid ⟨y, m, d⟩ := by
  obtain ⟨h1, h2, h3, h4⟩ := h
  refine ⟨h1, h2, h3, ?_⟩
  show d ≤ daysInMonth (isLeap y) m
  cases isLeap y
  · exact h4
  · exact le_trans h4 (by interval_cases m <;> decide)

theorem dayNumber_bounds (d : Date) (h : d.Valid) :
    daysBeforeYear d.year ≤ dayNumber d ∧ dayNumber d < daysBeforeYear (d.year + 1) := by
  obtain ⟨h1, h2, h3, h4⟩ := h
  have hlt := dayOfYear_lt h1 h2 (show d.day - 1 < daysInMonth (isLeap d.year) d.month by omega)
  rw [daysBeforeYear_succ]
  simp only [dayNumber]
  omega

/-- **A date that every year has comes within any 366 days in a row.** -/
theorem exists_date_within {m d : Nat} (h : EveryYear m d) (n : Int) :
    ∃ y, n ≤ dayNumber ⟨y, m, d⟩ ∧ dayNumber ⟨y, m, d⟩ ≤ n + 365 := by
  obtain ⟨a1, a2⟩ := yearOf_bounds n
  have hlen := yearLength_bounds (isLeap (yearOf n))
  by_cases hc : n ≤ dayNumber ⟨yearOf n, m, d⟩
  · refine ⟨yearOf n, hc, ?_⟩
    have hb := (dayNumber_bounds ⟨yearOf n, m, d⟩ (h.valid _)).2
    simp only [daysBeforeYear_succ] at hb
    omega
  · refine ⟨yearOf n + 1, ?_, ?_⟩
    · have hb := (dayNumber_bounds ⟨yearOf n + 1, m, d⟩ (h.valid _)).1
      simp only at hb
      omega
    · have hs := (dayNumber_succ_year (yearOf n) m d h.1 h.2.1).2
      omega

theorem weekday_lt (n : Int) : weekday n < 7 := by
  unfold weekday
  omega

theorem exists_weekday_from (n : Int) (w : Nat) (hw : w < 7) :
    ∃ i : Nat, i < 7 ∧ weekday (n + i) = w := by
  refine ⟨(((w : Int) - (n + 1)) % 7).toNat, by omega, ?_⟩
  unfold weekday
  omega

theorem month_first_days (y : Int) (m i : Nat) (h1 : 1 ≤ m) (h2 : m ≤ 12) (hi : i < 28) :
    (ofDayNumber (dayNumber ⟨y, m, 1⟩ + i)).month = m := by
  have hv : EveryYear m (i + 1) := by
    refine ⟨h1, h2, by omega, ?_⟩
    interval_cases m <;> simp only [daysInMonth, Bool.false_eq_true, if_false] <;> omega
  have he : dayNumber ⟨y, m, 1⟩ + i = dayNumber ⟨y, m, i + 1⟩ := by
    simp only [dayNumber]
    omega
  rw [he, ofDayNumber_dayNumber _ (hv.valid y)]

/-- **Each weekday of each month comes within any 366 days in a row.** -/
theorem exists_weekday_within {m w : Nat} (h1 : 1 ≤ m) (h2 : m ≤ 12) (hw : w < 7) (n : Int) :
    ∃ k, n ≤ k ∧ k ≤ n + 365 ∧ (ofDayNumber k).month = m ∧ weekday k = w := by
  have hv : EveryYear m 1 := ⟨h1, h2, le_refl 1, by interval_cases m <;> decide⟩
  obtain ⟨y, hy1, hy2⟩ := exists_date_within hv n
  by_cases hc : dayNumber ⟨y, m, 1⟩ + 6 ≤ n + 365
  · obtain ⟨i, hi, he⟩ := exists_weekday_from (dayNumber ⟨y, m, 1⟩) w hw
    refine ⟨_, ?_, ?_, month_first_days y m i h1 h2 (by omega), he⟩ <;> omega
  · -- the first of the month comes too late: the second week of the month before it does not
    have hs := dayNumber_succ_year (y - 1) m 1 h1 h2
    rw [sub_add_cancel] at hs
    obtain ⟨i, hi, he⟩ := exists_weekday_from (dayNumber ⟨y - 1, m, 1⟩ + (7 : Nat)) w hw
    have hm := month_first_days (y - 1) m (7 + i) h1 h2 (by omega)
    rw [Nat.cast_add, ← add_assoc] at hm
    refine ⟨_, ?_, ?_, hm, he⟩ <;> omega

end Calendar
end Portal

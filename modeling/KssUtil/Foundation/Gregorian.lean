import Mathlib.Algebra.Order.Field.Rat
import Mathlib.Data.Int.Notation
import Mathlib.Tactic.Common

/-!
# The proleptic Gregorian calendar

Dates are year, month `0 … 11` and day of the month from 1; days are counted from
1 January of the year 1.  `dayNumber` and `dateOf` are inverse to each other.
-/

namespace KssUtil.Foundation

namespace Gregorian

def isLeap (y : ℤ) : Bool := y % 4 = 0 ∧ (y % 100 ≠ 0 ∨ y % 400 = 0)

def yearLength (y : ℤ) : ℤ := if isLeap y then 366 else 365

/-- The days before 1 January of the year `y`. -/
def daysBeforeYear (y : ℤ) : ℤ := 365 * (y - 1) + (y - 1) / 4 - (y - 1) / 100 + (y - 1) / 400

theorem daysBeforeYear_succ (y : ℤ) :
    daysBeforeYear (y + 1) = daysBeforeYear y + yearLength y := by
  unfold daysBeforeYear yearLength isLeap
  by_cases h4 : y % 4 = 0 <;> by_cases h100 : y % 100 = 0 <;> by_cases h400 : y % 400 = 0 <;>
    simp [h4, h100, h400] <;> omega

/-- The year that day `d` is in: a guess from the mean length of a year, which
may be off by one. -/
def yearOf (d : ℤ) : ℤ :=
  let y := d * 400 / 146097 + 1
  if d < daysBeforeYear y then y - 1
  else if d < daysBeforeYear (y + 1) then y
  else y + 1

theorem yearOf_spec (d : ℤ) :
    daysBeforeYear (yearOf d) ≤ d ∧ d < daysBeforeYear (yearOf d + 1) := by
  unfold yearOf
  dsimp only
  split
  · unfold daysBeforeYear at *
    omega
  · split
    · unfold daysBeforeYear at *
      omega
    · unfold daysBeforeYear at *
      omega

theorem daysBeforeYear_mono {y z : ℤ} (h : y ≤ z) : daysBeforeYear y ≤ daysBeforeYear z := by
  unfold daysBeforeYear
  omega

theorem yearOf_eq {y d : ℤ} (h : daysBeforeYear y ≤ d) (h' : d < daysBeforeYear (y + 1)) :
    yearOf d = y := by
  obtain ⟨hlo, hhi⟩ := yearOf_spec d
  rcases Int.lt_trichotomy (yearOf d) y with hlt | heq | hgt
  · have := daysBeforeYear_mono (y := yearOf d + 1) (z := y) hlt
    omega
  · exact heq
  · have := daysBeforeYear_mono (y := y + 1) (z := yearOf d) hgt
    omega

/-! ## Months -/

/-- The days before each month, and those of the whole year. -/
def monYday : Bool → List ℤ
  | false => [0, 31, 59, 90, 120, 151, 181, 212, 243, 273, 304, 334, 365]
  | true => [0, 31, 60, 91, 121, 152, 182, 213, 244, 274, 305, 335, 366]

def daysBeforeMonth (leap : Bool) (m : ℕ) : ℤ := (monYday leap).getD m 0

/-- The last month up to `m` that begins on or before day `r` of the year. -/
def monthFrom (leap : Bool) (r : ℤ) : ℕ → ℕ
  | 0 => 0
  | m + 1 => if r < daysBeforeMonth leap (m + 1) then monthFrom leap r m else m + 1

def monthOf (leap : Bool) (r : ℤ) : ℕ := monthFrom leap r 11

theorem monthFrom_spec (leap : Bool) {r : ℤ} (hr : 0 ≤ r) (m : ℕ)
    (hm : r < daysBeforeMonth leap (m + 1)) :
    monthFrom leap r m ≤ m ∧ daysBeforeMonth leap (monthFrom leap r m) ≤ r ∧
      r < daysBeforeMonth leap (monthFrom leap r m + 1) := by
  induction m with
  | zero =>
      refine ⟨Nat.le_refl 0, ?_, hm⟩
      cases leap <;> exact hr
  | succ m ih =>
      rw [monthFrom]
      split
      · rename_i h
        obtain ⟨hle, hlo, hhi⟩ := ih h
        exact ⟨Nat.le_succ_of_le hle, hlo, hhi⟩
      · rename_i h
        exact ⟨Nat.le_refl _, Int.not_lt.mp h, hm⟩

theorem daysBeforeMonth_twelve (y : ℤ) : daysBeforeMonth (isLeap y) 12 = yearLength y := by
  unfold yearLength
  cases isLeap y <;> rfl

theorem daysBeforeMonth_zero (leap : Bool) : daysBeforeMonth leap 0 = 0 := by
  cases leap <;> rfl

theorem daysBeforeMonth_mono (leap : Bool) {m n : ℕ} (hnm : n ≤ m) (hm : m ≤ 12) :
    daysBeforeMonth leap n ≤ daysBeforeMonth leap m := by
  have htable : ∀ m < 13, ∀ n < m + 1, daysBeforeMonth leap n ≤ daysBeforeMonth leap m := by
    cases leap <;> decide
  exact htable m (Nat.lt_succ_of_le hm) n (Nat.lt_succ_of_le hnm)

theorem monthOf_eq {leap : Bool} {m : ℕ} {r : ℤ} (hm : m < 12) (h : daysBeforeMonth leap m ≤ r)
    (h' : r < daysBeforeMonth leap (m + 1)) : monthOf leap r = m := by
  have hfirst := daysBeforeMonth_mono leap m.zero_le (by omega)
  have hlast := daysBeforeMonth_mono leap (n := m + 1) hm (Nat.le_refl 12)
  rw [daysBeforeMonth_zero] at hfirst
  obtain ⟨hle, hlo, hhi⟩ := monthFrom_spec leap (r := r) (by omega) 11
    (Int.lt_of_lt_of_le h' hlast)
  show monthFrom leap r 11 = m
  generalize monthFrom leap r 11 = k at *
  rcases Nat.lt_trichotomy k m with hlt | heq | hgt
  · have := daysBeforeMonth_mono leap (n := k + 1) hlt (by omega)
    omega
  · exact heq
  · have := daysBeforeMonth_mono leap (n := m + 1) hgt (by omega)
    omega

/-! ## Dates -/

structure Date where
  year : ℤ
  month : ℕ
  day : ℤ
deriving DecidableEq, Repr

/-- The date is in the calendar. -/
def Date.Valid (d : Date) : Prop :=
  d.month < 12 ∧ 1 ≤ d.day ∧
    daysBeforeMonth (isLeap d.year) d.month + d.day ≤
      daysBeforeMonth (isLeap d.year) (d.month + 1)

instance (d : Date) : Decidable d.Valid := inferInstanceAs (Decidable (_ ∧ _ ∧ _))

theorem Date.Valid.day_le {d : Date} (h : d.Valid) : d.day ≤ 31 := by
  obtain ⟨hm, -, hlast⟩ := h
  have htable : ∀ leap, ∀ m < 12, daysBeforeMonth leap (m + 1) - daysBeforeMonth leap m ≤ 31 := by
    decide
  have := htable (isLeap d.year) d.month hm
  omega

def dayNumber (d : Date) : ℤ :=
  daysBeforeYear d.year + daysBeforeMonth (isLeap d.year) d.month + (d.day - 1)

def dateOf (n : ℤ) : Date :=
  let y := yearOf n
  let r := n - daysBeforeYear y
  let m := monthOf (isLeap y) r
  ⟨y, m, r - daysBeforeMonth (isLeap y) m + 1⟩

theorem dateOf_valid (n : ℤ) : (dateOf n).Valid ∧ dayNumber (dateOf n) = n := by
  obtain ⟨hlo, hhi⟩ := yearOf_spec n
  have hlen := daysBeforeYear_succ (yearOf n)
  have hend : n - daysBeforeYear (yearOf n) < daysBeforeMonth (isLeap (yearOf n)) (11 + 1) := by
    show _ < daysBeforeMonth (isLeap (yearOf n)) 12
    rw [daysBeforeMonth_twelve]
    omega
  obtain ⟨hm, hfirst, hlast⟩ := monthFrom_spec (isLeap (yearOf n)) (by omega) 11 hend
  unfold Date.Valid dayNumber dateOf monthOf
  dsimp only
  omega

theorem dateOf_dayNumber {d : Date} (h : d.Valid) : dateOf (dayNumber d) = d := by
  obtain ⟨y, m, day⟩ := d
  obtain ⟨hm, hday, hlast⟩ := h
  dsimp only at hm hday hlast
  -- the day is in its year, between the first of the month and the first of the next
  have hbefore := daysBeforeMonth_mono (isLeap y) m.zero_le (by omega)
  have hafter := daysBeforeMonth_mono (isLeap y) (n := m + 1) hm (Nat.le_refl 12)
  rw [daysBeforeMonth_zero] at hbefore
  rw [daysBeforeMonth_twelve] at hafter
  have hyear : yearOf (dayNumber ⟨y, m, day⟩) = y := by
    apply yearOf_eq
    · unfold dayNumber
      dsimp only
      omega
    · rw [daysBeforeYear_succ]
      unfold dayNumber
      dsimp only
      omega
  have hrest : dayNumber ⟨y, m, day⟩ - daysBeforeYear y =
      daysBeforeMonth (isLeap y) m + (day - 1) := by
    unfold dayNumber
    dsimp only
    omega
  have hmonth : monthOf (isLeap y) (daysBeforeMonth (isLeap y) m + (day - 1)) = m :=
    monthOf_eq hm (by omega) (by omega)
  unfold dateOf
  dsimp only
  rw [hyear, hrest, hmonth]
  congr 1
  omega

/-! ## The order of dates -/

/-- The date is before the other in the calendar. -/
def Date.Before (d e : Date) : Prop :=
  d.year < e.year ∨ d.year = e.year ∧ (d.month < e.month ∨ d.month = e.month ∧ d.day < e.day)

/-- A day is in its year. -/
theorem Date.Valid.dayNumber_lt {d : Date} (h : d.Valid) :
    daysBeforeYear d.year ≤ dayNumber d ∧ dayNumber d < daysBeforeYear (d.year + 1) := by
  obtain ⟨hmonth, hday, hlast⟩ := h
  have hbefore := daysBeforeMonth_mono (isLeap d.year) d.month.zero_le (by omega)
  have hafter := daysBeforeMonth_mono (isLeap d.year) (n := d.month + 1) hmonth (Nat.le_refl 12)
  rw [daysBeforeMonth_zero] at hbefore
  rw [daysBeforeMonth_twelve] at hafter
  rw [daysBeforeYear_succ, dayNumber]
  constructor <;> omega

theorem Date.Before.dayNumber_lt {d e : Date} (h : d.Before e) (hd : d.Valid) (he : e.Valid) :
    dayNumber d < dayNumber e := by
  rcases h with hyear | ⟨hyear, hmonth | ⟨hmonth, hday⟩⟩
  · have hlast := hd.dayNumber_lt.2
    have hfirst := he.dayNumber_lt.1
    have hyears := daysBeforeYear_mono (y := d.year + 1) (z := e.year) hyear
    omega
  · obtain ⟨-, -, hlast⟩ := hd
    obtain ⟨hmonth', hday', -⟩ := he
    have hmonths := daysBeforeMonth_mono (isLeap d.year) (n := d.month + 1) hmonth (by omega)
    unfold dayNumber
    rw [← hyear] at *
    omega
  · unfold dayNumber
    rw [hyear, hmonth]
    omega

end Gregorian
end KssUtil.Foundation

import KssUtil.Foundation.Decades
import KssUtil.Time.Duration
import Mathlib.Analysis.SpecialFunctions.Log.Base

/-!
# Nice numbers (nicenumber.cpp)

Numbers that look nice on a ruler, in exact arithmetic.
-/

namespace KssUtil.Numeric

open KssUtil.Foundation KssUtil.Time

/-- The most significant digit, promoted to a 1, 2 or 5, or to the 1 of the next power. -/
def promote (msd : ℤ) : ℤ :=
  if msd > 5 then 10
  else if msd > 2 then 5
  else if msd > 1 then 2
  else msd

/-- `floor(log(originalNumber) / log(10))` is the greatest `k` with `10 ^ k` not above the
number. -/
def niceNumber (originalNumber : ℚ) : ℚ :=
  let mag := Int.log 10 originalNumber
  let magPower : ℚ := 10 ^ mag
  let msd := roundHalfAway (originalNumber / magPower)
  promote msd * magPower

/-- The exponent is the one that is computed with logarithms. -/
theorem log_eq_floor {x : ℚ} (hx : 0 < x) : Int.log 10 x = ⌊Real.log x / Real.log 10⌋ := by
  have hreal : (0 : ℝ) < x := Rat.cast_pos.mpr hx
  have hfloor := Real.floor_logb_natCast (b := 10) hreal.le
  rw [Real.logb, Nat.cast_ofNat] at hfloor
  rw [hfloor]
  have hlo : ((10 : ℕ) : ℚ) ^ Int.log 10 x ≤ x := Int.zpow_log_le_self (by norm_num) hx
  have hhi : x < ((10 : ℕ) : ℚ) ^ (Int.log 10 x + 1) := Int.lt_zpow_succ_log_self (by norm_num) x
  rw [← Rat.cast_le (K := ℝ)] at hlo
  rw [← Rat.cast_lt (K := ℝ)] at hhi
  push_cast at hlo hhi
  symm
  apply log_eq_of_bounds (by norm_num) hreal
  · exact_mod_cast hlo
  · exact_mod_cast hhi

/-- `niceNumber` of a number of one digit in front of the point. -/
def niceDigit (m : ℚ) : ℚ := promote (roundHalfAway m)

theorem niceNumber_eq_byDecade (x : ℚ) : niceNumber x = byDecade 10 niceDigit x := by
  rw [byDecade, mantissa, niceDigit, niceNumber]
  norm_num

/-! ## One decade -/

section

variable {m n : ℚ}

/-- A half is rounded up. -/
theorem lt_roundHalfAway_iff (hm : 0 ≤ m) (k : ℤ) : k < roundHalfAway m ↔ k + 1 / 2 ≤ m := by
  rw [roundHalfAway_of_nonneg hm, ← Int.add_one_le_iff, Int.le_floor]
  push_cast
  constructor <;> intro h <;> linarith

/-- The thresholds of the cascade, on the number itself. -/
theorem niceDigit_eq (hlo : 1 ≤ m) :
    niceDigit m =
      if 11 / 2 ≤ m then 10 else if 5 / 2 ≤ m then 5 else if 3 / 2 ≤ m then 2 else 1 := by
  have hm : 0 ≤ m := by linarith
  have h5 : roundHalfAway m > 5 ↔ 11 / 2 ≤ m := by
    rw [gt_iff_lt, lt_roundHalfAway_iff hm]
    norm_num
  have h2 : roundHalfAway m > 2 ↔ 5 / 2 ≤ m := by
    rw [gt_iff_lt, lt_roundHalfAway_iff hm]
    norm_num
  have h1 : roundHalfAway m > 1 ↔ 3 / 2 ≤ m := by
    rw [gt_iff_lt, lt_roundHalfAway_iff hm]
    norm_num
  have h0 : 0 < roundHalfAway m := by
    rw [lt_roundHalfAway_iff hm]
    push_cast
    linarith
  unfold niceDigit promote
  simp only [h5, h2]
  split
  · norm_num
  · split
    · norm_num
    · split
      · rename_i hgt
        rw [if_pos (h1.mp hgt)]
        norm_num
      · rename_i hle
        have hone : roundHalfAway m = 1 := by omega
        rw [if_neg (mt h1.mpr hle), hone, Int.cast_one]

theorem niceDigit_bounds (hlo : 1 ≤ m) : 1 ≤ niceDigit m ∧ niceDigit m ≤ 10 := by
  rw [niceDigit_eq hlo]
  split_ifs <;> norm_num

theorem niceDigit_ratio (hlo : 1 ≤ m) (hhi : m < 10) :
    2 / 3 * m < niceDigit m ∧ niceDigit m ≤ 2 * m := by
  rw [niceDigit_eq hlo]
  split_ifs <;> constructor <;> linarith

theorem niceDigit_mono (hlo : 1 ≤ m) (hmn : m ≤ n) : niceDigit m ≤ niceDigit n := by
  rw [niceDigit_eq hlo, niceDigit_eq (hlo.trans hmn)]
  split_ifs <;> linarith

theorem niceDigit_mem (hlo : 1 ≤ m) :
    niceDigit m = 1 ∨ niceDigit m = 2 ∨ niceDigit m = 5 ∨ niceDigit m = 10 := by
  rw [niceDigit_eq hlo]
  split_ifs <;> simp

theorem niceDigit_self {d : ℚ} (h : d = 1 ∨ d = 2 ∨ d = 5) : niceDigit d = d := by
  rcases h with rfl | rfl | rfl <;> rw [niceDigit_eq (by norm_num)] <;> norm_num

end

/-! ## All decades -/

/-- 1, 2 or 5 times a power of ten -/
def IsNice (x : ℚ) : Prop := ∃ k : ℤ, x = 1 * 10 ^ k ∨ x = 2 * 10 ^ k ∨ x = 5 * 10 ^ k

section

variable {x y : ℚ}

theorem niceNumber_isNice (hx : 0 < x) : IsNice (niceNumber x) := by
  have hlo : 1 ≤ mantissa 10 x := one_le_mantissa (by norm_num) hx
  rw [niceNumber_eq_byDecade, byDecade]
  push_cast
  rcases niceDigit_mem hlo with h | h | h | h <;> rw [h]
  · exact ⟨Int.log 10 x, Or.inl rfl⟩
  · exact ⟨Int.log 10 x, Or.inr (Or.inl rfl)⟩
  · exact ⟨Int.log 10 x, Or.inr (Or.inr rfl)⟩
  · refine ⟨Int.log 10 x + 1, Or.inl ?_⟩
    rw [zpow_add_one₀ (by norm_num), one_mul, mul_comm]

/-- A number whose digit is nice stays as it is. -/
theorem niceNumber_of_digit {d : ℚ} (hlo : 1 ≤ d) (hhi : d < 10) (hd : niceDigit d = d) (k : ℤ) :
    niceNumber (d * 10 ^ k) = d * 10 ^ k := by
  have h := byDecade_mul_zpow (b := 10) (g := niceDigit) (by norm_num) hlo
    (by exact_mod_cast hhi) k
  rw [hd] at h
  rw [niceNumber_eq_byDecade]
  exact_mod_cast h

theorem niceNumber_of_isNice (h : IsNice x) : niceNumber x = x := by
  obtain ⟨k, rfl | rfl | rfl⟩ := h
  · exact niceNumber_of_digit (by norm_num) (by norm_num) (niceDigit_self (Or.inl rfl)) k
  · exact niceNumber_of_digit (by norm_num) (by norm_num) (niceDigit_self (Or.inr (Or.inl rfl))) k
  · exact niceNumber_of_digit (by norm_num) (by norm_num) (niceDigit_self (Or.inr (Or.inr rfl))) k

theorem niceNumber_scale (hx : 0 < x) (k : ℤ) :
    niceNumber (x * 10 ^ k) = niceNumber x * 10 ^ k := by
  have h := byDecade_scale (b := 10) (g := niceDigit) (by norm_num) hx k
  rw [niceNumber_eq_byDecade, niceNumber_eq_byDecade]
  exact_mod_cast h

theorem niceNumber_ratio (hx : 0 < x) :
    2 / 3 * x < niceNumber x ∧ niceNumber x ≤ 2 * x := by
  rw [niceNumber_eq_byDecade]
  apply byDecade_ratio (by norm_num) _ hx
  intro m hlo hhi
  exact niceDigit_ratio hlo (by exact_mod_cast hhi)

theorem niceNumber_mono (hx : 0 < x) (hxy : x ≤ y) : niceNumber x ≤ niceNumber y := by
  rw [niceNumber_eq_byDecade, niceNumber_eq_byDecade]
  apply byDecade_mono (by norm_num) _ _ hx hxy
  · intro m hlo _
    exact_mod_cast niceDigit_bounds hlo
  · intro m n hlo hmn _
    exact niceDigit_mono hlo hmn

end

/-- **Nice numbers.**  In exact arithmetic the result has the form that is promised, is near
the number, and depends on it as a scale should. -/
theorem niceNumber_spec {x : ℚ} (hx : 0 < x) :
    IsNice (niceNumber x) ∧
      2 / 3 * x < niceNumber x ∧ niceNumber x ≤ 2 * x ∧
      niceNumber (niceNumber x) = niceNumber x ∧
      (∀ k : ℤ, niceNumber (x * 10 ^ k) = niceNumber x * 10 ^ k) ∧
      ∀ y, x ≤ y → niceNumber x ≤ niceNumber y := by
  obtain ⟨hlo, hhi⟩ := niceNumber_ratio hx
  exact ⟨niceNumber_isNice hx, hlo, hhi, niceNumber_of_isNice (niceNumber_isNice hx),
    niceNumber_scale hx, fun _ => niceNumber_mono hx⟩

/-- From 5.4 to 5.5 the result goes from 5 to 10. -/
theorem niceNumber_spec_tie :
    2 / 3 * (27 / 5) < niceNumber (27 / 5) ∧ niceNumber (27 / 5) ≤ niceNumber (11 / 2) := by
  obtain ⟨_, hlo, _, _, _, hmono⟩ := niceNumber_spec (x := 27 / 5) (by norm_num)
  exact ⟨hlo, hmono (11 / 2) (by norm_num)⟩

end KssUtil.Numeric

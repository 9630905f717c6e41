import Mathlib.Data.Int.Log

/-!
# Functions of the leading digits

A positive number is a mantissa between 1 and the base, scaled by a power of the base.  What
a function of the mantissa does in one decade carries over to all of them.
-/

namespace KssUtil.Foundation

variable {R : Type} [Field R] [LinearOrder R] [IsStrictOrderedRing R] [FloorSemiring R]

def mantissa (b : ℕ) (x : R) : R := x / (b : R) ^ Int.log b x

/-- `g` of the mantissa, in the decade of `x`. -/
def byDecade (b : ℕ) (g : R → R) (x : R) : R := g (mantissa b x) * (b : R) ^ Int.log b x

variable {b : ℕ} {g : R → R} {x y : R}

theorem zpow_base_pos (hb : 1 < b) (k : ℤ) : 0 < (b : R) ^ k :=
  zpow_pos (Nat.cast_pos.mpr (Nat.zero_lt_of_lt hb)) k

theorem mantissa_mul (hb : 1 < b) (x : R) : mantissa b x * (b : R) ^ Int.log b x = x :=
  div_mul_cancel₀ x (zpow_base_pos hb _).ne'

theorem one_le_mantissa (hb : 1 < b) (hx : 0 < x) : 1 ≤ mantissa b x := by
  rw [mantissa, le_div_iff₀ (zpow_base_pos hb _), one_mul]
  exact Int.zpow_log_le_self hb hx

theorem mantissa_lt (hb : 1 < b) (x : R) : mantissa b x < b := by
  have hne : (b : R) ≠ 0 := (Nat.cast_pos.mpr (Nat.zero_lt_of_lt hb)).ne'
  rw [mantissa, div_lt_iff₀ (zpow_base_pos hb _), mul_comm, ← zpow_add_one₀ hne]
  exact Int.lt_zpow_succ_log_self hb x

/-- The decade is the one whose ends are around the number. -/
theorem log_eq_of_bounds (hb : 1 < b) (hx : 0 < x) {k : ℤ} (hlo : (b : R) ^ k ≤ x)
    (hhi : x < (b : R) ^ (k + 1)) : Int.log b x = k := by
  have hle := (Int.zpow_le_iff_le_log hb hx).mp hlo
  have hlt := (Int.lt_zpow_iff_log_lt hb hx).mp hhi
  exact le_antisymm (Int.lt_add_one_iff.mp hlt) hle

theorem log_mul_zpow (hb : 1 < b) {m : R} (hlo : 1 ≤ m) (hhi : m < b) (k : ℤ) :
    Int.log b (m * (b : R) ^ k) = k := by
  have hne : (b : R) ≠ 0 := (Nat.cast_pos.mpr (Nat.zero_lt_of_lt hb)).ne'
  have hpos := zpow_base_pos (R := R) hb k
  apply log_eq_of_bounds hb (mul_pos (zero_lt_one.trans_le hlo) hpos)
  · exact le_mul_of_one_le_left hpos.le hlo
  · rw [zpow_add_one₀ hne, mul_comm ((b : R) ^ k)]
    exact mul_lt_mul_of_pos_right hhi hpos

theorem mantissa_mul_zpow (hb : 1 < b) {m : R} (hlo : 1 ≤ m) (hhi : m < b) (k : ℤ) :
    mantissa b (m * (b : R) ^ k) = m := by
  rw [mantissa, log_mul_zpow hb hlo hhi, mul_div_cancel_right₀ m (zpow_base_pos hb k).ne']

/-- The value at a mantissa in a decade. -/
theorem byDecade_mul_zpow (hb : 1 < b) {m : R} (hlo : 1 ≤ m) (hhi : m < b) (k : ℤ) :
    byDecade b g (m * (b : R) ^ k) = g m * (b : R) ^ k := by
  rw [byDecade, mantissa_mul_zpow hb hlo hhi, log_mul_zpow hb hlo hhi]

/-- Scaling by a power of the base changes the decade only. -/
theorem byDecade_scale (hb : 1 < b) (hx : 0 < x) (k : ℤ) :
    byDecade b g (x * (b : R) ^ k) = byDecade b g x * (b : R) ^ k := by
  have hne : (b : R) ≠ 0 := (Nat.cast_pos.mpr (Nat.zero_lt_of_lt hb)).ne'
  have hscaled : x * (b : R) ^ k = mantissa b x * (b : R) ^ (Int.log b x + k) := by
    rw [zpow_add₀ hne, ← mul_assoc, mantissa_mul hb]
  rw [hscaled, byDecade_mul_zpow hb (one_le_mantissa hb hx) (mantissa_lt hb x), byDecade,
    zpow_add₀ hne, mul_assoc]

/-- Bounds by a ratio need only be shown for mantissas. -/
theorem byDecade_ratio (hb : 1 < b) {lo hi : R}
    (hg : ∀ m : R, 1 ≤ m → m < b → lo * m < g m ∧ g m ≤ hi * m) (hx : 0 < x) :
    lo * x < byDecade b g x ∧ byDecade b g x ≤ hi * x := by
  have hpos := zpow_base_pos (R := R) hb (Int.log b x)
  obtain ⟨hlo, hhi⟩ := hg _ (one_le_mantissa hb hx) (mantissa_lt hb x)
  have hratio : ∀ r : R, r * x = r * mantissa b x * (b : R) ^ Int.log b x := by
    intro r
    rw [mul_assoc, mantissa_mul hb]
  rw [hratio lo, hratio hi, byDecade]
  exact ⟨mul_lt_mul_of_pos_right hlo hpos, mul_le_mul_of_nonneg_right hhi hpos.le⟩

/-- A function that is monotone in a decade, and stays in it up to the beginning of the next,
is monotone. -/
theorem byDecade_mono (hb : 1 < b) (hg : ∀ m : R, 1 ≤ m → m < b → 1 ≤ g m ∧ g m ≤ b)
    (hmono : ∀ m n : R, 1 ≤ m → m ≤ n → n < b → g m ≤ g n) (hx : 0 < x) (hxy : x ≤ y) :
    byDecade b g x ≤ byDecade b g y := by
  have hne : (b : R) ≠ 0 := (Nat.cast_pos.mpr (Nat.zero_lt_of_lt hb)).ne'
  have hone : (1 : R) ≤ b := Nat.one_le_cast.mpr hb.le
  have hmx := one_le_mantissa hb hx
  have hmy := one_le_mantissa hb (hx.trans_le hxy)
  have hpx := zpow_base_pos (R := R) hb (Int.log b x)
  have hpy := zpow_base_pos (R := R) hb (Int.log b y)
  rcases (Int.log_mono_right (b := b) hx hxy).lt_or_eq with hlt | heq
  · calc byDecade b g x ≤ b * (b : R) ^ Int.log b x :=
          mul_le_mul_of_nonneg_right (hg _ hmx (mantissa_lt hb x)).2 hpx.le
      _ = (b : R) ^ (Int.log b x + 1) := by rw [zpow_add_one₀ hne, mul_comm]
      _ ≤ (b : R) ^ Int.log b y := zpow_le_zpow_right₀ hone (Int.add_one_le_iff.mpr hlt)
      _ ≤ byDecade b g y :=
          le_mul_of_one_le_left hpy.le (hg _ hmy (mantissa_lt hb y)).1
  · rw [byDecade, byDecade, heq]
    apply mul_le_mul_of_nonneg_right _ hpy.le
    apply hmono _ _ hmx _ (mantissa_lt hb y)
    rw [mantissa, mantissa, heq]
    exact div_le_div_of_nonneg_right hxy hpy.le

end KssUtil.Foundation

import KssUtil.Foundation.Numeral
import KssUtil.Libc.Exceptions
import Mathlib.Algebra.Order.Floor.Defs
import Mathlib.Algebra.Order.Floor.Ring
import Mathlib.Data.Rat.Floor
import Mathlib.Tactic.Linarith
import Mathlib.Tactic.FieldSimp

/-!
# Durations (timeutil.hpp)

A duration type is a representation and a period in seconds; a value is its
count.  Arithmetic in `long double` is exact, so it is done in the rationals.
-/

namespace KssUtil.Time

open KssUtil.Libc

/-- A conversion to an integer type: towards zero. -/
def truncate (q : ℚ) : ℤ := if 0 ≤ q then ⌊q⌋ else -⌊-q⌋

/-- `std::round`: halves go away from zero. -/
def roundHalfAway (q : ℚ) : ℤ := if 0 ≤ q then ⌊q + 1 / 2⌋ else -⌊-q + 1 / 2⌋

/-- An integer type of at least one bit. -/
structure Rep where
  signed : Bool
  valueBits : ℕ
deriving DecidableEq, Repr

namespace Rep

def int64 : Rep := ⟨true, 63⟩

def uint64 : Rep := ⟨false, 64⟩

def min (r : Rep) : ℤ := if r.signed then -(2 ^ r.valueBits : ℕ) else 0

def max (r : Rep) : ℤ := (2 ^ r.valueBits : ℕ) - 1

/-- A conversion to the type: the value is reduced to its range. -/
def wrap (r : Rep) (n : ℤ) : ℤ := r.min + (n - r.min) % (r.max - r.min + 1)

theorem min_nonpos (r : Rep) : r.min ≤ 0 := by
  unfold min
  split
  · exact neg_nonpos.mpr (by positivity)
  · exact Int.le_refl 0

theorem max_nonneg (r : Rep) : 0 ≤ r.max := by
  have hpos : 1 ≤ 2 ^ r.valueBits := Nat.one_le_two_pow
  exact Int.sub_nonneg_of_le (Int.ofNat_le.mpr hpos)

theorem wrap_eq {r : Rep} {n : ℤ} (h : r.min ≤ n ∧ n ≤ r.max) : r.wrap n = n := by
  have hmod : (n - r.min) % (r.max - r.min + 1) = n - r.min :=
    Int.emod_eq_of_lt (by omega) (by omega)
  rw [wrap, hmod]
  omega

end Rep

/-- `std::chrono::duration<Rep, ratio<num, den>>` -/
structure DurationType where
  rep : Rep
  num : ℕ
  den : ℕ
  num_pos : 0 < num
  den_pos : 0 < den

namespace DurationType

def nanoseconds : DurationType := ⟨Rep.int64, 1, 1000000000, by decide, by decide⟩
def microseconds : DurationType := ⟨Rep.int64, 1, 1000000, by decide, by decide⟩
def milliseconds : DurationType := ⟨Rep.int64, 1, 1000, by decide, by decide⟩
def seconds : DurationType := ⟨Rep.int64, 1, 1, by decide, by decide⟩
def minutes : DurationType := ⟨Rep.int64, 60, 1, by decide, by decide⟩
def hours : DurationType := ⟨Rep.int64, 3600, 1, by decide, by decide⟩

/-- The count is one the type has. -/
def InRange (D : DurationType) (n : ℤ) : Prop := D.rep.min ≤ n ∧ n ≤ D.rep.max

instance (D : DurationType) (n : ℤ) : Decidable (D.InRange n) :=
  inferInstanceAs (Decidable (_ ∧ _))

/-- The count of `To` that is as long as `n` of `D`. -/
def convertTo (D To : DurationType) (n : ℤ) : ℚ := n * (D.num * To.den : ℕ) / (D.den * To.num : ℕ)

/-- An instant, in seconds, in ticks. -/
def ticks (D : DurationType) (q : ℚ) : ℚ := q * D.den / D.num

/-- The instant is inside the range of the type. -/
def Reaches (D : DurationType) (q : ℚ) : Prop := D.rep.min ≤ D.ticks q ∧ D.ticks q ≤ D.rep.max

theorem convertTo_seconds (D : DurationType) (t : ℤ) :
    DurationType.seconds.convertTo D t = D.ticks t := by
  show (t : ℚ) * (1 * D.den : ℕ) / (1 * D.num : ℕ) = _
  rw [Nat.one_mul, Nat.one_mul]
  rfl

end DurationType

def checkedDurationCast (To D : DurationType) (dtn : ℤ) : Except Exn ℤ :=
  let s := D.convertTo To dtn
  if s < To.rep.min ∨ s > To.rep.max then throw .overflowError
  else return truncate s

/-- `std::chrono::duration_cast`, in integers of 64 bits. -/
def durationCast (To D : DurationType) (n : ℤ) : ℤ :=
  let num := D.num * To.den
  let den := D.den * To.num
  let g := Nat.gcd num den
  To.rep.wrap ((Rep.int64.wrap (n * (num / g : ℕ))).tdiv (den / g : ℕ))

/-! ## Laws -/

/-- The exact length, truncated, if the type reaches that far. -/
theorem checkedDurationCast_eq (To D : DurationType) (n : ℤ) :
    checkedDurationCast To D n =
      if (To.rep.min : ℚ) ≤ D.convertTo To n ∧ D.convertTo To n ≤ To.rep.max then
        .ok (truncate (D.convertTo To n))
      else .error .overflowError := by
  rw [checkedDurationCast]
  by_cases hout : D.convertTo To n < To.rep.min ∨ D.convertTo To n > To.rep.max
  · rw [if_pos hout, if_neg]
    · rfl
    · rintro ⟨hlo, hhi⟩
      rcases hout with hout | hout
      · exact absurd hlo (not_le.mpr hout)
      · exact absurd hhi (not_le.mpr hout)
  · rw [if_neg hout,
      if_pos ⟨not_lt.mp fun h => hout (Or.inl h), not_lt.mp fun h => hout (Or.inr h)⟩]
    rfl

theorem durationCast_zero (To D : DurationType) : durationCast To D 0 = 0 := by
  unfold durationCast
  dsimp only
  rw [zero_mul, Rep.wrap_eq ⟨Rep.min_nonpos _, Rep.max_nonneg _⟩, Int.zero_tdiv,
    Rep.wrap_eq ⟨Rep.min_nonpos _, Rep.max_nonneg _⟩]

/-- Whole seconds are converted if the type reaches them. -/
theorem checkedDurationCast_seconds (D : DurationType) (t : ℤ) :
    (D.Reaches t → checkedDurationCast D .seconds t = .ok (truncate (D.ticks t))) ∧
      (¬ D.Reaches t → checkedDurationCast D .seconds t = .error .overflowError) := by
  rw [checkedDurationCast_eq, D.convertTo_seconds]
  exact ⟨fun h => if_pos h, fun h => if_neg h⟩

theorem truncate_div (n : ℤ) {k : ℕ} (hk : 0 < k) : truncate (n / k) = n.tdiv k := by
  have hkq : (0 : ℚ) < k := Nat.cast_pos.mpr hk
  rcases lt_or_ge n 0 with hn | hn
  · have hq : ¬ (0 : ℚ) ≤ n / k := not_le.mpr (div_neg_of_neg_of_pos (Int.cast_lt_zero.mpr hn) hkq)
    have hneg : -((n : ℚ) / k) = ((-n : ℤ) : ℚ) / k := by
      rw [Int.cast_neg, neg_div]
    have hdiv : (-n).tdiv k = -n / k := Int.tdiv_eq_ediv_of_nonneg (by omega)
    rw [truncate, if_neg hq, hneg, Rat.floor_intCast_div_natCast, ← hdiv, Int.neg_tdiv, neg_neg]
  · have hq : (0 : ℚ) ≤ n / k := div_nonneg (Int.cast_nonneg hn) hkq.le
    rw [truncate, if_pos hq, Rat.floor_intCast_div_natCast, Int.tdiv_eq_ediv_of_nonneg hn]

theorem truncate_intCast (n : ℤ) : truncate n = n := by
  rw [truncate]
  split
  · exact Int.floor_intCast n
  · rw [← Int.cast_neg, Int.floor_intCast, neg_neg]

@[simp] theorem int64_min : Rep.int64.min = -9223372036854775808 := by decide

@[simp] theorem int64_max : Rep.int64.max = 9223372036854775807 := by decide

/-- A cast to a period that is `k` times as long. -/
theorem durationCast_of_multiple {To D : DurationType} {k : ℕ}
    (h : D.den * To.num = D.num * To.den * k) (n : ℤ) :
    durationCast To D n = To.rep.wrap ((Rep.int64.wrap n).tdiv k) := by
  have hpos : 0 < D.num * To.den := Nat.mul_pos D.num_pos To.den_pos
  have hgcd : Nat.gcd (D.num * To.den) (D.num * To.den * k) = D.num * To.den :=
    Nat.gcd_eq_left (Dvd.intro k rfl)
  unfold durationCast
  dsimp only
  rw [h, hgcd, Nat.div_self hpos, Nat.mul_div_cancel_left k hpos, Nat.cast_one, mul_one]

theorem roundHalfAway_intCast (n : ℤ) : roundHalfAway n = n := by
  have hhalf : ∀ m : ℤ, ⌊(m : ℚ) + 1 / 2⌋ = m := by
    intro m
    rw [Int.floor_eq_iff]
    constructor <;> linarith
  rw [roundHalfAway]
  split
  · exact hhalf n
  · rw [← Int.cast_neg, hhalf, neg_neg]

theorem roundHalfAway_zero : roundHalfAway 0 = 0 := by
  rw [← Int.cast_zero, roundHalfAway_intCast]

theorem roundHalfAway_of_nonneg {q : ℚ} (h : 0 ≤ q) : roundHalfAway q = ⌊q + 1 / 2⌋ := if_pos h

/-- The nearest integer. -/
theorem roundHalfAway_bounds {z : ℚ} (hz : 0 ≤ z) :
    (roundHalfAway z : ℚ) ≤ z + 1 / 2 ∧ z + 1 / 2 < roundHalfAway z + 1 := by
  rw [roundHalfAway_of_nonneg hz]
  exact ⟨Int.floor_le _, Int.lt_floor_add_one _⟩

theorem roundHalfAway_mem {z : ℚ} (hlo : 0 ≤ z) (hhi : z ≤ 1000000000) :
    0 ≤ roundHalfAway z ∧ roundHalfAway z ≤ 1000000000 := by
  rw [roundHalfAway_of_nonneg hlo]
  refine ⟨Int.floor_nonneg.mpr (by linarith), Int.le_of_lt_add_one (Int.floor_lt.mpr ?_)⟩
  push_cast
  linarith

/-- A checked cast to a period that is `k` times as long. -/
theorem checkedDurationCast_of_multiple {To D : DurationType} {k : ℕ} {n : ℤ}
    (h : D.den * To.num = D.num * To.den * k) (hlo : To.rep.min * k ≤ n)
    (hhi : n ≤ To.rep.max * k) : checkedDurationCast To D n = .ok (n.tdiv k) := by
  have hpos : 0 < D.num * To.den := Nat.mul_pos D.num_pos To.den_pos
  have hk : 0 < k := by
    rcases Nat.eq_zero_or_pos k with rfl | hk
    · have := Nat.mul_pos D.den_pos To.num_pos
      rw [h, Nat.mul_zero] at this
      exact absurd this (Nat.lt_irrefl 0)
    · exact hk
  have hkq : (0 : ℚ) < k := Nat.cast_pos.mpr hk
  have hs : D.convertTo To n = n / k := by
    have hq : (0 : ℚ) < (D.num * To.den : ℕ) := Nat.cast_pos.mpr hpos
    rw [DurationType.convertTo, h, Nat.cast_mul (D.num * To.den) k,
      mul_comm (n : ℚ), mul_div_mul_left _ _ hq.ne']
  have hmin : ¬ (n : ℚ) / k < To.rep.min := by
    rw [not_lt, le_div_iff₀ hkq]
    exact_mod_cast hlo
  have hmax : ¬ (n : ℚ) / k > To.rep.max := by
    rw [gt_iff_lt, not_lt, div_le_iff₀ hkq]
    exact_mod_cast hhi
  rw [checkedDurationCast, hs, if_neg (not_or.mpr ⟨hmin, hmax⟩), truncate_div n hk]
  rfl

/-- A checked cast to a period that `k` of make up the old one. -/
theorem checkedDurationCast_of_divisor {To D : DurationType} {k : ℕ} {n : ℤ}
    (h : D.num * To.den = D.den * To.num * k) :
    checkedDurationCast To D n = if To.InRange (n * k) then .ok (n * k)
      else .error .overflowError := by
  have hpos : 0 < D.den * To.num := Nat.mul_pos D.den_pos To.num_pos
  have hq : ((D.den * To.num : ℕ) : ℚ) ≠ 0 := (Nat.cast_pos.mpr hpos).ne'
  have hs : D.convertTo To n = ((n * k : ℤ) : ℚ) := by
    rw [DurationType.convertTo, h, Nat.cast_mul (D.den * To.num) k, Int.cast_mul, Int.cast_natCast,
      ← mul_assoc, mul_right_comm, mul_div_assoc, div_self hq, mul_one]
  have hrange : ¬ (((n * k : ℤ) : ℚ) < To.rep.min ∨ ((n * k : ℤ) : ℚ) > To.rep.max) ↔
      To.InRange (n * k) := by
    rw [not_or, not_lt, gt_iff_lt, not_lt, Int.cast_le, Int.cast_le]
    exact Iff.rfl
  rw [checkedDurationCast, hs]
  split
  · rename_i hout
    rw [if_neg fun hin => hrange.mpr hin hout]
    rfl
  · rename_i hin
    rw [if_pos (hrange.mp hin), truncate_intCast]
    rfl

/-- A checked cast to the same type. -/
theorem checkedDurationCast_self (D : DurationType) (n : ℤ) :
    checkedDurationCast D D n = if D.InRange n then .ok n else .error .overflowError := by
  have hone : D.num * D.den = D.den * D.num * 1 := by rw [Nat.mul_one, Nat.mul_comm]
  rw [checkedDurationCast_of_divisor hone, Nat.cast_one, mul_one]

end KssUtil.Time

import Mathlib.Data.FinEnum
import Mathlib.Data.Nat.Notation
import Mathlib.Order.WellFounded

/-!
# The circle of numbers modulo `2 ^ (w + 1)`

A number comes before another one if the difference, read as a signed number, is negative.
This is an order of any set of numbers in one half of the circle, and of no other set.
-/

namespace KssUtil.Foundation

variable {w : ℕ}

/-- How far it is from `x` up to `y`. -/
def ahead (x y : BitVec (w + 1)) : ℕ := (y - x).toNat

/-- `y` is ahead of `x` by no more than half of the circle. -/
def Before (x y : BitVec (w + 1)) : Prop := 0 < ahead x y ∧ ahead x y ≤ 2 ^ w

variable {x y z : BitVec (w + 1)}

theorem ahead_lt (x y : BitVec (w + 1)) : ahead x y < 2 ^ (w + 1) := (y - x).isLt

theorem ahead_self (x : BitVec (w + 1)) : ahead x x = 0 := by
  rw [ahead, BitVec.sub_self]
  rfl

theorem bitVec_eq_of_sub {n : ℕ} {x y : BitVec n} (h : x - y = 0) : x = y :=
  (BitVec.sub_eq_iff_eq_add.mp h).trans (BitVec.zero_add y)

theorem ahead_eq_zero : ahead x y = 0 ↔ x = y := by
  constructor
  · intro h
    have hzero : y - x = 0#(w + 1) := BitVec.eq_of_toNat_eq h
    exact (bitVec_eq_of_sub hzero).symm
  · rintro rfl
    exact ahead_self x

theorem ahead_pos : 0 < ahead x y ↔ x ≠ y := by
  rw [Nat.pos_iff_ne_zero, Ne, ahead_eq_zero]

theorem ahead_add (x y z : BitVec (w + 1)) :
    ahead x z = (ahead x y + ahead y z) % 2 ^ (w + 1) := by
  have hsum : z - x = (y - x) + (z - y) := by
    rw [BitVec.add_comm, BitVec.sub_eq_add_neg, BitVec.sub_eq_add_neg z y,
      BitVec.sub_eq_add_neg y x, BitVec.add_assoc, ← BitVec.add_assoc (-y), BitVec.add_left_neg,
      BitVec.zero_add]
  rw [ahead, hsum, BitVec.toNat_add]
  rfl

/-- There and back is once around. -/
theorem ahead_add_swap (h : x ≠ y) : ahead x y + ahead y x = 2 ^ (w + 1) := by
  have hround := ahead_add x y x
  have hpos := ahead_pos.mpr h
  have hxy := ahead_lt x y
  have hyx := ahead_lt y x
  rw [ahead_self] at hround
  have hdvd : 2 ^ (w + 1) ∣ ahead x y + ahead y x := Nat.dvd_of_mod_eq_zero hround.symm
  exact Nat.eq_of_dvd_of_lt_two_mul (by omega) hdvd (by omega)

/-! ## The order by the sign of the difference -/

theorem before_iff : Before x y ↔ (x - y).toInt < 0 := by
  have hhalf : 2 ^ (w + 1) = 2 * 2 ^ w := Nat.pow_succ'
  rw [BitVec.toInt_neg_iff, Before]
  by_cases h : x = y
  · subst h
    have hpow := Nat.two_pow_pos w
    have hzero : (x - x).toNat = 0 := ahead_self x
    rw [ahead_self, hzero]
    omega
  · have hround := ahead_add_swap h
    have hpos := ahead_pos.mpr h
    have hback : (x - y).toNat = ahead y x := rfl
    rw [hback]
    omega

theorem not_before_self (x : BitVec (w + 1)) : ¬ Before x x := by
  intro h
  exact absurd (ahead_self x) (Nat.ne_of_gt h.1)

theorem before_total (h : x ≠ y) : Before x y ∨ Before y x := by
  have hhalf : 2 ^ (w + 1) = 2 * 2 ^ w := Nat.pow_succ'
  have hround := ahead_add_swap h
  have hxy := ahead_pos.mpr h
  have hyx := ahead_pos.mpr (Ne.symm h)
  unfold Before
  omega

/-- Only numbers opposite to each other come before one another. -/
theorem before_swap_iff (h : x ≠ y) : (Before x y ↔ ¬ Before y x) ↔ ahead x y ≠ 2 ^ w := by
  have hhalf : 2 ^ (w + 1) = 2 * 2 ^ w := Nat.pow_succ'
  have hround := ahead_add_swap h
  have hxy := ahead_pos.mpr h
  have hyx := ahead_pos.mpr (Ne.symm h)
  unfold Before
  omega

theorem sign_sub_of_before (h : Before x y) : (x - y).toInt.sign = -1 :=
  Int.sign_eq_neg_one_of_neg (before_iff.mp h)

theorem sign_sub_of_not_before (hne : x ≠ y) (h : ¬ Before x y) : (x - y).toInt.sign = 1 := by
  rw [before_iff] at h
  have hzero : (x - y).toInt ≠ 0 := by
    intro hzero
    have heq : x - y = 0#(w + 1) := BitVec.eq_of_toInt_eq (by rw [hzero, BitVec.toInt_zero])
    exact hne (bitVec_eq_of_sub heq)
  apply Int.sign_eq_one_of_pos
  omega

/-- The two differences of numbers have opposite signs, unless the numbers are opposite to
each other. -/
theorem sign_sub_swap_iff (h : x ≠ y) :
    (x - y).toInt.sign = -(y - x).toInt.sign ↔ ahead x y ≠ 2 ^ w := by
  rw [← before_swap_iff h]
  by_cases hxy : Before x y
  · rw [sign_sub_of_before hxy]
    by_cases hyx : Before y x
    · rw [sign_sub_of_before hyx]
      simp [hxy, hyx]
    · rw [sign_sub_of_not_before h.symm hyx]
      simp [hxy, hyx]
  · have hyx : Before y x := (before_total h).resolve_left hxy
    rw [sign_sub_of_not_before h hxy, sign_sub_of_before hyx]
    simp [hxy, hyx]

/-- No number comes before one that comes before it, unless they are opposite. -/
theorem ne_of_before_of_before (hxy : Before x y) (hyz : Before y z) (hne : ahead x y ≠ 2 ^ w) :
    x ≠ z := by
  rintro rfl
  exact (before_swap_iff (ahead_pos.mp hxy.1)).mpr hne |>.mp hxy hyz

/-- Two steps make one as long as they stay in one half of the circle. -/
theorem before_trans_iff (hxy : Before x y) (hyz : Before y z) (hne : ahead x y ≠ 2 ^ w) :
    Before x z ↔ ahead x y + ahead y z ≤ 2 ^ w := by
  have hhalf : 2 ^ (w + 1) = 2 * 2 ^ w := Nat.pow_succ'
  obtain ⟨hxy0, hxy1⟩ := hxy
  obtain ⟨hyz0, hyz1⟩ := hyz
  have hsum : ahead x z = ahead x y + ahead y z := by
    rw [ahead_add x y z, Nat.mod_eq_of_lt (by omega)]
  unfold Before
  omega

/-! ## Sets in one half -/

/-- The numbers from `base` on, less than half of the circle. -/
def InHalf (base x : BitVec (w + 1)) : Prop := ahead base x < 2 ^ w

/-- In one half, the difference is that of the distances from its start. -/
theorem sub_toInt_of_inHalf {base : BitVec (w + 1)} (hx : InHalf base x) (hy : InHalf base y) :
    (x - y).toInt = (ahead base x : ℤ) - ahead base y := by
  have hhalf : 2 ^ (w + 1) = 2 * 2 ^ w := Nat.pow_succ'
  have hadd := ahead_add base y x
  have hback : (x - y).toNat = ahead y x := rfl
  have hlt := ahead_lt y x
  unfold InHalf at hx hy
  rw [BitVec.toInt_eq_toNat_cond, hback]
  rcases Nat.lt_or_ge (ahead base y + ahead y x) (2 ^ (w + 1)) with hsum | hsum
  · rw [Nat.mod_eq_of_lt hsum] at hadd
    rw [if_pos (by omega)]
    omega
  · rw [Nat.mod_eq_sub_mod hsum, Nat.mod_eq_of_lt (by omega)] at hadd
    rw [if_neg (by omega)]
    omega

theorem before_iff_of_inHalf {base : BitVec (w + 1)} (hx : InHalf base x) (hy : InHalf base y) :
    Before x y ↔ ahead base x < ahead base y := by
  rw [before_iff, sub_toInt_of_inHalf hx hy]
  omega

/-- No two numbers of one half are opposite to each other. -/
theorem ahead_ne_of_inHalf {base : BitVec (w + 1)} (hx : InHalf base x) (hy : InHalf base y) :
    ahead x y ≠ 2 ^ w := by
  intro hopp
  have hne : x ≠ y := ahead_pos.mp (hopp ▸ Nat.two_pow_pos w)
  have htotal := before_total hne
  refine (before_swap_iff hne).mp ?_ hopp
  rw [before_iff_of_inHalf hx hy, before_iff_of_inHalf hy hx] at htotal ⊢
  omega

/-- A strict order by the sign of the difference has a first value, and all are in the half
that begins there. -/
theorem exists_inHalf {α : Type} [Nonempty α] (f : α → BitVec (w + 1))
    (hopp : ∀ a b, ahead (f a) (f b) ≠ 2 ^ w)
    (htrans : ∀ a b c, Before (f a) (f b) → Before (f b) (f c) → Before (f a) (f c)) :
    ∃ base, ∀ a, InHalf base (f a) := by
  let r : Set.range f → Set.range f → Prop := fun x y => Before x.1 y.1
  have : IsTrans (Set.range f) r := ⟨by
    rintro ⟨_, a, rfl⟩ ⟨_, b, rfl⟩ ⟨_, c, rfl⟩
    exact htrans a b c⟩
  have : Std.Irrefl r := ⟨fun x => not_before_self x.1⟩
  have hwf : WellFounded r := Finite.wellFounded_of_trans_of_irrefl r
  obtain ⟨⟨_, a, rfl⟩, _, hmin⟩ := hwf.has_min Set.univ Set.univ_nonempty
  refine ⟨f a, ?_⟩
  intro b
  have hnot : ¬ Before (f b) (f a) := hmin ⟨f b, b, rfl⟩ (Set.mem_univ _)
  by_cases heq : f a = f b
  · rw [InHalf, heq, ahead_self]
    exact Nat.two_pow_pos w
  · rcases before_total heq with h | h
    · exact Nat.lt_of_le_of_ne h.2 (hopp a b)
    · exact absurd h hnot

/-- **One half of the circle.**  The values of `f` are in one half if and only if the sign of
the difference is a strict order of them. -/
theorem exists_inHalf_iff {α : Type} [Nonempty α] (f : α → BitVec (w + 1)) :
    (∃ base, ∀ a, InHalf base (f a)) ↔
      (∀ a b, ahead (f a) (f b) ≠ 2 ^ w) ∧
        ∀ a b c, Before (f a) (f b) → Before (f b) (f c) → Before (f a) (f c) := by
  constructor
  · rintro ⟨base, hbase⟩
    refine ⟨fun a b => ahead_ne_of_inHalf (hbase a) (hbase b), ?_⟩
    intro a b c hab hbc
    rw [before_iff_of_inHalf (hbase _) (hbase _)] at hab hbc ⊢
    exact Nat.lt_trans hab hbc
  · rintro ⟨hopp, htrans⟩
    exact exists_inHalf f hopp htrans

end KssUtil.Foundation

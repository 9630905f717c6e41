import Mathlib.Algebra.Order.Group.Abs
import Mathlib.Algebra.Order.Ring.Int
import Mathlib.Data.Nat.Notation

/-!
# Random access iterators (iterator.hpp)

The comparison and the arithmetic of the three templates.  Positions are taken modulo
`2 ^ 64`, differences are signed.
-/

namespace KssUtil.Iterators

/-- The templates have one arithmetic, and differ in what they hand out. -/
inductive Template
  | randomAccess
  | constRandomAccess
  | copyRandomAccess
  deriving DecidableEq

/-- `container` is the address of the container, or null. -/
structure AccessIterator (t : Template) where
  container : Option ℕ
  pos : UInt64
  deriving DecidableEq

abbrev RandomAccessIterator := AccessIterator .randomAccess
abbrev ConstRandomAccessIterator := AccessIterator .constRandomAccess
abbrev CopyRandomAccessIterator := AccessIterator .copyRandomAccess

namespace AccessIterator

variable {t : Template}

/-- The constructor from a container of `size` elements. -/
def ofContainer (address : ℕ) (size : UInt64) (isEnd : Bool) : AccessIterator t :=
  ⟨some address, if isEnd then size else 0⟩

def equal (it rhs : AccessIterator t) : Bool :=
  it.container = rhs.container && it.pos = rhs.pos

/-- `operator<` does not look at the containers. -/
def less (it rhs : AccessIterator t) : Bool := it.pos < rhs.pos

def increment (it : AccessIterator t) : AccessIterator t := { it with pos := it.pos + 1 }

def decrement (it : AccessIterator t) : AccessIterator t := { it with pos := it.pos - 1 }

/-- `operator+=`.  The negation wraps; in C++ that of the least difference is undefined. -/
def addAssign (it : AccessIterator t) (n : Int64) : AccessIterator t :=
  if 0 ≤ n then { it with pos := it.pos + n.toUInt64 }
  else { it with pos := it.pos - (-n).toUInt64 }

def plus (it : AccessIterator t) (n : Int64) : AccessIterator t := addAssign it n

/-- `operator+` outside of the class -/
def plusLeft (n : Int64) (c : AccessIterator t) : AccessIterator t := plus c n

def subAssign (it : AccessIterator t) (n : Int64) : AccessIterator t :=
  if 0 ≤ n then { it with pos := it.pos - n.toUInt64 }
  else { it with pos := it.pos + (-n).toUInt64 }

def minus (it : AccessIterator t) (n : Int64) : AccessIterator t := subAssign it n

/-- `operator-` of two iterators.  The negation is the one of `size_t`. -/
def distance (it rhs : AccessIterator t) : Int64 :=
  (if it.pos ≥ rhs.pos then it.pos - rhs.pos else -(rhs.pos - it.pos)).toInt64

/-! ## Positions -/

section

variable (it jt : AccessIterator t) (n m : Int64)

theorem neg_toUInt64 : (-n).toUInt64 = -n.toUInt64 := rfl

theorem toInt64_neg (x : UInt64) : (-x).toInt64 = -x.toInt64 := rfl

theorem toUInt64_add : (n + m).toUInt64 = n.toUInt64 + m.toUInt64 := rfl

/-- Both branches of a step forward add the difference, as a number modulo `2 ^ 64`. -/
theorem plus_eq : plus it n = { it with pos := it.pos + n.toUInt64 } := by
  unfold plus addAssign
  split
  · rfl
  · rw [neg_toUInt64, UInt64.sub_neg]

theorem minus_eq : minus it n = { it with pos := it.pos - n.toUInt64 } := by
  unfold minus subAssign
  split
  · rfl
  · rw [neg_toUInt64, UInt64.add_neg_eq_sub]

/-- Both branches of the distance are the difference of the positions modulo `2 ^ 64`. -/
theorem distance_eq : distance it jt = (it.pos - jt.pos).toInt64 := by
  unfold distance
  split
  · rfl
  · rw [UInt64.neg_sub]

@[simp]
theorem pos_plus : (plus it n).pos = it.pos + n.toUInt64 := by rw [plus_eq]

@[simp]
theorem container_plus : (plus it n).container = it.container := by rw [plus_eq]

theorem increment_eq : increment it = plus it 1 := by
  rw [plus_eq]
  rfl

theorem decrement_eq : decrement it = minus it 1 := by
  rw [minus_eq]
  rfl

theorem plus_plus : plus (plus it n) m = plus it (n + m) := by
  rw [plus_eq, plus_eq it (n + m), pos_plus, container_plus, toUInt64_add, UInt64.add_assoc]

theorem minus_plus : minus (plus it n) n = it := by
  rw [minus_eq, pos_plus, container_plus, UInt64.add_sub_cancel]

theorem distance_plus : distance (plus it n) it = n := by
  rw [distance_eq, pos_plus, UInt64.add_comm, UInt64.add_sub_cancel, Int64.toInt64_toUInt64]

theorem distance_swap : distance jt it = -distance it jt := by
  rw [distance_eq, distance_eq, ← UInt64.neg_sub, toInt64_neg]

end

section

variable {it jt : AccessIterator t}

theorem plus_distance (h : it.container = jt.container) : plus it (distance jt it) = jt := by
  rw [plus_eq, distance_eq, UInt64.toUInt64_toInt64, UInt64.add_comm, UInt64.sub_add_cancel, h]

/-- Up to half of the range, a distance is the difference of the positions as numbers. -/
theorem toInt_distance (h : |(it.pos.toNat : ℤ) - jt.pos.toNat| < 2 ^ 63) :
    (distance it jt).toInt = it.pos.toNat - jt.pos.toNat := by
  have hit := it.pos.toNat_lt
  have hjt := jt.pos.toNat_lt
  rw [abs_lt] at h
  have hbits : (distance it jt).toInt = (it.pos.toBitVec - jt.pos.toBitVec).toInt := by
    rw [distance_eq]
    rfl
  rw [hbits, BitVec.toInt_eq_toNat_cond, BitVec.toNat_sub]
  simp only [UInt64.toNat_toBitVec]
  omega

/-- The arithmetic of the three templates is that of an affine space.  A step by the sum of
two differences is wanted only where the sum is a difference. -/
theorem iterator_arithmetic (n m : Int64) (hcontainer : it.container = jt.container)
    (hpos : |(it.pos.toNat : ℤ) - jt.pos.toNat| < 2 ^ 63) :
    (∀ k : Int64, k.toInt = n.toInt + m.toInt → plus (plus it n) m = plus it k) ∧
    minus (plus it n) n = it ∧
    distance (plus it n) it = n ∧
    plus it (distance jt it) = jt ∧
    distance jt it = -distance it jt ∧
    plusLeft n it = plus it n ∧
    (less it jt = true ↔ 0 < distance jt it) ∧
    (distance it jt).toInt = it.pos.toNat - jt.pos.toNat := by
  refine ⟨?_, minus_plus it n, distance_plus it n, plus_distance hcontainer,
    distance_swap it jt, rfl, ?_, toInt_distance hpos⟩
  · intro k hk
    have hsum : k = n + m := by
      rw [← Int64.ofInt_toInt k, hk, Int64.ofInt_add, Int64.ofInt_toInt, Int64.ofInt_toInt]
    rw [hsum]
    exact plus_plus it n m
  · have hback : (distance jt it).toInt = jt.pos.toNat - it.pos.toNat := by
      rw [abs_sub_comm] at hpos
      exact toInt_distance hpos
    rw [less, decide_eq_true_eq, Int64.lt_iff_toInt_lt, hback, UInt64.lt_iff_toNat_lt]
    simp

end

/-- Backward from position 5 to position 2. -/
theorem iterator_arithmetic_backward :
    plus (t := .randomAccess) ⟨some 1, 5⟩ (distance (t := .randomAccess) ⟨some 1, 2⟩
        ⟨some 1, 5⟩) = ⟨some 1, 2⟩ ∧
      (distance (t := .randomAccess) ⟨some 1, 5⟩ ⟨some 1, 2⟩).toInt = 5 - 2 := by
  obtain ⟨_, _, _, hplus, _, _, _, hdistance⟩ :=
    @iterator_arithmetic .randomAccess ⟨some 1, 5⟩ ⟨some 1, 2⟩ (-3) 2 rfl (by decide)
  exact ⟨hplus, hdistance⟩

end AccessIterator

end KssUtil.Iterators

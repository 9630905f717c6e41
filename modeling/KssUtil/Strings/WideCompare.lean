import KssUtil.Foundation.CircularOrder
import Mathlib.Algebra.Order.Ring.Int

/-!
# Case-insensitive comparison of wide strings (stringutil.cpp)

`icompare` and `iequal` for `std::wstring`.  The characters are compared as `wint_t`, which
is unsigned and has 32 bits, so that the difference of two of them wraps before it becomes
an `int`.
-/

namespace KssUtil.Strings

open KssUtil.Foundation

/-- `std::wstring`; a `wchar_t` is given by its bits, which are those of the `wint_t`. -/
abbrev WString := List (BitVec 32)

/-- The loop of `_icompare`, for `wint_t` -/
def wideDifference (fn : BitVec 32 → BitVec 32) : WString → WString → BitVec 32
  | x :: a, y :: b =>
      let diff := fn x - fn y
      if diff ≠ 0 then diff else wideDifference fn a b
  | _, _ => 0

/-- `icompare(const wstring&, const wstring&)` -/
def icompareWide (towlower : BitVec 32 → BitVec 32) (a b : WString) : ℤ :=
  let diff := wideDifference towlower a b
  if diff ≠ 0 then diff.toInt
  else if a.length < b.length then -1
  else if a.length > b.length then 1
  else 0

/-- `iequal(const wstring&, const wstring&)` -/
def iequalWide (towlower : BitVec 32 → BitVec 32) (a b : WString) : Bool :=
  icompareWide towlower a b = 0

section

variable {towlower : BitVec 32 → BitVec 32} {a b c : WString} {x y : BitVec 32}

theorem icompareWide_cons_ne (h : towlower x ≠ towlower y) :
    icompareWide towlower (x :: a) (y :: b) = (towlower x - towlower y).toInt := by
  have hdiff : towlower x - towlower y ≠ 0 := mt bitVec_eq_of_sub h
  rw [icompareWide, wideDifference, if_pos hdiff, if_pos hdiff]

theorem icompareWide_cons_eq (h : towlower x = towlower y) :
    icompareWide towlower (x :: a) (y :: b) = icompareWide towlower a b := by
  have hdiff : towlower x - towlower y = 0 := by
    rw [h]
    exact BitVec.sub_self _
  rw [icompareWide, icompareWide, wideDifference, if_neg (not_not.mpr hdiff), List.length_cons,
    List.length_cons]
  simp only [Nat.succ_lt_succ_iff, gt_iff_lt]

theorem icompareWide_nil_left (b : WString) :
    icompareWide towlower [] b = if b = [] then 0 else -1 := by
  cases b with
  | nil => rfl
  | cons y b => rfl

theorem icompareWide_nil_right (a : WString) :
    icompareWide towlower a [] = if a = [] then 0 else 1 := by
  cases a with
  | nil => rfl
  | cons x a => rfl

/-- Equality does not depend on the order: a difference is 0 of equal characters only. -/
theorem icompareWide_eq_zero : ∀ a b,
    icompareWide towlower a b = 0 ↔ a.map towlower = b.map towlower := by
  intro a
  induction a with
  | nil =>
      intro b
      rw [icompareWide_nil_left]
      cases b <;> simp
  | cons x a ih =>
      intro b
      cases b with
      | nil =>
          rw [icompareWide_nil_right]
          simp
      | cons y b =>
          rw [List.map_cons, List.map_cons, List.cons_eq_cons]
          by_cases hxy : towlower x = towlower y
          · rw [icompareWide_cons_eq hxy, ih]
            simp [hxy]
          · rw [icompareWide_cons_ne hxy]
            refine iff_of_false ?_ fun h => hxy h.1
            intro hzero
            have hdiff : towlower x - towlower y = 0 := BitVec.eq_of_toInt_eq hzero
            exact hxy (bitVec_eq_of_sub hdiff)

theorem iequalWide_iff :
    iequalWide towlower a b = true ↔ a.map towlower = b.map towlower := by
  rw [iequalWide, decide_eq_true_eq]
  exact icompareWide_eq_zero a b

theorem icompareWide_cons_lt_zero (h : towlower x ≠ towlower y) :
    icompareWide towlower (x :: a) (y :: b) < 0 ↔ Before (towlower x) (towlower y) := by
  rw [icompareWide_cons_ne h, before_iff]

end

/-! ## When the comparison is an order -/

variable (towlower : BitVec 32 → BitVec 32) (a b c : WString)

/-- What a comparison of three strings has to obey. -/
structure Consistent : Prop where
  opposite : (icompareWide towlower a b).sign = -(icompareWide towlower b a).sign
  trans : icompareWide towlower a b < 0 → icompareWide towlower b c < 0 →
    icompareWide towlower a c < 0

/-- In lower case, `a` goes on with `x` and `b` with `y` behind the same characters `p`. -/
def Meet (p : List (BitVec 32)) (x y : BitVec 32) : Prop :=
  p ++ [x] <+: a.map towlower ∧ p ++ [y] <+: b.map towlower

/-- Where the strings part, their characters are not opposite to each other on the circle of
`wint_t`, and those of the three of them are in one half. -/
structure PartInOneHalf : Prop where
  notOpposite : ∀ p x y, Meet towlower a b p x y → ahead x y ≠ 2 ^ 31
  oneHalf : ∀ p x y z, Meet towlower a b p x y → Meet towlower b c p y z →
    Before x y → Before y z → ahead x y + ahead y z ≤ 2 ^ 31

section

variable {towlower a b c} {p : List (BitVec 32)} {x y z u v : BitVec 32}

theorem not_meet_nil_left : ¬ Meet towlower [] b p x y := by
  intro h
  simpa using h.1

theorem not_meet_nil_right : ¬ Meet towlower a [] p x y := by
  intro h
  simpa using h.2

theorem meet_cons_nil : Meet towlower (u :: a) (v :: b) [] x y ↔
    x = towlower u ∧ y = towlower v := by
  simp [Meet]

theorem meet_heads : Meet towlower (u :: a) (v :: b) [] (towlower u) (towlower v) :=
  meet_cons_nil.mpr ⟨rfl, rfl⟩

theorem meet_cons_cons : Meet towlower (u :: a) (v :: b) (z :: p) x y ↔
    z = towlower u ∧ z = towlower v ∧ Meet towlower a b p x y := by
  simp only [Meet, List.map_cons, List.cons_append, List.cons_prefix_cons]
  tauto

/-- The first difference decides. -/
theorem icompareWide_of_meet (hne : x ≠ y) : ∀ p a b, Meet towlower a b p x y →
    icompareWide towlower a b = (x - y).toInt := by
  intro p
  induction p with
  | nil =>
      intro a b h
      cases a with
      | nil => exact absurd h not_meet_nil_left
      | cons u a =>
          cases b with
          | nil => exact absurd h not_meet_nil_right
          | cons v b =>
              obtain ⟨rfl, rfl⟩ := meet_cons_nil.mp h
              exact icompareWide_cons_ne hne
  | cons z p ih =>
      intro a b h
      cases a with
      | nil => exact absurd h not_meet_nil_left
      | cons u a =>
          cases b with
          | nil => exact absurd h not_meet_nil_right
          | cons v b =>
              obtain ⟨hu, hv, h⟩ := meet_cons_cons.mp h
              rw [icompareWide_cons_eq (hu.symm.trans hv)]
              exact ih a b h

theorem opposite_iff : ∀ a b,
    (icompareWide towlower a b).sign = -(icompareWide towlower b a).sign ↔
      ∀ p x y, Meet towlower a b p x y → ahead x y ≠ 2 ^ 31 := by
  intro a
  induction a with
  | nil =>
      intro b
      refine iff_of_true ?_ fun p x y h => absurd h not_meet_nil_left
      rw [icompareWide_nil_left, icompareWide_nil_right]
      split <;> rfl
  | cons u a ih =>
      intro b
      cases b with
      | nil => exact iff_of_true rfl fun p x y h => absurd h not_meet_nil_right
      | cons v b =>
          by_cases huv : towlower u = towlower v
          · rw [icompareWide_cons_eq huv, icompareWide_cons_eq huv.symm, ih]
            constructor
            · intro h p x y hmeet
              cases p with
              | nil =>
                  obtain ⟨rfl, rfl⟩ := meet_cons_nil.mp hmeet
                  rw [huv, ahead_self]
                  exact (Nat.two_pow_pos 31).ne
              | cons z p => exact h p x y (meet_cons_cons.mp hmeet).2.2
            · intro h p x y hmeet
              exact h (towlower u :: p) x y (meet_cons_cons.mpr ⟨rfl, huv, hmeet⟩)
          · rw [icompareWide_cons_ne huv, icompareWide_cons_ne (Ne.symm huv),
              sign_sub_swap_iff huv]
            constructor
            · intro h p x y hmeet
              cases p with
              | nil =>
                  obtain ⟨rfl, rfl⟩ := meet_cons_nil.mp hmeet
                  exact h
              | cons z p =>
                  obtain ⟨hu, hv, _⟩ := meet_cons_cons.mp hmeet
                  exact absurd (hu.symm.trans hv) huv
            · intro h
              exact h [] _ _ meet_heads

/-- Behind equal heads, the strings part where their tails do. -/
theorem PartInOneHalf.tail {w : BitVec 32}
    (h : PartInOneHalf towlower (u :: a) (v :: b) (w :: c)) (huv : towlower u = towlower v)
    (hvw : towlower v = towlower w) : PartInOneHalf towlower a b c where
  notOpposite p x y hmeet :=
    h.notOpposite (towlower u :: p) x y (meet_cons_cons.mpr ⟨rfl, huv, hmeet⟩)
  oneHalf p x y z hab hbc :=
    h.oneHalf (towlower u :: p) x y z (meet_cons_cons.mpr ⟨rfl, huv, hab⟩)
      (meet_cons_cons.mpr ⟨huv, huv.trans hvw, hbc⟩)

/-- The induction is on the three strings at once: where two of them still agree, the third
decides. -/
theorem trans_of_partInOneHalf : ∀ a b c, PartInOneHalf towlower a b c →
    icompareWide towlower a b < 0 → icompareWide towlower b c < 0 →
    icompareWide towlower a c < 0 := by
  intro a
  induction a with
  | nil =>
      intro b c _ hab hbc
      cases c with
      | nil =>
          rw [icompareWide_nil_right] at hbc
          split at hbc <;> omega
      | cons w c =>
          rw [icompareWide_nil_left, if_neg (List.cons_ne_nil w c)]
          omega
  | cons u a ih =>
      intro b c h hab hbc
      cases b with
      | nil =>
          rw [icompareWide_nil_right, if_neg (List.cons_ne_nil u a)] at hab
          omega
      | cons v b =>
          cases c with
          | nil =>
              rw [icompareWide_nil_right, if_neg (List.cons_ne_nil v b)] at hbc
              omega
          | cons w c =>
              by_cases huv : towlower u = towlower v
              · by_cases hvw : towlower v = towlower w
                · rw [icompareWide_cons_eq huv] at hab
                  rw [icompareWide_cons_eq hvw] at hbc
                  rw [icompareWide_cons_eq (huv.trans hvw)]
                  exact ih b c (h.tail huv hvw) hab hbc
                · rw [icompareWide_cons_lt_zero hvw] at hbc
                  rw [icompareWide_cons_lt_zero (huv ▸ hvw), huv]
                  exact hbc
              · rw [icompareWide_cons_lt_zero huv] at hab
                by_cases hvw : towlower v = towlower w
                · rw [icompareWide_cons_lt_zero (hvw ▸ huv), ← hvw]
                  exact hab
                · rw [icompareWide_cons_lt_zero hvw] at hbc
                  have hac : Before (towlower u) (towlower w) :=
                    (before_trans_iff hab hbc (h.notOpposite [] _ _ meet_heads)).mpr
                      (h.oneHalf [] _ _ _ meet_heads meet_heads hab hbc)
                  have huw : towlower u ≠ towlower w := ahead_pos.mp hac.1
                  exact (icompareWide_cons_lt_zero huw).mpr hac

theorem consistent_iff : Consistent towlower a b c ↔ PartInOneHalf towlower a b c := by
  constructor
  · intro h
    have hopp := (opposite_iff a b).mp h.opposite
    refine ⟨hopp, ?_⟩
    intro p x y z hab hbc hxy hyz
    have hne := hopp p x y hab
    have hac : Meet towlower a c p x z := ⟨hab.1, hbc.2⟩
    have hlt := h.trans
    rw [icompareWide_of_meet (ahead_pos.mp hxy.1) p a b hab,
      icompareWide_of_meet (ahead_pos.mp hyz.1) p b c hbc,
      icompareWide_of_meet (ne_of_before_of_before hxy hyz hne) p a c hac,
      ← before_iff, ← before_iff, ← before_iff] at hlt
    exact (before_trans_iff hxy hyz hne).mp (hlt hxy hyz)
  · intro h
    exact ⟨(opposite_iff a b).mpr h.notOpposite, trans_of_partInOneHalf a b c h⟩

theorem Meet.exists_lowered (h : Meet towlower a b p x y) :
    ∃ ch ch', x = towlower ch ∧ y = towlower ch' := by
  have hx : x ∈ a.map towlower := h.1.subset (by simp)
  have hy : y ∈ b.map towlower := h.2.subset (by simp)
  obtain ⟨ch, _, rfl⟩ := List.mem_map.mp hx
  obtain ⟨ch', _, rfl⟩ := List.mem_map.mp hy
  exact ⟨ch, ch', rfl, rfl⟩

end

/-- **The order of wide strings.**  The comparison is consistent on three strings if and only
if they part in one half of the circle, and on all strings if and only if everything that
`towlower` returns is in one half. -/
theorem icompareWide_consistent_iff :
    (∀ a b c, Consistent towlower a b c ↔ PartInOneHalf towlower a b c) ∧
      ((∀ a b c, Consistent towlower a b c) ↔
        ∃ base, ∀ ch, InHalf base (towlower ch)) := by
  refine ⟨fun a b c => consistent_iff, ?_⟩
  rw [exists_inHalf_iff (w := 31)]
  constructor
  · intro h
    have hpart := fun a b c => consistent_iff.mp (h a b c)
    have hopp : ∀ u v, ahead (towlower u) (towlower v) ≠ 2 ^ 31 := fun u v =>
      (hpart [u] [v] []).notOpposite [] _ _ meet_heads
    refine ⟨hopp, ?_⟩
    intro u v w huv hvw
    exact (before_trans_iff huv hvw (hopp u v)).mpr ((hpart [u] [v] [w]).oneHalf [] _ _ _
      meet_heads meet_heads huv hvw)
  · rintro ⟨hopp, htrans⟩ a b c
    refine consistent_iff.mpr ⟨?_, ?_⟩
    · intro p x y hmeet
      obtain ⟨u, v, rfl, rfl⟩ := hmeet.exists_lowered
      exact hopp u v
    · intro p x y z hab hbc hxy hyz
      obtain ⟨u, v, rfl, rfl⟩ := hab.exists_lowered
      obtain ⟨_, w, _, rfl⟩ := hbc.exists_lowered
      exact (before_trans_iff hxy hyz (hopp u v)).mp (htrans u v w hxy hyz)

/-- Two strings that come before each other, and three that go round, for a `towlower` that
changes nothing. -/
theorem icompareWide_cycles :
    ¬ (∀ a b, (icompareWide id a b).sign = -(icompareWide id b a).sign) ∧
      ¬ (∀ a b c, icompareWide id a b < 0 → icompareWide id b c < 0 →
        icompareWide id a c < 0) := by
  constructor
  · intro h
    exact absurd (h [0x80000000] [0]) (by decide)
  · intro h
    exact absurd (h [0] [0x60000000] [0xC0000000] (by decide) (by decide)) (by decide)
end KssUtil.Strings

import KssUtil.Strings.BasicString
import Mathlib.Algebra.Order.Group.Abs
import Mathlib.Algebra.Order.Ring.Int
import Mathlib.Data.List.Lex

/-!
# Case-insensitive comparison (stringutil.cpp)

`icompare`, `iequal` and `toLower` for `std::string`, whose characters are signed.
They give one total preorder, the lexicographic order of the strings in lower case.
-/

namespace KssUtil.Strings

variable {lim : Limits} {χ : Type}

/-- `tolower` of the C locale -/
def tolower (c : ℤ) : ℤ := if 65 ≤ c ∧ c ≤ 90 then c + 32 else c

/-- `toLower(std::string&)`: what `tolower` returns is converted back to `char`. -/
def toLower (s : BasicString lim Int8) : BasicString lim Int8 :=
  ⟨s.chars.map fun ch => Int8.ofInt (tolower ch.toInt), (List.length_map _).trans_le s.length_le⟩

/-- The loop of `_icompare`: the first difference, or 0 at the end of the shorter string. -/
def firstDifference (fn : χ → ℤ) : List χ → List χ → ℤ
  | x :: a, y :: b =>
      let diff := fn x - fn y
      if diff ≠ 0 then diff else firstDifference fn a b
  | _, _ => 0

/-- `_icompare`; `fn` takes the character itself, and converts it. -/
def icompareBy (fn : χ → ℤ) (a b : List χ) : ℤ :=
  let diff := firstDifference fn a b
  if diff ≠ 0 then diff
  else if a.length < b.length then -1
  else if a.length > b.length then 1
  else 0

/-- A character as `icompare` sees it. -/
def lowered (ch : Int8) : ℤ := tolower ch.toInt

def icompare (a b : BasicString lim Int8) : ℤ := icompareBy lowered a.chars b.chars

def iequal (a b : BasicString lim Int8) : Bool := icompare a b = 0

/-- The characters as numbers, which is how `icompare` orders them. -/
def BasicString.values (s : BasicString lim Int8) : List ℤ := s.chars.map Int8.toInt

/-! ## The comparison of two lists -/

section

variable {fn : χ → ℤ} {a b : List χ} {x y : χ}

theorem icompareBy_cons_ne (h : fn x ≠ fn y) :
    icompareBy fn (x :: a) (y :: b) = fn x - fn y := by
  have hdiff : fn x - fn y ≠ 0 := sub_ne_zero.mpr h
  rw [icompareBy, firstDifference, if_pos hdiff, if_pos hdiff]

theorem icompareBy_cons_eq (h : fn x = fn y) :
    icompareBy fn (x :: a) (y :: b) = icompareBy fn a b := by
  have hdiff : fn x - fn y = 0 := sub_eq_zero.mpr h
  rw [icompareBy, icompareBy, firstDifference, if_neg (not_not.mpr hdiff), List.length_cons,
    List.length_cons]
  simp only [Nat.succ_lt_succ_iff, gt_iff_lt]

/-- A proper prefix comes first. -/
theorem icompareBy_nil_left (fn : χ → ℤ) (b : List χ) :
    icompareBy fn [] b = if b = [] then 0 else -1 := by
  cases b with
  | nil => rfl
  | cons y b => rfl

theorem icompareBy_nil_right (fn : χ → ℤ) (a : List χ) :
    icompareBy fn a [] = if a = [] then 0 else 1 := by
  cases a with
  | nil => rfl
  | cons x a => rfl

theorem icompareBy_lt_zero : ∀ a b, icompareBy fn a b < 0 ↔ a.map fn < b.map fn := by
  intro a
  induction a with
  | nil =>
      intro b
      rw [icompareBy_nil_left]
      cases b <;> simp
  | cons x a ih =>
      intro b
      cases b with
      | nil =>
          rw [icompareBy_nil_right]
          simp
      | cons y b =>
          rw [List.map_cons, List.map_cons, List.cons_lt_cons_iff]
          by_cases hxy : fn x = fn y
          · rw [icompareBy_cons_eq hxy, ih]
            simp [hxy]
          · rw [icompareBy_cons_ne hxy, sub_neg]
            simp [hxy]

/-- Exchanged arguments give the opposite. -/
theorem icompareBy_swap : ∀ a b, icompareBy fn b a = -icompareBy fn a b := by
  intro a
  induction a with
  | nil =>
      intro b
      rw [icompareBy_nil_left, icompareBy_nil_right]
      split <;> rfl
  | cons x a ih =>
      intro b
      cases b with
      | nil => rfl
      | cons y b =>
          by_cases hxy : fn x = fn y
          · rw [icompareBy_cons_eq hxy, icompareBy_cons_eq hxy.symm, ih]
          · rw [icompareBy_cons_ne hxy, icompareBy_cons_ne (Ne.symm hxy), neg_sub]

theorem icompareBy_pos : 0 < icompareBy fn a b ↔ b.map fn < a.map fn := by
  rw [← icompareBy_lt_zero, icompareBy_swap a b, neg_lt_zero]

theorem icompareBy_nonpos : icompareBy fn a b ≤ 0 ↔ a.map fn ≤ b.map fn := by
  rw [← not_lt, icompareBy_pos, not_lt]

theorem icompareBy_eq_zero : icompareBy fn a b = 0 ↔ a.map fn = b.map fn := by
  rw [le_antisymm_iff, le_antisymm_iff, icompareBy_nonpos, ← neg_nonpos, ← icompareBy_swap,
    icompareBy_nonpos]

/-- The result is a difference of two characters, or of no size. -/
theorem icompareBy_bounds {k : ℤ} (hk : 1 ≤ k) (hfn : ∀ x y, |fn x - fn y| ≤ k) :
    ∀ a b, |icompareBy fn a b| ≤ k := by
  intro a
  induction a with
  | nil =>
      intro b
      rw [icompareBy_nil_left]
      split
      · exact le_trans zero_le_one hk
      · exact hk
  | cons x a ih =>
      intro b
      cases b with
      | nil => exact hk
      | cons y b =>
          by_cases hxy : fn x = fn y
          · rw [icompareBy_cons_eq hxy]
            exact ih b
          · rw [icompareBy_cons_ne hxy]
            exact hfn x y

end

/-! ## Strings -/

theorem lowered_range (ch : Int8) : -2 ^ 7 ≤ lowered ch ∧ lowered ch < 2 ^ 7 := by
  have hmin := ch.le_toInt
  have hmax := ch.toInt_lt
  unfold lowered tolower
  split <;> omega

/-- The string in lower case has the values that are compared. -/
theorem toLower_values (s : BasicString lim Int8) :
    (toLower s).values = s.chars.map lowered := by
  rw [BasicString.values, toLower, List.map_map]
  apply List.map_congr_left
  intro ch _
  obtain ⟨hmin, hmax⟩ := lowered_range ch
  exact Int8.toInt_ofInt_of_le hmin hmax

theorem BasicString.values_inj {s t : BasicString lim Int8} : s.values = t.values ↔ s = t := by
  constructor
  · intro h
    apply BasicString.eq_of_chars
    exact List.map_injective_iff.mpr (fun _ _ => Int8.toInt_inj.mp) h
  · rintro rfl
    rfl

variable (a b c : BasicString lim Int8)

/-- The result is an `int`: no difference of two characters overflows. -/
theorem icompare_bounds : |icompare a b| ≤ 255 := by
  apply icompareBy_bounds
  · decide
  · intro x y
    obtain ⟨hminx, hmaxx⟩ := lowered_range x
    obtain ⟨hminy, hmaxy⟩ := lowered_range y
    rw [abs_le]
    omega

/-- **The case-insensitive order.**  `icompare` is a total preorder whose equivalence is
equality in lower case, and it is the lexicographic order of the strings in lower case. -/
theorem icompare_order :
    (icompare a b = 0 ↔ toLower a = toLower b) ∧
    (iequal a b = true ↔ toLower a = toLower b) ∧
    (icompare a b).sign = -(icompare b a).sign ∧
    (icompare a b ≤ 0 → icompare b c ≤ 0 → icompare a c ≤ 0) ∧
    (icompare a b < 0 ↔ (toLower a).values < (toLower b).values) ∧
    (0 < icompare a b ↔ (toLower b).values < (toLower a).values) := by
  have hzero : icompare a b = 0 ↔ toLower a = toLower b := by
    rw [← BasicString.values_inj, toLower_values, toLower_values]
    exact icompareBy_eq_zero
  refine ⟨hzero, ?_, ?_, ?_, ?_, ?_⟩
  · rw [iequal, decide_eq_true_eq]
    exact hzero
  · have hswap : icompare b a = -icompare a b := icompareBy_swap a.chars b.chars
    rw [hswap, Int.sign_neg, Int.neg_neg]
  · intro hab hbc
    exact icompareBy_nonpos.mpr (le_trans (icompareBy_nonpos.mp hab) (icompareBy_nonpos.mp hbc))
  · rw [toLower_values, toLower_values]
    exact icompareBy_lt_zero a.chars b.chars
  · rw [toLower_values, toLower_values]
    exact icompareBy_pos

end KssUtil.Strings

import KssUtil.Strings.Tokenizer
import Mathlib.Algebra.Order.Ring.Int
import Mathlib.Data.List.Infix
import Mathlib.Data.List.Lex

/-!
# `std::basic_string`

What the templates over strings use of it.  A pointer to characters is the list of
what can be read from there on.
-/

namespace KssUtil.Strings

/-- `max_size()` -/
structure Limits where
  maxSize : ℕ
  maxSize_lt : maxSize < npos

theorem gnuMaxSize_lt : 2 ^ 62 - 1 < npos := by decide

/-- Of `std::string` in the GNU library -/
def Limits.gnu : Limits := ⟨2 ^ 62 - 1, gnuMaxSize_lt⟩

/-- `basic_string<Char>`, for the characters of `χ` -/
structure BasicString (lim : Limits) (χ : Type) where
  chars : List χ
  length_le : chars.length ≤ lim.maxSize
deriving DecidableEq

/-- What the operations of a string and of its substrings end in.  The program is
terminated by a contract that fails; `undefined` is undefined behaviour, such as a read
behind the end of an object. -/
inductive Fault where
  | outOfRange
  | lengthError
  | terminated
  | undefined
deriving DecidableEq, Repr

variable {lim : Limits} {χ : Type}

/-- `sub` is in `s` at position `p`. -/
def OccursAt (s sub : List χ) (p : ℕ) : Prop := p ≤ s.length ∧ sub <+: s.drop p

instance [DecidableEq χ] (s sub : List χ) (p : ℕ) : Decidable (OccursAt s sub p) :=
  inferInstanceAs (Decidable (_ ∧ _))

namespace BasicString

theorem eq_of_chars {s t : BasicString lim χ} (h : s.chars = t.chars) : s = t := by
  cases s
  cases t
  cases h
  rfl

def length (s : BasicString lim χ) : ℕ := s.chars.length

/-- The characters and the null behind them. -/
def data [Zero χ] (s : BasicString lim χ) : List χ := s.chars ++ [0]

/-- `find(sub, pos)` -/
def find [DecidableEq χ] (s sub : BasicString lim χ) (pos : ℕ) : ℕ :=
  match (List.range (s.length + 1)).find? fun p => pos ≤ p ∧ OccursAt s.chars sub.chars p with
  | some p => p
  | none => npos

/-- `replace(pos, count, …)` with the characters `text` -/
def replace (s : BasicString lim χ) (pos count : ℕ) (text : List χ) :
    Except Fault (BasicString lim χ) :=
  let chars := s.chars.take pos ++ text ++ s.chars.drop (pos + count)
  if pos > s.length then throw .outOfRange
  else if h : chars.length ≤ lim.maxSize then return ⟨chars, h⟩
  else throw .lengthError

end BasicString

def emptyString : BasicString lim χ := ⟨[], Nat.zero_le _⟩

/-- The string "abc", of unsigned characters -/
def abc : BasicString Limits.gnu (Fin 256) := ⟨[97, 98, 99], Nat.le_of_ble_eq_true rfl⟩

/-- The string "yz" -/
def yz : BasicString Limits.gnu (Fin 256) := ⟨[121, 122], Nat.le_of_ble_eq_true rfl⟩

/-- The characters at `ptr`, up to the first null. -/
structure CString (χ : Type) [Zero χ] where
  text : List χ
  ne_zero : ∀ c ∈ text, c ≠ 0

/-- What can be read at a pointer to a C string. -/
def CString.data [Zero χ] (s : CString χ) : List χ := s.text ++ [0]

/-- `length` of the character traits -/
def CString.length [Zero χ] (s : CString χ) : ℕ := s.text.length

/-- `n` characters from a pointer on -/
def readChars (ptr : List χ) (n : ℕ) : Except Fault (List χ) :=
  if n ≤ ptr.length then return ptr.take n else throw .undefined

/-- The sign of the first difference. -/
def compareChars [LinearOrder χ] : List χ → List χ → ℤ
  | a :: p, b :: q => if a < b then -1 else if b < a then 1 else compareChars p q
  | _, _ => 0

/-- `compare(p, q, n)` of the character traits; only the sign of the result is used. -/
def Traits.compare [LinearOrder χ] (p q : List χ) (n : ℕ) : Except Fault ℤ := do
  return compareChars (← readChars p n) (← readChars q n)

section

variable {s sub : BasicString lim χ} {pos p : ℕ}

/-- No string is so long that a position in it is `npos`. -/
theorem BasicString.length_lt (s : BasicString lim χ) : s.length < npos :=
  lt_of_le_of_lt s.length_le lim.maxSize_lt

theorem OccursAt.add_length_le {xs ys : List χ} (h : OccursAt xs ys p) :
    p + ys.length ≤ xs.length := by
  have hlen := h.2.length_le
  rw [List.length_drop] at hlen
  have hp := h.1
  omega

/-- Nothing is found. -/
theorem BasicString.find_eq_npos [DecidableEq χ] :
    s.find sub pos = npos ↔ ∀ p, pos ≤ p → ¬ OccursAt s.chars sub.chars p := by
  have hlt := s.length_lt
  unfold find
  cases hfind : (List.range (s.length + 1)).find?
      fun p => decide (pos ≤ p ∧ OccursAt s.chars sub.chars p) with
  | none =>
      refine iff_of_true rfl ?_
      intro p hp hoccurs
      have hmem : p ∈ List.range (s.length + 1) :=
        List.mem_range.mpr (Nat.lt_succ_of_le hoccurs.1)
      exact List.find?_eq_none.mp hfind p hmem (decide_eq_true ⟨hp, hoccurs⟩)
  | some p =>
      have hp := List.mem_range.mp (List.mem_of_find?_eq_some hfind)
      have hoccurs := List.find?_some (p := fun p => decide (pos ≤ p ∧
        OccursAt s.chars sub.chars p)) hfind
      rw [decide_eq_true_eq] at hoccurs
      refine iff_of_false ?_ fun h => h p hoccurs.1 hoccurs.2
      dsimp only
      omega

/-- What is found is the first place from `pos` on. -/
theorem BasicString.find_spec [DecidableEq χ] (h : s.find sub pos ≠ npos) :
    pos ≤ s.find sub pos ∧ OccursAt s.chars sub.chars (s.find sub pos) ∧
      ∀ q, pos ≤ q → OccursAt s.chars sub.chars q → s.find sub pos ≤ q := by
  unfold find at h ⊢
  cases hfind : (List.range (s.length + 1)).find?
      fun p => decide (pos ≤ p ∧ OccursAt s.chars sub.chars p) with
  | none =>
      rw [hfind] at h
      exact absurd rfl h
  | some p =>
      have hoccurs := List.find?_some (p := fun p => decide (pos ≤ p ∧
        OccursAt s.chars sub.chars p)) hfind
      rw [decide_eq_true_eq] at hoccurs
      refine ⟨hoccurs.1, hoccurs.2, ?_⟩
      intro q hq hoccursq
      dsimp only
      by_contra hlt
      rw [List.find?_range_eq_some] at hfind
      have hfirst := hfind.2.2 q (not_le.mp hlt)
      rw [Bool.not_eq_true', decide_eq_false_iff_not] at hfirst
      exact hfirst ⟨hq, hoccursq⟩

theorem BasicString.length_le_data [Zero χ] (s : BasicString lim χ) :
    s.length ≤ s.data.length := by
  rw [data, List.length_append]
  exact Nat.le_add_right _ _

theorem BasicString.take_data [Zero χ] (s : BasicString lim χ) :
    s.data.take s.length = s.chars :=
  List.take_left

theorem CString.length_le_data [Zero χ] (s : CString χ) : s.length ≤ s.data.length := by
  rw [data, List.length_append]
  exact Nat.le_add_right _ _

theorem CString.take_data [Zero χ] (s : CString χ) : s.data.take s.length = s.text :=
  List.take_left

end

/-! ## Comparison of characters -/

section

variable [LinearOrder χ]

/-- What the first difference says about the lexicographic order. -/
theorem compareChars_cases : ∀ xs ys : List χ,
    (compareChars xs ys < 0 ∧ xs < ys) ∨ (0 < compareChars xs ys ∧ ys < xs) ∨
      (compareChars xs ys = 0 ∧ (xs < ys ↔ xs.length < ys.length) ∧
        (xs = ys ↔ xs.length = ys.length)) := by
  intro xs
  induction xs with
  | nil =>
      intro ys
      right; right
      cases ys <;> simp [compareChars]
  | cons x xs ih =>
      intro ys
      cases ys with
      | nil =>
          right; right
          simp [compareChars]
      | cons y ys =>
          rw [compareChars]
          rcases lt_trichotomy x y with hxy | rfl | hxy
          · left
            rw [if_pos hxy]
            exact ⟨by decide, List.cons_lt_cons_iff.mpr (Or.inl hxy)⟩
          · rw [if_neg (lt_irrefl x), if_neg (lt_irrefl x), List.cons_lt_cons_iff,
              List.cons_lt_cons_iff, List.cons.injEq, List.length_cons, List.length_cons]
            simp only [lt_irrefl, true_and, false_or, Nat.succ_lt_succ_iff, Nat.succ_inj]
            exact ih ys
          · right; left
            rw [if_neg (lt_asymm hxy), if_pos hxy]
            exact ⟨by decide, List.cons_lt_cons_iff.mpr (Or.inl hxy)⟩

/-- Characters behind the end of the shorter list are not looked at. -/
theorem compareChars_take : ∀ (k : ℕ) (xs ys : List χ), min xs.length ys.length ≤ k →
    compareChars (xs.take k) (ys.take k) = compareChars xs ys := by
  intro k
  induction k with
  | zero =>
      intro xs ys hk
      rcases Nat.min_eq_zero_iff.mp (Nat.le_zero.mp hk) with hxs | hys
      · rw [List.length_eq_zero_iff.mp hxs]
        cases ys <;> rfl
      · rw [List.length_eq_zero_iff.mp hys]
        cases xs <;> rfl
  | succ k ih =>
      intro xs ys hk
      cases xs with
      | nil => cases ys <;> rfl
      | cons x xs =>
          cases ys with
          | nil => rfl
          | cons y ys =>
              rw [List.take_succ_cons, List.take_succ_cons, compareChars, compareChars, ih]
              simpa using hk

/-- Both pointers lead to enough characters. -/
theorem Traits.compare_eq {p q : List χ} {n m : ℕ} (hp : n ≤ p.length) (hq : m ≤ q.length) :
    Traits.compare p q (min n m) = .ok (compareChars (p.take n) (q.take m)) := by
  have hleft : readChars p (min n m) = .ok (p.take (min n m)) :=
    if_pos (le_trans (Nat.min_le_left n m) hp)
  have hright : readChars q (min n m) = .ok (q.take (min n m)) :=
    if_pos (le_trans (Nat.min_le_right n m) hq)
  have hshort : min (p.take n).length (q.take m).length ≤ min n m := by
    rw [List.length_take, List.length_take]
    omega
  have hsame := compareChars_take (min n m) (p.take n) (q.take m) hshort
  rw [List.take_take, List.take_take, Nat.min_eq_left (Nat.min_le_left n m),
    Nat.min_eq_left (Nat.min_le_right n m)] at hsame
  rw [Traits.compare, hleft, hright, ← hsame]
  rfl

end
end KssUtil.Strings

import Mathlib.Algebra.Order.Field.Rat
import Mathlib.Data.List.Induction
import Mathlib.Data.List.TakeWhile
import Mathlib.Tactic.Common

/-!
# Decimal numerals as text

The value of a text of digits, and numerals padded with zeros to a width.
-/

namespace KssUtil.Foundation

/-- All characters are decimal digits. -/
def Digits (cs : List Char) : Prop := ∀ c ∈ cs, c.isDigit = true

instance (cs : List Char) : Decidable (Digits cs) := inferInstanceAs (Decidable (∀ c ∈ cs, _))

/-- The value of `v` with more digits. -/
def valueFrom (v : ℕ) (cs : List Char) : ℕ := Nat.ofDigitChars 10 cs v

def value (cs : List Char) : ℕ := valueFrom 0 cs

def digitValue (c : Char) : ℕ := c.toNat - '0'.toNat

/-- `n` in decimal, with leading zeros up to `w` digits. -/
def padded (w n : ℕ) : List Char := List.leftpad w '0' (Nat.toDigits 10 n)

section

variable {cs ds : List Char} {c : Char} {n w : ℕ}

theorem digits_nil : Digits [] := fun _ h => absurd h List.not_mem_nil

theorem digits_cons : Digits (c :: cs) ↔ c.isDigit = true ∧ Digits cs := List.forall_mem_cons

theorem digits_append : Digits (cs ++ ds) ↔ Digits cs ∧ Digits ds := List.forall_mem_append

theorem digitValue_lt (h : c.isDigit = true) : digitValue c < 10 := by
  rw [Char.isDigit, Bool.and_eq_true, decide_eq_true_eq, decide_eq_true_eq] at h
  have h9 : c.toNat ≤ 57 := h.2
  show c.toNat - 48 < 10
  omega

theorem valueFrom_nil (v : ℕ) : valueFrom v [] = v := rfl

theorem valueFrom_cons (v : ℕ) (c : Char) (cs : List Char) :
    valueFrom v (c :: cs) = valueFrom (v * 10 + digitValue c) cs := by
  rw [valueFrom, Nat.ofDigitChars_cons, Nat.mul_comm]
  rfl

theorem le_valueFrom (v : ℕ) (cs : List Char) : v ≤ valueFrom v cs := by
  induction cs generalizing v with
  | nil => exact Nat.le_refl v
  | cons c cs ih =>
      rw [valueFrom_cons]
      have := ih (v * 10 + digitValue c)
      omega

@[simp] theorem value_nil : value [] = 0 := rfl

theorem value_append (cs ds : List Char) :
    value (cs ++ ds) = value cs * 10 ^ ds.length + value ds := by
  rw [value, valueFrom, Nat.ofDigitChars_append, Nat.ofDigitChars_eq_ofDigitChars_zero,
    Nat.mul_comm]
  rfl

theorem value_singleton (c : Char) : value [c] = digitValue c := by
  rw [value, valueFrom, Nat.ofDigitChars_cons, Nat.ofDigitChars_nil, Nat.mul_zero, Nat.zero_add]
  rfl

theorem value_append_singleton (cs : List Char) (c : Char) :
    value (cs ++ [c]) = value cs * 10 + digitValue c := by
  rw [value_append, value_singleton, List.length_singleton, pow_one]

theorem value_lt (h : Digits cs) : value cs < 10 ^ cs.length := by
  induction cs using List.reverseRecOn with
  | nil => decide
  | append_singleton cs c ih =>
      obtain ⟨hcs, hc⟩ := digits_append.mp h
      have hlt := ih hcs
      have hd := digitValue_lt (hc c List.mem_cons_self)
      rw [value_append_singleton, List.length_append, List.length_singleton, pow_succ]
      omega

theorem value_replicate_zero (cs : List Char) (k : ℕ) :
    value (cs ++ List.replicate k '0') = value cs * 10 ^ k := by
  rw [value, valueFrom, Nat.ofDigitChars_append, Nat.ofDigitChars_replicate_zero, Nat.mul_comm]
  rfl

theorem digits_padded (w n : ℕ) : Digits (padded w n) := by
  intro c hc
  rw [padded, List.leftpad, List.mem_append, List.mem_replicate] at hc
  rcases hc with ⟨-, rfl⟩ | hc
  · decide
  · exact Nat.isDigit_of_mem_toDigits (by decide) (by decide) hc

theorem value_padded (w n : ℕ) : value (padded w n) = n := by
  rw [padded, List.leftpad, value, valueFrom, Nat.ofDigitChars_append,
    Nat.ofDigitChars_replicate_zero, Nat.mul_zero]
  exact Nat.ofDigitChars_ten_toDigits

theorem length_padded (hw : 0 < w) (h : n < 10 ^ w) : (padded w n).length = w := by
  rw [padded, List.length_leftpad]
  exact Nat.max_eq_left ((Nat.length_toDigits_le_iff (by decide) hw).mpr h)

theorem length_padded_le_iff {k : ℕ} (hw : w ≤ k) (hk : 0 < k) :
    (padded w n).length ≤ k ↔ n < 10 ^ k := by
  rw [padded, List.length_leftpad, Nat.max_le, Nat.length_toDigits_le_iff (by decide) hk]
  exact and_iff_right hw

/-! ### Without padding -/

theorem padded_one (n : ℕ) : padded 1 n = Nat.toDigits 10 n := by
  have hpos : 1 - (Nat.toDigits 10 n).length = 0 := Nat.sub_eq_zero_of_le Nat.length_toDigits_pos
  rw [padded, List.leftpad, hpos]
  rfl

theorem padded_one_ne_nil (n : ℕ) : padded 1 n ≠ [] := by
  rw [padded_one]
  exact Nat.toDigits_ne_nil

/-- Only zero begins with a zero. -/
theorem eq_zero_of_head_padded_one (h : (padded 1 n).head? = some '0') : n = 0 := by
  obtain ⟨ds, htext⟩ := List.head?_eq_some_iff.mp h
  have hds : Digits ds := by
    have := digits_padded 1 n
    rw [htext] at this
    exact (digits_cons.mp this).2
  have hvalue : value ds = n := by
    have := value_padded 1 n
    rw [htext, value, valueFrom_cons] at this
    exact this
  rcases Nat.eq_zero_or_pos ds.length with hlen | hlen
  · rw [← hvalue, List.length_eq_zero_iff.mp hlen]
    rfl
  · -- fewer digits would do
    have hlt := value_lt hds
    rw [hvalue] at hlt
    have hle := (Nat.length_toDigits_le_iff (by decide) hlen).mpr hlt
    rw [← padded_one, htext, List.length_cons] at hle
    exact absurd hle (Nat.not_succ_le_self _)

end

/-! ## Scanning

A scan takes characters while they meet `p`; what is left does not begin with
one that does. -/

section

variable {α : Type} {p : α → Bool} {xs ys : List α}

def Stops (p : α → Bool) (ys : List α) : Prop := ∀ y ∈ ys.head?, p y = false

theorem stops_nil : Stops p [] := by
  intro y hy
  exact absurd hy.symm (Option.some_ne_none y)

theorem stops_cons {y : α} : Stops p (y :: ys) ↔ p y = false := by
  constructor
  · intro h
    exact h y rfl
  · intro h z hz
    rw [← Option.some.inj hz]
    exact h

theorem stops_dropWhile (p : α → Bool) (ys : List α) : Stops p (ys.dropWhile p) := by
  induction ys with
  | nil => exact stops_nil
  | cons y ys ih =>
      cases hy : p y with
      | true =>
          rw [List.dropWhile_cons_of_pos hy]
          exact ih
      | false =>
          rw [List.dropWhile_cons_of_neg (Bool.eq_false_iff.mp hy)]
          exact stops_cons.mpr hy

theorem takeWhile_of_stops (h : Stops p ys) : ys.takeWhile p = [] := by
  cases ys with
  | nil => rfl
  | cons y ys => exact List.takeWhile_cons_of_neg (Bool.eq_false_iff.mp (stops_cons.mp h))

theorem dropWhile_of_stops (h : Stops p ys) : ys.dropWhile p = ys := by
  cases ys with
  | nil => rfl
  | cons y ys => exact List.dropWhile_cons_of_neg (Bool.eq_false_iff.mp (stops_cons.mp h))

theorem takeWhile_append_stops (hxs : ∀ x ∈ xs, p x = true) (hys : Stops p ys) :
    (xs ++ ys).takeWhile p = xs := by
  rw [List.takeWhile_append_of_pos hxs, takeWhile_of_stops hys, List.append_nil]

/-- What stops a scan adds nothing to it. -/
theorem takeWhile_append_of_stops (xs : List α) (hys : Stops p ys) :
    (xs ++ ys).takeWhile p = xs.takeWhile p := by
  induction xs with
  | nil => exact takeWhile_of_stops hys
  | cons x xs ih =>
      rw [List.cons_append, List.takeWhile_cons, List.takeWhile_cons, ih]

theorem dropWhile_append_stops (hxs : ∀ x ∈ xs, p x = true) (hys : Stops p ys) :
    (xs ++ ys).dropWhile p = ys := by
  rw [List.dropWhile_append_of_pos hxs, dropWhile_of_stops hys]

end
end KssUtil.Foundation

import KssUtil.Foundation.Numeral
import Mathlib.Data.Char
import Mathlib.Data.List.Lex
import Mathlib.Order.Basic

/-!
# The order of texts

Texts are compared character by character.  Where fields have a fixed width the order is that of
the fields, and digits of a fixed width are in the order of their values.
-/

namespace KssUtil.Foundation

/-! ## Parts of a text -/

section

variable {α : Type} [LinearOrder α] {as bs xs ys : List α}

theorem append_lt_append_left (as : List α) : as ++ xs < as ++ ys ↔ xs < ys := by
  induction as with
  | nil => exact Iff.rfl
  | cons a as ih => simp [ih]

/-- What comes behind a difference does not matter. -/
theorem append_lt_append (hlen : as.length = bs.length) (h : as < bs) (xs ys : List α) :
    as ++ xs < bs ++ ys := by
  induction as generalizing bs with
  | nil =>
      rw [List.length_nil, eq_comm, List.length_eq_zero_iff] at hlen
      subst hlen
      exact absurd h (List.not_lt_nil _)
  | cons a as ih =>
      cases bs with
      | nil => cases hlen
      | cons b bs =>
          have htails := Nat.succ.inj hlen
          rw [List.cons_append, List.cons_append, List.cons_lt_cons_iff]
          rcases List.cons_lt_cons_iff.mp h with hab | ⟨rfl, hrest⟩
          · exact Or.inl hab
          · exact Or.inr ⟨rfl, ih htails hrest⟩

/-- Fields of the same width are compared first, and then what is behind them. -/
theorem append_lt_append_iff (hlen : as.length = bs.length) :
    as ++ xs < bs ++ ys ↔ as < bs ∨ as = bs ∧ xs < ys := by
  rcases lt_trichotomy as bs with hlt | rfl | hgt
  · have happend := append_lt_append hlen hlt xs ys
    simp [hlt, happend]
  · simp [append_lt_append_left]
  · have happend := append_lt_append hlen.symm hgt ys xs
    simp [hgt.ne', hgt.not_gt, happend.not_gt]

/-- Nothing is before the least of its length. -/
theorem not_lt_replicate {z : α} (h : ∀ a ∈ as, z ≤ a) : ¬ as < List.replicate as.length z := by
  induction as with
  | nil => exact List.not_lt_nil _
  | cons a as ih =>
      obtain ⟨ha, hrest⟩ := List.forall_mem_cons.mp h
      rw [List.length_cons, List.replicate_succ, List.cons_lt_cons_iff]
      rintro (hlt | ⟨-, hlt⟩)
      · exact not_le_of_gt hlt ha
      · exact ih hrest hlt

/-- Two texts that are in order when they are filled up: they differ somewhere, or the first is
the beginning of the second. -/
theorem isPrefix_or_append_lt {z : α} (h : ∀ a ∈ as, z ≤ a) {m n : ℕ}
    (hlen : as.length + m = bs.length + n)
    (hlt : as ++ List.replicate m z < bs ++ List.replicate n z) :
    as <+: bs ∨ ∀ xs ys, as ++ xs < bs ++ ys := by
  induction as generalizing bs with
  | nil => exact Or.inl (List.nil_prefix)
  | cons a as ih =>
      obtain ⟨ha, hrest⟩ := List.forall_mem_cons.mp h
      cases bs with
      | nil =>
          have hall : ∀ c ∈ a :: as ++ List.replicate m z, z ≤ c := by
            intro c hc
            rcases List.mem_append.mp hc with hc | hc
            · exact h c hc
            · exact (List.eq_of_mem_replicate hc).ge
          have hn : (a :: as ++ List.replicate m z).length = n := by
            rw [List.length_append, List.length_replicate, hlen, List.length_nil, Nat.zero_add]
          rw [List.nil_append, ← hn] at hlt
          exact absurd hlt (not_lt_replicate hall)
      | cons b bs =>
          rw [List.cons_append, List.cons_append, List.cons_lt_cons_iff] at hlt
          rcases hlt with hab | ⟨rfl, hlt⟩
          · refine Or.inr fun xs ys => ?_
            rw [List.cons_append, List.cons_append, List.cons_lt_cons_iff]
            exact Or.inl hab
          · have hlen' : as.length + m = bs.length + n := by
              rw [List.length_cons, List.length_cons] at hlen
              omega
            rcases ih hrest hlen' hlt with hprefix | hdiffer
            · exact Or.inl (List.cons_prefix_cons.mpr ⟨rfl, hprefix⟩)
            · refine Or.inr fun xs ys => ?_
              rw [List.cons_append, List.cons_append, List.cons_lt_cons_iff]
              exact Or.inr ⟨rfl, hdiffer xs ys⟩

end

/-! ## Digits -/

theorem digitValue_lt_iff {c d : Char} (hc : c.isDigit = true) (hd : d.isDigit = true) :
    digitValue c < digitValue d ↔ c < d := by
  have hzero : ∀ {c : Char}, c.isDigit = true → '0'.toNat ≤ c.toNat := by
    intro c hc
    simp only [Char.isDigit, Bool.and_eq_true, decide_eq_true_eq] at hc
    exact hc.1
  have hlt : c < d ↔ c.toNat < d.toNat := Iff.rfl
  have hc := hzero hc
  have hd := hzero hd
  rw [hlt, digitValue, digitValue]
  omega

theorem zero_le_of_isDigit {c : Char} (hc : c.isDigit = true) : '0' ≤ c := by
  simp only [Char.isDigit, Bool.and_eq_true, decide_eq_true_eq] at hc
  exact hc.1

/-- A digit of a higher place outweighs those behind it. -/
theorem value_cons_lt {c d : Char} {cs ds : List Char} (hcs : Digits cs)
    (hlen : cs.length = ds.length) (h : digitValue c < digitValue d) :
    value (c :: cs) < value (d :: ds) := by
  have hc : value (c :: cs) = digitValue c * 10 ^ cs.length + value cs := by
    have happend := value_append [c] cs
    rwa [value_singleton] at happend
  have hd : value (d :: ds) = digitValue d * 10 ^ ds.length + value ds := by
    have happend := value_append [d] ds
    rwa [value_singleton] at happend
  have hbound := value_lt hcs
  calc value (c :: cs) < (digitValue c + 1) * 10 ^ cs.length := by
        rw [hc, Nat.add_mul, Nat.one_mul]
        exact Nat.add_lt_add_left hbound _
    _ ≤ digitValue d * 10 ^ ds.length := by
        rw [hlen]
        exact Nat.mul_le_mul_right _ h
    _ ≤ value (d :: ds) := by
        rw [hd]
        exact Nat.le_add_right _ _

theorem value_lt_of_lt {cs ds : List Char} (hcs : Digits cs) (hds : Digits ds)
    (hlen : cs.length = ds.length) (h : cs < ds) : value cs < value ds := by
  induction cs generalizing ds with
  | nil =>
      rw [List.length_nil, eq_comm, List.length_eq_zero_iff] at hlen
      subst hlen
      exact absurd h (List.not_lt_nil _)
  | cons c cs ih =>
      cases ds with
      | nil => cases hlen
      | cons d ds =>
          have htails : cs.length = ds.length := Nat.succ.inj hlen
          obtain ⟨hc, hcs'⟩ := digits_cons.mp hcs
          obtain ⟨hd, hds'⟩ := digits_cons.mp hds
          rcases List.cons_lt_cons_iff.mp h with hlt | ⟨rfl, hlt⟩
          · exact value_cons_lt hcs' htails ((digitValue_lt_iff hc hd).mpr hlt)
          · have hrest := ih hcs' hds' htails hlt
            rw [← List.singleton_append, ← List.singleton_append (l := ds), value_append,
              value_append [c] ds, htails]
            exact Nat.add_lt_add_left hrest _

/-- **Digits of one width** are in the order of their values. -/
theorem value_lt_value_iff {cs ds : List Char} (hcs : Digits cs) (hds : Digits ds)
    (hlen : cs.length = ds.length) : value cs < value ds ↔ cs < ds := by
  constructor
  · intro hlt
    rcases lt_trichotomy cs ds with h | rfl | h
    · exact h
    · exact absurd hlt (lt_irrefl _)
    · exact absurd hlt (value_lt_of_lt hds hcs hlen.symm h).not_gt
  · exact value_lt_of_lt hcs hds hlen

/-- Numbers that are padded to one width. -/
theorem padded_lt_padded_iff {w m n : ℕ} (hw : 0 < w) (hm : m < 10 ^ w) (hn : n < 10 ^ w) :
    padded w m < padded w n ↔ m < n := by
  have hlen : (padded w m).length = (padded w n).length := by
    rw [length_padded hw hm, length_padded hw hn]
  rw [← value_lt_value_iff (digits_padded w m) (digits_padded w n) hlen, value_padded,
    value_padded]

theorem padded_injective {w m n : ℕ} (h : padded w m = padded w n) : m = n := by
  have hvalue := congrArg value h
  rwa [value_padded, value_padded] at hvalue

end KssUtil.Foundation

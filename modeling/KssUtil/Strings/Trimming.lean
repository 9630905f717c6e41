import KssUtil.Strings.BasicString
import Mathlib.Data.List.DropRight

/-!
# Trimming a string (stringutil.cpp)

`ltrim`, `rtrim` and `trim`, of white space and of one character.  The two passes of a
trim can be made in either order.
-/

namespace KssUtil.Strings

variable {lim : Limits} {χ : Type}

/-- `isspace` of the C locale, on an `int` -/
def isspaceInt (c : ℤ) : Bool := c = 32 || (9 ≤ c && c ≤ 13)

/-- `while (i < len && trimmed(s[i])) { ++i; }`, with `n` characters from `i` to the end. -/
def countLeft (trimmed : χ → Bool) (s : List χ) (i : ℕ) : ℕ → ℕ
  | 0 => i
  | n + 1 =>
      if s[i]?.any trimmed then countLeft trimmed s (i + 1) n
      else i

/-- The loop from the end.  As `i < len`, `len - i - 1` does not wrap. -/
def countRight (trimmed : χ → Bool) (s : List χ) (i : ℕ) : ℕ → ℕ
  | 0 => i
  | n + 1 =>
      if s[s.length - i - 1]?.any trimmed then countRight trimmed s (i + 1) n
      else i

def ltrimBy (trimmed : χ → Bool) (s : List χ) : List χ :=
  let i := countLeft trimmed s 0 s.length
  if i > 0 then s.drop i else s

def rtrimBy (trimmed : χ → Bool) (s : List χ) : List χ :=
  let i := countRight trimmed s 0 s.length
  if i > 0 then s.take (s.length - i) else s

theorem length_ltrimBy_le (trimmed : χ → Bool) (s : List χ) :
    (ltrimBy trimmed s).length ≤ s.length := by
  unfold ltrimBy
  dsimp only
  split
  · rw [List.length_drop]
    exact Nat.sub_le _ _
  · rfl

theorem length_rtrimBy_le (trimmed : χ → Bool) (s : List χ) :
    (rtrimBy trimmed s).length ≤ s.length := by
  unfold rtrimBy
  dsimp only
  split
  · rw [List.length_take]
    exact Nat.min_le_right _ _
  · rfl

/-! The functions on strings.  A string is changed in place and returned. -/

/-- `isspace(ch)`, of a character that is signed. -/
def isSpaceChar (ch : Int8) : Bool := isspaceInt ch.toInt

def ltrim (s : BasicString lim Int8) : BasicString lim Int8 :=
  ⟨ltrimBy isSpaceChar s.chars, (length_ltrimBy_le _ _).trans s.length_le⟩

/-- `ltrim(s, c)` -/
def ltrimChar (s : BasicString lim Int8) (c : Int8) : BasicString lim Int8 :=
  ⟨ltrimBy (· == c) s.chars, (length_ltrimBy_le _ _).trans s.length_le⟩

def rtrim (s : BasicString lim Int8) : BasicString lim Int8 :=
  ⟨rtrimBy isSpaceChar s.chars, (length_rtrimBy_le _ _).trans s.length_le⟩

def rtrimChar (s : BasicString lim Int8) (c : Int8) : BasicString lim Int8 :=
  ⟨rtrimBy (· == c) s.chars, (length_rtrimBy_le _ _).trans s.length_le⟩

def trim (s : BasicString lim Int8) : BasicString lim Int8 := ltrim (rtrim s)

def trimChar (s : BasicString lim Int8) (c : Int8) : BasicString lim Int8 :=
  ltrimChar (rtrimChar s c) c

/-! ## The loops -/

section

variable {trimmed : χ → Bool} {s : List χ}

/-- The loop from the left counts what `takeWhile` takes; the induction is on what is left
of the string. -/
theorem countLeft_append (pre : List χ) : ∀ s,
    countLeft trimmed (pre ++ s) pre.length s.length =
      pre.length + (s.takeWhile trimmed).length := by
  intro s
  induction s generalizing pre with
  | nil => rfl
  | cons x s ih =>
      have hnext := ih (pre ++ [x])
      rw [List.append_assoc, List.singleton_append, List.length_append] at hnext
      have hx : (pre ++ x :: s)[pre.length]? = some x := by simp
      rw [List.length_cons, countLeft, hx, Option.any_some, List.takeWhile_cons]
      split
      · rw [List.length_cons]
        rw [List.length_singleton] at hnext
        omega
      · rfl

theorem countLeft_eq (s : List χ) :
    countLeft trimmed s 0 s.length = (s.takeWhile trimmed).length := by
  have h : countLeft trimmed ([] ++ s) [].length s.length = _ := countLeft_append [] s
  rwa [List.nil_append, List.length_nil, Nat.zero_add] at h

/-- The loop from the right is the one from the left, on the string read backward. -/
theorem countRight_eq_reverse : ∀ n i, i + n = s.length →
    countRight trimmed s i n = countLeft trimmed s.reverse i n := by
  intro n
  induction n with
  | zero =>
      intro i _
      rfl
  | succ n ih =>
      intro i hi
      have hread : s.reverse[i]? = s[s.length - i - 1]? := by
        rw [List.getElem?_reverse (by omega)]
        congr 1
        omega
      rw [countRight, countLeft, hread, ih (i + 1) (by omega)]

theorem countRight_eq (s : List χ) :
    countRight trimmed s 0 s.length = (s.rtakeWhile trimmed).length := by
  rw [countRight_eq_reverse s.length 0 (Nat.zero_add _), ← List.length_reverse, countLeft_eq,
    List.rtakeWhile, List.length_reverse]

theorem ltrimBy_eq (s : List χ) : ltrimBy trimmed s = s.dropWhile trimmed := by
  have hdrop : s.drop (s.takeWhile trimmed).length = s.dropWhile trimmed := by
    have h := congrArg (List.drop (s.takeWhile trimmed).length)
      (List.takeWhile_append_dropWhile (p := trimmed) (l := s))
    rw [List.drop_left] at h
    exact h.symm
  unfold ltrimBy
  dsimp only
  rw [countLeft_eq]
  split
  · exact hdrop
  · rename_i hzero
    rw [← hdrop, Nat.eq_zero_of_not_pos hzero, List.drop_zero]

theorem rtrimBy_eq (s : List χ) : rtrimBy trimmed s = s.rdropWhile trimmed := by
  have hlen : s.length = (s.rdropWhile trimmed).length + (s.rtakeWhile trimmed).length := by
    rw [← List.length_append, List.rdropWhile_append_rtakeWhile]
  have htake : s.take (s.length - (s.rtakeWhile trimmed).length) = s.rdropWhile trimmed := by
    rw [hlen, Nat.add_sub_cancel]
    exact (List.prefix_iff_eq_take.mp (List.rdropWhile_prefix trimmed s)).symm
  unfold rtrimBy
  dsimp only
  rw [countRight_eq]
  split
  · exact htake
  · rename_i hzero
    rw [← htake, Nat.eq_zero_of_not_pos hzero, Nat.sub_zero, List.take_length]

/-! ## The trimmed string -/

theorem rdropWhile_cons (x : χ) (s : List χ) :
    (x :: s).rdropWhile trimmed =
      if s.rdropWhile trimmed = [] ∧ trimmed x = true then [] else
        x :: s.rdropWhile trimmed := by
  rw [List.rdropWhile, List.rdropWhile, List.reverse_cons, List.dropWhile_append]
  cases hs : s.reverse.dropWhile trimmed with
  | nil => cases hx : trimmed x <;> simp [hx]
  | cons y r => simp

/-- The two passes commute.  A string that is trimmed away is empty after either of them. -/
theorem dropWhile_rdropWhile : ∀ s : List χ,
    (s.rdropWhile trimmed).dropWhile trimmed = (s.dropWhile trimmed).rdropWhile trimmed := by
  intro s
  induction s with
  | nil => rfl
  | cons x s ih =>
      cases hx : trimmed x with
      | true =>
          rw [List.dropWhile_cons_of_pos hx, ← ih, rdropWhile_cons]
          split
          · rename_i hnil
            rw [hnil.1]
          · rw [List.dropWhile_cons_of_pos hx]
      | false =>
          have hx' : ¬ trimmed x = true := by simp [hx]
          have hcons : (x :: s).rdropWhile trimmed = x :: s.rdropWhile trimmed := by
            rw [rdropWhile_cons, if_neg fun h => hx' h.2]
          rw [List.dropWhile_cons_of_neg hx', hcons, List.dropWhile_cons_of_neg hx']

theorem ltrimBy_rtrimBy (trimmed : χ → Bool) (s : List χ) :
    ltrimBy trimmed (rtrimBy trimmed s) = rtrimBy trimmed (ltrimBy trimmed s) := by
  rw [ltrimBy_eq, rtrimBy_eq, rtrimBy_eq, ltrimBy_eq, dropWhile_rdropWhile]

/-- What a trim has to do: cut off characters that are trimmed, and leave none of them at
an end. -/
structure Trims (trimmed : χ → Bool) (s t : List χ) : Prop where
  split : ∃ u v, (∀ x ∈ u, trimmed x = true) ∧ (∀ x ∈ v, trimmed x = true) ∧ s = u ++ t ++ v
  head : ∀ x ∈ t.head?, trimmed x = false
  last : ∀ x ∈ t.getLast?, trimmed x = false
  empty : (∀ x ∈ s, trimmed x = true) → t = []

theorem head_dropWhile (s : List χ) : ∀ x ∈ (s.dropWhile trimmed).head?, trimmed x = false := by
  intro x hx
  have h := List.head?_dropWhile_not trimmed s
  rw [Option.mem_def.mp hx] at h
  simpa using h

theorem trims_trimBy (trimmed : χ → Bool) (s : List χ) :
    Trims trimmed s (ltrimBy trimmed (rtrimBy trimmed s)) where
  split := by
    refine ⟨(s.rdropWhile trimmed).takeWhile trimmed, s.rtakeWhile trimmed, ?_, ?_, ?_⟩
    · intro x hx
      exact List.mem_takeWhile_imp hx
    · intro x hx
      exact List.mem_rtakeWhile_imp hx
    · rw [ltrimBy_eq, rtrimBy_eq, List.takeWhile_append_dropWhile,
        List.rdropWhile_append_rtakeWhile]
  head := by
    rw [ltrimBy_eq]
    exact head_dropWhile _
  last := by
    rw [ltrimBy_rtrimBy, rtrimBy_eq, List.rdropWhile, List.getLast?_reverse]
    exact head_dropWhile _
  empty := by
    intro h
    rw [ltrimBy_eq, rtrimBy_eq, (List.rdropWhile_eq_nil_iff).mpr h, List.dropWhile_nil]

/-- A string with nothing to trim at its ends stays as it is. -/
theorem trimBy_eq_self {t : List χ} (hhead : ∀ x ∈ t.head?, trimmed x = false)
    (hlast : ∀ x ∈ t.getLast?, trimmed x = false) :
    ltrimBy trimmed (rtrimBy trimmed t) = t := by
  have hright : t.rdropWhile trimmed = t := by
    rw [List.rdropWhile_eq_self_iff]
    intro hne
    have h := hlast _ (List.getLast?_eq_some_getLast hne)
    simp [h]
  rw [ltrimBy_eq, rtrimBy_eq, hright]
  cases t with
  | nil => rfl
  | cons x t =>
      have hx := hhead x rfl
      rw [List.dropWhile_cons_of_neg (by simp [hx])]

theorem trimBy_idempotent (trimmed : χ → Bool) (s : List χ) :
    ltrimBy trimmed (rtrimBy trimmed (ltrimBy trimmed (rtrimBy trimmed s))) =
      ltrimBy trimmed (rtrimBy trimmed s) :=
  trimBy_eq_self (trims_trimBy trimmed s).head (trims_trimBy trimmed s).last

end

theorem trim_chars (s : BasicString lim Int8) :
    (trim s).chars = ltrimBy isSpaceChar (rtrimBy isSpaceChar s.chars) := rfl

theorem trimChar_chars (s : BasicString lim Int8) (c : Int8) :
    (trimChar s c).chars = ltrimBy (· == c) (rtrimBy (· == c) s.chars) := rfl

/-- A run of one character -/
theorem eq_replicate_of_all_beq {c : Int8} {u : List Int8} (h : ∀ x ∈ u, (x == c) = true) :
    u = List.replicate u.length c :=
  List.eq_replicate_iff.mpr ⟨rfl, fun x hx => eq_of_beq (h x hx)⟩

/-- **What a trim leaves.**  A trim cuts off the runs at the ends and nothing else, is
idempotent, and is the two passes in either order. -/
theorem trim_decomposes (s : BasicString lim Int8) (c : Int8) :
    ((∃ m k, s.chars =
        List.replicate m c ++ (trimChar s c).chars ++ List.replicate k c) ∧
      (trimChar s c).chars.head? ≠ some c ∧
      (trimChar s c).chars.getLast? ≠ some c ∧
      ((∀ x ∈ s.chars, x = c) → (trimChar s c).chars = []) ∧
      trimChar (trimChar s c) c = trimChar s c ∧
      ltrimChar (rtrimChar s c) c = trimChar s c ∧
      rtrimChar (ltrimChar s c) c = trimChar s c) ∧
    (Trims isSpaceChar s.chars (trim s).chars ∧
      trim (trim s) = trim s ∧
      ltrim (rtrim s) = trim s ∧
      rtrim (ltrim s) = trim s) := by
  have htrims := trims_trimBy (· == c) s.chars
  constructor
  · refine ⟨?_, ?_, ?_, ?_, ?_, rfl, ?_⟩
    · obtain ⟨u, v, hu, hv, hs⟩ := htrims.split
      refine ⟨u.length, v.length, ?_⟩
      rw [← eq_replicate_of_all_beq hu, ← eq_replicate_of_all_beq hv]
      exact hs
    · intro h
      simpa using htrims.head c h
    · intro h
      simpa using htrims.last c h
    · intro h
      apply htrims.empty
      intro x hx
      exact beq_iff_eq.mpr (h x hx)
    · apply BasicString.eq_of_chars
      rw [trimChar_chars, trimChar_chars, trimBy_idempotent]
    · exact BasicString.eq_of_chars (ltrimBy_rtrimBy (· == c) s.chars).symm
  · refine ⟨trims_trimBy isSpaceChar s.chars, ?_, rfl, ?_⟩
    · apply BasicString.eq_of_chars
      rw [trim_chars, trim_chars, trimBy_idempotent]
    · exact BasicString.eq_of_chars (ltrimBy_rtrimBy isSpaceChar s.chars).symm

end KssUtil.Strings

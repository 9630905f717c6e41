import KssUtil.Foundation.Spacing
import KssUtil.Strings.BasicString
import Mathlib.Algebra.Order.Group.Nat

/-!
# Occurrences of a string (stringutil.hpp)

`countOccurrencesOf` takes the first occurrence each time.  It counts the occurrences,
or as many as can be disjoint, as long as the string that is looked for is not empty.
-/

namespace KssUtil.Strings

open KssUtil.Foundation

variable {lim : Limits} {χ : Type}

section

variable [DecidableEq χ]

/-- The loop; the outcome is `none` if the fuel does not last. -/
def countLoop (source substr : BasicString lim χ) (step : ℕ) : ℕ → ℕ → ℕ → Option ℕ
  | 0, _, _ => none
  | fuel + 1, pos, count =>
      let pos := source.find substr pos
      if pos ≠ npos then countLoop source substr step fuel ((pos + step) % 2 ^ 64)
        ((count + 1) % 2 ^ 32)
      else some count

def countOccurrencesOf (fuel : ℕ) (source substr : BasicString lim χ) (allowOverlaps : Bool) :
    Option ℕ :=
  let step := if allowOverlaps then 1 else substr.length
  countLoop source substr step fuel 0 0

/-- The positions at which `sub` occurs in `s`. -/
def occurrences (s sub : List χ) : Finset ℕ :=
  (Finset.range (s.length + 1)).filter fun p => OccursAt s sub p

theorem mem_occurrences {s sub : List χ} {p : ℕ} : p ∈ occurrences s sub ↔ OccursAt s sub p := by
  rw [occurrences, Finset.mem_filter, Finset.mem_range, Nat.lt_succ_iff]
  constructor
  · exact And.right
  · intro h
    exact ⟨h.1, h⟩

end

/-! ## The loop -/

section

variable {source substr : BasicString lim χ} {step pos n : ℕ}

/-- A step from an occurrence does not go further than one behind the end. -/
def StepsInside (source substr : BasicString lim χ) (step : ℕ) : Prop :=
  ∀ p, OccursAt source.chars substr.chars p → p + step ≤ source.length + 1

theorem stepsInside_one : StepsInside source substr 1 :=
  fun _ h => Nat.add_le_add_right h.1 1

theorem stepsInside_length : StepsInside source substr substr.length :=
  fun _ h => Nat.le_succ_of_le h.add_length_le

/-- `pos += step` does not overflow. -/
theorem StepsInside.mod_eq (h : StepsInside source substr step) {p : ℕ}
    (hp : OccursAt source.chars substr.chars p) : (p + step) % 2 ^ 64 = p + step := by
  apply Nat.mod_eq_of_lt
  have hin := h p hp
  have hlt := source.length_lt
  unfold npos at hlt
  omega

variable [DecidableEq χ]

/-- Positions are taken up to the end of the string. -/
theorem exists_greedy (source substr : BasicString lim χ) (hstep : 0 < step) (pos : ℕ) :
    ∃ n, Greedy (OccursAt source.chars substr.chars) step pos n := by
  by_cases hfind : source.find substr pos = npos
  · exact ⟨0, .stop (BasicString.find_eq_npos.mp hfind)⟩
  · obtain ⟨hle, hoccurs, hfirst⟩ := BasicString.find_spec hfind
    obtain ⟨n, hn⟩ := exists_greedy source substr hstep (source.find substr pos + step)
    exact ⟨n + 1, .take hle hoccurs hfirst hn⟩
termination_by source.length + 1 - pos
decreasing_by
  have hend : source.find substr pos ≤ source.length := hoccurs.1
  omega

/-- The loop counts what is taken. -/
theorem countLoop_greedy (hin : StepsInside source substr step)
    (h : Greedy (OccursAt source.chars substr.chars) step pos n) :
    ∀ fuel > n, ∀ count < 2 ^ 32,
      countLoop source substr step fuel pos count = some ((count + n) % 2 ^ 32) := by
  induction h with
  | stop hnone =>
      intro fuel hfuel count hcount
      obtain ⟨fuel, rfl⟩ := Nat.exists_eq_succ_of_ne_zero (Nat.ne_of_gt hfuel)
      rw [countLoop, BasicString.find_eq_npos.mpr hnone]
      rw [if_neg (not_not.mpr rfl), Nat.add_zero, Nat.mod_eq_of_lt hcount]
  | take hle hp hfirst rest ih =>
      rename_i pos p n
      intro fuel hfuel count hcount
      obtain ⟨fuel, rfl⟩ := Nat.exists_eq_succ_of_ne_zero (Nat.ne_zero_of_lt hfuel)
      have hfound : source.find substr pos ≠ npos := by
        intro hnone
        exact BasicString.find_eq_npos.mp hnone p hle hp
      obtain ⟨hle', hoccurs, hfirst'⟩ := BasicString.find_spec hfound
      have hsame : source.find substr pos = p :=
        Nat.le_antisymm (hfirst' p hle hp) (hfirst _ hle' hoccurs)
      rw [hsame] at hfound
      rw [countLoop, hsame, if_pos hfound, hin.mod_eq hp,
        ih fuel (Nat.lt_of_succ_lt_succ hfuel) _ (Nat.mod_lt _ (Nat.two_pow_pos 32)),
        Nat.mod_add_mod, Nat.add_assoc, Nat.add_comm 1 n]

/-- A step of 0 never gets on. -/
theorem countLoop_empty (hempty : substr.chars = []) : ∀ fuel pos count, pos ≤ source.length →
    countLoop source substr 0 fuel pos count = none := by
  intro fuel
  induction fuel with
  | zero =>
      intro pos count _
      rfl
  | succ fuel ih =>
      intro pos count hpos
      have hoccurs : OccursAt source.chars substr.chars pos := by
        refine ⟨hpos, ?_⟩
        rw [hempty]
        exact List.nil_prefix
      have hfound : source.find substr pos ≠ npos := by
        intro hnone
        exact BasicString.find_eq_npos.mp hnone pos le_rfl hoccurs
      obtain ⟨hle, -, hfirst⟩ := BasicString.find_spec hfound
      have hsame : source.find substr pos = pos := Nat.le_antisymm (hfirst pos le_rfl hoccurs) hle
      rw [hsame] at hfound
      have hlt := source.length_lt
      have hmod : (pos + 0) % 2 ^ 64 = pos := by
        apply Nat.mod_eq_of_lt
        unfold npos at hlt
        omega
      rw [countLoop, hsame, if_pos hfound, hmod]
      exact ih pos _ hpos

theorem countOccurrencesOf_empty (hempty : substr.chars = []) (fuel : ℕ) :
    countOccurrencesOf fuel source substr false = none := by
  have hstep : substr.length = 0 := List.length_eq_zero_iff.mpr hempty
  rw [countOccurrencesOf, if_neg Bool.false_ne_true, hstep]
  exact countLoop_empty hempty fuel 0 0 (Nat.zero_le _)

/-- With a step that gets on, the loop counts the most positions that are so far apart. -/
theorem countOccurrencesOf_greatest (source substr : BasicString lim χ) (allowOverlaps : Bool)
    (hstep : 0 < if allowOverlaps then 1 else substr.length) :
    ∃ m, IsGreatest {k | ∃ ps, Selection (OccursAt source.chars substr.chars)
        (if allowOverlaps then 1 else substr.length) 0 ps ∧ ps.card = k} m ∧
      ∀ fuel > m, countOccurrencesOf fuel source substr allowOverlaps = some (m % 2 ^ 32) := by
  have hin : StepsInside source substr (if allowOverlaps then 1 else substr.length) := by
    cases allowOverlaps with
    | false => exact stepsInside_length
    | true => exact stepsInside_one
  obtain ⟨m, hgreedy⟩ := exists_greedy source substr hstep 0
  refine ⟨m, hgreedy.isGreatest hstep, ?_⟩
  intro fuel hfuel
  have hcount := countLoop_greedy hin hgreedy fuel hfuel 0 (Nat.two_pow_pos 32)
  rw [Nat.zero_add] at hcount
  exact hcount

end

/-! ## Termination -/

variable [DecidableEq χ]

/-- **When the search ends.**  It goes on for ever just when the string that is looked for
is empty and overlaps are not allowed. -/
theorem countOccurrencesOf_ends_iff (source substr : BasicString lim χ) (allowOverlaps : Bool) :
    (∃ fuel, (countOccurrencesOf fuel source substr allowOverlaps).isSome = true) ↔
      ¬ (substr.chars = [] ∧ allowOverlaps = false) := by
  constructor
  · rintro ⟨fuel, hends⟩ ⟨hempty, rfl⟩
    rw [countOccurrencesOf_empty hempty] at hends
    exact Bool.false_ne_true hends
  · intro h
    have hstep : 0 < if allowOverlaps then 1 else substr.length := by
      cases allowOverlaps with
      | false =>
          apply List.length_pos_iff.mpr
          intro hempty
          exact h ⟨hempty, rfl⟩
      | true => exact Nat.one_pos
    obtain ⟨m, -, hcount⟩ := countOccurrencesOf_greatest source substr allowOverlaps hstep
    refine ⟨m + 1, ?_⟩
    rw [hcount (m + 1) (Nat.lt_succ_self m)]
    rfl

/-- `countOccurrencesOf("abc", "")` does not return. -/
theorem countOccurrencesOf_empty_runs_on :
    ¬ ∃ fuel, (countOccurrencesOf fuel (⟨['a', 'b', 'c'], by decide⟩ : BasicString Limits.gnu Char)
      ⟨[], by decide⟩ false).isSome = true := by
  rintro ⟨fuel, hends⟩
  rw [countOccurrencesOf_empty rfl fuel] at hends
  exact Bool.false_ne_true hends

/-! ## Counting -/

/-- **The count.**  With overlaps it is the number of occurrences; without, the greatest
number of occurrences that are pairwise disjoint. -/
theorem countOccurrencesOf_counts (source substr : BasicString lim χ) (hne : substr.chars ≠ []) :
    ∃ enough, ∀ fuel ≥ enough,
      countOccurrencesOf fuel source substr true =
        some ((occurrences source.chars substr.chars).card % 2 ^ 32) ∧
      ∃ m, IsGreatest {k | ∃ ps : Finset ℕ,
          (∀ p ∈ ps, OccursAt source.chars substr.chars p) ∧
          ((ps : Set ℕ).PairwiseDisjoint fun p => Finset.Ico p (p + substr.length)) ∧
          ps.card = k} m ∧
        countOccurrencesOf fuel source substr false = some (m % 2 ^ 32) := by
  have hpos : 0 < substr.length := List.length_pos_iff.mpr hne
  obtain ⟨a, hall, hoverlaps⟩ :=
    countOccurrencesOf_greatest source substr true Nat.one_pos
  obtain ⟨m, hmost, hdisjoint⟩ :=
    countOccurrencesOf_greatest source substr false hpos
  have ha : a = (occurrences source.chars substr.chars).card := by
    obtain ⟨⟨ps, hsel, rfl⟩, hbound⟩ := hall
    apply Nat.le_antisymm
    · apply Finset.card_le_card
      intro p hp
      exact mem_occurrences.mpr (hsel.mem p hp)
    · exact hbound ⟨_, selection_one.mpr fun p hp => mem_occurrences.mp hp, rfl⟩
  refine ⟨a + m + 1, ?_⟩
  intro fuel hfuel
  refine ⟨?_, m, ?_, hdisjoint fuel (by omega)⟩
  · rw [← ha]
    exact hoverlaps fuel (by omega)
  · have hset : {k | ∃ ps, Selection (OccursAt source.chars substr.chars) substr.length 0 ps ∧
          ps.card = k} = {k | ∃ ps : Finset ℕ,
            (∀ p ∈ ps, OccursAt source.chars substr.chars p) ∧
            ((ps : Set ℕ).PairwiseDisjoint fun p => Finset.Ico p (p + substr.length)) ∧
            ps.card = k} := by
      ext k
      constructor
      · rintro ⟨ps, hsel, hcard⟩
        obtain ⟨hmem, hapart⟩ := (selection_iff_disjoint hpos).mp hsel
        exact ⟨ps, hmem, hapart, hcard⟩
      · rintro ⟨ps, hmem, hapart, hcard⟩
        exact ⟨ps, (selection_iff_disjoint hpos).mpr ⟨hmem, hapart⟩, hcard⟩
    rw [← hset]
    exact hmost

/-- "aa" is twice in "aaa", at two positions that are not disjoint. -/
theorem countOccurrencesOf_counts_overlaps : ∃ enough, ∀ fuel ≥ enough,
    countOccurrencesOf fuel (⟨['a', 'a', 'a'], by decide⟩ : BasicString Limits.gnu Char)
      ⟨['a', 'a'], by decide⟩ true = some 2 := by
  have hne : ['a', 'a'] ≠ [] := List.cons_ne_nil _ _
  have htwo : (occurrences ['a', 'a', 'a'] ['a', 'a']).card = 2 := by decide
  obtain ⟨enough, hcount⟩ := countOccurrencesOf_counts
    (⟨['a', 'a', 'a'], by decide⟩ : BasicString Limits.gnu Char) ⟨['a', 'a'], by decide⟩ hne
  refine ⟨enough, ?_⟩
  intro fuel hfuel
  have hoverlaps := (hcount fuel hfuel).1
  dsimp only at hoverlaps
  rw [htwo] at hoverlaps
  exact hoverlaps

end KssUtil.Strings

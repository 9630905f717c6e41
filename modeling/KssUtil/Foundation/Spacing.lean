import Mathlib.Data.Finset.Max
import Mathlib.Order.Bounds.Basic
import Mathlib.Order.Interval.Finset.Nat

/-!
# Selections of spaced positions

Positions are chosen from a set so that any two are at least `d` apart.  To take
the first position each time is a best choice.
-/

namespace KssUtil.Foundation

variable {P : ℕ → Prop} {d pos n : ℕ} {ps : Finset ℕ}

/-- Some of the positions of `P` from `pos` on, at least `d` apart. -/
structure Selection (P : ℕ → Prop) (d pos : ℕ) (ps : Finset ℕ) : Prop where
  mem : ∀ p ∈ ps, P p
  le : ∀ p ∈ ps, pos ≤ p
  spaced : ∀ p ∈ ps, ∀ q ∈ ps, p < q → p + d ≤ q

/-- From `pos` on, `n` positions are found if the first is taken each time. -/
inductive Greedy (P : ℕ → Prop) (d : ℕ) : ℕ → ℕ → Prop where
  | stop {pos : ℕ} (h : ∀ p, pos ≤ p → ¬ P p) : Greedy P d pos 0
  | take {pos p n : ℕ} (hle : pos ≤ p) (hp : P p) (hfirst : ∀ q, pos ≤ q → P q → p ≤ q)
      (rest : Greedy P d (p + d) n) : Greedy P d pos (n + 1)

/-- Nothing is chosen. -/
theorem Selection.empty (P : ℕ → Prop) (d pos : ℕ) : Selection P d pos ∅ := by
  constructor <;> simp

/-- **The exchange step.**  Whatever is chosen, all but one of its positions are far
enough behind the first. -/
theorem Selection.exchange {p : ℕ} (h : Selection P d pos ps)
    (hfirst : ∀ q, pos ≤ q → P q → p ≤ q) (hne : ps.Nonempty) :
    Selection P d (p + d) (ps.erase (ps.min' hne)) := by
  have hmin : ps.min' hne ∈ ps := ps.min'_mem hne
  have hbehind : p ≤ ps.min' hne := hfirst _ (h.le _ hmin) (h.mem _ hmin)
  constructor
  · intro q hq
    exact h.mem q (Finset.mem_of_mem_erase hq)
  · intro q hq
    have hlt : ps.min' hne < q := Finset.min'_lt_of_mem_erase_min' ps hne hq
    have hfar := h.spaced _ hmin q (Finset.mem_of_mem_erase hq) hlt
    exact le_trans (Nat.add_le_add_right hbehind d) hfar
  · intro q hq r hr
    exact h.spaced q (Finset.mem_of_mem_erase hq) r (Finset.mem_of_mem_erase hr)

/-- One more position, in front of the others. -/
theorem Selection.insert {p : ℕ} (h : Selection P d (p + d) ps) (hle : pos ≤ p) (hp : P p) :
    Selection P d pos (insert p ps) := by
  constructor
  · intro q hq
    rcases Finset.mem_insert.mp hq with rfl | hq
    · exact hp
    · exact h.mem q hq
  · intro q hq
    rcases Finset.mem_insert.mp hq with rfl | hq
    · exact hle
    · exact le_trans hle (le_trans (Nat.le_add_right p d) (h.le q hq))
  · intro q hq r hr hlt
    rcases Finset.mem_insert.mp hr with rfl | hr'
    · rcases Finset.mem_insert.mp hq with rfl | hq'
      · exact absurd hlt (lt_irrefl _)
      · have hbehind := le_trans (Nat.le_add_right r d) (h.le q hq')
        exact absurd hlt (not_lt.mpr hbehind)
    · rcases Finset.mem_insert.mp hq with rfl | hq'
      · exact h.le r hr'
      · exact h.spaced q hq' r hr' hlt

theorem Greedy.exists_selection (hd : 0 < d) (h : Greedy P d pos n) :
    ∃ ps, Selection P d pos ps ∧ ps.card = n := by
  induction h with
  | stop h => exact ⟨∅, Selection.empty P d _, Finset.card_empty⟩
  | take hle hp hfirst rest ih =>
      rename_i p n
      obtain ⟨ps, hsel, hcard⟩ := ih
      have hfresh : p ∉ ps := by
        intro hmem
        have hle := hsel.le p hmem
        omega
      refine ⟨insert p ps, hsel.insert hle hp, ?_⟩
      rw [Finset.card_insert_of_notMem hfresh, hcard]

theorem Greedy.card_le (h : Greedy P d pos n) : ∀ ps, Selection P d pos ps → ps.card ≤ n := by
  induction h with
  | stop h =>
      intro ps hsel
      rw [Nat.le_zero, Finset.card_eq_zero, Finset.eq_empty_iff_forall_notMem]
      intro p hp
      exact h p (hsel.le p hp) (hsel.mem p hp)
  | take hle hp hfirst rest ih =>
      intro ps hsel
      rcases ps.eq_empty_or_nonempty with rfl | hne
      · exact Nat.zero_le _
      · have hrest := ih _ (hsel.exchange hfirst hne)
        rw [Finset.card_erase_of_mem (ps.min'_mem hne)] at hrest
        omega

/-- **To take the first each time is best.** -/
theorem Greedy.isGreatest (hd : 0 < d) (h : Greedy P d pos n) :
    IsGreatest {k | ∃ ps, Selection P d pos ps ∧ ps.card = k} n := by
  refine ⟨h.exists_selection hd, ?_⟩
  rintro k ⟨ps, hsel, rfl⟩
  exact h.card_le ps hsel

/-- Positions are always at least 1 apart. -/
theorem selection_one : Selection P 1 0 ps ↔ ∀ p ∈ ps, P p := by
  constructor
  · intro h
    exact h.mem
  · intro h
    exact ⟨h, fun p _ => Nat.zero_le p, fun p _ q _ hlt => hlt⟩

/-- Positions are `d` apart if the intervals of length `d` behind them do not meet. -/
theorem selection_iff_disjoint (hd : 0 < d) : Selection P d 0 ps ↔
    (∀ p ∈ ps, P p) ∧ (ps : Set ℕ).PairwiseDisjoint fun p => Finset.Ico p (p + d) := by
  have hdisjoint : ∀ {p q : ℕ}, p < q →
      (Disjoint (Finset.Ico p (p + d)) (Finset.Ico q (q + d)) ↔ p + d ≤ q) := by
    intro p q hlt
    rw [Finset.disjoint_left]
    constructor
    · intro h
      by_contra hnear
      refine h (Finset.mem_Ico.mpr ⟨hlt.le, not_le.mp hnear⟩) (Finset.mem_Ico.mpr ⟨le_rfl, ?_⟩)
      exact Nat.lt_add_of_pos_right hd
    · intro hfar x hx hx'
      have hp := (Finset.mem_Ico.mp hx).2
      have hq := (Finset.mem_Ico.mp hx').1
      exact absurd (lt_of_lt_of_le hp hfar) (not_lt.mpr hq)
  constructor
  · intro h
    refine ⟨h.mem, ?_⟩
    intro p hp q hq hne
    rcases lt_or_gt_of_ne hne with hlt | hlt
    · exact (hdisjoint hlt).mpr (h.spaced p hp q hq hlt)
    · exact ((hdisjoint hlt).mpr (h.spaced q hq p hp hlt)).symm
  · rintro ⟨hmem, h⟩
    refine ⟨hmem, fun p _ => Nat.zero_le p, ?_⟩
    intro p hp q hq hlt
    exact (hdisjoint hlt).mp (h hp hq (ne_of_lt hlt))

end KssUtil.Foundation

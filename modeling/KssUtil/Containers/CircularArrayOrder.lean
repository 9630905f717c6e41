import KssUtil.Containers.CircularArrayRuns
import Mathlib.Data.List.Lex
import Mathlib.Order.Lattice

/-!
# The order of circular arrays

The six relational operators only see the element sequences: whatever the layouts
are, they are the comparisons of one linear order, the lexicographic one.
-/

namespace KssUtil.Containers

open KssUtil.Foundation CircularArray

/-! ## The lexicographic order -/

section

variable {T : Type} [LinearOrder T]

/-- The operator on element sequences, in the lexicographic order. -/
def RelOp.holds (op : RelOp) (xs ys : List T) : Prop :=
  match op with
  | .eq => xs = ys
  | .ne => xs ≠ ys
  | .lt => xs < ys
  | .le => xs ≤ ys
  | .gt => xs > ys
  | .ge => xs ≥ ys

theorem Slots.lexLt_iff (xs : List T) : ∀ ys, Slots.lexLt xs ys = true ↔ xs < ys := by
  induction xs with
  | nil =>
      intro ys
      cases ys <;> simp [Slots.lexLt]
  | cons x xs ih =>
      intro ys
      cases ys with
      | nil => simp [Slots.lexLt]
      | cons y ys =>
          rw [Slots.lexLt, List.cons_lt_cons_iff]
          rcases lt_trichotomy x y with hxy | rfl | hxy
          · simp [hxy]
          · simp [ih]
          · simp [hxy, lt_asymm hxy, ne_of_gt hxy]

/-- The way the six operators combine `==` and `<` gives the six comparisons. -/
theorem Slots.compareOp_iff (op : RelOp) {same : Bool} {xs ys : List T}
    (hsame : same = true → xs = ys) :
    Slots.compareOp op same xs ys = true ↔ op.holds xs ys := by
  have heq : (same || xs == ys) = true ↔ xs = ys := by
    rw [Bool.or_eq_true, beq_iff_eq, or_iff_right_of_imp hsame]
  have hlt : (!same && Slots.lexLt xs ys) = true ↔ xs < ys := by
    rw [Bool.and_eq_true, Bool.not_eq_true', Slots.lexLt_iff, and_iff_right_of_imp]
    intro h
    rw [← Bool.not_eq_true]
    intro hs
    exact absurd (hsame hs) (ne_of_lt h)
  cases op with
  | eq => exact heq
  | ne =>
      simp only [Slots.compareOp, RelOp.holds, Bool.not_eq_true', ← Bool.not_eq_true, heq, ne_eq]
  | lt => exact hlt
  | le => simp only [Slots.compareOp, RelOp.holds, Bool.or_eq_true, heq, hlt, le_iff_lt_or_eq]
  | gt =>
      simp only [Slots.compareOp, RelOp.holds, Bool.and_eq_true, Bool.not_eq_true',
        ← Bool.not_eq_true, heq, hlt, gt_iff_lt]
      rw [← not_or, or_comm, ← le_iff_lt_or_eq, not_le]
  | ge =>
      simp only [Slots.compareOp, RelOp.holds, Bool.not_eq_true', ← Bool.not_eq_true, hlt, not_lt,
        ge_iff_le]

end

/-! ## Comparisons in a world -/

/-- `x` names an array that shows `xs`. -/
def World.Shows {T : Type} (w : World T) (x : ℕ) (xs : List T) : Prop :=
  ∃ a, w.arrays x = some a ∧ CircularArray.Shows w.heap a xs

/-- The outcome of a comparison is that of the element sequences, in whatever world. -/
theorem World.compare_outcome {T : Type} [BEq T] [LT T] [DecidableLT T] (depth : ℕ) {w : World T}
    {x y : ℕ} {xs ys : List T} (op : RelOp) (hx : w.Shows x xs) (hy : w.Shows y ys) :
    (w.step depth (.compare op x y)).1 = .ok (.bool (Slots.compareOp op (x == y) xs ys)) := by
  obtain ⟨a, ha, hxs⟩ := hx
  obtain ⟨b, hb, hys⟩ := hy
  have hcall : Returns (do return Result.bool (← World.compareOp op (x == y) a b)) (w.store a)
      fun (r : Result T) _ => r = .bool (Slots.compareOp op (x == y) xs ys) :=
    Returns.bind (compareOp_returns op (x == y) hxs hys) fun _ _ h => congrArg Result.bool h.1
  obtain ⟨_, s', hrun, rfl⟩ := hcall.exists
  simp only [World.step, hb, World.call, ha]
  rw [hrun]

/-- A name stands for one sequence. -/
theorem World.Shows.unique {T : Type} {w : World T} {x : ℕ} {xs ys : List T} (hx : w.Shows x xs)
    (hy : w.Shows x ys) : xs = ys := by
  obtain ⟨a, ha, hxs⟩ := hx
  obtain ⟨b, hb, hys⟩ := hy
  obtain rfl : a = b := Option.some.inj (ha.symm.trans hb)
  exact List.map_injective_iff.mpr (Option.some_injective T) (hxs.entries.symm.trans hys.entries)

/-! ## Arrays in a run -/

section

variable {T : Type} [BEq T] [LT T] [DecidableLT T] {w : World T} {σ : Slots T} {x : ℕ}

/-- The call is legal, and not a move assignment. -/
def Slots.legalNoMoveAssign (σ : Slots T) (c : Call T) : Bool :=
  σ.legal c && match c with
    | .assignMove _ _ => false
    | _ => true

theorem step_represents (depth : ℕ) (hrep : Represents w σ) {c : Call T}
    (hc : σ.legalNoMoveAssign c = true) :
    Represents (w.step (depth + 1) c).2 (σ.step c).2 := by
  unfold Slots.legalNoMoveAssign at hc
  rw [Bool.and_eq_true] at hc
  refine (step_refines depth hrep hc.1 ?_).represents
  rintro x y rfl
  exact absurd hc.2 Bool.false_ne_true

omit [BEq T] [LT T] [DecidableLT T] in
/-- An array shows the items of its list, or nothing if it was moved from. -/
theorem Represents.shows (hrep : Represents w σ) (hx : (w.arrays x).isSome = true) :
    ∃ xs, w.Shows x xs := by
  obtain ⟨a, ha⟩ := Option.isSome_iff_exists.mp hx
  have hslot := hrep.slots x
  rw [ha] at hslot
  cases hσ : σ x with
  | free =>
      rw [hσ] at hslot
      exact hslot.elim
  | movedFrom =>
      rw [hσ] at hslot
      obtain rfl : a = {} := hslot
      exact ⟨[], {}, ha, shows_nil w.heap⟩
  | holds l =>
      rw [hσ] at hslot
      exact ⟨l.items, a, ha, Owns.shows hslot⟩

end

section

variable {T : Type} [LinearOrder T]

/-- **Comparison ignores layout.**  Whatever the world and the layouts of two arrays in it,
each relational operator is the comparison of the element sequences in the lexicographic
order; and whatever legal calls are made, every array shows an element sequence. -/
theorem comparisons_are_lexicographic (depth : ℕ) :
    (∀ (w : World T) (x y : ℕ) (xs ys : List T), w.Shows x xs → w.Shows y ys →
      ∀ op, ∃ r, (w.step (depth + 1) (.compare op x y)).1 = .ok (.bool r) ∧
        (r = true ↔ op.holds xs ys)) ∧
    ∀ cs : List (Call T),
      World.every (depth + 1) (fun _ σ c => σ.legalNoMoveAssign c) {} Slots.start cs = true →
        ∀ x, ((World.run (depth + 1) {} cs).2.arrays x).isSome = true →
          ∃ xs, (World.run (depth + 1) {} cs).2.Shows x xs := by
  constructor
  · intro w x y xs ys hx hy op
    refine ⟨_, World.compare_outcome (depth + 1) op hx hy, Slots.compareOp_iff op ?_⟩
    -- one array compared with itself: the operators then look at no element
    intro hsame
    obtain rfl := eq_of_beq hsame
    exact hx.unique hy
  · intro cs hlegal x hx
    have hrep : Represents (World.run (depth + 1) {} cs).2 (Slots.start.run cs).2 :=
      World.every_run Represents (fun _ _ _ h hc => step_represents depth h hc) cs {} Slots.start
        hlegal represents_start
    exact hrep.shows hx

/-- `[2, 1]`, wrapped and full, against `[2, 3]` in a larger block. -/
theorem comparisons_are_lexicographic_wrapped :
    let cs : List (Call ℕ) := [.constructFill 0 2 2 2, .popFront 0, .pushBack 0 1,
      .constructList 1 [2, 3] 5]
    (∃ xs, (World.run 1 {} cs).2.Shows 0 xs) ∧
      ∃ r, ((World.run 1 {} cs).2.step 1 (.compare .lt 0 1)).1 = .ok (.bool r) ∧
        (r = true ↔ RelOp.holds .lt [2, 1] [2, 3]) := by
  intro cs
  have hx : (World.run 1 {} cs).2.Shows 0 [2, 1] :=
    ⟨⟨some 0, 2, 1, 1, 2⟩, by decide +kernel, by decide, by decide, by decide, by decide +kernel⟩
  have hy : (World.run 1 {} cs).2.Shows 1 [2, 3] :=
    ⟨⟨some 1, 5, 0, 2, 2⟩, by decide +kernel, by decide, by decide, by decide, by decide +kernel⟩
  constructor
  · exact (comparisons_are_lexicographic 0).2 cs (by decide +kernel) 0 (by decide +kernel)
  · exact (comparisons_are_lexicographic 0).1 _ 0 1 _ _ hx hy .lt

end
end KssUtil.Containers

import KssUtil.Containers.CircularArrayRuns

/-!
# Lifetimes and contracts of circular arrays

Two laws that hold of a run only under a condition on its calls.  Elements are
destroyed exactly when they should be as long as no full block is cleared or
replaced; no contract expression is false as long as each call meets `keeps`.
-/

namespace KssUtil.Containers

open KssUtil.Foundation CircularArray

variable {T : Type} [BEq T] [LT T] [DecidableLT T]

/-! ## Lifetimes -/

/-- Every construction was on a raw cell, every destruction on a held one, every
block was handed back raw, and the cells that hold an object are those of the
logical ranges. -/
structure LifetimesBalance (w : World T) : Prop where
  faults : w.heap.faults = []
  cells : ∀ x a, w.arrays x = some a → ∃ b blk, a.array = some b ∧ w.heap.blocks b = some blk ∧
    ∀ j, (blk.cell j).isSome = true ↔ ∃ i < a.size, (a.first + i) % a.capacity = j

omit [BEq T] [LT T] [DecidableLT T] in
theorem lifetimesBalance_of_tidy {w : World T} {σ : Slots T} (hrep : Represents w σ)
    (hsettled : σ.Settled) (htidy : TidyWorld w) : LifetimesBalance w := by
  refine ⟨htidy.faults, fun x a ha => ?_⟩
  have hslot := hrep.slots x
  rw [ha] at hslot
  cases hσ : σ x with
  | free => rw [hσ] at hslot; exact hslot.elim
  | movedFrom => exact absurd hσ (hsettled x)
  | holds l =>
      rw [hσ] at hslot
      have ho : Owns w.heap a l := hslot
      exact ho.held_iff (htidy.arrays x a ha).raw

/-- **Lifetimes balance in every run that neither clears nor replaces the block
of a full array.** -/
theorem run_balances_lifetimes (depth : ℕ) (cs : List (Call T))
    (hclean : World.every (depth + 1) (fun _ σ c => σ.legalCopy c && σ.clean c) {}
      Slots.start cs = true) :
    LifetimesBalance (World.run (depth + 1) {} cs).2 := by
  have hrun : Represents (World.run (depth + 1) {} cs).2 (Slots.start.run cs).2 ∧
      (Slots.start.run cs).2.Settled ∧ TidyWorld (World.run (depth + 1) {} cs).2 := by
    refine World.every_run (fun w σ => Represents w σ ∧ σ.Settled ∧ TidyWorld w) ?_ cs {}
      Slots.start hclean
      ⟨represents_start, fun x => by simp [Slots.start], rfl, fun x a hx =>
        absurd hx.symm (Option.some_ne_none a)⟩
    rintro w σ c ⟨hrep, hsettled, htidy⟩ hc
    rw [Bool.and_eq_true] at hc
    have h := step_refines_copy depth hrep hc.1
    exact ⟨h.represents, hsettled.step (Slots.legalCopy_iff.mp hc.1).2, h.tidy hc.2 htidy⟩
  exact lifetimesBalance_of_tidy hrun.1 hrun.2.1 hrun.2.2

/-- Growing an array by one, and clearing it before it is full again. -/
theorem run_balances_lifetimes_grown :
    LifetimesBalance (World.run 1 ({} : World ℕ) [.constructFill 0 2 7 3, .reserve 0 5,
      .pushFront 0 1, .clear 0, .destruct 0]).2 :=
  run_balances_lifetimes 0 _ (by decide +kernel)

/-- `clear` on a full array destroys nothing; the next push constructs over the
element left in cell `0`. -/
theorem full_clear_breaks_lifetimes :
    ¬ ∀ cs : List (Call ℕ),
      World.every 1 (fun _ σ c => σ.legalCopy c) {} Slots.start cs = true →
        LifetimesBalance (World.run 1 {} cs).2 := by
  intro h
  have hfaults := (h [.constructFill 0 2 7 2, .clear 0, .pushBack 0 1] (by decide +kernel)).faults
  exact absurd hfaults (by decide +kernel)

/-! ## Contracts -/

/-- **No contract expression is false in a run of legal calls that meet
`keeps`.** -/
theorem run_keeps_contracts (depth : ℕ) (cs : List (Call T))
    (hkeeps : World.every (depth + 1) (fun w σ c => σ.legal c && w.keeps σ c) {} Slots.start cs =
      true) : (World.run (depth + 1) {} cs).2.broken = false := by
  have hrun : Represents (World.run (depth + 1) {} cs).2 (Slots.start.run cs).2 ∧
      (World.run (depth + 1) {} cs).2.broken = false := by
    refine World.every_run (fun w σ => Represents w σ ∧ w.broken = false) ?_ cs {} Slots.start
      hkeeps ⟨represents_start, rfl⟩
    rintro w σ c ⟨hrep, hbroken⟩ hc
    rw [Bool.and_eq_true] at hc
    have hmove : ∀ x y, c ≠ .assignMove x y := by
      rintro x y rfl
      exact absurd hc.2 Bool.false_ne_true
    have h := step_refines depth hrep hc.1 hmove
    exact ⟨h.represents, (h.kept hc.2).trans hbroken⟩
  exact hrun.2

/-- Reading a wrapped array that is not full, and growing it. -/
theorem run_keeps_contracts_wrapped :
    (World.run (0 + 1) ({} : World ℕ) [.constructFill 0 2 7 3, .popFront 0, .pushBack 0 1,
      .popFront 0, .pushBack 0 9, .index 0 1, .reserve 0 20]).2.broken = false :=
  run_keeps_contracts 0 _ (by decide +kernel)

/-- `operator[]` on a full array that starts at cell `1`: entry `1` is in cell
`0`, and none of the three alternatives of the position check allows it. -/
theorem wrapped_index_breaks_contract :
    ¬ ∀ cs : List (Call ℕ),
      World.every 1 (fun _ σ c => σ.legal c) {} Slots.start cs = true →
        (World.run 1 {} cs).2.broken = false := by
  intro h
  have hbroken := h [.constructFill 0 2 7 2, .popFront 0, .pushBack 0 1, .index 0 1]
    (by decide +kernel)
  exact absurd hbroken (by decide +kernel)

end KssUtil.Containers

import KssUtil.Containers.CircularArrayCapacity

/-!
# Move assignment of circular arrays

`operator=(CircularArray&&)` copies the members of its argument and then tears the
argument down, and with it the block that both now refer to.
-/

namespace KssUtil.Containers

open KssUtil.Foundation CircularArray

variable {T : Type}

/-- What `x = std::move(y)` is meant to do: `x` owns what `y` held, the former block of
`x` is gone, and `y` is empty. -/
structure MoveTransfers (w w' : World T) (outcome : Except Exn (Result T)) (x y : ℕ) : Prop where
  returns : outcome = .ok .none
  target : ∀ ca, w.arrays y = some ca → ∃ a b blk, w'.arrays x = some a ∧ a.array = some b ∧
    w'.heap.blocks b = some blk ∧ a.entries w'.heap = ca.entries w.heap ∧
      ∀ z d, z ≠ x → w'.arrays z = some d → d.array ≠ some b
  released : ∀ a b, w.arrays x = some a → a.array = some b →
    w'.heap.blocks b = none ∧ w'.heap.faults = w.heap.faults
  source : ∃ ca, w'.arrays y = some ca ∧ ca.array = none ∧ ca.capacity = 0 ∧ ca.size = 0

/-- The block that the target takes over is the one that is torn down last. -/
theorem assignMove_frees (s : Store T) (ca : CircularArray) :
    Returns (assignMove false ca) s fun _ s' =>
      s'.self = ca ∧ ∀ b, ca.array = some b → s'.heap.blocks b = none := by
  unfold assignMove
  simp only [Bool.false_eq_true, if_false]
  refine Returns.bind (teardown_frees s) fun _ s₁ _ => ?_
  rw [Returns, runs_bind, runs_modifySelf, runs_bind, runs_onObject]
  refine (teardown_frees { s₁ with self := ca }).mono fun _ s₂ hfree => ?_
  simp only [runs_bind, runs_self, runs_pure]
  exact ⟨rfl, hfree⟩

variable [BEq T] [LT T] [DecidableLT T]

/-- **Move assignment never transfers ownership**, whatever states the two arrays are
in: the block that the target refers to afterwards has been handed back. -/
theorem move_assignment_never_transfers (depth : ℕ) (w : World T) (x y : ℕ) (hxy : x ≠ y)
    (a ca : CircularArray) (ha : w.arrays x = some a) (hca : w.arrays y = some ca) :
    let r := w.step depth (.assignMove x y)
    ¬ MoveTransfers w r.2 r.1 x y := by
  intro r hmove
  obtain ⟨ca', s', hrun, hself, hfree⟩ := (assignMove_frees (w.store a) ca).exists
  obtain ⟨a', b, blk, ha', harr, hblk, -⟩ := hmove.target ca hca
  have hr : r = (.ok .none, (w.after x (some s'.self) s').after y (some ca') s') := by
    show (if x = y then _ else w.callWith x y (assignMove false)) = _
    rw [if_neg hxy, World.callWith, ha, hca]
    dsimp only
    rw [hrun]
  rw [hr] at ha' hblk
  change Function.update (Function.update w.arrays x (some s'.self)) y (some ca') x = some a' at ha'
  rw [Function.update_of_ne hxy, Function.update_self, hself] at ha'
  obtain rfl := Option.some.inj ha'
  exact absurd ((hfree b harr).symm.trans hblk) (Option.some_ne_none blk).symm

/-- A wrapped array assigned to an empty one. -/
theorem move_assignment_never_transfers_wrapped :
    let w := (World.run 1 ({} : World ℕ) [.construct 0 4, .constructFill 1 2 7 2, .popFront 1,
      .pushBack 1 1]).2
    let r := w.step 1 (.assignMove 0 1)
    ¬ MoveTransfers w r.2 r.1 0 1 :=
  move_assignment_never_transfers 1 _ 0 1 (by decide) ⟨some 0, 4, 0, 0, 0⟩ ⟨some 1, 2, 1, 1, 2⟩
    (by decide +kernel) (by decide +kernel)

/-- `a = std::move(b)` for arrays with the elements `[1]` and `[2]`: the element is
gone, and the block with it. -/
theorem move_assignment_loses_elements :
    let w := (World.run 1 ({} : World ℕ) [.constructList 0 [1] 2, .constructList 1 [2] 3]).2
    let r := w.step 1 (.assignMove 0 1)
    ¬ MoveTransfers w r.2 r.1 0 1 ∧ r.2.arrays 0 = some ⟨some 1, 3, 0, 1, 1⟩ ∧
      r.2.heap.read 1 0 = none := by
  refine ⟨?_, by decide +kernel, by decide +kernel⟩
  intro hmove
  obtain ⟨a', b, blk, ha', harr, hblk, -⟩ := hmove.target ⟨some 1, 3, 0, 1, 1⟩ (by decide +kernel)
  have hlook : ((World.run 1 ({} : World ℕ)
      [.constructList 0 [1] 2, .constructList 1 [2] 3]).2.step 1 (.assignMove 0 1)).2.arrays 0 =
        some ⟨some 1, 3, 0, 1, 1⟩ := by decide +kernel
  obtain rfl := Option.some.inj (hlook.symm.trans ha')
  obtain rfl := Option.some.inj harr
  have hgone : (((World.run 1 ({} : World ℕ) [.constructList 0 [1] 2,
      .constructList 1 [2] 3]).2.step 1 (.assignMove 0 1)).2.heap.blocks 1).isNone = true := by
    decide +kernel
  rw [hblk] at hgone
  cases hgone

end KssUtil.Containers

import Mathlib.Data.Nat.Notation
import Mathlib.Tactic.Common

/-!
# Interleavings

Several parties take steps on one state.  A step is a partial function, so a party
that waits, or has finished, cannot be chosen.
-/

namespace KssUtil.Foundation

variable {σ ι : Type}

/-- The state after the steps of a schedule, if all of them can be taken. -/
def runSchedule (step : σ → ι → Option σ) : List ι → σ → Option σ
  | [], s => some s
  | i :: is, s => (step s i).bind (runSchedule step is)

/-- The state is reached by some interleaving. -/
def Interleaves (step : σ → ι → Option σ) (s s' : σ) : Prop :=
  ∃ is, runSchedule step is s = some s'

section

variable {step : σ → ι → Option σ} {s s' : σ} {i : ι} {is js : List ι}

theorem runSchedule_cons (h : step s i = some s') :
    runSchedule step (i :: is) s = runSchedule step is s' := by
  rw [runSchedule, h]
  rfl

theorem runSchedule_append (h : runSchedule step is s = some s') :
    runSchedule step (is ++ js) s = runSchedule step js s' := by
  induction is generalizing s with
  | nil =>
      obtain rfl := Option.some.inj h
      rfl
  | cons i is ih =>
      rw [runSchedule] at h
      obtain ⟨t, hstep, hrun⟩ := Option.bind_eq_some_iff.mp h
      rw [List.cons_append, runSchedule_cons hstep]
      exact ih hrun

/-- What every step of a schedule keeps holds after it. -/
theorem runSchedule_invariant {I : σ → Prop} (h : runSchedule step is s = some s') (hs : I s)
    (hstep : ∀ i ∈ is, ∀ s s', I s → step s i = some s' → I s') : I s' := by
  induction is generalizing s with
  | nil =>
      obtain rfl := Option.some.inj h
      exact hs
  | cons i is ih =>
      rw [runSchedule] at h
      obtain ⟨t, ht, hrun⟩ := Option.bind_eq_some_iff.mp h
      exact ih hrun (hstep i List.mem_cons_self s t hs ht)
        fun j hj => hstep j (List.mem_cons_of_mem _ hj)

/-- **The invariant rule.**  What every step keeps holds however the steps are
interleaved. -/
theorem Interleaves.invariant {I : σ → Prop} (h : Interleaves step s s') (hs : I s)
    (hstep : ∀ s i s', I s → step s i = some s' → I s') : I s' := by
  obtain ⟨is, hrun⟩ := h
  exact runSchedule_invariant hrun hs fun i _ s s' => hstep s i s'

end
end KssUtil.Foundation

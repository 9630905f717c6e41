import KssUtil.Process.DaemonControl
import Mathlib.Algebra.BigOperators.Group.Finset.Basic

/-!
# Daemons

What holds however the processes of a machine are interleaved, and whatever the system calls
come to.
-/

namespace KssUtil.Process

open KssUtil.Foundation

/-! ## The end of every run -/

/-- How many steps of `daemonize` a process can take, or have a new one take. -/
def Phase.rank (m : Machine) : Phase → ℕ
  | .fork => m.maxfd.toNat + 14
  | .setsid => m.maxfd.toNat + 12
  | .forkAgain => m.maxfd.toNat + 11
  | .chdir => m.maxfd.toNat + 9
  | .umask => m.maxfd.toNat + 8
  | .sysconf => m.maxfd.toNat + 7
  | .close fd => (m.maxfd - fd).toNat + 6
  | .freopenStdin => 5
  | .freopenStdout => 4
  | .freopenStderr => 3
  | .freopenStderrNull => 2
  | .changeUser => 1
  | .exiting => 1
  | _ => 0

namespace System

def rank (m : Machine) (s : System) : ℕ := ∑ i ∈ Finset.range s.count, (s.process i).phase.rank m

section

variable {m : Machine} {s s₀ s' : System} {c i j pid : ℕ} {p' : Proc}

/-- The processes that are about to call `daemonize`. -/
def callers (s : System) : ℕ :=
  ((Finset.range s.count).filter fun i => (s.process i).phase = .fork).card

/-- Each call accounts for the same number of steps. -/
theorem Start.rank (h : s₀.Start) : s₀.rank m = s₀.callers * (m.maxfd.toNat + 14) := by
  have hshare : ∀ i ∈ Finset.range s₀.count, (s₀.process i).phase.rank m =
      if (s₀.process i).phase = .fork then m.maxfd.toNat + 14 else 0 := by
    intro i hi
    rcases h.phase i (Finset.mem_range.mp hi) with h | h
    · rw [h]
      rfl
    · rw [h]
      rfl
  unfold System.rank
  rw [Finset.sum_congr rfl hshare, ← Finset.sum_filter]
  exact Finset.sum_const_nat fun _ _ => rfl

end
end System
end KssUtil.Process

import Mathlib.Init

/-!
# Exceptions

What the functions throw, without the texts.
-/

namespace KssUtil.Libc

/-- `aborted` is a failed `assert` or contract condition, which ends the program. -/
inductive Exn where
  | systemError
  | invalidArgument
  | overflowError
  | aborted
deriving DecidableEq, Repr

/-- `assert(cond)`, which `NDEBUG` takes out. -/
def assertion (ndebug cond : Bool) : Except Exn Unit :=
  if ndebug || cond then return else throw .aborted

/-- `contract::preconditions` and `contract::postconditions` end the program. -/
def conditions (cond : Bool) : Except Exn Unit := if cond then return else throw .aborted

/-- `contract::parameters` throws. -/
def parameters (cond : Bool) : Except Exn Unit := if cond then return else throw .invalidArgument

section

variable {α β : Type}

theorem ok_bind (a : α) (f : α → Except Exn β) : ((Except.ok a : Except Exn α) >>= f) = f a := rfl

theorem assertion_bind (ndebug : Bool) (f : Unit → Except Exn α) :
    (assertion ndebug true >>= f) = f ⟨⟩ := by
  rw [assertion, Bool.or_true]
  rfl

theorem conditions_bind {cond : Bool} (h : cond = true) (f : Unit → Except Exn α) :
    (conditions cond >>= f) = f ⟨⟩ := by
  rw [h]
  rfl

theorem parameters_bind {cond : Bool} (h : cond = true) (f : Unit → Except Exn α) :
    (parameters cond >>= f) = f ⟨⟩ := by
  rw [h]
  rfl

end
end KssUtil.Libc

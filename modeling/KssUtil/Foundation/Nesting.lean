import Mathlib.Data.List.Perm.Basic
import Mathlib.Data.List.Range
import Mathlib.Tactic.Common

/-!
# Nested marks

Things are opened, and closed again, the last one first.  A record of this is replayed on a
stack of what is open.
-/

namespace KssUtil.Foundation

inductive Mark (α : Type) where
  | opened (a : α)
  | closed (a : α)
deriving DecidableEq, Repr

namespace Mark

variable {α : Type}

/-- What is opened, in this order. -/
def opens : List (Mark α) → List α
  | [] => []
  | opened a :: w => a :: opens w
  | closed _ :: w => opens w

/-- What is closed, in this order. -/
def closes : List (Mark α) → List α
  | [] => []
  | opened _ :: w => closes w
  | closed a :: w => a :: closes w

/-- What is open after the marks, the last one first.  Only the last one can be closed. -/
def replay [DecidableEq α] : List (Mark α) → List α → Option (List α)
  | [], stack => some stack
  | opened a :: w, stack => replay w (a :: stack)
  | closed a :: w, b :: stack => if a = b then replay w stack else none
  | closed _ :: _, [] => none

/-- All that is opened is closed again. -/
def Nested [DecidableEq α] (w : List (Mark α)) : Prop := replay w [] = some []

@[simp] theorem opens_append (w v : List (Mark α)) : opens (w ++ v) = opens w ++ opens v := by
  induction w with
  | nil => rfl
  | cons x w ih => cases x <;> simp [opens, ih]

section

variable [DecidableEq α] {w v : List (Mark α)} {stack stack' : List α}

theorem replay_append (w v : List (Mark α)) (stack : List α) :
    replay (w ++ v) stack = (replay w stack).bind (replay v) := by
  induction w generalizing stack with
  | nil => rfl
  | cons x w ih =>
      cases x with
      | opened a => exact ih (a :: stack)
      | closed a =>
          cases stack with
          | nil => rfl
          | cons b stack =>
              simp only [List.cons_append, replay]
              split
              · exact ih stack
              · rfl

/-- What is below is not touched. -/
theorem replay_frame (h : replay w stack = some stack') (base : List α) :
    replay w (stack ++ base) = some (stack' ++ base) := by
  induction w generalizing stack with
  | nil =>
      obtain rfl := Option.some.inj h
      rfl
  | cons x w ih =>
      cases x with
      | opened a => exact @ih (a :: stack) h
      | closed a =>
          cases stack with
          | nil => cases h
          | cons b stack =>
              simp only [List.cons_append, replay] at h ⊢
              split at h
              · rename_i hab
                rw [if_pos hab]
                exact ih h
              · cases h

/-- **Accounting.**  What was open and what is opened is closed, or is open still. -/
theorem perm_of_replay (h : replay w stack = some stack') :
    (stack ++ opens w).Perm (stack' ++ closes w) := by
  induction w generalizing stack with
  | nil =>
      obtain rfl := Option.some.inj h
      exact List.Perm.refl _
  | cons x w ih =>
      cases x with
      | opened a =>
          have hrest := @ih (a :: stack) h
          exact List.perm_middle.trans hrest
      | closed a =>
          cases stack with
          | nil => cases h
          | cons b stack =>
              simp only [replay] at h
              split at h
              · rename_i hab
                subst hab
                have hrest := ih h
                exact (hrest.cons a).trans List.perm_middle.symm
              · cases h

theorem nested_nil : Nested ([] : List (Mark α)) := rfl

theorem Nested.replay (h : Nested w) (stack : List α) : Mark.replay w stack = some stack :=
  replay_frame h stack

theorem Nested.append (hw : Nested w) (hv : Nested v) : Nested (w ++ v) := by
  rw [Nested, replay_append, hw.replay]
  exact hv

/-- One more is opened around the marks. -/
theorem Nested.wrap (h : Nested w) (a : α) : Nested (opened a :: (w ++ [closed a])) := by
  show Mark.replay (w ++ [closed a]) [a] = some []
  rw [replay_append, h.replay]
  exact if_pos rfl

/-- What is opened is closed, each as often as the other. -/
theorem Nested.perm (h : Nested w) : (closes w).Perm (opens w) := by
  have hperm := perm_of_replay h
  rw [List.nil_append, List.nil_append] at hperm
  exact hperm.symm

end

end Mark
end KssUtil.Foundation

import Mathlib.Data.Nat.Notation
import KssUtil.Libc.Exceptions

/-!
# Forward iterators (iterator.hpp)

An iterator over anything that can say whether it has another item and hand out the
next one.
-/

namespace KssUtil.Iterators

open KssUtil.Libc

/-- What `ForwardIterator` needs of its container; `next` moves the container on. -/
structure Container (C T : Type) where
  hasAnother : C → Bool
  next : C → Except Exn (C × T)

/-- `_cont` is the address of the container, or null. -/
structure ForwardIterator (T : Type) where
  cont : Option ℕ
  value : T

section

variable {C T : Type} (k : Container C T)

/-- `while (c.hasAnother()) { c.next(t); ... }`, with at most `fuel` calls of `next`; `none`
if these are not enough. -/
def drain : ℕ → C → Option (Except Exn (List T))
  | 0, c => if k.hasAnother c then none else some (return [])
  | fuel + 1, c =>
      if k.hasAnother c then
        match k.next c with
        | .ok (c, t) => (drain fuel c).map fun r => r.map (t :: ·)
        | .error e => some (.error e)
      else some (return [])

namespace ForwardIterator

/-- The default constructor. -/
def done (t : T) : ForwardIterator T := ⟨none, t⟩

/-- `operator++`.  The container is at the address that the iterator has. -/
def increment (c : C) (it : ForwardIterator T) : Except Exn (C × ForwardIterator T) :=
  if it.cont = none then throw .aborted
  else if k.hasAnother c then do
    let r ← k.next c
    return (r.1, { it with value := r.2 })
  else return (c, { it with cont := none })

/-- `ForwardIterator(Container& cont)`.  The value is a default one up to the first
increment. -/
def ofContainer [Inhabited T] (address : ℕ) (c : C) : Except Exn (C × ForwardIterator T) :=
  if k.hasAnother c then increment k c ⟨some address, default⟩
  else return (c, ⟨none, default⟩)

/-- `operator==` -/
def equal (it it' : ForwardIterator T) : Bool := it.cont = it'.cont

/-- The values from `it` to the end, as a range based `for` reads them. -/
def visit [Inhabited T] : ℕ → C → ForwardIterator T → Option (Except Exn (List T))
  | 0, _, it => if equal it (done default) then some (return []) else none
  | fuel + 1, c, it =>
      if equal it (done default) then some (return [])
      else
        match increment k c it with
        | .ok (c, it') => (visit fuel c it').map fun r => r.map (it.value :: ·)
        | .error e => some (.error e)

/-- `for (auto t : c)` -/
def rangeFor [Inhabited T] (address fuel : ℕ) (c : C) : Option (Except Exn (List T)) :=
  match ofContainer k address c with
  | .ok (c, it) => visit k fuel c it
  | .error e => some (.error e)

variable {k}

/-- A loop that ends has seen the end, or an item and the rest. -/
theorem drain_cases {fuel : ℕ} {c : C} {ts : List T} (h : drain k fuel c = some (.ok ts)) :
    (k.hasAnother c = false ∧ ts = []) ∨
      ∃ fuel' c' t' ts', fuel = fuel' + 1 ∧ k.hasAnother c = true ∧ k.next c = .ok (c', t') ∧
        drain k fuel' c' = some (.ok ts') ∧ ts = t' :: ts' := by
  cases hanother : k.hasAnother c with
  | false =>
      left
      cases fuel <;>
      · rw [drain, hanother] at h
        cases h
        exact ⟨rfl, rfl⟩
  | true =>
      right
      cases fuel with
      | zero =>
          rw [drain, hanother] at h
          cases h
      | succ fuel =>
          rw [drain, hanother, if_pos rfl] at h
          split at h
          · rename_i c' t' hnext
            obtain ⟨r, hdrain, hr⟩ := Option.map_eq_some_iff.mp h
            cases r with
            | error e => cases hr
            | ok ts' => exact ⟨fuel, c', t', ts', rfl, rfl, hnext, hdrain, (Except.ok.inj hr).symm⟩
          · cases h

theorem increment_next {c c' : C} {t' : T} (hanother : k.hasAnother c = true)
    (hnext : k.next c = .ok (c', t')) (address : ℕ) (t : T) :
    increment k c ⟨some address, t⟩ = .ok (c', ⟨some address, t'⟩) := by
  rw [increment, if_neg (Option.some_ne_none _), if_pos hanother, hnext]
  rfl

variable [Inhabited T]

theorem visit_done (fuel : ℕ) (c : C) (t : T) : visit k fuel c ⟨none, t⟩ = some (return []) := by
  cases fuel <;> rfl

/-- An iterator is one item ahead of its container, and does not lose it at the end. -/
theorem visit_of_drain {address fuel : ℕ} {c : C} {ts : List T}
    (h : drain k fuel c = some (.ok ts)) (t : T) :
    visit k (fuel + 1) c ⟨some address, t⟩ = some (.ok (t :: ts)) := by
  have hother : ∀ t : T, equal ⟨some address, t⟩ (done default) = false := fun _ => rfl
  induction fuel generalizing c t ts with
  | zero =>
      rcases drain_cases h with ⟨hend, rfl⟩ | ⟨fuel', _, _, _, hfuel, _⟩
      · rw [visit, hother, increment, if_neg (Option.some_ne_none _), hend]
        rfl
      · cases hfuel
  | succ fuel ih =>
      rcases drain_cases h with ⟨hend, rfl⟩ | ⟨_, c', t', ts', hfuel, hanother, hnext, hrest, rfl⟩
      · rw [visit, hother, increment, if_neg (Option.some_ne_none _), hend]
        exact congrArg (Option.map fun r => r.map (t :: ·)) (visit_done (k := k) (fuel + 1) c t)
      · cases hfuel
        rw [visit, hother, increment_next hanother hnext]
        exact congrArg (Option.map fun r => r.map (t :: ·)) (ih hrest t')

/-- A range based `for` reads what the loop over `hasAnother` and `next` reads. -/
theorem rangeFor_of_drain {fuel : ℕ} {c : C} {ts : List T} (h : drain k fuel c = some (.ok ts))
    (address : ℕ) : rangeFor k address fuel c = some (.ok ts) := by
  rcases drain_cases h with ⟨hend, rfl⟩ | ⟨fuel', c', t', ts', rfl, hanother, hnext, hrest, rfl⟩
  · rw [rangeFor, ofContainer, hend]
    exact visit_done fuel c default
  · rw [rangeFor, ofContainer, if_pos hanother, increment_next hanother hnext]
    exact visit_of_drain hrest t'

end ForwardIterator

end
end KssUtil.Iterators

import KssUtil.Foundation.Program
import KssUtil.Foundation.CellHeap

/-!
# `CircularArray` (circular_array.hpp)

The five data members, and each method as an action on the heap and on `*this`.
Another array that a method reads is passed by its data members; whether it is
the same object as `*this` is passed as the flag `same`.

Two things are recorded rather than acted on.  A contract expression that
evaluates to false sets `broken` and the call goes on, so the reading in which
the checks are no-ops and the reading in which the first false one ends the
process are both in the model.  Constructing an element and allocating storage
may throw; `throwAt` says how many of those points pass before one does.

The allocator is stateless and is left out.
-/

namespace KssUtil.Containers

open KssUtil.Foundation

/-- The ways a method leaves by exception.  `undefined` is not an exception of
the source: it stands for a step that has no defined behaviour, such as reading
a raw cell. -/
inductive Exn where
  | lengthError
  | outOfRange
  | badAlloc
  | element
  | undefined
deriving DecidableEq, Repr

/-- The data members; a null `_array` is `none`. -/
structure CircularArray where
  array : Option ℕ := none
  capacity : ℕ := 0
  first : ℕ := 0
  last : ℕ := 0
  size : ℕ := 0
deriving DecidableEq, Repr

structure Store (T : Type) where
  heap : Heap T
  self : CircularArray
  throwAt : Option ℕ := none
  broken : Bool := false

abbrev Method (T α : Type) := EStateM Exn (Store T) α

/-- The elements of `[first, last)` for an input iterator: how many there are,
and what dereferencing the iterator `i` steps on does. -/
structure InputRange (T : Type) where
  length : ℕ
  deref : ℕ → Method T T

namespace CircularArray

variable {T : Type}

def self : Method T CircularArray := return (← get).self

def modifySelf (f : CircularArray → CircularArray) : Method T PUnit :=
  modify fun s => { s with self := f s.self }

/-- `KSS_EXPR`. -/
def expr (b : Bool) : Method T PUnit :=
  modify fun s => { s with broken := s.broken || !b }

def mayThrow (e : Exn) : Method T PUnit := do
  match (← get).throwAt with
  | none => pure ⟨⟩
  | some 0 => modify fun s => { s with throwAt := none }; throw e
  | some (n + 1) => modify fun s => { s with throwAt := some n }

/-! ## The allocator -/

def block (a : CircularArray) : Method T ℕ :=
  match a.array with
  | some b => pure b
  | none => throw .undefined

def allocate (n : ℕ) : Method T ℕ := do
  mayThrow .badAlloc
  let b := (← get).heap.next
  modify fun s => { s with heap := s.heap.allocate n }
  return b

/-- `_allocator.construct(_array+i, val)`. -/
def construct (i : ℕ) (val : T) : Method T PUnit := do
  mayThrow .element
  let b ← block (← self)
  modify fun s => { s with heap := s.heap.construct b i val }

/-- `_allocator.destroy(_array+i)`. -/
def destroyCell (i : ℕ) : Method T PUnit := do
  let b ← block (← self)
  modify fun s => { s with heap := s.heap.destroy b i }

/-- `memory::destroy(_array+start, _array+finish, _allocator)`. -/
def destroy (start finish : ℕ) : Method T PUnit :=
  forCount destroyCell start (finish - start)

def readCell (a : CircularArray) (i : ℕ) : Method T T := do
  let b ← block a
  match (← get).heap.read b i with
  | some v => pure v
  | none => throw .undefined

/-! ## Private methods, first part -/

def init (cap : ℕ) : Method T PUnit := do
  let b ← allocate cap
  modifySelf fun a => { a with array := some b }
  modifySelf fun a => { a with capacity := cap }
  modifySelf fun a => { a with first := 0, last := 0, size := 0 }

/-- The two-branch destruction that `clear` and `teardown` share. -/
def destroyElements : Method T PUnit := do
  let a ← self
  if a.first < a.last then
    destroy a.first a.last
  else if a.last < a.first then do
    destroy a.first a.capacity
    destroy 0 a.last
  else
    pure ⟨⟩

def teardown : Method T PUnit := do
  match (← self).array with
  | none => pure ⟨⟩
  | some b => do
      destroyElements
      let a ← self
      modify fun s => { s with heap := s.heap.deallocate b a.capacity }
      modifySelf fun a => { a with array := none }

def checkRoomForOneMore : Method T PUnit := do
  let a ← self
  if a.size = a.capacity then throw .lengthError else pure ⟨⟩
  expr (a.size < a.capacity)

/-! ## Accessors -/

/-- `size_type pos = _first + n; if (pos >= _capacity) pos -= _capacity;` -/
def position (a : CircularArray) (n : ℕ) : ℕ :=
  if a.first + n ≥ a.capacity then a.first + n - a.capacity else a.first + n

/-- The postcondition of `operator[]` and `at`. -/
def positionExpr (a : CircularArray) (pos : ℕ) : Bool :=
  (pos ≥ a.first && pos < a.capacity)
    || (pos < a.last && a.first > a.last)
    || (pos ≥ a.first && pos < a.last)

def operatorIndex (a : CircularArray) (n : ℕ) : Method T T := do
  expr a.array.isSome
  expr (a.size > n)
  let pos := position a n
  expr (positionExpr a pos)
  readCell a pos

def at' (a : CircularArray) (n : ℕ) : Method T T := do
  expr a.array.isSome
  if n ≥ a.size then throw .outOfRange else pure ⟨⟩
  let pos := position a n
  expr (positionExpr a pos)
  readCell a pos

def front (a : CircularArray) : Method T T := do
  expr a.array.isSome
  expr (a.size > 0)
  readCell a a.first

def back (a : CircularArray) : Method T T := do
  expr a.array.isSome
  expr (a.size > 0)
  if a.last = 0 then readCell a (a.capacity - 1) else readCell a (a.last - 1)

/-! ## Modifiers -/

section Modifiers

variable [BEq T]

/-- `push_back(value_type&&)`. -/
def pushBackMove (val : T) : Method T PUnit := do
  checkRoomForOneMore
  construct (← self).last val
  modifySelf fun a => { a with last := a.last + 1 }
  modifySelf fun a => { a with size := a.size + 1 }
  modifySelf fun a => { a with last := if a.last ≥ a.capacity then 0 else a.last }
  let a ← self
  expr a.array.isSome
  expr (a.size > 0)
  expr (a.capacity ≥ a.size)

/-- `push_back(const value_type&)`. -/
def pushBack (val : T) : Method T PUnit := do
  mayThrow .element
  pushBackMove val
  let v ← back (← self)
  expr (v == val)

def popBack : Method T PUnit := do
  let a ← self
  expr a.array.isSome
  expr (a.size > 0)
  modifySelf fun a => { a with last := if a.last = 0 then a.capacity - 1 else a.last - 1 }
  modifySelf fun a => { a with size := a.size - 1 }
  destroyCell (← self).last
  let a ← self
  expr a.array.isSome
  expr (a.capacity > 0)

/-- `push_front(value_type&&)`. -/
def pushFrontMove (val : T) : Method T PUnit := do
  checkRoomForOneMore
  modifySelf fun a =>
    { a with first := if a.first = 0 then a.capacity - 1 else a.first - 1 }
  modifySelf fun a => { a with size := a.size + 1 }
  construct (← self).first val
  let a ← self
  expr a.array.isSome
  expr (a.size > 0)
  expr (a.capacity ≥ a.size)

/-- `push_front(const value_type&)`. -/
def pushFront (val : T) : Method T PUnit := do
  mayThrow .element
  pushFrontMove val
  let v ← front (← self)
  expr (v == val)

def popFront : Method T PUnit := do
  let a ← self
  expr a.array.isSome
  expr (a.size > 0)
  destroyCell a.first
  modifySelf fun a => { a with first := a.first + 1 }
  modifySelf fun a => { a with size := a.size - 1 }
  modifySelf fun a => { a with first := if a.first ≥ a.capacity then 0 else a.first }
  let a ← self
  expr a.array.isSome
  expr (a.capacity > 0)

/-- `swap(ca)` for another object `ca`; the result is what `ca` becomes. -/
def swap (ca : CircularArray) : Method T CircularArray := do
  let a ← self
  modifySelf fun _ => ca
  return a

def clear : Method T PUnit := do
  destroyElements
  modifySelf fun a => { a with first := 0, last := 0, size := 0 }
  let a ← self
  expr (a.size == 0)
  expr (a.first == 0)
  expr (a.last == 0)

/-! ## Relational operators -/

/-- `std::mismatch` from position `i` on, as `notEqual` uses it: whether some
pair of elements differs. -/
def notEqual (a b : CircularArray) (i : ℕ) : ℕ → Method T Bool
  | 0 => pure false
  | n + 1 => do
      let x ← operatorIndex a i
      let y ← operatorIndex b i
      if x == y then notEqual a b (i + 1) n else pure true

def operatorEq (same : Bool) (a b : CircularArray) : Method T Bool :=
  if same then pure true
  else if a.size ≠ b.size then pure false
  else return !(← notEqual a b 0 a.size)

/-- `std::lexicographical_compare` from position `i` on, `n` positions before
the shorter range ends. -/
def lexicographicalCompare [LT T] [DecidableLT T] (a b : CircularArray) (i : ℕ) :
    ℕ → Method T Bool
  | 0 => pure (i = a.size && i ≠ b.size)
  | n + 1 => do
      let x ← operatorIndex a i
      let y ← operatorIndex b i
      if x < y then pure true
      else if y < x then pure false
      else lexicographicalCompare a b (i + 1) n

def operatorLt [LT T] [DecidableLT T] (same : Bool) (a b : CircularArray) : Method T Bool :=
  if same then pure false
  else lexicographicalCompare a b 0 (min a.size b.size)

/-! The operators `AddRelOps` adds. -/

def operatorNe (same : Bool) (a b : CircularArray) : Method T Bool :=
  return !(← operatorEq same a b)

def operatorLe [LT T] [DecidableLT T] (same : Bool) (a b : CircularArray) :
    Method T Bool := do
  if ← operatorLt same a b then pure true else operatorEq same a b

def operatorGt [LT T] [DecidableLT T] (same : Bool) (a b : CircularArray) :
    Method T Bool := do
  if ← operatorEq same a b then pure false else return !(← operatorLt same a b)

def operatorGe [LT T] [DecidableLT T] (same : Bool) (a b : CircularArray) :
    Method T Bool :=
  return !(← operatorLt same a b)

/-! ## Construction, assignment and capacity

`reserve` copies `*this` into a larger array, copying assigns a range, and
assigning a range reserves.  The cycle is cut by the depth argument of
`reserve`: a call at depth `0` is a call that overflows the stack. -/

/-- Run `m` on the object `o` in place of `*this`; the result is what `o`
becomes. -/
def onObject (o : CircularArray) (m : Method T PUnit) : Method T CircularArray := fun s =>
  match m { s with self := o } with
  | .ok _ s' => .ok s'.self { s' with self := s.self }
  | .error e s' => .error e { s' with self := s.self }

/-- The range `[ca.begin(), ca.end())`. -/
def range (ca : CircularArray) : InputRange T := ⟨ca.size, operatorIndex ca⟩

/-- A range of plain values. -/
def values (vs : List T) : InputRange T :=
  ⟨vs.length, fun i => match vs[i]? with | some v => pure v | none => throw .undefined⟩

def ensureRoomForOneMore (reserve : ℕ → Method T PUnit) : Method T PUnit := do
  let a ← self
  if a.size = a.capacity then
    reserve (a.capacity + max 10 (a.capacity / 4))
  else
    pure ⟨⟩
  let a ← self
  expr (a.size < a.capacity)

/-- `assign(first, last)`. -/
def assignRangeWith (reserve : ℕ → Method T PUnit) (r : InputRange T) : Method T PUnit := do
  clear
  forCount (fun i => do
    ensureRoomForOneMore reserve
    pushBack (← r.deref i)) 0 r.length
  let a ← self
  expr a.array.isSome
  expr (a.capacity ≥ a.size)
  expr (a.capacity > 0)

/-- `(_last == _size) || (_last == 0 && _size == _capacity)`. -/
def lastExpr (a : CircularArray) : Bool :=
  a.last == a.size || (a.last == 0 && a.size == a.capacity)

/-- `CircularArray(const CircularArray& ca, size_type cap)`. -/
def constructCopyWith (reserve : ℕ → Method T PUnit) (ca : CircularArray) (cap : ℕ) :
    Method T PUnit := do
  init (max ca.size cap)
  assignRangeWith reserve (range ca)
  let a ← self
  expr a.array.isSome
  expr (a.capacity == max ca.size cap)
  expr (a.size == ca.size)
  expr (a.first == 0)
  expr (lastExpr a)
  expr (← operatorEq false a ca)

def reserve : ℕ → ℕ → Method T PUnit
  | 0, _ => throw .undefined
  | depth + 1, cap => do
      let this ← self
      if cap ≤ this.capacity then
        pure ⟨⟩
      else
        let ca ← onObject {} (constructCopyWith (reserve depth) this cap)
        let ca ← swap ca
        let a ← self
        expr a.array.isSome
        expr (a.capacity ≥ cap)
        expr (a.capacity ≥ a.size)
        discard <| onObject ca teardown

variable (depth : ℕ)

def assignRange (r : InputRange T) : Method T PUnit := assignRangeWith (reserve depth) r

/-- `assign(n, val)`. -/
def assignFill (n : ℕ) (val : T) : Method T PUnit := do
  clear
  reserve depth n
  forCount (fun _ => pushBack val) 0 n
  let a ← self
  expr a.array.isSome
  expr (a.capacity ≥ a.size)
  expr (a.size == n)

/-- `assign(initializer_list)`. -/
def assignList (il : List T) : Method T PUnit := do
  clear
  reserve depth il.length
  assignRange depth (values il)
  let a ← self
  expr a.array.isSome
  expr (a.capacity ≥ a.size)
  expr (a.size == il.length)

def constructEmpty (cap : ℕ) : Method T PUnit := do
  init cap
  let a ← self
  expr a.array.isSome
  expr (a.capacity == cap)
  expr (a.size == 0)
  expr (a.first == 0)
  expr (a.last == a.size)

def constructFill (n : ℕ) (val : T) (cap : ℕ) : Method T PUnit := do
  init (max n cap)
  assignFill depth n val
  let a ← self
  expr a.array.isSome
  expr (a.capacity == max n cap)
  expr (a.size == n)
  expr (a.first == 0)
  expr (lastExpr a)

def constructRange (r : InputRange T) (cap : ℕ) : Method T PUnit := do
  init cap
  assignRange depth r
  let a ← self
  expr a.array.isSome
  expr (a.capacity ≥ cap)
  expr (a.capacity ≥ a.size)
  expr (a.first == 0)
  expr (lastExpr a)

def constructCopy (ca : CircularArray) (cap : ℕ) : Method T PUnit :=
  constructCopyWith (reserve depth) ca cap

def constructList (il : List T) (cap : ℕ) : Method T PUnit := do
  init (max il.length cap)
  assignList depth il
  let a ← self
  expr a.array.isSome
  expr (a.capacity == max il.length cap)
  expr (a.size == il.length)
  expr (a.first == 0)
  expr (lastExpr a)

/-- `CircularArray(CircularArray&& ca)`; the result is what `ca` becomes. -/
def constructMove (ca : CircularArray) : Method T CircularArray := do
  modifySelf fun _ => ca
  let ca : CircularArray := {}
  let a ← self
  expr a.array.isSome
  expr (a.capacity ≥ a.size)
  expr (a.capacity > 0)
  expr ca.array.isNone
  expr (ca.size == 0)
  expr (ca.capacity == 0)
  return ca

/-- `operator=(const CircularArray& ca)`. -/
def assignCopy (same : Bool) (ca : CircularArray) : Method T PUnit := do
  if same then
    pure ⟨⟩
  else do
    teardown
    init ca.capacity
    forCount (fun i => do pushBack (← operatorIndex ca i)) 0 ca.size
  let a ← self
  expr a.array.isSome
  expr (a.capacity ≥ ca.capacity)
  expr (← operatorEq same a ca)

/-- `operator=(CircularArray&& ca)`; the result is what `ca` becomes. -/
def assignMove (same : Bool) (ca : CircularArray) : Method T CircularArray := do
  let ca ← if same then pure ca else do
    teardown
    modifySelf fun _ => ca
    onObject ca teardown
  let a ← self
  expr a.array.isSome
  expr (a.capacity ≥ a.size)
  expr (a.capacity > 0)
  expr ca.array.isNone
  expr (ca.capacity == 0)
  expr (ca.size == 0)
  return ca

def resize (n : ℕ) (val : T) : Method T PUnit := do
  whileLoop (return (← self).size > n) popBack (← self).size
  if (← self).size < n then do
    reserve depth n
    pushBack val
    whileLoop (return (← self).size < n) (pushBack val) n
  else
    pure ⟨⟩
  let a ← self
  expr a.array.isSome
  expr (a.size == n)
  expr (a.capacity ≥ n)

def shrinkToFit : Method T PUnit := do
  let this ← self
  if this.capacity > this.size then do
    let tmp ← onObject {} (constructCopy depth this this.size)
    let tmp ← swap tmp
    discard <| onObject tmp teardown
  else
    pure ⟨⟩
  let a ← self
  expr (a.capacity == a.size)

end Modifiers
end CircularArray
end KssUtil.Containers

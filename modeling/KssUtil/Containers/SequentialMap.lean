import KssUtil.Foundation.Program
import KssUtil.Foundation.OrderedMap
import Mathlib.Data.Int.Notation

/-!
# `SequentialMap` (sequentialmap.hpp)

The pairs in insertion order, and an ordered map from each key to the position
of its pair.  An iterator is its position relative to `begin()`; `end()` is the
number of pairs.

Contract expressions and throwing points are recorded as for `CircularArray`.
The comparator is held by the ordered map, as `std::map` does.
-/

namespace KssUtil.Containers

open KssUtil.Foundation

structure SequentialMap (K T : Type) where
  vec : List (K × T)
  map : OrderedMap K ℕ

namespace SequentialMap

/-- `undefined` is not an exception of the source: it stands for a step that has
no defined behaviour, such as reading past `end()`. -/
inductive Exn where
  | outOfRange
  | invalidArgument
  | badAlloc
  | undefined
deriving DecidableEq, Repr

structure Store (K T : Type) where
  self : SequentialMap K T
  throwAt : Option ℕ := none
  broken : Bool := false

abbrev Method (K T α : Type) := EStateM Exn (Store K T) α

variable {K T : Type}

def self : Method K T (SequentialMap K T) := return (← get).self

def modifySelf (f : SequentialMap K T → SequentialMap K T) : Method K T PUnit :=
  modify fun s => { s with self := f s.self }

/-- `KSS_EXPR`. -/
def expr (b : Bool) : Method K T PUnit :=
  modify fun s => { s with broken := s.broken || !b }

def mayThrow (e : Exn) : Method K T PUnit := do
  match (← get).throwAt with
  | none => pure ⟨⟩
  | some 0 => modify fun s => { s with throwAt := none }; throw e
  | some (n + 1) => modify fun s => { s with throwAt := some n }

/-- `_vec.size() == _map.size()` -/
def sizesExpr : Method K T PUnit := do
  let m ← self
  expr (m.vec.length == m.map.size)

/-- `SequentialMap(comp)`: the members are default-constructed, so the map is
ordered by `compare`, the value `Compare()`. -/
def construct (compare : StrictWeakOrder K) : SequentialMap K T := ⟨[], OrderedMap.empty compare⟩

/-- `std::numeric_limits<difference_type>::max()` -/
def maxIncr : ℕ := 9223372036854775807

/-- The loop that steps an iterator on by `remain`, in turns of at most
`maxIncr`. -/
def advance (it remain : ℕ) : ℕ → ℕ
  | 0 => it + remain
  | turns + 1 => if remain > maxIncr then advance (it + maxIncr) (remain - maxIncr) turns
      else it + remain

def find (k : K) : Method K T ℕ := do
  sizesExpr
  let m ← self
  let retIt := match m.map.find? k with
    | some i => advance 0 i i
    | none => m.vec.length
  sizesExpr
  return retIt

def count (k : K) : Method K T ℕ := do
  sizesExpr
  return if (← self).map.find? k = none then 0 else 1

/-- `*it` -/
def deref (it : ℕ) : Method K T (K × T) := do
  match (← self).vec[it]? with
  | some e => pure e
  | none => throw .undefined

def at' (k : K) : Method K T T := do
  sizesExpr
  let it ← find k
  if it = (← self).vec.length then throw .outOfRange else pure ⟨⟩
  sizesExpr
  return (← deref it).2

/-- `insert(val)`: the position of the pair, and whether it is new. -/
def insert (val : K × T) : Method K T (ℕ × Bool) := do
  sizesExpr
  let it ← find val.1
  let r ← if it = (← self).vec.length then do
      mayThrow .badAlloc
      modifySelf fun m => { m with vec := m.vec ++ [val] }
      mayThrow .badAlloc
      modifySelf fun m => { m with map := m.map.insert val.1 (m.vec.length - 1) }
      pure (it, true)
    else pure (it, false)
  sizesExpr
  return r

/-- `insert(position, val)`; the position is not used. -/
def insertAt (_position : ℕ) (val : K × T) : Method K T ℕ := return (← insert val).1

/-- `insert(first, last)` -/
def insertRange (vals : List (K × T)) : Method K T PUnit := do
  sizesExpr
  vals.forM fun val => discard (insert val)
  sizesExpr

/-- `operator[]`: the position of the pair whose value it refers to. -/
def operatorIndex [Inhabited T] (k : K) : Method K T ℕ := do
  sizesExpr
  let it ← find k
  let it ← if it = (← self).vec.length then do
      let p ← insert (k, default)
      pure p.1
    else pure it
  sizesExpr
  return it

/-- `m[k] = v`: a write through the reference. -/
def assignIndex [Inhabited T] (k : K) (v : T) : Method K T PUnit := do
  let it ← operatorIndex k
  modifySelf fun m => { m with vec := m.vec.modify it fun e => (e.1, v) }

/-- `erase(first, last)` -/
def eraseRange (first last : ℤ) : Method K T PUnit := do
  expr (first ≥ 0)
  expr (last ≥ first)
  sizesExpr
  let i := first
  let n := last - first
  if i < 0 ∨ n < 0 then throw .invalidArgument else pure ⟨⟩
  forCount (fun it => do
    let e ← deref it
    modifySelf fun m => { m with map := m.map.erase e.1 }) first.toNat n.toNat
  modifySelf fun m => { m with vec := m.vec.take first.toNat ++ m.vec.drop last.toNat }
  modifySelf fun m =>
    { m with map := m.map.mapValues fun v => if v ≥ i.toNat then v - n.toNat else v }
  sizesExpr

/-- `erase(position)` -/
def erasePosition (position : ℤ) : Method K T PUnit := eraseRange position (position + 1)

/-- `erase(k)`: the number of pairs erased. -/
def erase (k : K) : Method K T ℕ := do
  sizesExpr
  let it ← find k
  let numErased ← if it ≠ (← self).vec.length then do
      erasePosition it
      pure 1
    else pure 0
  sizesExpr
  return numErased

/-- `operator=(const SequentialMap&)`, member by member. -/
def assignCopy (x : SequentialMap K T) : Method K T PUnit := do
  mayThrow .badAlloc
  modifySelf fun m => { m with vec := x.vec }
  mayThrow .badAlloc
  modifySelf fun m => { m with map := x.map }

/-- `swap(x)`; the result is what `x` becomes. -/
def swap (x : SequentialMap K T) : Method K T (SequentialMap K T) := do
  let m ← self
  modifySelf fun _ => x
  sizesExpr
  expr (m.vec.length == m.map.size)
  return m

def clear : Method K T PUnit := do
  modifySelf fun m => ⟨[], m.map.clear⟩
  let m ← self
  expr m.vec.isEmpty
  expr (m.map.size == 0)

/-! ## Programs that use sequential maps -/

/-- The maps of a program, all of one type. -/
structure World (K T : Type) where
  maps : ℕ → SequentialMap K T
  throwAt : Option ℕ := none
  broken : Bool := false

inductive Call (K T : Type) where
  | insert (x : ℕ) (val : K × T)
  | insertAt (x position : ℕ) (val : K × T)
  | insertRange (x : ℕ) (vals : List (K × T))
  | index (x : ℕ) (k : K)
  | assign (x : ℕ) (k : K) (v : T)
  | at (x : ℕ) (k : K)
  | find (x : ℕ) (k : K)
  | count (x : ℕ) (k : K)
  | erase (x : ℕ) (k : K)
  | erasePosition (x : ℕ) (position : ℤ)
  | eraseRange (x : ℕ) (first last : ℤ)
  | clear (x : ℕ)
  | constructCopy (x y : ℕ)
  | assignCopy (x y : ℕ)
  | swap (x y : ℕ)

/-- What a call returns. -/
inductive Result (T : Type) where
  | none
  | inserted (position : ℕ) (isNew : Bool)
  | position (it : ℕ)
  | value (v : T)
  | number (n : ℕ)
deriving DecidableEq, Repr

namespace World

/-- All maps are default-constructed. -/
def start (compare : StrictWeakOrder K) : World K T := { maps := fun _ => construct compare }

def call (w : World K T) (x : ℕ) (m : Method K T (Result T)) :
    Except Exn (Result T) × World K T :=
  match m ⟨w.maps x, w.throwAt, w.broken⟩ with
  | .ok r s => (.ok r, ⟨Function.update w.maps x s.self, s.throwAt, s.broken⟩)
  | .error e s => (.error e, ⟨Function.update w.maps x s.self, s.throwAt, s.broken⟩)

def callWith (w : World K T) (x y : ℕ) (m : SequentialMap K T → Method K T (SequentialMap K T)) :
    Except Exn (Result T) × World K T :=
  match m (w.maps y) ⟨w.maps x, w.throwAt, w.broken⟩ with
  | .ok m' s => (.ok .none,
      ⟨Function.update (Function.update w.maps x s.self) y m', s.throwAt, s.broken⟩)
  | .error e s => (.error e, ⟨Function.update w.maps x s.self, s.throwAt, s.broken⟩)

def step [Inhabited T] (w : World K T) : Call K T → Except Exn (Result T) × World K T
  | .insert x val => w.call x do
      let r ← SequentialMap.insert val
      return .inserted r.1 r.2
  | .insertAt x position val => w.call x do
      return .position (← SequentialMap.insertAt position val)
  | .insertRange x vals => w.call x do
      SequentialMap.insertRange vals
      return .none
  | .index x k => w.call x do return .value (← deref (← operatorIndex k)).2
  | .assign x k v => w.call x do
      assignIndex k v
      return .none
  | .at x k => w.call x do return .value (← at' k)
  | .find x k => w.call x do return .position (← SequentialMap.find k)
  | .count x k => w.call x do return .number (← SequentialMap.count k)
  | .erase x k => w.call x do return .number (← SequentialMap.erase k)
  | .erasePosition x position => w.call x do
      SequentialMap.erasePosition position
      return .none
  | .eraseRange x first last => w.call x do
      SequentialMap.eraseRange first last
      return .none
  | .clear x => w.call x do
      SequentialMap.clear
      return .none
  | .constructCopy x y => w.call x do
      mayThrow .badAlloc
      modifySelf fun _ => w.maps y
      return .none
  | .assignCopy x y => w.call x do
      SequentialMap.assignCopy (w.maps y)
      return .none
  | .swap x y =>
      if x = y then w.call x do
        sizesExpr
        sizesExpr
        return .none
      else w.callWith x y SequentialMap.swap

def run [Inhabited T] (w : World K T) :
    List (Call K T) → List (Except Exn (Result T)) × World K T
  | [] => ([], w)
  | c :: cs =>
      let o := w.step c
      let r := run o.2 cs
      (o.1 :: r.1, r.2)

end World
end SequentialMap
end KssUtil.Containers

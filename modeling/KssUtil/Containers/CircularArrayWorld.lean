import KssUtil.Containers.CircularArray
import KssUtil.Containers.BoundedList

/-!
# Programs that use circular arrays

A world is one heap and any number of named arrays on it.  A call is one public
operation on named arrays; `World.step` runs the method the source has for it.
`Slots.step` says what the same call is meant to do, in terms of bounded lists.
-/

namespace KssUtil.Containers

open KssUtil.Foundation

structure World (T : Type) where
  heap : Heap T := {}
  arrays : ℕ → Option CircularArray := fun _ => none
  throwAt : Option ℕ := none
  broken : Bool := false

inductive RelOp where
  | eq | ne | lt | le | gt | ge
deriving DecidableEq, Repr

/-- The public operations.  `x` is the object the call is made on, or the one
it constructs; `y` is another array it is given. -/
inductive Call (T : Type) where
  | construct (x cap : ℕ)
  | constructFill (x n : ℕ) (val : T) (cap : ℕ)
  | constructRange (x : ℕ) (vs : List T) (cap : ℕ)
  | constructCopy (x y cap : ℕ)
  | constructMove (x y : ℕ)
  | constructList (x : ℕ) (il : List T) (cap : ℕ)
  | destruct (x : ℕ)
  | assignCopy (x y : ℕ)
  | assignMove (x y : ℕ)
  | assignRange (x : ℕ) (vs : List T)
  | assignFill (x n : ℕ) (val : T)
  | assignList (x : ℕ) (il : List T)
  | resize (x n : ℕ) (val : T)
  | reserve (x cap : ℕ)
  | shrinkToFit (x : ℕ)
  | index (x n : ℕ)
  | at (x n : ℕ)
  | front (x : ℕ)
  | back (x : ℕ)
  | pushBack (x : ℕ) (val : T)
  | pushBackMove (x : ℕ) (val : T)
  | popBack (x : ℕ)
  | pushFront (x : ℕ) (val : T)
  | pushFrontMove (x : ℕ) (val : T)
  | popFront (x : ℕ)
  | swap (x y : ℕ)
  | clear (x : ℕ)
  | compare (op : RelOp) (x y : ℕ)

/-- What a call returns. -/
inductive Result (T : Type) where
  | none
  | element (v : T)
  | bool (b : Bool)
deriving DecidableEq, Repr

namespace World

variable {T : Type}

def store (w : World T) (a : CircularArray) : Store T := ⟨w.heap, a, w.throwAt, w.broken⟩

/-- The world after a method left `s` behind, with `o` under the name `x`. -/
def after (w : World T) (x : ℕ) (o : Option CircularArray) (s : Store T) : World T :=
  ⟨s.heap, Function.update w.arrays x o, s.throwAt, s.broken⟩

/-- Make a new array under the name `x`.  A constructor that throws leaves no
object. -/
def build (w : World T) (x : ℕ) (m : Method T PUnit) : Except Exn (Result T) × World T :=
  match m (w.store {}) with
  | .ok _ s => (.ok .none, w.after x (some s.self) s)
  | .error e s => (.error e, w.after x (w.arrays x) s)

/-- Call a method of the array named `x`. -/
def call (w : World T) (x : ℕ) (m : CircularArray → Method T (Result T)) :
    Except Exn (Result T) × World T :=
  match w.arrays x with
  | none => (.error .undefined, w)
  | some a =>
      match m a (w.store a) with
      | .ok r s => (.ok r, w.after x (some s.self) s)
      | .error e s => (.error e, w.after x (some s.self) s)

/-- Call a method of `x` that also changes the array named `y`. -/
def callWith (w : World T) (x y : ℕ) (m : CircularArray → Method T CircularArray) :
    Except Exn (Result T) × World T :=
  match w.arrays x, w.arrays y with
  | some a, some ca =>
      match m ca (w.store a) with
      | .ok ca' s =>
          (.ok .none, (w.after x (some s.self) s).after y (some ca') s)
      | .error e s => (.error e, w.after x (some s.self) s)
  | _, _ => (.error .undefined, w)

def void (m : Method T PUnit) : Method T (Result T) := do m; return .none

def compareOp [BEq T] [LT T] [DecidableLT T] (op : RelOp) (same : Bool)
    (a b : CircularArray) : Method T Bool :=
  match op with
  | .eq => CircularArray.operatorEq same a b
  | .ne => CircularArray.operatorNe same a b
  | .lt => CircularArray.operatorLt same a b
  | .le => CircularArray.operatorLe same a b
  | .gt => CircularArray.operatorGt same a b
  | .ge => CircularArray.operatorGe same a b

open CircularArray in
/-- Run one call, with room for `depth` nested calls of `reserve`. -/
def step [BEq T] [LT T] [DecidableLT T] (depth : ℕ) (w : World T) :
    Call T → Except Exn (Result T) × World T
  | .construct x cap => w.build x (constructEmpty cap)
  | .constructFill x n val cap => w.build x (CircularArray.constructFill depth n val cap)
  | .constructRange x vs cap => w.build x (CircularArray.constructRange depth (values vs) cap)
  | .constructCopy x y cap =>
      match w.arrays y with
      | none => (.error .undefined, w)
      | some ca => w.build x (CircularArray.constructCopy depth ca cap)
  | .constructMove x y =>
      match w.arrays y with
      | none => (.error .undefined, w)
      | some ca =>
          match CircularArray.constructMove ca (w.store {}) with
          | .ok ca' s => (.ok .none, (w.after x (some s.self) s).after y (some ca') s)
          | .error e s => (.error e, w.after x (w.arrays x) s)
  | .constructList x il cap => w.build x (CircularArray.constructList depth il cap)
  | .destruct x =>
      match w.arrays x with
      | none => (.error .undefined, w)
      | some a =>
          match (teardown (T := T)) (w.store a) with
          | .ok _ s => (.ok .none, w.after x none s)
          | .error e s => (.error e, w.after x none s)
  | .assignCopy x y =>
      match w.arrays y with
      | none => (.error .undefined, w)
      | some ca => w.call x fun _ => void (CircularArray.assignCopy (x == y) ca)
  | .assignMove x y =>
      if x = y then w.call x fun a => do discard (CircularArray.assignMove true a); return .none
      else w.callWith x y (CircularArray.assignMove false)
  | .assignRange x vs => w.call x fun _ => void (CircularArray.assignRange depth (values vs))
  | .assignFill x n val => w.call x fun _ => void (CircularArray.assignFill depth n val)
  | .assignList x il => w.call x fun _ => void (CircularArray.assignList depth il)
  | .resize x n val => w.call x fun _ => void (CircularArray.resize depth n val)
  | .reserve x cap => w.call x fun _ => void (CircularArray.reserve depth cap)
  | .shrinkToFit x => w.call x fun _ => void (CircularArray.shrinkToFit depth)
  | .index x n => w.call x fun a => do return .element (← operatorIndex a n)
  | .at x n => w.call x fun a => do return .element (← at' a n)
  | .front x => w.call x fun a => do return .element (← CircularArray.front a)
  | .back x => w.call x fun a => do return .element (← CircularArray.back a)
  | .pushBack x val => w.call x fun _ => void (CircularArray.pushBack val)
  | .pushBackMove x val => w.call x fun _ => void (CircularArray.pushBackMove val)
  | .popBack x => w.call x fun _ => void CircularArray.popBack
  | .pushFront x val => w.call x fun _ => void (CircularArray.pushFront val)
  | .pushFrontMove x val => w.call x fun _ => void (CircularArray.pushFrontMove val)
  | .popFront x => w.call x fun _ => void CircularArray.popFront
  | .swap x y =>
      if x = y then w.call x fun _ => pure .none
      else w.callWith x y CircularArray.swap
  | .clear x => w.call x fun _ => void CircularArray.clear
  | .compare op x y =>
      match w.arrays y with
      | none => (.error .undefined, w)
      | some b => w.call x fun a => do return .bool (← compareOp op (x == y) a b)

/-- A run of calls: their outcomes, and the world at the end.  An exception
goes to the caller, who makes the next call. -/
def run [BEq T] [LT T] [DecidableLT T] (depth : ℕ) (w : World T) :
    List (Call T) → List (Except Exn (Result T)) × World T
  | [] => ([], w)
  | c :: cs =>
      let o := w.step depth c
      let r := run depth o.2 cs
      (o.1 :: r.1, r.2)

end World

/-! ## What the calls are meant to do -/

/-- What a name stands for: nothing, an array a move construction has emptied,
or a bounded list. -/
inductive Slot (T : Type) where
  | free
  | movedFrom
  | holds (l : BoundedList T)

abbrev Slots (T : Type) := ℕ → Slot T

namespace Slots

variable {T : Type}

def start : Slots T := fun _ => .free

/-- Replace the list named `x`, where there is one. -/
def on (σ : Slots T) (x : ℕ) (f : BoundedList T → Except Exn (Result T) × BoundedList T) :
    Except Exn (Result T) × Slots T :=
  match σ x with
  | .holds l => ((f l).1, Function.update σ x (.holds (f l).2))
  | _ => (.error .undefined, σ)

/-- Read the list named `x`, where there is one. -/
def look (σ : Slots T) (x : ℕ) (f : BoundedList T → Except Exn (Result T)) :
    Except Exn (Result T) × Slots T :=
  match σ x with
  | .holds l => (f l, σ)
  | _ => (.error .undefined, σ)

def element : Option T → Exn → Except Exn (Result T)
  | some v, _ => .ok (.element v)
  | none, e => .error e

def pushBack (v : T) (l : BoundedList T) : Except Exn (Result T) × BoundedList T :=
  if h : l.Full then (.error .lengthError, l) else (.ok .none, l.pushBack v h)

def pushFront (v : T) (l : BoundedList T) : Except Exn (Result T) × BoundedList T :=
  if h : l.Full then (.error .lengthError, l) else (.ok .none, l.pushFront v h)

section

variable [BEq T] [LT T] [DecidableLT T]

/-- The lexicographical order, decided with `<` on the items. -/
def lexLt : List T → List T → Bool
  | x :: xs, y :: ys => if x < y then true else if y < x then false else lexLt xs ys
  | [], _ :: _ => true
  | _, [] => false

def compareOp (op : RelOp) (same : Bool) (xs ys : List T) : Bool :=
  let eq := same || xs == ys
  let lt := !same && lexLt xs ys
  match op with
  | .eq => eq
  | .ne => !eq
  | .lt => lt
  | .le => lt || eq
  | .gt => !eq && !lt
  | .ge => !lt

/-- One call on bounded lists.  Move assignment is left open. -/
def step (σ : Slots T) : Call T → Except Exn (Result T) × Slots T
  | .construct x cap => (.ok .none, Function.update σ x (.holds (.empty cap)))
  | .constructFill x n val cap => (.ok .none, Function.update σ x (.holds (.fill n val cap)))
  | .constructRange x vs cap =>
      (.ok .none, Function.update σ x (.holds ((BoundedList.empty cap).assignRange vs)))
  | .constructCopy x y cap =>
      match σ y with
      | .holds m => (.ok .none, Function.update σ x (.holds (m.copy cap)))
      | _ => (.error .undefined, σ)
  | .constructMove x y =>
      match σ y with
      | .holds m =>
          (.ok .none, Function.update (Function.update σ x (.holds m)) y .movedFrom)
      | _ => (.error .undefined, σ)
  | .constructList x il cap => (.ok .none, Function.update σ x (.holds (.ofList il cap)))
  | .destruct x => (.ok .none, Function.update σ x .free)
  | .assignCopy x y =>
      match σ y with
      | .holds m => σ.on x fun _ => (.ok .none, m)
      | _ => (.error .undefined, σ)
  | .assignMove _ _ => (.error .undefined, σ)
  | .assignRange x vs => σ.on x fun l => (.ok .none, l.assignRange vs)
  | .assignFill x n val => σ.on x fun l => (.ok .none, l.assignFill n val)
  | .assignList x il => σ.on x fun l => (.ok .none, l.assignList il)
  | .resize x n val => σ.on x fun l => (.ok .none, l.resize n val)
  | .reserve x cap => σ.on x fun l => (.ok .none, l.reserve cap)
  | .shrinkToFit x => σ.on x fun l => (.ok .none, l.shrinkToFit)
  | .index x n => σ.look x fun l => element l.items[n]? .undefined
  | .at x n => σ.look x fun l => element l.items[n]? .outOfRange
  | .front x => σ.look x fun l => element l.items.head? .undefined
  | .back x => σ.look x fun l => element l.items.getLast? .undefined
  | .pushBack x val => σ.on x (pushBack val)
  | .pushBackMove x val => σ.on x (pushBack val)
  | .popBack x => σ.on x fun l => (.ok .none, l.popBack)
  | .pushFront x val => σ.on x (pushFront val)
  | .pushFrontMove x val => σ.on x (pushFront val)
  | .popFront x => σ.on x fun l => (.ok .none, l.popFront)
  | .swap x y =>
      match σ x, σ y with
      | .holds l, .holds m =>
          (.ok .none, Function.update (Function.update σ x (.holds m)) y (.holds l))
      | _, _ => (.error .undefined, σ)
  | .clear x => σ.on x fun l => (.ok .none, l.clear)
  | .compare op x y =>
      match σ y with
      | .holds m => σ.look x fun l => .ok (.bool (compareOp op (x == y) l.items m.items))
      | _ => (.error .undefined, σ)

def run (σ : Slots T) : List (Call T) → List (Except Exn (Result T)) × Slots T
  | [] => ([], σ)
  | c :: cs =>
      let o := σ.step c
      let r := run o.2 cs
      (o.1 :: r.1, r.2)

end

/-! ## Legal calls -/

/-- `x` is a list, and `p` of it. -/
def has (σ : Slots T) (x : ℕ) (p : BoundedList T → Bool) : Bool :=
  match σ x with
  | .holds l => p l
  | _ => false

/-- `x` names nothing. -/
def isFree (σ : Slots T) (x : ℕ) : Bool :=
  match σ x with
  | .free => true
  | _ => false

/-- `x` names a live array. -/
def isLive (σ : Slots T) (x : ℕ) : Bool := σ.has x fun _ => true

/-- The call is on arrays that were constructed and neither destroyed nor moved
from, and it meets the preconditions of the method. -/
def legal (σ : Slots T) : Call T → Bool
  | .construct x _ | .constructFill x _ _ _ | .constructRange x _ _ | .constructList x _ _ =>
      σ.isFree x
  | .constructCopy x y _ | .constructMove x y => σ.isFree x && σ.isLive y
  | .assignCopy x y | .assignMove x y | .swap x y | .compare _ x y => σ.isLive x && σ.isLive y
  | .index x n => σ.has x fun l => n < l.items.length
  | .front x | .back x | .popBack x | .popFront x => σ.has x fun l => !l.items.isEmpty
  | .destruct x | .assignRange x _ | .assignFill x _ _ | .assignList x _ | .resize x _ _
  | .reserve x _ | .shrinkToFit x | .at x _ | .pushBack x _ | .pushBackMove x _
  | .pushFront x _ | .pushFrontMove x _ | .clear x => σ.isLive x

end Slots

/-- The call is a move construction or a move assignment. -/
def Call.moves {T : Type} : Call T → Bool
  | .constructMove _ _ | .assignMove _ _ => true
  | _ => false

/-- Every call of a run meets `p`, in the state it is made in. -/
def World.every {T : Type} [BEq T] [LT T] [DecidableLT T] (depth : ℕ)
    (p : World T → Slots T → Call T → Bool) (w : World T) (σ : Slots T) : List (Call T) → Bool
  | [] => true
  | c :: cs => p w σ c && every depth p (w.step depth c).2 (σ.step c).2 cs

end KssUtil.Containers

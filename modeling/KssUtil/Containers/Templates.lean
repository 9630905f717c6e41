import KssUtil.Foundation.Simulation

/-!
# The algorithm templates (algorithm.hpp, containerutil.hpp)

A template is given a container, or iterators, and functions.  An iterator of a container is
a position in it, so that a template reads through an action for each position.  The functions
have a state of their own, and may throw.

Each template is followed by what it means for a list: the same functions, applied to the
elements of the list in turn.
-/

namespace KssUtil.Containers

open KssUtil.Foundation

variable {ε ε₁ ε' σ υ T U : Type}

/-- What the templates use of a container: `c[i]`, `c[i] = v` and the two sizes. -/
structure Container (ε σ T : Type) where
  size : EStateM ε σ ℕ
  capacity : EStateM ε σ ℕ
  index : ℕ → EStateM ε σ T
  assign : ℕ → T → EStateM ε σ PUnit

/-- The container, and beside it the state of the functions that a template is given -/
def Container.beside (c : Container ε₁ σ T) (wrap : ε₁ → ε) : Container ε (σ × υ) T where
  size := onFst wrap c.size
  capacity := onFst wrap c.capacity
  index i := onFst wrap (c.index i)
  assign i v := onFst wrap (c.assign i v)

namespace Templates

/-! ## `algorithm.hpp` -/

/-- `forEachIf(first, last, f, p)`, `n` positions before `last`.  The iterator is dereferenced
once for each of the two functions. -/
def forEachIf (deref : ℕ → EStateM ε σ T) (f : T → EStateM ε σ PUnit)
    (p : T → EStateM ε σ Bool) (first : ℕ) : ℕ → EStateM ε σ PUnit
  | 0 => pure ⟨⟩
  | n + 1 => do
      let x ← deref first
      if ← p x then
        let x ← deref first
        f x
      else
        pure ⟨⟩
      forEachIf deref f p (first + 1) n

/-- `std::mismatch(first, last, first2, bp)`: the position that `first` has come to. -/
def mismatch (deref : ℕ → EStateM ε σ T) (deref2 : ℕ → EStateM ε σ U)
    (bp : T → U → EStateM ε σ Bool) (first first2 : ℕ) : ℕ → EStateM ε σ ℕ
  | 0 => pure first
  | n + 1 => do
      let x ← deref first
      let y ← deref2 first2
      if ← bp x y then mismatch deref deref2 bp (first + 1) (first2 + 1) n else pure first

/-- `notEqual(first, last, first2, bp)` -/
def notEqual (deref : ℕ → EStateM ε σ T) (deref2 : ℕ → EStateM ε σ U)
    (bp : T → U → EStateM ε σ Bool) (first last first2 : ℕ) : EStateM ε σ Bool := do
  let p ← mismatch deref deref2 bp first first2 (last - first)
  return p ≠ last

/-! ## `containerutil.hpp` -/

def hasAtLeast (c : Container ε σ T) (sz : ℕ) : EStateM ε σ Bool := return (← c.size) ≥ sz

def isFull (c : Container ε σ T) : EStateM ε σ Bool := return (← c.size) = (← c.capacity)

/-- `std::find_if(first, last, pred)` -/
def stdFindIf (deref : ℕ → EStateM ε σ T) (pred : T → EStateM ε σ Bool) (first : ℕ) :
    ℕ → EStateM ε σ ℕ
  | 0 => pure first
  | n + 1 => do
      let x ← deref first
      if ← pred x then pure first else stdFindIf deref pred (first + 1) n

/-- The position of an item that matches, or of `c.end()` -/
def findIf (c : Container ε σ T) (pred : T → EStateM ε σ Bool) : EStateM ε σ ℕ := do
  let last ← c.size
  stdFindIf c.index pred 0 last

def containsIf (c : Container ε σ T) (pred : T → EStateM ε σ Bool) : EStateM ε σ Bool := do
  let it ← findIf c pred
  let last ← c.size
  return it ≠ last

def apply (c : Container ε σ T) (fn : ℕ → T → EStateM ε σ T) : EStateM ε σ PUnit := do
  let len ← c.size
  forCount (fun i => do
    let x ← c.index i
    let y ← fn i x
    c.assign i y) 0 len

/-! ## The same for lists -/

/-- Each element that `p` accepts is given to `f`. -/
def eachIf (f : T → EStateM ε υ PUnit) (p : T → EStateM ε υ Bool) :
    List T → EStateM ε υ PUnit
  | [] => pure ⟨⟩
  | x :: xs => do
      if ← p x then f x else pure ⟨⟩
      eachIf f p xs

/-- Whether some pair of elements is not related. -/
def differ (bp : T → U → EStateM ε υ Bool) : List T → List U → EStateM ε υ Bool
  | [], _ => pure false
  | _ :: _, [] => pure false
  | x :: xs, y :: ys => do if ← bp x y then differ bp xs ys else pure true

/-- The index of the first element that `pred` accepts, or the length. -/
def firstIndex (pred : T → EStateM ε υ Bool) : List T → EStateM ε υ ℕ
  | [] => pure 0
  | x :: xs => do
      if ← pred x then pure 0 else
        let i ← firstIndex pred xs
        pure (i + 1)

/-- Whether `pred` accepts some element. -/
def accepted (pred : T → EStateM ε υ Bool) : List T → EStateM ε υ Bool
  | [] => pure false
  | x :: xs => do if ← pred x then pure true else accepted pred xs

/-- Each element is replaced by what `fn` makes of its index and of it.  Where `fn` throws, the
elements in front have been replaced and the others have not. -/
def mapEach (fn : ℕ → T → EStateM ε υ T) : ℕ → List T → υ → Except ε Unit × List T × υ
  | _, [], u => (.ok (), [], u)
  | i, x :: xs, u =>
      match fn i x u with
      | .ok y u' =>
          let r := mapEach fn (i + 1) xs u'
          (r.1, y :: r.2.1, r.2.2)
      | .error e u' => (.error e, x :: xs, u')

theorem length_mapEach (fn : ℕ → T → EStateM ε υ T) (xs : List T) :
    ∀ i u, (mapEach fn i xs u).2.1.length = xs.length := by
  induction xs with
  | nil => intro i u; rfl
  | cons x xs ih =>
      intro i u
      rw [mapEach]
      cases fn i x u with
      | ok y u' => exact congrArg (· + 1) (ih (i + 1) u')
      | error e u' => rfl

/-! ## Reading a list -/

section

variable {I : σ → Prop} {wrap₁ : ε₁ → ε} {wrap : ε' → ε} {xs : List T} {ys : List U}
  {deref : ℕ → EStateM ε₁ σ T} {deref2 : ℕ → EStateM ε₁ σ U}

/-- The positions give the elements of `xs`, and reading them keeps `I`. -/
def Serves (I : σ → Prop) (deref : ℕ → EStateM ε₁ σ T) (xs : List T) : Prop :=
  ∀ i (hi : i < xs.length) s, I s → Returns (deref i) s fun v s' => v = xs[i] ∧ I s'

theorem follows_forEachIf (hd : Serves I deref xs) (f : T → EStateM ε' υ PUnit)
    (p : T → EStateM ε' υ Bool) : ∀ n first, first + n = xs.length →
      Follows wrap (Beside I) Eq
        (forEachIf (fun i => onFst wrap₁ (deref i)) (fun x => onSnd wrap (f x))
          (fun x => onSnd wrap (p x)) first n)
        (eachIf f p (xs.drop first)) := by
  intro n
  induction n with
  | zero =>
      intro first hn
      rw [forEachIf, List.drop_eq_nil_of_le (by omega)]
      exact follows_pure rfl
  | succ n ih =>
      intro first hn
      have hi : first < xs.length := by omega
      have hrest := ih (first + 1) (by omega)
      rw [forEachIf, List.drop_eq_getElem_cons hi]
      refine Follows.readFst (hd first hi) ((follows_onSnd _).bind ?_)
      rintro accepts _ rfl
      -- the iterator is dereferenced again for `f`
      exact Follows.ite
        (fun _ => Follows.readFst (hd first hi) ((follows_onSnd _).bind fun _ _ _ => hrest))
        fun _ => hrest

theorem follows_mismatch (hd : Serves I deref xs) (hd2 : Serves I deref2 ys)
    (bp : T → U → EStateM ε' υ Bool) : ∀ n first first2,
      first + n = xs.length → first2 + n ≤ ys.length →
      Follows wrap (Beside I) (fun p b => decide (p ≠ xs.length) = b)
        (mismatch (fun i => onFst wrap₁ (deref i)) (fun i => onFst wrap₁ (deref2 i))
          (fun x y => onSnd wrap (bp x y)) first first2 n)
        (differ bp (xs.drop first) (ys.drop first2)) := by
  intro n
  induction n with
  | zero =>
      intro first first2 hn hn2
      rw [mismatch, List.drop_eq_nil_of_le (show xs.length ≤ first by omega), differ]
      exact follows_pure (by simp; omega)
  | succ n ih =>
      intro first first2 hn hn2
      have hi : first < xs.length := by omega
      have hi2 : first2 < ys.length := by omega
      rw [mismatch, List.drop_eq_getElem_cons hi, List.drop_eq_getElem_cons hi2, differ]
      refine Follows.readFst (hd first hi) (Follows.readFst (hd2 first2 hi2)
        ((follows_onSnd _).bind ?_))
      rintro related _ rfl
      exact Follows.ite (fun _ => ih (first + 1) (first2 + 1) (by omega) (by omega))
        fun _ => follows_pure (by simp; omega)

theorem follows_notEqual (hd : Serves I deref xs) (hd2 : Serves I deref2 ys)
    (bp : T → U → EStateM ε' υ Bool) {last : ℕ} (hlast : last = xs.length)
    (hlen : xs.length ≤ ys.length) :
    Follows wrap (Beside I) Eq
      (notEqual (fun i => onFst wrap₁ (deref i)) (fun i => onFst wrap₁ (deref2 i))
        (fun x y => onSnd wrap (bp x y)) 0 last 0) (differ bp xs ys) := by
  subst hlast
  exact (follows_mismatch hd hd2 bp xs.length 0 0 (Nat.zero_add _) (by omega)).mapLeft
    fun _ _ h => h

theorem follows_stdFindIf (hd : Serves I deref xs) (pred : T → EStateM ε' υ Bool) :
    ∀ n first, first + n = xs.length →
      Follows wrap (Beside I) (fun p i => p = first + i)
        (stdFindIf (fun i => onFst wrap₁ (deref i)) (fun x => onSnd wrap (pred x)) first n)
        (firstIndex pred (xs.drop first)) := by
  intro n
  induction n with
  | zero =>
      intro first hn
      rw [stdFindIf, List.drop_eq_nil_of_le (by omega), firstIndex]
      exact follows_pure rfl
  | succ n ih =>
      intro first hn
      have hi : first < xs.length := by omega
      rw [stdFindIf, List.drop_eq_getElem_cons hi, firstIndex]
      refine Follows.readFst (hd first hi) ((follows_onSnd _).bind ?_)
      rintro accepts _ rfl
      refine Follows.ite (fun _ => follows_pure rfl) fun _ => ?_
      refine (ih (first + 1) (by omega)).mapRight ?_
      rintro _ i rfl
      omega

theorem follows_accepted (hd : Serves I deref xs) (pred : T → EStateM ε' υ Bool) :
    ∀ n first, first + n = xs.length →
      Follows wrap (Beside I) (fun p b => decide (p ≠ xs.length) = b)
        (stdFindIf (fun i => onFst wrap₁ (deref i)) (fun x => onSnd wrap (pred x)) first n)
        (accepted pred (xs.drop first)) := by
  intro n
  induction n with
  | zero =>
      intro first hn
      rw [stdFindIf, List.drop_eq_nil_of_le (by omega), accepted]
      exact follows_pure (by simp; omega)
  | succ n ih =>
      intro first hn
      have hi : first < xs.length := by omega
      rw [stdFindIf, List.drop_eq_getElem_cons hi, accepted]
      refine Follows.readFst (hd first hi) ((follows_onSnd _).bind ?_)
      rintro accepts _ rfl
      exact Follows.ite (fun _ => follows_pure (by simp; omega)) fun _ =>
        ih (first + 1) (by omega)

/-- The container has `n` elements and room for `cap`. -/
structure Sized (I : σ → Prop) (c : Container ε₁ σ T) (n cap : ℕ) : Prop where
  size : ∀ s, I s → Returns c.size s fun m s' => m = n ∧ I s'
  capacity : ∀ s, I s → Returns c.capacity s fun m s' => m = cap ∧ I s'

/-- The elements are `xs`. -/
structure Presents (I : σ → Prop) (c : Container ε₁ σ T) (xs : List T) (cap : ℕ) : Prop
    extends Sized I c xs.length cap where
  index : Serves I c.index xs

variable {c : Container ε₁ σ T} {n cap : ℕ}

theorem follows_hasAtLeast (hc : Sized I c n cap) (sz : ℕ) :
    Follows wrap (Beside I) Eq (hasAtLeast (c.beside wrap₁) sz)
      (pure (decide (sz ≤ n)) : EStateM ε' υ Bool) :=
  Follows.readFst hc.size (follows_pure rfl)

theorem follows_isFull (hc : Sized I c n cap) :
    Follows wrap (Beside I) Eq (isFull (c.beside wrap₁))
      (pure (decide (n = cap)) : EStateM ε' υ Bool) :=
  Follows.readFst hc.size (Follows.readFst hc.capacity (follows_pure rfl))

theorem follows_findIf (hc : Presents I c xs cap) (pred : T → EStateM ε' υ Bool) :
    Follows wrap (Beside I) Eq (findIf (c.beside wrap₁) fun x => onSnd wrap (pred x))
      (firstIndex pred xs) := by
  refine Follows.readFst hc.size ?_
  refine (follows_stdFindIf hc.index pred xs.length 0 (Nat.zero_add _)).mono ?_
  rintro _ i rfl
  exact Nat.zero_add i

theorem follows_containsIf (hc : Presents I c xs cap) (pred : T → EStateM ε' υ Bool) :
    Follows wrap (Beside I) Eq (containsIf (c.beside wrap₁) fun x => onSnd wrap (pred x))
      (accepted pred xs) := by
  have hfind : Follows wrap (Beside I) (fun p b => decide (p ≠ xs.length) = b)
      (findIf (c.beside wrap₁) fun x => onSnd wrap (pred x)) (accepted pred xs) :=
    Follows.readFst hc.size (follows_accepted hc.index pred xs.length 0 (Nat.zero_add _))
  rw [← bind_pure (accepted pred xs)]
  refine hfind.bind ?_
  rintro it _ rfl
  exact Follows.readFst hc.size (follows_pure rfl)

end

end Templates
end KssUtil.Containers

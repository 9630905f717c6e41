import Mathlib.Data.List.Basic
import Mathlib.Tactic.Common

/-!
# Bounded lists: what a circular array is for

A list together with the number of elements it has room for.  Pushing onto a
full list is refused; everything that is allowed to make room says how much.
There are no cells, positions or wrap-around here.
-/

namespace KssUtil.Containers

/-- A list that fits in its capacity. -/
@[ext] structure BoundedList (T : Type) where
  items : List T
  capacity : ℕ
  fits : items.length ≤ capacity

namespace BoundedList

variable {T : Type}

def empty (cap : ℕ) : BoundedList T := ⟨[], cap, Nat.zero_le _⟩

def Full (b : BoundedList T) : Prop := b.items.length = b.capacity

instance (b : BoundedList T) : Decidable b.Full := inferInstanceAs (Decidable (_ = _))

theorem lt_of_not_full {b : BoundedList T} (h : ¬ b.Full) : b.items.length < b.capacity :=
  Nat.lt_of_le_of_ne b.fits h

def pushBack (b : BoundedList T) (v : T) (h : ¬ b.Full) : BoundedList T :=
  ⟨b.items ++ [v], b.capacity, by
    have := lt_of_not_full h
    simp only [List.length_append, List.length_cons, List.length_nil]
    omega⟩

def pushFront (b : BoundedList T) (v : T) (h : ¬ b.Full) : BoundedList T :=
  ⟨v :: b.items, b.capacity, lt_of_not_full h⟩

def popBack (b : BoundedList T) : BoundedList T :=
  ⟨b.items.dropLast, b.capacity, by have := b.fits; rw [List.length_dropLast]; omega⟩

def popFront (b : BoundedList T) : BoundedList T :=
  ⟨b.items.tail, b.capacity, by have := b.fits; rw [List.length_tail]; omega⟩

/-- Item `i` is replaced, where there is one. -/
def set (b : BoundedList T) (i : ℕ) (v : T) : BoundedList T :=
  ⟨b.items.set i v, b.capacity, by have := b.fits; rwa [List.length_set]⟩

/-- Other items, as many as there were. -/
def replace (b : BoundedList T) (xs : List T) (h : xs.length = b.items.length) : BoundedList T :=
  ⟨xs, b.capacity, Nat.le_trans (Nat.le_of_eq h) b.fits⟩

def clear (b : BoundedList T) : BoundedList T := empty b.capacity

def reserve (b : BoundedList T) (n : ℕ) : BoundedList T :=
  ⟨b.items, max b.capacity n, by have := b.fits; omega⟩

def shrinkToFit (b : BoundedList T) : BoundedList T := ⟨b.items, b.items.length, Nat.le_refl _⟩

/-- Truncate to `n` items, or pad with copies of `v`. -/
def resize (b : BoundedList T) (n : ℕ) (v : T) : BoundedList T :=
  ⟨b.items.take n ++ List.replicate (n - b.items.length) v, max b.capacity n, by
    have := b.fits
    simp only [List.length_append, List.length_take, List.length_replicate]
    omega⟩

def copy (b : BoundedList T) (cap : ℕ) : BoundedList T :=
  ⟨b.items, max b.items.length cap, by omega⟩

/-- `n` copies of one item. -/
def fill (n : ℕ) (v : T) (cap : ℕ) : BoundedList T :=
  ⟨List.replicate n v, max n cap, by rw [List.length_replicate]; omega⟩

def ofList (vs : List T) (cap : ℕ) : BoundedList T := ⟨vs, max vs.length cap, by omega⟩

/-- Append items there is room for. -/
def extend (b : BoundedList T) (vs : List T) (h : b.items.length + vs.length ≤ b.capacity) :
    BoundedList T :=
  ⟨b.items ++ vs, b.capacity, by rw [List.length_append]; exact h⟩

/-- Room for one more: a quarter again, and at least ten. -/
def grow (b : BoundedList T) : BoundedList T :=
  if b.Full then b.reserve (b.capacity + max 10 (b.capacity / 4)) else b

theorem grow_not_full (b : BoundedList T) : ¬ b.grow.Full := by
  unfold grow
  split
  · rename_i h
    simp only [Full, reserve] at *
    omega
  · assumption

@[simp] theorem grow_items (b : BoundedList T) : b.grow.items = b.items := by
  unfold grow
  split <;> rfl

/-- Append, making room first if there is none. -/
def append1 (b : BoundedList T) (v : T) : BoundedList T := b.grow.pushBack v b.grow_not_full

def assignRange (b : BoundedList T) (vs : List T) : BoundedList T := vs.foldl append1 b.clear

def assignFill (b : BoundedList T) (n : ℕ) (v : T) : BoundedList T :=
  ⟨List.replicate n v, max b.capacity n, by rw [List.length_replicate]; omega⟩

def assignList (b : BoundedList T) (vs : List T) : BoundedList T :=
  ⟨vs, max b.capacity vs.length, by omega⟩

/-! ## Assigning a range replaces the items -/

@[simp] theorem append1_items (b : BoundedList T) (v : T) :
    (b.append1 v).items = b.items ++ [v] := by
  simp [append1, pushBack]

theorem foldl_append1_items (vs : List T) :
    ∀ b : BoundedList T, (vs.foldl append1 b).items = b.items ++ vs := by
  induction vs with
  | nil => intro b; simp
  | cons v vs ih => intro b; rw [List.foldl_cons, ih]; simp

theorem assignRange_items (b : BoundedList T) (vs : List T) :
    (b.assignRange vs).items = vs := by
  rw [assignRange, foldl_append1_items]
  rfl

/-- Where there is room for all of them, the capacity stays. -/
theorem foldl_append1_of_fits (vs : List T) :
    ∀ b : BoundedList T, b.items.length + vs.length ≤ b.capacity →
      (vs.foldl append1 b).capacity = b.capacity := by
  induction vs with
  | nil => intro b _; rfl
  | cons v vs ih =>
      intro b h
      rw [List.length_cons] at h
      have hgrow : b.grow = b := if_neg (by unfold Full; omega)
      have hcap : (b.append1 v).capacity = b.capacity := by
        show b.grow.capacity = b.capacity
        rw [hgrow]
      rw [List.foldl_cons, ih _ (by rw [hcap]; simp; omega), hcap]

/-- On the way to a list that fits there is always room for one more. -/
theorem foldl_append1_take_not_full {cap i : ℕ} {vs : List T} (hfits : vs.length ≤ cap)
    (hi : i < vs.length) : ¬ ((vs.take i).foldl append1 (empty cap)).Full := by
  intro hfull
  have hlen : (vs.take i).length = i := by rw [List.length_take]; omega
  unfold Full at hfull
  rw [foldl_append1_items, foldl_append1_of_fits _ _ (by rw [hlen]; simp [empty]; omega)] at hfull
  simp only [empty, List.nil_append] at hfull
  omega

theorem capacity_le_foldl_append1 (vs : List T) :
    ∀ b : BoundedList T, b.capacity ≤ (vs.foldl append1 b).capacity := by
  induction vs with
  | nil => intro b; exact Nat.le_refl _
  | cons v vs ih =>
      intro b
      refine Nat.le_trans ?_ (ih (b.append1 v))
      show b.capacity ≤ b.grow.capacity
      unfold grow
      split
      · exact Nat.le_max_left _ _
      · exact Nat.le_refl _

theorem capacity_le_assignRange (b : BoundedList T) (vs : List T) :
    b.capacity ≤ (b.assignRange vs).capacity :=
  capacity_le_foldl_append1 vs b.clear

/-- Putting `n` items one by one into an array of capacity `cap` never replaces
a block that is full of items. -/
def GrowsClean (cap n : ℕ) : Prop := n ≤ cap ∨ cap = 0 ∧ n ≤ 10

instance (cap n : ℕ) : Decidable (GrowsClean cap n) := inferInstanceAs (Decidable (_ ∨ _ ∧ _))

theorem GrowsClean.of_succ {cap n : ℕ} (h : GrowsClean cap (n + 1)) : GrowsClean cap n := by
  rcases h with h | ⟨hc, h⟩
  · exact Or.inl (Nat.le_of_succ_le h)
  · exact Or.inr ⟨hc, Nat.le_of_succ_le h⟩

theorem GrowsClean.capacity_eq_zero {cap : ℕ} {vs : List T}
    (h : GrowsClean cap (vs.length + 1)) (hfull : (vs.foldl append1 (empty cap)).Full) :
    (vs.foldl append1 (empty cap)).capacity = 0 := by
  unfold Full at hfull
  rw [foldl_append1_items] at hfull
  rcases h with h | ⟨rfl, h⟩
  · rw [foldl_append1_of_fits vs (empty cap) (by simp [empty]; omega)] at hfull
    simp only [empty, List.nil_append] at hfull
    omega
  · cases vs with
    | nil => rfl
    | cons v vs =>
        -- the first item makes room for ten
        have hcap : ((empty 0).append1 v).capacity = 10 := by
          show (grow (empty 0)).capacity = 10
          rw [grow, if_pos (show (empty (T := T) 0).Full from rfl)]
          simp [reserve, empty]
        simp only [List.length_cons] at h
        rw [List.foldl_cons, foldl_append1_of_fits vs _ (by rw [hcap]; simp [empty]; omega),
          hcap] at hfull
        simp only [empty, List.nil_append, List.length_cons] at hfull
        omega

theorem assignRange_capacity_pos {b : BoundedList T} {vs : List T}
    (h : 0 < b.capacity ∨ vs ≠ []) : 0 < (b.assignRange vs).capacity := by
  rcases h with h | h
  · exact Nat.lt_of_lt_of_le h (capacity_le_assignRange b vs)
  · have hfits := (b.assignRange vs).fits
    rw [assignRange_items] at hfits
    exact Nat.lt_of_lt_of_le (List.length_pos_iff.mpr h) hfits

theorem assignRange_of_fits {b : BoundedList T} {vs : List T} (h : vs.length ≤ b.capacity) :
    b.assignRange vs = ⟨vs, b.capacity, h⟩ := by
  ext1
  · exact assignRange_items b vs
  · exact foldl_append1_of_fits vs b.clear (by simpa [clear, empty] using h)

end BoundedList
end KssUtil.Containers

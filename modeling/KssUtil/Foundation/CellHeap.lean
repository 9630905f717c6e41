import Mathlib.Logic.Function.Basic
import Mathlib.Tactic.Common

/-!
# Raw storage with object lifetimes

Storage comes in blocks of numbered cells.  A cell is raw or holds one object;
constructing an object needs a raw cell, destroying one needs a held cell, and
a block is handed back with every cell raw.  An operation that breaks one of
these rules still takes effect, and leaves a `Fault` behind, so that a lifetime
law is the statement that no fault was recorded.
-/

namespace KssUtil.Foundation

/-- One storage block: how many cells it has, and what each of them holds. -/
structure Block (T : Type) where
  length : ℕ
  cell : ℕ → Option T

/-- A broken lifetime rule, with the block and the cell it was broken at. -/
inductive Fault where
  | constructOverObject (block cell : ℕ)
  | destroyOfRawCell (block cell : ℕ)
  | leak (block : ℕ)
  | noSuchBlock (block : ℕ)
deriving DecidableEq, Repr

/-- The heap.  Blocks are named by the order of their allocation, and names are
not used twice. -/
structure Heap (T : Type) where
  blocks : ℕ → Option (Block T) := fun _ => none
  next : ℕ := 0
  faults : List Fault := []

namespace Heap

variable {T : Type}

def record (h : Heap T) (f : Fault) : Heap T := { h with faults := f :: h.faults }

def put (h : Heap T) (b : ℕ) (blk : Block T) : Heap T :=
  { h with blocks := Function.update h.blocks b (some blk) }

/-- A fresh block of `n` raw cells. -/
def allocate (h : Heap T) (n : ℕ) : Heap T :=
  { h with
    blocks := Function.update h.blocks h.next (some ⟨n, fun _ => none⟩)
    next := h.next + 1 }

/-- Copy an object into cell `i`. -/
def construct (h : Heap T) (b i : ℕ) (v : T) : Heap T :=
  match h.blocks b with
  | none => h.record (.noSuchBlock b)
  | some blk =>
      let h' := h.put b { blk with cell := Function.update blk.cell i (some v) }
      if i < blk.length ∧ blk.cell i = none then h'
      else h'.record (.constructOverObject b i)

/-- Assign to the object in cell `i`. -/
def assign (h : Heap T) (b i : ℕ) (v : T) : Heap T :=
  match h.blocks b with
  | none => h.record (.noSuchBlock b)
  | some blk => h.put b { blk with cell := Function.update blk.cell i (some v) }

/-- End the lifetime of the object in cell `i`. -/
def destroy (h : Heap T) (b i : ℕ) : Heap T :=
  match h.blocks b with
  | none => h.record (.noSuchBlock b)
  | some blk =>
      let h' := h.put b { blk with cell := Function.update blk.cell i none }
      if (blk.cell i).isSome then h' else h'.record (.destroyOfRawCell b i)

/-- Hand back block `b`, which its owner takes to have `n` cells. -/
def deallocate (h : Heap T) (b n : ℕ) : Heap T :=
  match h.blocks b with
  | none => h.record (.noSuchBlock b)
  | some blk =>
      let h' := { h with blocks := Function.update h.blocks b none }
      if blk.length = n ∧ ∀ i < n, blk.cell i = none then h' else h'.record (.leak b)

/-- What cell `i` of block `b` holds. -/
def read (h : Heap T) (b i : ℕ) : Option T := (h.blocks b).bind fun blk => blk.cell i

/-! ## What each operation changes -/

/-- Names at or above `next` have not been handed out. -/
def Fresh (h : Heap T) : Prop := ∀ b, h.next ≤ b → h.blocks b = none

theorem Fresh.lt_next {h : Heap T} (hf : h.Fresh) {b : ℕ} {blk : Block T}
    (hb : h.blocks b = some blk) : b < h.next := by
  by_contra hlt
  rw [hf b (Nat.le_of_not_lt hlt)] at hb
  exact absurd hb (by simp)

/-- A heap that differs from a fresh one only at allocated names is fresh. -/
theorem Fresh.update {h h' : Heap T} (hf : h.Fresh) {b : ℕ} {o : Option (Block T)}
    (hb : b < h'.next) (hn : h.next ≤ h'.next)
    (hblocks : h'.blocks = Function.update h.blocks b o) : h'.Fresh := by
  intro c hc
  have hne : c ≠ b := by omega
  rw [hblocks, Function.update_of_ne hne]
  exact hf c (by omega)

section

variable {h : Heap T} {b : ℕ} {blk : Block T}

theorem construct_blocks (hb : h.blocks b = some blk) (i : ℕ) (v : T) :
    (h.construct b i v).blocks = Function.update h.blocks b
      (some { blk with cell := Function.update blk.cell i (some v) }) := by
  simp only [construct, hb]
  split <;> rfl

theorem construct_next (h : Heap T) (b i : ℕ) (v : T) :
    (h.construct b i v).next = h.next := by
  unfold construct
  split
  · rfl
  · simp only; split <;> rfl

theorem construct_faults (hb : h.blocks b = some blk) {i : ℕ} (v : T)
    (hi : i < blk.length) (hraw : blk.cell i = none) :
    (h.construct b i v).faults = h.faults := by
  simp only [construct, hb]
  rw [if_pos ⟨hi, hraw⟩]
  rfl

theorem assign_eq (hb : h.blocks b = some blk) (i : ℕ) (v : T) :
    h.assign b i v = h.put b { blk with cell := Function.update blk.cell i (some v) } := by
  simp only [assign, hb]

theorem destroy_blocks (hb : h.blocks b = some blk) (i : ℕ) :
    (h.destroy b i).blocks = Function.update h.blocks b
      (some { blk with cell := Function.update blk.cell i none }) := by
  simp only [destroy, hb]
  split <;> rfl

theorem destroy_next (h : Heap T) (b i : ℕ) : (h.destroy b i).next = h.next := by
  unfold destroy
  split
  · rfl
  · simp only; split <;> rfl

theorem destroy_faults (hb : h.blocks b = some blk) {i : ℕ} {v : T}
    (hheld : blk.cell i = some v) : (h.destroy b i).faults = h.faults := by
  simp only [destroy, hb]
  rw [if_pos (by rw [hheld]; rfl)]
  rfl

theorem deallocate_blocks (hb : h.blocks b = some blk) (n : ℕ) :
    (h.deallocate b n).blocks = Function.update h.blocks b none := by
  simp only [deallocate, hb]
  split <;> rfl

/-- A block that was handed back is gone, whatever it was. -/
theorem deallocate_gone (h : Heap T) (b n : ℕ) : (h.deallocate b n).blocks b = none := by
  unfold deallocate
  split
  · assumption
  · simp only
    split <;> exact Function.update_self _ _ _

theorem deallocate_next (h : Heap T) (b n : ℕ) : (h.deallocate b n).next = h.next := by
  unfold deallocate
  split
  · rfl
  · simp only; split <;> rfl

theorem deallocate_faults (hb : h.blocks b = some blk) {n : ℕ} (hn : blk.length = n)
    (hraw : ∀ i < n, blk.cell i = none) : (h.deallocate b n).faults = h.faults := by
  simp only [deallocate, hb]
  rw [if_pos ⟨hn, hraw⟩]

end
end Heap
end KssUtil.Foundation

import KssUtil.Containers.CircularArray
import KssUtil.Containers.BoundedList

/-!
# The representation of a circular array, and steps between representations

`Owns h a l`: the array `a` owns a block of the heap `h` and holds the bounded
list `l` in it, in circular order.  `Tidy h a`: no lifetime rule has been
broken, and only the cells of the logical range hold an object.

A `Step` is what a method leaves behind: the new bounded list, what it did not
touch, and the conditions under which it kept the heap tidy and evaluated every
contract expression to true.
-/

namespace KssUtil.Containers
namespace CircularArray

open KssUtil.Foundation

variable {T : Type}

/-! ## Positions -/

theorem position_lt {a : CircularArray} {n : ℕ} (hf : a.first < a.capacity)
    (hn : n ≤ a.capacity) : position a n < a.capacity := by
  unfold position
  split <;> omega

/-- The one-wrap formula of the accessors is the residue. -/
theorem position_eq_mod {a : CircularArray} {n : ℕ} (hf : a.first < a.capacity)
    (hn : n ≤ a.capacity) : position a n = (a.first + n) % a.capacity := by
  unfold position
  split
  · rename_i hge
    rw [Nat.mod_eq_sub_mod hge, Nat.mod_eq_of_lt (by omega)]
  · rename_i hlt
    rw [Nat.mod_eq_of_lt (by omega)]

theorem position_inj {a : CircularArray} {i j : ℕ}
    (hi : i < a.capacity) (hj : j < a.capacity) (h : position a i = position a j) : i = j := by
  unfold position at h
  split at h <;> split at h <;> omega

/-! ## What an array shows -/

/-- `_array[(_first + i) mod _capacity]` for `i < _size`. -/
def entries (h : Heap T) (a : CircularArray) : List (Option T) :=
  (List.range a.size).map fun i =>
    a.array.bind fun b => h.read b ((a.first + i) % a.capacity)

/-- The counters of an array with elements are in step, and its entries are `xs`. -/
structure Shows (h : Heap T) (a : CircularArray) (xs : List T) : Prop where
  size_le : a.size ≤ a.capacity
  first_lt : 0 < a.size → a.first < a.capacity
  last_eq : 0 < a.size → a.last = (a.first + a.size) % a.capacity
  entries : a.entries h = xs.map some

/-- An array that was moved from. -/
theorem shows_nil (h : Heap T) : Shows h {} [] :=
  ⟨Nat.le_refl 0, fun hpos => absurd hpos (Nat.lt_irrefl 0),
    fun hpos => absurd hpos (Nat.lt_irrefl 0), rfl⟩

theorem Shows.size {h : Heap T} {a : CircularArray} {xs : List T} (hs : Shows h a xs) :
    a.size = xs.length := by
  have hlen := congrArg List.length hs.entries
  rwa [CircularArray.entries, List.length_map, List.length_range, List.length_map] at hlen

theorem Shows.last {h : Heap T} {a : CircularArray} {xs : List T} (hs : Shows h a xs)
    (hpos : 0 < a.size) : a.last = position a a.size := by
  rw [hs.last_eq hpos, position_eq_mod (hs.first_lt hpos) hs.size_le]

/-- The accessors find item `i` at its position. -/
theorem Shows.read {h : Heap T} {a : CircularArray} {xs : List T} (hs : Shows h a xs) {i : ℕ}
    (hi : i < xs.length) :
    ∃ b, a.array = some b ∧ h.read b (position a i) = some xs[i] := by
  have hia : i < a.size := by rw [hs.size]; exact hi
  have hentry : (a.array.bind fun b => h.read b ((a.first + i) % a.capacity)) = some xs[i] := by
    have h? := congrArg (·[i]?) hs.entries
    simpa [CircularArray.entries, hia, hi] using h?
  have hcap : i ≤ a.capacity := Nat.le_trans (Nat.le_of_lt hia) hs.size_le
  rw [← position_eq_mod (hs.first_lt (by omega)) hcap] at hentry
  exact Option.bind_eq_some_iff.mp hentry

/-! ## Representation -/

/-- `a` owns a block of `h` and holds `l` in it. -/
structure Owns (h : Heap T) (a : CircularArray) (l : BoundedList T) : Prop where
  capacity : a.capacity = l.capacity
  size : a.size = l.items.length
  first : a.first < a.capacity ∨ a.capacity = 0 ∧ a.first = 0
  last : a.last = position a a.size
  cells : ∃ b blk, a.array = some b ∧ h.blocks b = some blk ∧ blk.length = a.capacity ∧
    ∀ i (hi : i < l.items.length), blk.cell (position a i) = some l.items[i]

/-- No lifetime fault, and no object outside the logical range of `a`. -/
structure Tidy (h : Heap T) (a : CircularArray) : Prop where
  faults : h.faults = []
  raw : ∀ b blk, a.array = some b → h.blocks b = some blk →
    ∀ j, (∀ i < a.size, position a i ≠ j) → blk.cell j = none

/-- No object outside the logical range of `a`, whatever rule was broken before. -/
def Bare (h : Heap T) (a : CircularArray) : Prop :=
  ∀ b blk, a.array = some b → h.blocks b = some blk →
    ∀ j, (∀ i < a.size, position a i ≠ j) → blk.cell j = none

/-- The layout for which `clear` and `teardown` destroy nothing although there
are elements: they compare `_first` with `_last` only. -/
def Leaky (l : BoundedList T) : Prop := l.Full ∧ 0 < l.capacity

instance (l : BoundedList T) : Decidable (Leaky l) := inferInstanceAs (Decidable (_ ∧ _))

/-- A full array that does not start at cell `0`. -/
def Wrapped (a : CircularArray) : Prop := a.size = a.capacity ∧ 0 < a.first

theorem Owns.size_le {h : Heap T} {a : CircularArray} {l : BoundedList T} (ho : Owns h a l) :
    a.size ≤ a.capacity := by
  rw [ho.size, ho.capacity]
  exact l.fits

theorem Owns.first_lt {h : Heap T} {a : CircularArray} {l : BoundedList T} (ho : Owns h a l)
    (hpos : 0 < a.capacity) : a.first < a.capacity := by
  rcases ho.first with hf | ⟨hc, -⟩ <;> omega

theorem Owns.last_eq {h : Heap T} {a : CircularArray} {l : BoundedList T} (ho : Owns h a l)
    (hpos : 0 < a.capacity) : a.last = (a.first + a.size) % a.capacity := by
  rw [ho.last, position_eq_mod (ho.first_lt hpos) ho.size_le]

theorem Owns.shows {h : Heap T} {a : CircularArray} {l : BoundedList T} (ho : Owns h a l) :
    Shows h a l.items := by
  obtain ⟨b, blk, harr, hblk, -, hcells⟩ := ho.cells
  have hle := ho.size_le
  refine ⟨hle, fun hpos => ho.first_lt (by omega), fun hpos => ho.last_eq (by omega), ?_⟩
  refine List.ext_getElem ?_ fun i hi hi' => ?_
  · rw [CircularArray.entries, List.length_map, List.length_range, List.length_map, ho.size]
  · have hil : i < l.items.length := by rwa [List.length_map] at hi'
    have hic : i < a.size := by rw [ho.size]; exact hil
    have hread : h.read b (position a i) = some l.items[i] := by
      rw [Heap.read, hblk]
      exact hcells i hil
    rw [position_eq_mod (ho.first_lt (by omega)) (by omega)] at hread
    simp only [CircularArray.entries, List.getElem_map, List.getElem_range, harr]
    exact hread

theorem Owns.array_isSome {h : Heap T} {a : CircularArray} {l : BoundedList T} (ho : Owns h a l) :
    a.array.isSome = true := by
  obtain ⟨b, blk, harr, -⟩ := ho.cells
  rw [harr]
  rfl

theorem Owns.cells_at {h : Heap T} {a : CircularArray} {l : BoundedList T} (ho : Owns h a l)
    {b : ℕ} (harr : a.array = some b) :
    ∃ blk, h.blocks b = some blk ∧ blk.length = a.capacity ∧
      ∀ i (hi : i < l.items.length), blk.cell (position a i) = some l.items[i] := by
  obtain ⟨c, blk, hc, hcells⟩ := ho.cells
  obtain rfl : c = b := Option.some.inj (hc.symm.trans harr)
  exact ⟨blk, hcells⟩

theorem Bare.of_block {h : Heap T} {a : CircularArray} {b : ℕ} (blk : Block T)
    (harr : a.array = some b) (hblk : h.blocks b = some blk)
    (hraw : ∀ j, (∀ i < a.size, position a i ≠ j) → blk.cell j = none) : Bare h a := by
  intro c blk' hc hblk'
  obtain rfl : c = b := Option.some.inj (hc.symm.trans harr)
  obtain rfl : blk = blk' := Option.some.inj (hblk.symm.trans hblk')
  exact hraw

theorem Bare.frame {h h' : Heap T} {a : CircularArray} (hbare : Bare h a)
    (hb : ∀ b, a.array = some b → h'.blocks b = h.blocks b) : Bare h' a := by
  intro b blk harr hblk
  rw [hb b harr] at hblk
  exact hbare b blk harr hblk

theorem Bare.of_none {h : Heap T} {a : CircularArray} (hnone : a.array = none) : Bare h a := by
  intro b _ harr
  rw [hnone] at harr
  cases harr

/-- Ownership only looks at the block of `a`. -/
theorem Owns.frame {h h' : Heap T} {a : CircularArray} {l : BoundedList T} (ho : Owns h a l)
    (hb : ∀ b, a.array = some b → h'.blocks b = h.blocks b) : Owns h' a l := by
  refine ⟨ho.capacity, ho.size, ho.first, ho.last, ?_⟩
  obtain ⟨b, blk, harr, hblk, hcells⟩ := ho.cells
  exact ⟨b, blk, harr, by rw [hb b harr, hblk], hcells⟩

/-- The cells that hold an object are those at `(_first + i) mod _capacity`. -/
theorem Owns.held_iff {h : Heap T} {a : CircularArray} {l : BoundedList T} (ho : Owns h a l)
    (hbare : Bare h a) : ∃ b blk, a.array = some b ∧ h.blocks b = some blk ∧
      ∀ j, (blk.cell j).isSome = true ↔ ∃ i < a.size, (a.first + i) % a.capacity = j := by
  obtain ⟨b, blk, harr, hblk, -, hcells⟩ := ho.cells
  have hmod : ∀ i < a.size, position a i = (a.first + i) % a.capacity := by
    intro i hi
    have hle := ho.size_le
    exact position_eq_mod (ho.first_lt (by omega)) (by omega)
  refine ⟨b, blk, harr, hblk, fun j => ⟨fun hj => ?_, ?_⟩⟩
  · by_contra hout
    rw [hbare b blk harr hblk j fun i hi heq => hout ⟨i, hi, (hmod i hi).symm.trans heq⟩] at hj
    exact absurd hj Bool.false_ne_true
  · rintro ⟨i, hi, rfl⟩
    rw [← hmod i hi, hcells i (by rw [← ho.size]; exact hi)]
    rfl

/-- The cells of the logical range, in terms of the order of `_first` and
`_last`. -/
theorem Owns.mem_range_iff {h : Heap T} {a : CircularArray} {l : BoundedList T}
    (ho : Owns h a l) (hleak : ¬ Leaky l) (j : ℕ) :
    (∃ i < a.size, position a i = j) ↔
      (a.first < a.last ∧ a.first ≤ j ∧ j < a.last) ∨
      (a.last < a.first ∧ (a.first ≤ j ∧ j < a.capacity ∨ j < a.last)) := by
  have hle := ho.size_le
  have hlast := ho.last
  have hnot : a.size < a.capacity ∨ a.capacity = 0 := by
    unfold Leaky BoundedList.Full at hleak
    rw [← ho.size, ← ho.capacity] at hleak
    omega
  unfold position at hlast
  constructor
  · rintro ⟨i, hi, rfl⟩
    unfold position
    rcases ho.first with hf | ⟨hc, hf⟩
    · split at hlast <;> split <;> omega
    · omega
  · intro hj
    rcases ho.first with hf | ⟨hc, hf⟩
    · -- a cell in front of `_first` is reached around the end of the block
      by_cases hjf : a.first ≤ j
      · refine ⟨j - a.first, ?_, ?_⟩
        · split at hlast <;> omega
        · unfold position
          split at hlast <;> split <;> omega
      · refine ⟨a.capacity - a.first + j, ?_, ?_⟩
        · split at hlast <;> omega
        · unfold position
          split at hlast <;> split <;> omega
    · split at hlast <;> omega

/-! ## Steps -/

/-- Nothing throws from here on, and the heap has handed out only names below
`next`. -/
structure Quiet (s : Store T) : Prop where
  throwAt : s.throwAt = none
  fresh : s.heap.Fresh

/-- `s'` is a later state of the same object: it now holds `l`, and the blocks
of other arrays are as they were.  Under `tidy` it is tidy if `s` was; under
`kept` no contract expression was false on the way. -/
structure Step (s s' : Store T) (l : BoundedList T) (tidy kept : Prop) : Prop where
  quiet : Quiet s'
  owns : Owns s'.heap s'.self l
  next : s.heap.next ≤ s'.heap.next
  array : s'.self.array = s.self.array ∨ ∃ b, s.heap.next ≤ b ∧ s'.self.array = some b
  frame : ∀ b, b < s.heap.next → s.self.array ≠ some b →
    s'.heap.blocks b = s.heap.blocks b
  tidy : tidy → Tidy s.heap s.self → Tidy s'.heap s'.self
  broken : kept → s'.broken = s.broken

theorem Step.refl {s : Store T} {l : BoundedList T} (hq : Quiet s)
    (ho : Owns s.heap s.self l) : Step s s l True True :=
  ⟨hq, ho, Nat.le_refl _, Or.inl rfl, fun _ _ _ => rfl, fun _ => id, fun _ => rfl⟩

theorem Step.trans {s₁ s₂ s₃ : Store T} {l₂ l₃ : BoundedList T} {t₁ t₂ k₁ k₂ : Prop}
    (h₁ : Step s₁ s₂ l₂ t₁ k₁) (h₂ : Step s₂ s₃ l₃ t₂ k₂) :
    Step s₁ s₃ l₃ (t₁ ∧ t₂) (k₁ ∧ k₂) where
  quiet := h₂.quiet
  owns := h₂.owns
  next := Nat.le_trans h₁.next h₂.next
  array := by
    rcases h₂.array with h | ⟨b, hb, h⟩
    · rcases h₁.array with h' | ⟨b, hb, h'⟩
      · exact Or.inl (h.trans h')
      · exact Or.inr ⟨b, hb, h.trans h'⟩
    · exact Or.inr ⟨b, Nat.le_trans h₁.next hb, h⟩
  frame := by
    intro b hb hne
    have hlt : b < s₂.heap.next := Nat.lt_of_lt_of_le hb h₁.next
    have hne₂ : s₂.self.array ≠ some b := by
      rcases h₁.array with h | ⟨c, hc, h⟩
      · rw [h]; exact hne
      · rw [h]
        intro heq
        injection heq with heq
        omega
    rw [h₂.frame b hlt hne₂, h₁.frame b hb hne]
  tidy := fun ht hs => h₂.tidy ht.2 (h₁.tidy ht.1 hs)
  broken := fun hk => (h₂.broken hk.2).trans (h₁.broken hk.1)

/-- Weaken the conditions, or say the new list another way. -/
theorem Step.mono {s s' : Store T} {l l' : BoundedList T} {t k t' k' : Prop}
    (h : Step s s' l t k) (hl : l = l') (ht : t' → t) (hk : k' → k) : Step s s' l' t' k' := by
  subst hl
  exact ⟨h.quiet, h.owns, h.next, h.array, h.frame, fun h' => h.tidy (ht h'),
    fun h' => h.broken (hk h')⟩

/-- A step that leaves a front at cell `0` where it is. -/
structure BackStep (s s' : Store T) (l : BoundedList T) (tidy kept : Prop) : Prop
    extends Step s s' l tidy kept where
  based : s.self.first = 0 → s'.self.first = 0

theorem BackStep.refl {s : Store T} {l : BoundedList T} (hq : Quiet s)
    (ho : Owns s.heap s.self l) : BackStep s s l True True :=
  ⟨Step.refl hq ho, id⟩

theorem BackStep.trans {s₁ s₂ s₃ : Store T} {l₂ l₃ : BoundedList T} {t₁ t₂ k₁ k₂ : Prop}
    (h₁ : BackStep s₁ s₂ l₂ t₁ k₁) (h₂ : BackStep s₂ s₃ l₃ t₂ k₂) :
    BackStep s₁ s₃ l₃ (t₁ ∧ t₂) (k₁ ∧ k₂) :=
  ⟨h₁.toStep.trans h₂.toStep, fun h => h₂.based (h₁.based h)⟩

theorem BackStep.mono {s s' : Store T} {l l' : BoundedList T} {t k t' k' : Prop}
    (h : BackStep s s' l t k) (hl : l = l') (ht : t' → t) (hk : k' → k) :
    BackStep s s' l' t' k' :=
  ⟨h.toStep.mono hl ht hk, h.based⟩

/-- Another array, on a block that a step of `*this` does not touch. -/
structure Other (s : Store T) (ca : CircularArray) (l : BoundedList T) : Prop where
  owns : Owns s.heap ca l
  apart : ca.array ≠ s.self.array
  below : ∀ b, ca.array = some b → b < s.heap.next

theorem Other.of_none {s : Store T} {lc : BoundedList T} (hq : Quiet s)
    (hnone : s.self.array = none) {ca : CircularArray} (hc : Owns s.heap ca lc) :
    Other s ca lc where
  owns := hc
  apart := by
    obtain ⟨b, blk, harr, -⟩ := hc.cells
    rw [harr, hnone]
    exact Option.some_ne_none b
  below := by
    intro b harr
    obtain ⟨blk, hblk, -⟩ := hc.cells_at harr
    exact hq.fresh.lt_next hblk

/-- Another array sees neither a change of the block of `*this` nor new blocks. -/
theorem Other.later {s s' : Store T} {lc : BoundedList T} {ca : CircularArray}
    (hc : Other s ca lc) (hnext : s.heap.next ≤ s'.heap.next)
    (harray : s'.self.array = s.self.array ∨ ∃ b, s.heap.next ≤ b ∧ s'.self.array = some b)
    (hframe : ∀ b, b < s.heap.next → s.self.array ≠ some b →
      s'.heap.blocks b = s.heap.blocks b) : Other s' ca lc where
  owns := hc.owns.frame fun b hb =>
    hframe b (hc.below b hb) fun heq => hc.apart (hb.trans heq.symm)
  apart := by
    intro heq
    rcases harray with h' | ⟨b, hb, h'⟩
    · exact hc.apart (heq.trans h')
    · have := hc.below b (heq.trans h')
      omega
  below := fun b hb => Nat.lt_of_lt_of_le (hc.below b hb) hnext

theorem Step.other {s s' : Store T} {l lc : BoundedList T} {t k : Prop} {ca : CircularArray}
    (h : Step s s' l t k) (hc : Other s ca lc) : Other s' ca lc :=
  hc.later h.next h.array h.frame

/-- A step that only evaluates contract expressions. -/
theorem BackStep.of_broken {s : Store T} {l : BoundedList T} (hq : Quiet s)
    (ho : Owns s.heap s.self l) (β : Bool) :
    BackStep s { s with broken := s.broken || β } l True (β = false) where
  quiet := ⟨hq.throwAt, hq.fresh⟩
  owns := ho
  next := Nat.le_refl _
  array := Or.inl rfl
  frame := fun _ _ _ => rfl
  tidy := fun _ => id
  broken := by
    rintro rfl
    exact Bool.or_false _
  based := id

/-- A step inside the block of `*this`. -/
theorem Step.of_block {s s' : Store T} {l' : BoundedList T} {t : Prop} {b : ℕ}
    {o : Option (Block T)} (hq : Quiet s) (hb : b < s.heap.next)
    (harr : s.self.array = some b) (harr' : s'.self.array = some b)
    (hblocks : s'.heap.blocks = Function.update s.heap.blocks b o)
    (hnext : s'.heap.next = s.heap.next) (hthrow : s'.throwAt = s.throwAt)
    (hbroken : s'.broken = s.broken) (ho : Owns s'.heap s'.self l')
    (ht : t → Tidy s.heap s.self → Tidy s'.heap s'.self) : Step s s' l' t True where
  quiet := ⟨hthrow.trans hq.throwAt,
    hq.fresh.update (by omega) (by omega) hblocks⟩
  owns := ho
  next := by omega
  array := Or.inl (harr'.trans harr.symm)
  frame := by
    intro c _ hne
    rw [hblocks, Function.update_of_ne]
    rintro rfl
    exact hne harr
  tidy := ht
  broken := fun _ => hbroken

end CircularArray
end KssUtil.Containers

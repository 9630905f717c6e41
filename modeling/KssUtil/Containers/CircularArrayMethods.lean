import KssUtil.Containers.CircularArraySteps

/-!
# What each `CircularArray` method does

One lemma a method: from a quiet state in which `*this` holds `l`, it returns
after a `Step` to the list the operation is meant to produce.
-/

namespace KssUtil.Containers
namespace CircularArray

open KssUtil.Foundation

variable {T : Type} {s : Store T} {l : BoundedList T} {α : Type}
  {Q : α → Store T → Prop} {E : Exn → Store T → Prop}

/-! ## Primitive actions -/

@[simp] theorem runs_self {Q : CircularArray → Store T → Prop} :
    Runs self s Q E ↔ Q s.self s := Iff.rfl

@[simp] theorem runs_modifySelf {f : CircularArray → CircularArray}
    {Q : PUnit → Store T → Prop} :
    Runs (modifySelf f) s Q E ↔ Q ⟨⟩ { s with self := f s.self } := Iff.rfl

@[simp] theorem runs_expr {b : Bool} {Q : PUnit → Store T → Prop} :
    Runs (expr b) s Q E ↔ Q ⟨⟩ { s with broken := s.broken || !b } := Iff.rfl

/-- A contract expression that holds does nothing. -/
theorem runs_expr_true {b : Bool} {Q : PUnit → Store T → Prop} (hb : b = true) :
    Runs (expr b) s Q E ↔ Q ⟨⟩ s := by
  subst hb
  rw [runs_expr]
  simp

theorem runs_mayThrow {e : Exn} {Q : PUnit → Store T → Prop} (h : s.throwAt = none) :
    Runs (mayThrow e) s Q E ↔ Q ⟨⟩ s := by
  unfold mayThrow
  simp only [runs_bind, runs_get, h, runs_pure]

theorem runs_block {a : CircularArray} {b : ℕ} {Q : ℕ → Store T → Prop}
    (h : a.array = some b) : Runs (block a) s Q E ↔ Q b s := by
  unfold block
  simp only [h, runs_pure]

theorem runs_construct {i b : ℕ} {v : T} {Q : PUnit → Store T → Prop}
    (ht : s.throwAt = none) (h : s.self.array = some b) :
    Runs (construct i v) s Q E ↔ Q ⟨⟩ { s with heap := s.heap.construct b i v } := by
  unfold construct
  rw [runs_bind, runs_mayThrow ht, runs_bind, runs_self, runs_bind, runs_block h]
  exact Iff.rfl

theorem runs_destroyCell {i b : ℕ} {Q : PUnit → Store T → Prop}
    (h : s.self.array = some b) :
    Runs (destroyCell i) s Q E ↔ Q ⟨⟩ { s with heap := s.heap.destroy b i } := by
  unfold destroyCell
  rw [runs_bind, runs_self, runs_bind, runs_block h]
  exact Iff.rfl

/-- Reading a cell that holds an object. -/
theorem runs_readCell {a : CircularArray} {b i : ℕ} {v : T} {Q : T → Store T → Prop}
    (h : a.array = some b) (hread : s.heap.read b i = some v) :
    Runs (readCell a i) s Q E ↔ Q v s := by
  unfold readCell
  rw [runs_bind, runs_block h, runs_bind, runs_get]
  simp only [hread, runs_pure]

/-! ## Accessors -/

/-- The position check of `operator[]` and `at` holds of every element except
those past the wrap of a full array. -/
theorem positionExpr_iff {h : Heap T} {a : CircularArray} {xs : List T} (hs : Shows h a xs)
    {i : ℕ} (hi : i < xs.length) :
    positionExpr a (position a i) = true ↔ ¬ (Wrapped a ∧ a.capacity - a.first ≤ i) := by
  have hsize := hs.size
  have hle := hs.size_le
  have hfirst := hs.first_lt (by omega)
  have hlast := hs.last (by omega)
  unfold positionExpr position at *
  simp only [Bool.or_eq_true, Bool.and_eq_true, decide_eq_true_eq, Wrapped]
  split at hlast <;> split <;> omega

theorem runs_operatorIndex {a : CircularArray} {xs : List T} {i : ℕ} {Q : T → Store T → Prop}
    (hs : Shows s.heap a xs) (hi : i < xs.length) :
    Runs (operatorIndex a i) s Q E ↔
      Q xs[i] { s with broken := s.broken || !positionExpr a (position a i) } := by
  obtain ⟨b, harr, hread⟩ := hs.read hi
  unfold operatorIndex
  rw [runs_bind, runs_expr_true (by rw [harr]; rfl), runs_bind,
    runs_expr_true (by rw [hs.size]; simpa using hi)]
  simp only [runs_bind, runs_expr]
  exact runs_readCell harr hread

theorem runs_at {a : CircularArray} {xs : List T} {i : ℕ} {Q : T → Store T → Prop}
    (hs : Shows s.heap a xs) (hi : i < xs.length) :
    Runs (at' a i) s Q E ↔
      Q xs[i] { s with broken := s.broken || !positionExpr a (position a i) } := by
  obtain ⟨b, harr, hread⟩ := hs.read hi
  unfold at'
  rw [runs_bind, runs_expr_true (by rw [harr]; rfl),
    if_neg (by rw [hs.size]; omega)]
  simp only [runs_bind, runs_expr]
  exact runs_readCell harr hread

theorem at_out_of_range {a : CircularArray} {i : ℕ} (ho : Owns s.heap a l)
    (hi : l.items.length ≤ i) : at' a i s = .error .outOfRange s := by
  obtain ⟨b, blk, harr, _⟩ := ho.cells
  refine eq_error_of_runs ?_
  unfold at'
  rw [runs_bind, runs_expr_true (by rw [harr]; rfl), if_pos (by rw [ho.size]; omega)]
  exact ⟨rfl, rfl⟩

theorem runs_front {a : CircularArray} {Q : T → Store T → Prop}
    (ho : Owns s.heap a l) (hne : 0 < l.items.length) :
    Runs (front a) s Q E ↔ Q l.items[0] s := by
  obtain ⟨b, harr, hread⟩ := ho.shows.read hne
  have hpos : position a 0 = a.first := by
    have hle := ho.size_le
    rw [ho.size] at hle
    unfold position
    rcases ho.first with hf | ⟨hc, hf⟩
    · split <;> omega
    · omega
  rw [hpos] at hread
  unfold front
  rw [runs_bind, runs_expr_true (by rw [harr]; rfl), runs_bind,
    runs_expr_true (by rw [ho.size]; simpa using hne), runs_readCell harr hread]

/-- `_last` is one past the last element, around the end of the block. -/
theorem Owns.before_last {h : Heap T} {a : CircularArray} (ho : Owns h a l)
    (hne : 0 < l.items.length) :
    (if a.last = 0 then a.capacity - 1 else a.last - 1) =
      position a (l.items.length - 1) := by
  have hle := ho.size_le
  have hlast := ho.last
  rw [ho.size] at hle hlast
  unfold position at *
  rcases ho.first with hf | ⟨hc, hf⟩
  · split at hlast <;> split <;> split <;> omega
  · omega

theorem runs_back {a : CircularArray} {Q : T → Store T → Prop}
    (ho : Owns s.heap a l) (hne : 0 < l.items.length) :
    Runs (back a) s Q E ↔ Q l.items[l.items.length - 1] s := by
  obtain ⟨b, harr, hread⟩ := ho.shows.read (i := l.items.length - 1) (by omega)
  rw [← ho.before_last hne] at hread
  unfold back
  rw [runs_bind, runs_expr_true (by rw [harr]; rfl), runs_bind,
    runs_expr_true (by rw [ho.size]; simpa using hne)]
  by_cases hl : a.last = 0
  · rw [if_pos hl] at hread ⊢
    rw [runs_readCell harr hread]
  · rw [if_neg hl] at hread ⊢
    rw [runs_readCell harr hread]

/-! ## Pushing and popping -/

theorem runs_checkRoomForOneMore {Q : PUnit → Store T → Prop}
    (h : s.self.size < s.self.capacity) : Runs checkRoomForOneMore s Q E ↔ Q ⟨⟩ s := by
  unfold checkRoomForOneMore
  rw [runs_bind, runs_self, if_neg (by omega)]
  exact runs_expr_true (by simpa using h)

theorem Owns.lt_of_not_full {h : Heap T} {a : CircularArray} (ho : Owns h a l)
    (hroom : ¬ l.Full) : a.size < a.capacity := by
  rw [ho.size, ho.capacity]
  exact BoundedList.lt_of_not_full hroom

/-- Both moving pushes check for room first. -/
theorem checkRoomForOneMore_full {β : Type} {f : PUnit → Method T β} (ho : Owns s.heap s.self l)
    (hfull : l.Full) : (do let r ← checkRoomForOneMore; f r) s = .error .lengthError s := by
  refine eq_error_of_runs ?_
  have hsize : s.self.size = s.self.capacity := by
    rw [ho.size, ho.capacity]
    exact hfull
  unfold checkRoomForOneMore
  rw [runs_bind, runs_bind, runs_self, if_pos hsize]
  exact ⟨rfl, rfl⟩

/-- What `push_back` leaves behind. -/
def pushedBack (s : Store T) (b : ℕ) (v : T) : Store T :=
  { s with
    heap := s.heap.construct b s.self.last v
    self := { s.self with
      last := if s.self.last + 1 ≥ s.self.capacity then 0 else s.self.last + 1
      size := s.self.size + 1 } }

theorem owns_pushedBack (ho : Owns s.heap s.self l) (hroom : ¬ l.Full) (v : T) {b : ℕ}
    (harr : s.self.array = some b) :
    Owns (pushedBack s b v).heap (pushedBack s b v).self (l.pushBack v hroom) := by
  obtain ⟨blk, hblk, hlen, hcells⟩ := ho.cells_at harr
  have hlt := ho.lt_of_not_full hroom
  have hlast := ho.last
  have hfirst := ho.first_lt (by omega)
  refine ⟨ho.capacity, ?_, Or.inl hfirst, ?_, b,
    { blk with cell := Function.update blk.cell s.self.last (some v) }, harr, ?_, hlen, ?_⟩
  · show s.self.size + 1 = (l.items ++ [v]).length
    rw [ho.size]
    simp
  · show (if s.self.last + 1 ≥ s.self.capacity then 0 else s.self.last + 1) =
      position s.self (s.self.size + 1)
    unfold position at *
    split at hlast <;> split <;> split <;> omega
  · show (s.heap.construct b s.self.last v).blocks b = _
    rw [Heap.construct_blocks hblk, Function.update_self]
  · intro i hi
    change i < (l.items ++ [v]).length at hi
    show Function.update blk.cell s.self.last (some v) (position s.self i) =
      some (l.items ++ [v])[i]
    rw [List.length_append, List.length_singleton] at hi
    -- the new item is in the cell `_last`, where no other item is
    by_cases hil : i = l.items.length
    · subst hil
      have hpos : position s.self l.items.length = s.self.last := by rw [hlast, ho.size]
      rw [hpos, Function.update_self]
      simp
    · have hil' : i < l.items.length := by omega
      have hne : position s.self i ≠ s.self.last := by
        rw [hlast]
        intro heq
        have := position_inj (by rw [ho.size] at hlt; omega) hlt heq
        rw [ho.size] at this
        exact hil this
      rw [Function.update_of_ne hne, hcells i hil', List.getElem_append_left hil']

theorem bare_pushedBack (ho : Owns s.heap s.self l) (v : T) {b : ℕ}
    (harr : s.self.array = some b) (hbare : Bare s.heap s.self) :
    Bare (pushedBack s b v).heap (pushedBack s b v).self := by
  obtain ⟨blk, hblk, -⟩ := ho.cells_at harr
  refine Bare.of_block { blk with cell := Function.update blk.cell s.self.last (some v) }
    harr ?_ ?_
  · show (s.heap.construct b s.self.last v).blocks b = _
    rw [Heap.construct_blocks hblk, Function.update_self]
  · intro j hj
    have hne : j ≠ s.self.last := by
      rintro rfl
      exact hj s.self.size (Nat.lt_succ_self _) ho.last.symm
    show Function.update blk.cell s.self.last (some v) j = none
    rw [Function.update_of_ne hne]
    exact hbare b blk harr hblk j fun i hi => hj i (Nat.lt_succ_of_lt hi)

theorem tidy_pushedBack (ho : Owns s.heap s.self l) (hroom : ¬ l.Full) (v : T) {b : ℕ}
    (harr : s.self.array = some b) (ht : Tidy s.heap s.self) :
    Tidy (pushedBack s b v).heap (pushedBack s b v).self := by
  obtain ⟨blk, hblk, hlen, -⟩ := ho.cells_at harr
  have hlt := ho.lt_of_not_full hroom
  have hlast := ho.last
  have hfirst := ho.first_lt (by omega)
  have hraw : blk.cell s.self.last = none := by
    refine ht.raw b blk harr hblk _ fun i hi heq => ?_
    rw [hlast] at heq
    have := position_inj (by omega) hlt heq
    omega
  refine ⟨?_, bare_pushedBack ho v harr ht.raw⟩
  show (s.heap.construct b s.self.last v).faults = []
  rw [Heap.construct_faults hblk v _ hraw, ht.faults]
  rw [hlen, hlast]
  exact position_lt hfirst (by omega)

theorem pushBackMove_returns (hq : Quiet s) (ho : Owns s.heap s.self l) (hroom : ¬ l.Full)
    (v : T) : Returns (pushBackMove v) s fun _ s' =>
      BackStep s s' (l.pushBack v hroom) True True := by
  obtain ⟨b, blk, harr, hblk, -⟩ := ho.cells
  have hlt := ho.lt_of_not_full hroom
  have hstep : BackStep s (pushedBack s b v) (l.pushBack v hroom) True True :=
    ⟨Step.of_block hq (hq.fresh.lt_next hblk) harr harr (Heap.construct_blocks hblk _ _)
      (Heap.construct_next _ _ _ _) rfl rfl (owns_pushedBack ho hroom v harr)
      (fun _ => tidy_pushedBack ho hroom v harr), id⟩
  unfold pushBackMove
  rw [Returns, runs_bind, runs_checkRoomForOneMore hlt, runs_bind, runs_self, runs_bind,
    runs_construct hq.throwAt harr]
  simp only [runs_bind, runs_modifySelf, runs_self]
  rw [runs_expr_true (by rw [harr]; rfl), runs_expr_true (by simp),
    runs_expr_true (by simp only [ge_iff_le, decide_eq_true_eq]; omega)]
  exact hstep

/-- Where `push_front` puts the new front. -/
def beforeFirst (a : CircularArray) : ℕ :=
  if a.first = 0 then a.capacity - 1 else a.first - 1

/-- What `push_front` leaves behind. -/
def pushedFront (s : Store T) (b : ℕ) (v : T) : Store T :=
  { s with
    heap := s.heap.construct b (beforeFirst s.self) v
    self := { s.self with first := beforeFirst s.self, size := s.self.size + 1 } }

/-- Moving the front back by one moves every position up by one. -/
theorem position_beforeFirst {a : CircularArray} (n : ℕ) (hf : a.first < a.capacity) {i : ℕ}
    (hi : i < a.capacity) :
    position { a with first := beforeFirst a, size := n } (i + 1) = position a i := by
  simp only [position, beforeFirst]
  split <;> split <;> split <;> omega

theorem beforeFirst_lt {a : CircularArray} (hf : a.first < a.capacity) :
    beforeFirst a < a.capacity := by
  unfold beforeFirst
  split <;> omega

/-- The new front is the cell that comes last in circular order. -/
theorem beforeFirst_eq {a : CircularArray} (hf : a.first < a.capacity) :
    beforeFirst a = position a (a.capacity - 1) := by
  unfold beforeFirst position
  split <;> split <;> omega

theorem position_first {a : CircularArray} (hf : a.first < a.capacity) :
    position a 0 = a.first := by
  unfold position
  split <;> omega

theorem owns_pushedFront (ho : Owns s.heap s.self l) (hroom : ¬ l.Full) (v : T) {b : ℕ}
    (harr : s.self.array = some b) :
    Owns (pushedFront s b v).heap (pushedFront s b v).self (l.pushFront v hroom) := by
  obtain ⟨blk, hblk, hlen, hcells⟩ := ho.cells_at harr
  have hlt := ho.lt_of_not_full hroom
  have hfirst := ho.first_lt (by omega)
  refine ⟨ho.capacity, ?_, Or.inl (beforeFirst_lt hfirst), ?_, b,
    { blk with cell := Function.update blk.cell (beforeFirst s.self) (some v) },
    harr, ?_, hlen, ?_⟩
  · show s.self.size + 1 = (v :: l.items).length
    rw [ho.size]
    rfl
  · show s.self.last = position _ (s.self.size + 1)
    exact ho.last.trans (position_beforeFirst _ hfirst hlt).symm
  · show (s.heap.construct b (beforeFirst s.self) v).blocks b = _
    rw [Heap.construct_blocks hblk, Function.update_self]
  · intro i hi
    change i < (v :: l.items).length at hi
    show Function.update blk.cell (beforeFirst s.self) (some v)
      (position { s.self with first := beforeFirst s.self, size := s.self.size + 1 } i) =
        some (v :: l.items)[i]
    -- with `_first` one earlier, the items that were there move up by one
    cases i with
    | zero =>
        rw [position_first (beforeFirst_lt hfirst), Function.update_self]
        rfl
    | succ i =>
        have hil : i < l.items.length := by simpa using hi
        have hic : i < s.self.size := by rw [ho.size]; exact hil
        have hne : position s.self i ≠ beforeFirst s.self := by
          rw [beforeFirst_eq hfirst]
          intro heq
          have := position_inj (by omega) (by omega) heq
          omega
        rw [position_beforeFirst _ hfirst (by omega), Function.update_of_ne hne, hcells i hil]
        rfl

theorem bare_pushedFront (ho : Owns s.heap s.self l) (hroom : ¬ l.Full) (v : T) {b : ℕ}
    (harr : s.self.array = some b) (hbare : Bare s.heap s.self) :
    Bare (pushedFront s b v).heap (pushedFront s b v).self := by
  obtain ⟨blk, hblk, -⟩ := ho.cells_at harr
  have hlt := ho.lt_of_not_full hroom
  have hfirst := ho.first_lt (by omega)
  refine Bare.of_block { blk with cell := Function.update blk.cell (beforeFirst s.self) (some v) }
    harr ?_ ?_
  · show (s.heap.construct b (beforeFirst s.self) v).blocks b = _
    rw [Heap.construct_blocks hblk, Function.update_self]
  · intro j hj
    have hne : j ≠ beforeFirst s.self := by
      rintro rfl
      exact hj 0 (Nat.succ_pos _) (position_first (beforeFirst_lt hfirst))
    show Function.update blk.cell (beforeFirst s.self) (some v) j = none
    rw [Function.update_of_ne hne]
    refine hbare b blk harr hblk j fun i hi => ?_
    rw [← position_beforeFirst (s.self.size + 1) hfirst (by omega)]
    exact hj (i + 1) (Nat.succ_lt_succ hi)

theorem tidy_pushedFront (ho : Owns s.heap s.self l) (hroom : ¬ l.Full) (v : T) {b : ℕ}
    (harr : s.self.array = some b) (ht : Tidy s.heap s.self) :
    Tidy (pushedFront s b v).heap (pushedFront s b v).self := by
  obtain ⟨blk, hblk, hlen, -⟩ := ho.cells_at harr
  have hlt := ho.lt_of_not_full hroom
  have hfirst := ho.first_lt (by omega)
  have hraw : blk.cell (beforeFirst s.self) = none := by
    refine ht.raw b blk harr hblk _ fun i hi heq => ?_
    rw [beforeFirst_eq hfirst] at heq
    have := position_inj (by omega) (by omega) heq
    omega
  refine ⟨?_, bare_pushedFront ho hroom v harr ht.raw⟩
  show (s.heap.construct b (beforeFirst s.self) v).faults = []
  rw [Heap.construct_faults hblk v (by rw [hlen]; exact beforeFirst_lt hfirst) hraw, ht.faults]

theorem pushFrontMove_returns (hq : Quiet s) (ho : Owns s.heap s.self l) (hroom : ¬ l.Full)
    (v : T) : Returns (pushFrontMove v) s fun _ s' =>
      Step s s' (l.pushFront v hroom) True True := by
  obtain ⟨b, blk, harr, hblk, -⟩ := ho.cells
  have hlt := ho.lt_of_not_full hroom
  have hstep : Step s (pushedFront s b v) (l.pushFront v hroom) True True :=
    Step.of_block hq (hq.fresh.lt_next hblk) harr harr (Heap.construct_blocks hblk _ _)
      (Heap.construct_next _ _ _ _) rfl rfl (owns_pushedFront ho hroom v harr)
      (fun _ => tidy_pushedFront ho hroom v harr)
  unfold pushFrontMove
  rw [Returns, runs_bind, runs_checkRoomForOneMore hlt]
  simp only [runs_bind, runs_modifySelf, runs_self]
  rw [runs_construct (by exact hq.throwAt) (by exact harr)]
  rw [runs_expr_true (by rw [harr]; rfl), runs_expr_true (by simp),
    runs_expr_true (by simp only [ge_iff_le, decide_eq_true_eq]; omega)]
  exact hstep

theorem Owns.size_pos {h : Heap T} {a : CircularArray} (ho : Owns h a l) (hne : l.items ≠ []) :
    0 < a.size := by
  rw [ho.size]
  exact List.length_pos_iff.mpr hne

/-- Where `pop_back` puts `_last`. -/
def beforeLast (a : CircularArray) : ℕ :=
  if a.last = 0 then a.capacity - 1 else a.last - 1

/-- What `pop_back` leaves behind. -/
def poppedBack (s : Store T) (b : ℕ) : Store T :=
  { s with
    heap := s.heap.destroy b (beforeLast s.self)
    self := { s.self with last := beforeLast s.self, size := s.self.size - 1 } }

theorem Owns.beforeLast_eq {h : Heap T} {a : CircularArray} (ho : Owns h a l)
    (hne : l.items ≠ []) : beforeLast a = position a (a.size - 1) := by
  rw [ho.size]
  exact ho.before_last (List.length_pos_iff.mpr hne)

theorem owns_poppedBack (ho : Owns s.heap s.self l) (hne : l.items ≠ []) {b : ℕ}
    (harr : s.self.array = some b) :
    Owns (poppedBack s b).heap (poppedBack s b).self l.popBack := by
  obtain ⟨blk, hblk, hlen, hcells⟩ := ho.cells_at harr
  have hpos := ho.size_pos hne
  have hle := ho.size_le
  have hbefore := ho.beforeLast_eq hne
  refine ⟨ho.capacity, ?_, ho.first, hbefore, b,
    { blk with cell := Function.update blk.cell (beforeLast s.self) none }, harr, ?_, hlen, ?_⟩
  · show s.self.size - 1 = l.items.dropLast.length
    rw [ho.size, List.length_dropLast]
  · show (s.heap.destroy b (beforeLast s.self)).blocks b = _
    rw [Heap.destroy_blocks hblk, Function.update_self]
  · intro i hi
    change i < l.items.dropLast.length at hi
    rw [List.length_dropLast, ← ho.size] at hi
    have hcell : position s.self i ≠ beforeLast s.self := by
      rw [hbefore]
      intro heq
      have := position_inj (by omega) (by omega) heq
      omega
    show Function.update blk.cell (beforeLast s.self) none (position s.self i) =
      some l.items.dropLast[i]
    rw [Function.update_of_ne hcell, hcells i (by rw [← ho.size]; omega), List.getElem_dropLast]

theorem bare_poppedBack (ho : Owns s.heap s.self l) (hne : l.items ≠ []) {b : ℕ}
    (harr : s.self.array = some b) (hbare : Bare s.heap s.self) :
    Bare (poppedBack s b).heap (poppedBack s b).self := by
  obtain ⟨blk, hblk, -⟩ := ho.cells_at harr
  have hpos := ho.size_pos hne
  refine Bare.of_block { blk with cell := Function.update blk.cell (beforeLast s.self) none }
    harr ?_ ?_
  · show (s.heap.destroy b (beforeLast s.self)).blocks b = _
    rw [Heap.destroy_blocks hblk, Function.update_self]
  · intro j hj
    show Function.update blk.cell (beforeLast s.self) none j = none
    by_cases hjl : j = beforeLast s.self
    · rw [hjl, Function.update_self]
    · rw [Function.update_of_ne hjl]
      refine hbare b blk harr hblk j fun i hi heq => ?_
      by_cases hil : i = s.self.size - 1
      · subst hil
        exact hjl (heq.symm.trans (ho.beforeLast_eq hne).symm)
      · exact hj i (by show i < s.self.size - 1; omega) heq

theorem tidy_poppedBack (ho : Owns s.heap s.self l) (hne : l.items ≠ []) {b : ℕ}
    (harr : s.self.array = some b) (ht : Tidy s.heap s.self) :
    Tidy (poppedBack s b).heap (poppedBack s b).self := by
  obtain ⟨blk, hblk, hlen, hcells⟩ := ho.cells_at harr
  have hpos := ho.size_pos hne
  have hheld := hcells (s.self.size - 1) (by rw [← ho.size]; omega)
  refine ⟨?_, bare_poppedBack ho hne harr ht.raw⟩
  show (s.heap.destroy b (beforeLast s.self)).faults = []
  rw [Heap.destroy_faults hblk (by rw [ho.beforeLast_eq hne]; exact hheld), ht.faults]

theorem popBack_returns (hq : Quiet s) (ho : Owns s.heap s.self l) (hne : l.items ≠ []) :
    Returns popBack s fun _ s' => BackStep s s' l.popBack True True := by
  obtain ⟨b, blk, harr, hblk, -⟩ := ho.cells
  have hpos := ho.size_pos hne
  have hle := ho.size_le
  have hstep : BackStep s (poppedBack s b) l.popBack True True :=
    ⟨Step.of_block hq (hq.fresh.lt_next hblk) harr harr (Heap.destroy_blocks hblk _)
      (Heap.destroy_next _ _ _) rfl rfl (owns_poppedBack ho hne harr)
      (fun _ => tidy_poppedBack ho hne harr), id⟩
  unfold popBack
  rw [Returns, runs_bind, runs_self, runs_bind, runs_expr_true (by rw [harr]; rfl), runs_bind,
    runs_expr_true (by simpa using hpos)]
  simp only [runs_bind, runs_modifySelf, runs_self]
  rw [runs_destroyCell (by exact harr), runs_expr_true (by rw [harr]; rfl),
    runs_expr_true (by simp only [gt_iff_lt, decide_eq_true_eq]; omega)]
  exact hstep

/-- Where `pop_front` puts `_first`. -/
def afterFirst (a : CircularArray) : ℕ :=
  if a.first + 1 ≥ a.capacity then 0 else a.first + 1

/-- What `pop_front` leaves behind. -/
def poppedFront (s : Store T) (b : ℕ) : Store T :=
  { s with
    heap := s.heap.destroy b s.self.first
    self := { s.self with first := afterFirst s.self, size := s.self.size - 1 } }

theorem afterFirst_lt {a : CircularArray} (hf : a.first < a.capacity) :
    afterFirst a < a.capacity := by
  unfold afterFirst
  split <;> omega

theorem position_afterFirst {a : CircularArray} (n : ℕ) (hf : a.first < a.capacity) {i : ℕ}
    (hi : i < a.capacity) :
    position { a with first := afterFirst a, size := n } i = position a (i + 1) := by
  simp only [position, afterFirst]
  split <;> split <;> split <;> omega

theorem owns_poppedFront (ho : Owns s.heap s.self l) (hne : l.items ≠ []) {b : ℕ}
    (harr : s.self.array = some b) :
    Owns (poppedFront s b).heap (poppedFront s b).self l.popFront := by
  obtain ⟨blk, hblk, hlen, hcells⟩ := ho.cells_at harr
  have hpos := ho.size_pos hne
  have hle := ho.size_le
  have hfirst := ho.first_lt (by omega)
  refine ⟨ho.capacity, ?_, Or.inl (afterFirst_lt hfirst), ?_, b,
    { blk with cell := Function.update blk.cell s.self.first none }, harr, ?_, hlen, ?_⟩
  · show s.self.size - 1 = l.items.tail.length
    rw [ho.size, List.length_tail]
  · show s.self.last = position _ (s.self.size - 1)
    have hnext : s.self.size - 1 + 1 = s.self.size := by omega
    rw [ho.last, ← hnext]
    exact (position_afterFirst _ hfirst (by omega)).symm
  · show (s.heap.destroy b s.self.first).blocks b = _
    rw [Heap.destroy_blocks hblk, Function.update_self]
  · intro i hi
    change i < l.items.tail.length at hi
    rw [List.length_tail, ← ho.size] at hi
    have hcell : position s.self (i + 1) ≠ s.self.first := by
      rw [← position_first hfirst]
      intro heq
      have := position_inj (by omega) (by omega) heq
      omega
    show Function.update blk.cell s.self.first none
      (position { s.self with first := afterFirst s.self, size := s.self.size - 1 } i) =
        some l.items.tail[i]
    rw [position_afterFirst _ hfirst (by omega), Function.update_of_ne hcell,
      hcells (i + 1) (by rw [← ho.size]; omega), List.getElem_tail]

theorem bare_poppedFront (ho : Owns s.heap s.self l) (hne : l.items ≠ []) {b : ℕ}
    (harr : s.self.array = some b) (hbare : Bare s.heap s.self) :
    Bare (poppedFront s b).heap (poppedFront s b).self := by
  obtain ⟨blk, hblk, -⟩ := ho.cells_at harr
  have hpos := ho.size_pos hne
  have hle := ho.size_le
  have hfirst := ho.first_lt (by omega)
  refine Bare.of_block { blk with cell := Function.update blk.cell s.self.first none } harr ?_ ?_
  · show (s.heap.destroy b s.self.first).blocks b = _
    rw [Heap.destroy_blocks hblk, Function.update_self]
  · intro j hj
    show Function.update blk.cell s.self.first none j = none
    by_cases hjf : j = s.self.first
    · rw [hjf, Function.update_self]
    · rw [Function.update_of_ne hjf]
      refine hbare b blk harr hblk j fun i hi heq => ?_
      cases i with
      | zero => exact hjf (heq.symm.trans (position_first hfirst))
      | succ i =>
          refine hj i (by show i < s.self.size - 1; omega) ?_
          rw [← heq]
          exact position_afterFirst _ hfirst (by omega)

theorem tidy_poppedFront (ho : Owns s.heap s.self l) (hne : l.items ≠ []) {b : ℕ}
    (harr : s.self.array = some b) (ht : Tidy s.heap s.self) :
    Tidy (poppedFront s b).heap (poppedFront s b).self := by
  obtain ⟨blk, hblk, hlen, hcells⟩ := ho.cells_at harr
  have hpos := ho.size_pos hne
  have hle := ho.size_le
  have hfirst := ho.first_lt (by omega)
  have hheld := hcells 0 (by rw [← ho.size]; omega)
  rw [position_first hfirst] at hheld
  refine ⟨?_, bare_poppedFront ho hne harr ht.raw⟩
  show (s.heap.destroy b s.self.first).faults = []
  rw [Heap.destroy_faults hblk hheld, ht.faults]

theorem popFront_returns (hq : Quiet s) (ho : Owns s.heap s.self l) (hne : l.items ≠ []) :
    Returns popFront s fun _ s' => Step s s' l.popFront True True := by
  obtain ⟨b, blk, harr, hblk, -⟩ := ho.cells
  have hpos := ho.size_pos hne
  have hle := ho.size_le
  have hstep : Step s (poppedFront s b) l.popFront True True :=
    Step.of_block hq (hq.fresh.lt_next hblk) harr harr (Heap.destroy_blocks hblk _)
      (Heap.destroy_next _ _ _) rfl rfl (owns_poppedFront ho hne harr)
      (fun _ => tidy_poppedFront ho hne harr)
  unfold popFront
  rw [Returns, runs_bind, runs_self, runs_bind, runs_expr_true (by rw [harr]; rfl), runs_bind,
    runs_expr_true (by simpa using hpos), runs_bind, runs_destroyCell harr]
  simp only [runs_bind, runs_modifySelf, runs_self]
  rw [runs_expr_true (by rw [harr]; rfl),
    runs_expr_true (by simp only [gt_iff_lt, decide_eq_true_eq]; omega)]
  exact hstep

/-! ## Pushing a copy -/

section

variable [BEq T]

theorem pushBack_returns (hq : Quiet s) (ho : Owns s.heap s.self l) (hroom : ¬ l.Full)
    (v : T) : Returns (pushBack v) s fun _ s' =>
      BackStep s s' (l.pushBack v hroom) True ((v == v) = true) := by
  unfold pushBack
  rw [Returns, runs_bind, runs_mayThrow hq.throwAt]
  refine Returns.bind (pushBackMove_returns hq ho hroom v) fun _ s₁ h₁ => ?_
  have hlen : 0 < (l.pushBack v hroom).items.length := by
    show 0 < (l.items ++ [v]).length
    simp
  rw [Returns, runs_bind, runs_self, runs_bind, runs_back h₁.owns hlen, runs_expr]
  refine (h₁.trans (BackStep.of_broken h₁.quiet h₁.owns _)).mono rfl
    (fun _ => ⟨trivial, trivial⟩) ?_
  intro hv
  have hback : (l.pushBack v hroom).items[(l.pushBack v hroom).items.length - 1] = v := by
    show (l.items ++ [v])[(l.items ++ [v]).length - 1] = v
    simp
  rw [hback, hv]
  exact ⟨trivial, rfl⟩

theorem pushBack_full (hq : Quiet s) (ho : Owns s.heap s.self l) (hfull : l.Full) (v : T) :
    pushBack v s = .error .lengthError s := by
  refine eq_error_of_runs ?_
  unfold pushBack
  rw [runs_bind, runs_mayThrow hq.throwAt, runs_bind]
  unfold Runs
  rw [pushBackMove, checkRoomForOneMore_full ho hfull]
  exact ⟨rfl, rfl⟩

theorem pushFront_full (hq : Quiet s) (ho : Owns s.heap s.self l) (hfull : l.Full) (v : T) :
    pushFront v s = .error .lengthError s := by
  refine eq_error_of_runs ?_
  unfold pushFront
  rw [runs_bind, runs_mayThrow hq.throwAt, runs_bind]
  unfold Runs
  rw [pushFrontMove, checkRoomForOneMore_full ho hfull]
  exact ⟨rfl, rfl⟩

theorem pushFront_returns (hq : Quiet s) (ho : Owns s.heap s.self l) (hroom : ¬ l.Full)
    (v : T) : Returns (pushFront v) s fun _ s' =>
      Step s s' (l.pushFront v hroom) True ((v == v) = true) := by
  unfold pushFront
  rw [Returns, runs_bind, runs_mayThrow hq.throwAt]
  refine Returns.bind (pushFrontMove_returns hq ho hroom v) fun _ s₁ h₁ => ?_
  have hlen : 0 < (l.pushFront v hroom).items.length := Nat.succ_pos _
  rw [Returns, runs_bind, runs_self, runs_bind, runs_front h₁.owns hlen, runs_expr]
  refine (h₁.trans (BackStep.of_broken h₁.quiet h₁.owns _).toStep).mono rfl
    (fun _ => ⟨trivial, trivial⟩) ?_
  intro hv
  refine ⟨trivial, ?_⟩
  show (!(v == v)) = false
  rw [hv]
  rfl

end

/-! ## Destroying the elements -/

/-- `s'` is `s` after the cells from `i` up to `j` of block `b` were destroyed;
this is no fault if all of them held an object. -/
def Destroyed (s : Store T) (b : ℕ) (blk : Block T) (i j : ℕ) (s' : Store T) : Prop :=
  ∃ h', s' = { s with heap := h' } ∧ h'.next = s.heap.next ∧
    h'.blocks = Function.update s.heap.blocks b
      (some { blk with cell := fun k => if i ≤ k ∧ k < j then none else blk.cell k }) ∧
    ((∀ k, i ≤ k → k < j → (blk.cell k).isSome) → h'.faults = s.heap.faults)

theorem destroyed_refl {b : ℕ} {blk : Block T} (hblk : s.heap.blocks b = some blk) (i : ℕ) :
    Destroyed s b blk i i s := by
  refine ⟨s.heap, rfl, rfl, ?_, fun _ => rfl⟩
  have hcell : (fun k => if i ≤ k ∧ k < i then none else blk.cell k) = blk.cell := by
    funext k
    rw [if_neg (by omega)]
  rw [hcell]
  exact (Function.update_eq_self_iff.mpr hblk.symm).symm

theorem destroyCell_returns {b : ℕ} {blk : Block T} {i m : ℕ} {s' : Store T}
    (harr : s.self.array = some b) (him : i ≤ m) (h : Destroyed s b blk i m s') :
    Returns (destroyCell m) s' fun _ s'' => Destroyed s b blk i (m + 1) s'' := by
  obtain ⟨h', rfl, hnext, hblocks, hfaults⟩ := h
  have hb : h'.blocks b =
      some { blk with cell := fun k => if i ≤ k ∧ k < m then none else blk.cell k } := by
    rw [hblocks, Function.update_self]
  rw [Returns, runs_destroyCell (by exact harr)]
  refine ⟨h'.destroy b m, rfl, (Heap.destroy_next _ _ _).trans hnext, ?_, ?_⟩
  · have hcell : Function.update (fun k => if i ≤ k ∧ k < m then none else blk.cell k) m none =
        fun k => if i ≤ k ∧ k < m + 1 then none else blk.cell k := by
      funext k
      by_cases hk : k = m
      · rw [hk, Function.update_self, if_pos ⟨him, Nat.lt_succ_self m⟩]
      · have hiff : (i ≤ k ∧ k < m) ↔ (i ≤ k ∧ k < m + 1) := by omega
        rw [Function.update_of_ne hk]
        simp only [hiff]
    rw [Heap.destroy_blocks hb, hblocks, Function.update_idem]
    simp only [hcell]
  · intro hheld
    obtain ⟨v, hv⟩ := Option.isSome_iff_exists.mp (hheld m him (Nat.lt_succ_self m))
    have hm : (if i ≤ m ∧ m < m then none else blk.cell m) = some v := by
      rw [if_neg (by omega), hv]
    rw [Heap.destroy_faults hb hm]
    exact hfaults fun k hk hkm => hheld k hk (Nat.lt_succ_of_lt hkm)

/-- `destroy(_array+i, _array+j)` makes the cells from `i` up to `j` raw. -/
theorem destroy_returns {b : ℕ} {blk : Block T} (harr : s.self.array = some b)
    (hblk : s.heap.blocks b = some blk) {i j : ℕ} (hij : i ≤ j) :
    Returns (destroy i j) s fun _ s' => Destroyed s b blk i j s' := by
  have hloop : Returns (destroy i j) s fun _ s' => i ≤ j ∧ Destroyed s b blk i j s' :=
    returns_forCount (fun m s' => i ≤ m ∧ Destroyed s b blk i m s') (fun m s' _ h => 
      (destroyCell_returns harr h.1 h.2).mono fun _ _ h' => ⟨Nat.le_succ_of_le h.1, h'⟩)
    (j - i) i s (Nat.add_sub_cancel' hij) ⟨Nat.le_refl i, destroyed_refl hblk i⟩
  exact hloop.mono fun _ _ h => h.2

/-- What `clear` and `teardown` do to the block before they reset or release
it: unless the array is full, exactly the logical range becomes raw. -/
theorem destroyElements_returns (ho : Owns s.heap s.self l) {b : ℕ}
    (harr : s.self.array = some b) :
    Returns destroyElements s fun _ s' => ∃ h' blk', s' = { s with heap := h' } ∧
      h'.next = s.heap.next ∧ h'.blocks = Function.update s.heap.blocks b (some blk') ∧
      blk'.length = s.self.capacity ∧
      (¬ Leaky l → h'.faults = s.heap.faults ∧ (Bare s.heap s.self → ∀ j, blk'.cell j = none)) := by
  obtain ⟨blk, hblk, hlen, hcells⟩ := ho.cells_at harr
  have hheld : ∀ j, (∃ i < s.self.size, position s.self i = j) → (blk.cell j).isSome := by
    rintro _ ⟨i, hi, rfl⟩
    rw [hcells i (by rw [← ho.size]; exact hi)]
    rfl
  have hraw : Bare s.heap s.self → ∀ j, ¬ (∃ i < s.self.size, position s.self i = j) →
      blk.cell j = none := by
    intro hbare j hj
    exact hbare b blk harr hblk j fun i hi heq => hj ⟨i, hi, heq⟩
  have hfirst : s.self.first ≤ s.self.capacity := by
    rcases ho.first with hf | ⟨hc, hf⟩ <;> omega
  unfold destroyElements
  rw [Returns, runs_bind, runs_self]
  by_cases h₁ : s.self.first < s.self.last
  · rw [if_pos h₁]
    refine Returns.mono (destroy_returns harr hblk (Nat.le_of_lt h₁)) ?_
    rintro _ _ ⟨h', rfl, hnext, hblocks, hfaults⟩
    refine ⟨h', _, rfl, hnext, hblocks, hlen, fun hleak => ⟨?_, fun hbare j => ?_⟩⟩
    · refine hfaults fun k hk hkl => ?_
      exact hheld k ((ho.mem_range_iff hleak k).mpr (Or.inl ⟨h₁, hk, hkl⟩))
    · show (if s.self.first ≤ j ∧ j < s.self.last then none else blk.cell j) = none
      split
      · rfl
      · rename_i hj
        refine hraw hbare j fun hmem => ?_
        rcases (ho.mem_range_iff hleak j).mp hmem with h | h <;> omega
  · rw [if_neg h₁]
    by_cases h₂ : s.self.last < s.self.first
    · rw [if_pos h₂]
      refine Returns.bind (destroy_returns harr hblk hfirst) ?_
      rintro _ _ ⟨h', rfl, hnext, hblocks, hfaults⟩
      have hb : h'.blocks b = some { blk with
          cell := fun k => if s.self.first ≤ k ∧ k < s.self.capacity then none
            else blk.cell k } := by
        rw [hblocks, Function.update_self]
      refine Returns.mono (destroy_returns (by exact harr) hb (Nat.zero_le _)) ?_
      rintro _ _ ⟨h'', rfl, hnext', hblocks', hfaults'⟩
      have hblocks'' : h''.blocks = Function.update s.heap.blocks b (some { blk with
          cell := fun k => if 0 ≤ k ∧ k < s.self.last then none
            else if s.self.first ≤ k ∧ k < s.self.capacity then none else blk.cell k }) := by
        rw [hblocks']
        show Function.update h'.blocks b _ = _
        rw [hblocks, Function.update_idem]
      refine ⟨h'', _, rfl, hnext'.trans hnext, hblocks'', hlen,
        fun hleak => ⟨?_, fun hbare j => ?_⟩⟩
      · rw [hfaults']
        · refine hfaults fun k hk hkl => ?_
          exact hheld k ((ho.mem_range_iff hleak k).mpr (Or.inr ⟨h₂, Or.inl ⟨hk, hkl⟩⟩))
        · intro k _ hkl
          show (if s.self.first ≤ k ∧ k < s.self.capacity then none else blk.cell k).isSome
          have hmem := (ho.mem_range_iff hleak k).mpr (Or.inr ⟨h₂, Or.inr hkl⟩)
          rw [if_neg (by omega)]
          exact hheld k hmem
      · show (if 0 ≤ j ∧ j < s.self.last then none else
          if s.self.first ≤ j ∧ j < s.self.capacity then none else blk.cell j) = none
        split
        · rfl
        · split
          · rfl
          · rename_i hj₁ hj₂
            refine hraw hbare j fun hmem => ?_
            rcases (ho.mem_range_iff hleak j).mp hmem with h | h <;> omega
    · -- equal ends: taken to be empty, whatever the size
      rw [if_neg h₂]
      refine ⟨s.heap, blk, rfl, rfl, (Function.update_eq_self_iff.mpr hblk.symm).symm, hlen,
        fun hleak => ⟨rfl, fun hbare j => ?_⟩⟩
      refine hraw hbare j fun hmem => ?_
      rcases (ho.mem_range_iff hleak j).mp hmem with h | h <;> omega

/-- What `clear` leaves behind, with its elements destroyed unless the array was full. -/
theorem clear_leaves (ho : Owns s.heap s.self l) {b : ℕ} (harr : s.self.array = some b) :
    Returns clear s fun _ s' => ∃ h' o,
      s' = { s with heap := h', self := { s.self with first := 0, last := 0, size := 0 } } ∧
      h'.next = s.heap.next ∧ h'.blocks = Function.update s.heap.blocks b o ∧
      Owns h' s'.self l.clear ∧
      (¬ Leaky l → h'.faults = s.heap.faults ∧ (Bare s.heap s.self → Bare h' s'.self)) := by
  unfold clear
  refine Returns.bind (destroyElements_returns ho harr) ?_
  rintro _ _ ⟨h', blk', rfl, hnext, hblocks, hlen, hraw⟩
  have hb' : h'.blocks b = some blk' := by rw [hblocks, Function.update_self]
  simp only [Returns, runs_bind, runs_modifySelf, runs_self]
  rw [runs_expr_true (by rfl), runs_expr_true (by rfl), runs_expr_true (by rfl)]
  refine ⟨h', some blk', rfl, hnext, hblocks, ?_, fun hleak => ⟨(hraw hleak).1, fun hbare => ?_⟩⟩
  · refine ⟨ho.capacity, rfl, ?_, ?_, b, blk', harr, hb', hlen, ?_⟩
    · show 0 < s.self.capacity ∨ s.self.capacity = 0 ∧ 0 = 0
      omega
    · show 0 = if 0 + 0 ≥ s.self.capacity then 0 + 0 - s.self.capacity else 0 + 0
      split <;> omega
    · intro i hi
      exact absurd hi (Nat.not_lt_zero i)
  · exact Bare.of_block blk' harr hb' fun j _ => (hraw hleak).2 hbare j

theorem clear_returns (hq : Quiet s) (ho : Owns s.heap s.self l) :
    Returns clear s fun _ s' =>
      BackStep s s' l.clear (¬ Leaky l) True ∧ s'.self.first = 0 := by
  obtain ⟨b, blk, harr, hblk, -⟩ := ho.cells
  have hb := hq.fresh.lt_next hblk
  refine (clear_leaves ho harr).mono ?_
  rintro _ _ ⟨h', o, rfl, hnext, hblocks, hown, hclear⟩
  refine ⟨⟨Step.of_block hq hb harr harr hblocks hnext rfl rfl hown fun hleak ht => ?_,
    fun _ => rfl⟩, rfl⟩
  exact ⟨(hclear hleak).1.trans ht.faults, (hclear hleak).2 ht.raw⟩

/-- `s'` is `s` after the block of `*this` was handed back.  The other members
keep their values. -/
structure Released (s s' : Store T) (tidy : Prop) : Prop where
  quiet : Quiet s'
  self : s'.self = { s.self with array := none }
  next : s'.heap.next = s.heap.next
  frame : ∀ b, s.self.array ≠ some b → s'.heap.blocks b = s.heap.blocks b
  tidy : tidy → Tidy s.heap s.self → s'.heap.faults = []
  broken : s'.broken = s.broken

/-- What `teardown` leaves behind. -/
theorem teardown_leaves (ho : Owns s.heap s.self l) {b : ℕ} (harr : s.self.array = some b) :
    Returns teardown s fun _ s' => ∃ h',
      s' = { s with heap := h', self := { s.self with array := none } } ∧
      h'.next = s.heap.next ∧ h'.blocks = Function.update s.heap.blocks b none ∧
      (¬ Leaky l → Tidy s.heap s.self → h'.faults = []) := by
  unfold teardown
  rw [Returns, runs_bind, runs_self]
  simp only [harr]
  refine Returns.bind (destroyElements_returns ho harr) ?_
  rintro _ _ ⟨h', blk', rfl, hnext, hblocks, hlen, htidy⟩
  have hb' : h'.blocks b = some blk' := by rw [hblocks, Function.update_self]
  simp only [Returns, runs_bind, runs_modify, runs_modifySelf, runs_self]
  refine ⟨h'.deallocate b s.self.capacity, rfl, (Heap.deallocate_next _ _ _).trans hnext,
    ?_, fun hleak ht => ?_⟩
  · rw [Heap.deallocate_blocks hb', hblocks, Function.update_idem]
  · obtain ⟨hf, hraw⟩ := htidy hleak
    rw [Heap.deallocate_faults hb' hlen fun i _ => hraw ht.raw i, hf, ht.faults]

theorem teardown_returns (hq : Quiet s) (ho : Owns s.heap s.self l) :
    Returns teardown s fun _ s' => Released s s' (¬ Leaky l) := by
  obtain ⟨b, blk, harr, hblk, -⟩ := ho.cells
  have hb := hq.fresh.lt_next hblk
  refine (teardown_leaves ho harr).mono ?_
  rintro _ _ ⟨h', rfl, hnext, hblocks, htidy⟩
  refine ⟨⟨hq.throwAt, hq.fresh.update (by rw [hnext]; exact hb) (Nat.le_of_eq hnext.symm)
    hblocks⟩, rfl, hnext, ?_, htidy, rfl⟩
  intro c hc
  show h'.blocks c = _
  rw [hblocks, Function.update_of_ne]
  rintro rfl
  exact hc harr

theorem destroy_self {b : ℕ} (harr : s.self.array = some b) (start finish : ℕ) :
    Returns (destroy start finish) s fun _ s' => s'.self = s.self := by
  refine returns_forCount (fun _ t => t.self = s.self) (fun i t _ ht => ?_) _ start s rfl rfl
  rw [Returns, runs_destroyCell (by rw [ht]; exact harr)]
  exact ht

theorem destroyElements_self {b : ℕ} (harr : s.self.array = some b) :
    Returns destroyElements s fun _ s' => s'.self = s.self := by
  unfold destroyElements
  rw [Returns, runs_bind, runs_self]
  by_cases h₁ : s.self.first < s.self.last
  · rw [if_pos h₁]
    exact destroy_self harr _ _
  · rw [if_neg h₁]
    by_cases h₂ : s.self.last < s.self.first
    · rw [if_pos h₂]
      refine Returns.bind (destroy_self harr _ _) fun _ t ht => ?_
      exact (destroy_self (by rw [ht]; exact harr) _ _).mono fun _ _ h => h.trans ht
    · rw [if_neg h₂]
      exact rfl

/-- The block of an array that is torn down is gone, whatever state it was in. -/
theorem teardown_frees (s : Store T) :
    Returns teardown s fun _ s' => ∀ b, s.self.array = some b → s'.heap.blocks b = none := by
  unfold teardown
  rw [Returns, runs_bind, runs_self]
  cases harr : s.self.array with
  | none =>
      intro b hb
      cases hb
  | some b =>
      refine Returns.bind (destroyElements_self harr) fun _ t _ => ?_
      simp only [Returns, runs_bind, runs_self, runs_modify, runs_modifySelf]
      rintro _ ⟨⟩
      exact Heap.deallocate_gone t.heap b t.self.capacity

/-- What `init` leaves behind. -/
def initialised (s : Store T) (cap : ℕ) : Store T :=
  { s with
    heap := s.heap.allocate cap
    self := { array := some s.heap.next, capacity := cap, first := 0, last := 0, size := 0 } }

theorem initialised_block (s : Store T) (cap : ℕ) :
    (initialised s cap).heap.blocks s.heap.next = some ⟨cap, fun _ => none⟩ := by
  show Function.update s.heap.blocks s.heap.next _ s.heap.next = _
  rw [Function.update_self]

theorem initialised_frame (s : Store T) (cap : ℕ) {b : ℕ} (hb : b < s.heap.next) :
    (initialised s cap).heap.blocks b = s.heap.blocks b := by
  show Function.update s.heap.blocks s.heap.next _ b = _
  rw [Function.update_of_ne (Nat.ne_of_lt hb)]

theorem fresh_initialised (hf : s.heap.Fresh) (cap : ℕ) : (initialised s cap).heap.Fresh :=
  hf.update (Nat.lt_succ_self s.heap.next) (Nat.le_succ s.heap.next) rfl

theorem owns_initialised (s : Store T) (cap : ℕ) :
    Owns (initialised s cap).heap (initialised s cap).self (BoundedList.empty cap) := by
  refine ⟨rfl, rfl, ?_, ?_, s.heap.next, _, rfl, initialised_block s cap, rfl, ?_⟩
  · show 0 < cap ∨ cap = 0 ∧ 0 = 0
    omega
  · show 0 = if 0 + 0 ≥ cap then 0 + 0 - cap else 0 + 0
    split <;> omega
  · intro i hi
    exact absurd hi (Nat.not_lt_zero i)

theorem bare_initialised (s : Store T) (cap : ℕ) :
    Bare (initialised s cap).heap (initialised s cap).self :=
  Bare.of_block _ rfl (initialised_block s cap) fun _ _ => rfl

theorem init_returns (hq : Quiet s) (cap : ℕ) :
    Returns (init cap) s fun _ s' =>
      BackStep s s' (BoundedList.empty cap) True True ∧ s'.self.first = 0 := by
  unfold init allocate
  simp only [Returns, runs_bind]
  rw [runs_mayThrow hq.throwAt]
  simp only [runs_get, runs_modify, runs_pure, runs_modifySelf]
  refine ⟨⟨⟨⟨hq.throwAt, fresh_initialised hq.fresh cap⟩, owns_initialised s cap,
    Nat.le_succ _, Or.inr ⟨s.heap.next, Nat.le_refl _, rfl⟩,
    fun b hb _ => initialised_frame s cap hb, fun _ ht => ⟨ht.faults, bare_initialised s cap⟩,
    fun _ => rfl⟩, fun _ => rfl⟩, trivial⟩

end CircularArray
end KssUtil.Containers

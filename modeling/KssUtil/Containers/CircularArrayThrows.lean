import KssUtil.Containers.CircularArrayAssign

/-!
# `CircularArray` methods in which something throws

One lemma a method again, now for every value of `throwAt`: wherever the call
throws, and also where it does not.  The heap may have seen faults before, so
what is kept is `Exact` and not `Tidy`.

`Strong` is a throw that leaves `*this` as it was, `Basic` one that leaves some
list in it.  `push_front` and copy assignment give neither at one point each,
where a member is changed ahead of the step that throws; their lemmas carry
the condition that it is not reached.
-/

namespace KssUtil.Containers
namespace CircularArray

open KssUtil.Foundation

variable {T : Type} {s s' s₁ s₂ : Store T} {l l' l₁ lc : BoundedList T}

/-! ## What is left behind -/

/-- `a` holds `l`, and there are no other objects in its block. -/
structure Exact (h : Heap T) (a : CircularArray) (l : BoundedList T) : Prop
    extends Owns h a l where
  bare : Bare h a

theorem Exact.frame {h h' : Heap T} {a : CircularArray} (hx : Exact h a l)
    (hb : ∀ b, a.array = some b → h'.blocks b = h.blocks b) : Exact h' a l :=
  ⟨hx.toOwns.frame hb, hx.bare.frame hb⟩

/-- The blocks of other arrays are as they were. -/
structure Spares (s s' : Store T) : Prop where
  fresh : s'.heap.Fresh
  next : s.heap.next ≤ s'.heap.next
  frame : ∀ b, b < s.heap.next → s.self.array ≠ some b →
    s'.heap.blocks b = s.heap.blocks b

/-- `s'` is a later state of the same object: it now holds `l`. -/
structure Later (s s' : Store T) (l : BoundedList T) : Prop extends Spares s s' where
  array : s'.self.array = s.self.array ∨ ∃ b, s.heap.next ≤ b ∧ s'.self.array = some b
  holds : Exact s'.heap s'.self l

/-- A constructor threw: there is no object, and other arrays have not changed. -/
def Abandons (s : Store T) (e : Exn) (s' : Store T) : Prop :=
  e ≠ .undefined ∧ Spares s s'

def Basic (s : Store T) (e : Exn) (s' : Store T) : Prop :=
  e ≠ .undefined ∧ ∃ l, Later s s' l

def Strong (s : Store T) (l : BoundedList T) (e : Exn) (s' : Store T) : Prop :=
  e ≠ .undefined ∧ Later s s' l ∧ s'.self = s.self

theorem Spares.refl (hf : s.heap.Fresh) : Spares s s :=
  ⟨hf, Nat.le_refl _, fun _ _ _ => rfl⟩

theorem Later.refl (hf : s.heap.Fresh) (hx : Exact s.heap s.self l) : Later s s l :=
  ⟨Spares.refl hf, Or.inl rfl, hx⟩

/-- Counting a throw point and evaluating a contract expression change nothing
that these relations look at. -/
theorem Later.noted (h : Later s s' l) (t : Option ℕ) (β : Bool) :
    Later s { s' with throwAt := t, broken := β } l :=
  ⟨⟨h.fresh, h.next, h.frame⟩, h.array, ⟨h.holds.toOwns, h.holds.bare⟩⟩

theorem Later.checked {k : Prop} (h : Later s s₁ l) (hc : Checked s₁ s₂ k) : Later s s₂ l := by
  obtain ⟨β, rfl, -⟩ := hc
  exact h.noted _ _

theorem Later.spares (h₁ : Later s s₁ l₁) (h₂ : Spares s₁ s₂) : Spares s s₂ where
  fresh := h₂.fresh
  next := Nat.le_trans h₁.next h₂.next
  frame := by
    intro b hb hne
    have hne₁ : s₁.self.array ≠ some b := by
      rcases h₁.array with h | ⟨c, hc, h⟩
      · rw [h]; exact hne
      · rw [h]
        intro heq
        injection heq with heq
        omega
    rw [h₂.frame b (Nat.lt_of_lt_of_le hb h₁.next) hne₁, h₁.frame b hb hne]

theorem Later.trans (h₁ : Later s s₁ l₁) (h₂ : Later s₁ s₂ l) : Later s s₂ l := by
  refine ⟨h₁.spares h₂.toSpares, ?_, h₂.holds⟩
  rcases h₂.array with h | ⟨b, hb, h⟩
  · rcases h₁.array with h' | ⟨b, hb, h'⟩
    · exact Or.inl (h.trans h')
    · exact Or.inr ⟨b, hb, h.trans h'⟩
  · exact Or.inr ⟨b, Nat.le_trans h₁.next hb, h⟩

/-- A new block, after the old one was given up. -/
theorem Spares.later (h₁ : Spares s s₁) (hnone : s₁.self.array = none) (h₂ : Later s₁ s₂ l) :
    Later s s₂ l := by
  refine ⟨⟨h₂.fresh, Nat.le_trans h₁.next h₂.next, fun b hb hne => ?_⟩, ?_, h₂.holds⟩
  · have hne₁ : s₁.self.array ≠ some b := by
      rw [hnone]
      exact (Option.some_ne_none b).symm
    rw [h₂.frame b (Nat.lt_of_lt_of_le hb h₁.next) hne₁, h₁.frame b hb hne]
  · rcases h₂.array with h | ⟨b, hb, h⟩
    · have hsome := h₂.holds.array_isSome
      rw [h, hnone] at hsome
      exact absurd hsome Bool.false_ne_true
    · exact Or.inr ⟨b, Nat.le_trans h₁.next hb, h⟩

theorem Later.other {ca : CircularArray} (h : Later s s' l) (hc : Other s ca lc) :
    Other s' ca lc :=
  hc.later h.next h.array h.frame

/-- A later state inside the same block. -/
theorem Later.of_block {b : ℕ} {o : Option (Block T)} (hf : s.heap.Fresh) (hb : b < s.heap.next)
    (harr : s.self.array = some b) (harr' : s'.self.array = some b)
    (hblocks : s'.heap.blocks = Function.update s.heap.blocks b o)
    (hnext : s'.heap.next = s.heap.next) (hx : Exact s'.heap s'.self l) : Later s s' l where
  fresh := hf.update (by omega) (by omega) hblocks
  next := by omega
  frame := by
    intro c _ hne
    rw [hblocks, Function.update_of_ne]
    rintro rfl
    exact hne harr
  array := Or.inl (harr'.trans harr.symm)
  holds := hx

/-- A throw before anything was changed. -/
theorem Strong.of_unchanged {e : Exn} (hf : s.heap.Fresh) (hx : Exact s.heap s.self l)
    (he : e ≠ .undefined) (t : Option ℕ) : Strong s l e { s with throwAt := t } :=
  ⟨he, (Later.refl hf hx).noted _ _, rfl⟩

theorem Strong.basic {e : Exn} (h : Strong s l e s') : Basic s e s' := ⟨h.1, l, h.2.1⟩

theorem Basic.abandons {e : Exn} (h : Basic s e s') : Abandons s e s' := by
  obtain ⟨he, l, hl⟩ := h
  exact ⟨he, hl.toSpares⟩

theorem Later.basic {e : Exn} (h₁ : Later s s₁ l₁) (h₂ : Basic s₁ e s₂) : Basic s e s₂ := by
  obtain ⟨he, l, hl⟩ := h₂
  exact ⟨he, l, h₁.trans hl⟩

theorem Later.strong {e : Exn} (h₁ : Later s s₁ l) (hself : s₁.self = s.self)
    (h₂ : Strong s₁ l e s₂) : Strong s l e s₂ :=
  ⟨h₂.1, h₁.trans h₂.2.1, h₂.2.2.trans hself⟩

/-! ## Throw points -/

section

variable {α : Type} {Q : α → Store T → Prop} {E : Exn → Store T → Prop}

/-- A throw point throws if its turn has come, and counts down otherwise. -/
theorem mayThrow_runs {e : Exn} {Q : PUnit → Store T → Prop}
    (hthrow : s.throwAt = some 0 → E e { s with throwAt := none })
    (hgo : s.throwAt ≠ some 0 → Q ⟨⟩ { s with throwAt := s.throwAt.map Nat.pred }) :
    Runs (mayThrow e) s Q E := by
  unfold mayThrow
  rw [runs_bind, runs_get]
  cases ht : s.throwAt with
  | none =>
      have hs : { s with throwAt := s.throwAt.map Nat.pred } = s := by
        rw [ht, Option.map_none, ← ht]
      rw [hs] at hgo
      exact hgo (by simp [ht])
  | some n =>
      cases n with
      | zero => exact hthrow ht
      | succ n =>
          rw [ht] at hgo
          exact hgo (by simp)

theorem construct_runs {i b : ℕ} {v : T} {Q : PUnit → Store T → Prop}
    (harr : s.self.array = some b)
    (hthrow : s.throwAt = some 0 → E .element { s with throwAt := none })
    (hgo : s.throwAt ≠ some 0 →
      Q ⟨⟩ { s with heap := s.heap.construct b i v, throwAt := s.throwAt.map Nat.pred }) :
    Runs (construct i v) s Q E := by
  unfold construct
  rw [runs_bind]
  refine mayThrow_runs hthrow fun h => ?_
  rw [runs_bind, runs_self, runs_bind, runs_block (by exact harr), runs_modify]
  exact hgo h

end

theorem init_runs (hf : s.heap.Fresh) (cap : ℕ) :
    Runs (init cap) s (fun _ s' => Later s s' (BoundedList.empty cap))
      (fun e s' => Abandons s e s' ∧ s.throwAt = some 0) := by
  unfold init allocate
  rw [runs_bind, runs_bind]
  refine mayThrow_runs (fun h => ⟨⟨by decide, ⟨hf, Nat.le_refl _, fun _ _ _ => rfl⟩⟩, h⟩)
    fun _ => ?_
  simp only [runs_bind, runs_get, runs_modify, runs_pure, runs_modifySelf]
  exact ⟨⟨fresh_initialised hf cap, Nat.le_succ _, fun b hb _ => initialised_frame s cap hb⟩,
    Or.inr ⟨s.heap.next, Nat.le_refl _, rfl⟩, ⟨owns_initialised s cap, bare_initialised s cap⟩⟩

/-! ## Pushing and popping -/

/-- `push_back` constructs first and counts afterwards. -/
theorem pushBackMove_runs (hf : s.heap.Fresh) (hx : Exact s.heap s.self l) (v : T) :
    Runs (pushBackMove v) s (fun _ s' => ∃ hroom, Later s s' (l.pushBack v hroom))
      (Strong s l) := by
  obtain ⟨b, blk, harr, hblk, -⟩ := hx.cells
  by_cases hfull : l.Full
  · unfold Runs pushBackMove
    rw [checkRoomForOneMore_full hx.toOwns hfull]
    exact Strong.of_unchanged hf hx (by decide) s.throwAt
  have hlt := hx.lt_of_not_full hfull
  have hlater : Later s (pushedBack s b v) (l.pushBack v hfull) :=
    Later.of_block hf (hf.lt_next hblk) harr harr (Heap.construct_blocks hblk _ _)
      (Heap.construct_next _ _ _ _) ⟨owns_pushedBack hx.toOwns hfull v harr,
        bare_pushedBack hx.toOwns v harr hx.bare⟩
  unfold pushBackMove
  rw [runs_bind, runs_checkRoomForOneMore hlt, runs_bind, runs_self, runs_bind]
  refine construct_runs harr (fun _ => Strong.of_unchanged hf hx (by decide) none) fun _ => ?_
  simp only [runs_bind, runs_modifySelf, runs_self, runs_expr]
  exact ⟨hfull, hlater.noted _ _⟩

/-- `push_front` counts first: there must be no throw in the cell it constructs in. -/
theorem pushFrontMove_runs (hf : s.heap.Fresh) (hx : Exact s.heap s.self l) (v : T)
    (hsafe : l.Full ∨ s.throwAt ≠ some 0) :
    Runs (pushFrontMove v) s (fun _ s' => ∃ hroom, Later s s' (l.pushFront v hroom))
      (Strong s l) := by
  obtain ⟨b, blk, harr, hblk, -⟩ := hx.cells
  by_cases hfull : l.Full
  · unfold Runs pushFrontMove
    rw [checkRoomForOneMore_full hx.toOwns hfull]
    exact Strong.of_unchanged hf hx (by decide) s.throwAt
  have hlt := hx.lt_of_not_full hfull
  have hlater : Later s (pushedFront s b v) (l.pushFront v hfull) :=
    Later.of_block hf (hf.lt_next hblk) harr harr (Heap.construct_blocks hblk _ _)
      (Heap.construct_next _ _ _ _) ⟨owns_pushedFront hx.toOwns hfull v harr,
        bare_pushedFront hx.toOwns hfull v harr hx.bare⟩
  unfold pushFrontMove
  rw [runs_bind, runs_checkRoomForOneMore hlt]
  simp only [runs_bind, runs_modifySelf, runs_self]
  -- `_first` and `_size` have been changed by now
  refine construct_runs (by exact harr) (fun h => absurd h (hsafe.resolve_left hfull)) fun _ => ?_
  simp only [runs_expr]
  exact ⟨hfull, hlater.noted _ _⟩

theorem popBack_later (hf : s.heap.Fresh) (hx : Exact s.heap s.self l) (hne : l.items ≠ []) :
    Returns popBack s fun _ s' => Later s s' l.popBack := by
  obtain ⟨b, blk, harr, hblk, -⟩ := hx.cells
  have hlater : Later s (poppedBack s b) l.popBack :=
    Later.of_block hf (hf.lt_next hblk) harr harr (Heap.destroy_blocks hblk _)
      (Heap.destroy_next _ _ _) ⟨owns_poppedBack hx.toOwns hne harr,
        bare_poppedBack hx.toOwns hne harr hx.bare⟩
  unfold popBack
  simp only [Returns, runs_bind, runs_modifySelf, runs_self, runs_expr]
  rw [runs_destroyCell (by exact harr)]
  exact hlater.noted _ _

theorem popFront_later (hf : s.heap.Fresh) (hx : Exact s.heap s.self l) (hne : l.items ≠ []) :
    Returns popFront s fun _ s' => Later s s' l.popFront := by
  obtain ⟨b, blk, harr, hblk, -⟩ := hx.cells
  have hlater : Later s (poppedFront s b) l.popFront :=
    Later.of_block hf (hf.lt_next hblk) harr harr (Heap.destroy_blocks hblk _)
      (Heap.destroy_next _ _ _) ⟨owns_poppedFront hx.toOwns hne harr,
        bare_poppedFront hx.toOwns hne harr hx.bare⟩
  unfold popFront
  simp only [Returns, runs_bind, runs_self, runs_expr]
  rw [runs_destroyCell (by exact harr)]
  simp only [runs_modifySelf]
  exact hlater.noted _ _

theorem clear_later (hf : s.heap.Fresh) (hx : Exact s.heap s.self l) (hleak : ¬ Leaky l) :
    Returns clear s fun _ s' => Later s s' l.clear := by
  obtain ⟨b, blk, harr, hblk, -⟩ := hx.cells
  refine (clear_leaves hx.toOwns harr).mono ?_
  rintro _ _ ⟨h', o, rfl, hnext, hblocks, hown, hclear⟩
  exact Later.of_block hf (hf.lt_next hblk) harr harr hblocks hnext
    ⟨hown, (hclear hleak).2 hx.bare⟩

/-- Handing back the block of an array leaves other arrays alone, full or not. -/
theorem teardown_spares (hf : s.heap.Fresh) (ho : Owns s.heap s.self l) :
    Returns teardown s fun _ s' => Spares s s' ∧ s'.self.array = none ∧
      s'.throwAt = s.throwAt := by
  obtain ⟨b, blk, harr, hblk, -⟩ := ho.cells
  refine (teardown_leaves ho harr).mono ?_
  rintro _ _ ⟨h', rfl, hnext, hblocks, -⟩
  have hb := hf.lt_next hblk
  refine ⟨⟨hf.update (by rw [hnext]; exact hb) (Nat.le_of_eq hnext.symm) hblocks,
    Nat.le_of_eq hnext.symm, fun c _ hne => ?_⟩, rfl, rfl⟩
  show h'.blocks c = _
  rw [hblocks, Function.update_of_ne]
  rintro rfl
  exact hne harr

section

variable [BEq T]

theorem pushBack_runs (hf : s.heap.Fresh) (hx : Exact s.heap s.self l) (v : T) :
    Runs (pushBack v) s (fun _ s' => ∃ hroom, Later s s' (l.pushBack v hroom))
      (Strong s l) := by
  have h₀ : Later s { s with throwAt := s.throwAt.map Nat.pred } l := (Later.refl hf hx).noted _ _
  unfold pushBack
  refine Runs.bind (P := fun _ s₁ => s₁ = { s with throwAt := s.throwAt.map Nat.pred })
    (mayThrow_runs (fun _ => Strong.of_unchanged hf hx (by decide) none) fun _ => rfl) ?_
  rintro _ _ rfl
  refine Runs.bind ((pushBackMove_runs h₀.fresh h₀.holds v).mono (fun _ _ h => h)
    fun _ _ h => h₀.strong rfl h) ?_
  rintro _ s₁ ⟨hroom, h₁⟩
  have hlen : 0 < (l.pushBack v hroom).items.length := by
    show 0 < (l.items ++ [v]).length
    simp
  rw [runs_bind, runs_self, runs_bind, runs_back h₁.holds.toOwns hlen, runs_expr]
  exact ⟨hroom, (h₀.trans h₁).noted _ _⟩

theorem pushFront_runs (hf : s.heap.Fresh) (hx : Exact s.heap s.self l) (v : T)
    (hsafe : l.Full ∨ s.throwAt ≠ some 1) :
    Runs (pushFront v) s (fun _ s' => ∃ hroom, Later s s' (l.pushFront v hroom))
      (Strong s l) := by
  have h₀ : Later s { s with throwAt := s.throwAt.map Nat.pred } l := (Later.refl hf hx).noted _ _
  unfold pushFront
  refine Runs.bind (P := fun _ s₁ => s.throwAt ≠ some 0 ∧
      s₁ = { s with throwAt := s.throwAt.map Nat.pred })
    (mayThrow_runs (fun _ => Strong.of_unchanged hf hx (by decide) none) fun h => ⟨h, rfl⟩) ?_
  rintro _ _ ⟨hne, rfl⟩
  -- the second throw point is the one inside the cell
  have hsafe₀ : l.Full ∨ s.throwAt.map Nat.pred ≠ some 0 := by
    refine hsafe.imp_right fun h₁ h => ?_
    obtain ⟨n, hn, hpred⟩ := Option.map_eq_some_iff.mp h
    rw [hn] at hne h₁
    cases n with
    | zero => exact hne rfl
    | succ n =>
        cases hpred
        exact h₁ rfl
  refine Runs.bind ((pushFrontMove_runs h₀.fresh h₀.holds v hsafe₀).mono (fun _ _ h => h)
    fun _ _ h => h₀.strong rfl h) ?_
  rintro _ s₁ ⟨hroom, h₁⟩
  have hlen : 0 < (l.pushFront v hroom).items.length := Nat.succ_pos _
  rw [runs_bind, runs_self, runs_bind, runs_front h₁.holds.toOwns hlen, runs_expr]
  exact ⟨hroom, (h₀.trans h₁).noted _ _⟩

end

/-! ## Copying and growing -/

/-- In every later state, the range `r` produces `vs`. -/
structure Supplies (s : Store T) (r : InputRange T) (vs : List T) : Prop where
  length : r.length = vs.length
  deref : ∀ i (hi : i < vs.length) s' l, Later s s' l →
    Returns (r.deref i) s' fun v s'' => v = vs[i] ∧ Checked s' s'' False

theorem Supplies.of_reads {r : InputRange T} {vs : List T} {P : Store T → Prop} {k : Prop}
    (hr : Reads r vs P k) (hP : ∀ s' l, Later s s' l → P s') : Supplies s r vs where
  length := hr.length
  deref := by
    intro i hi s' l hl
    refine (hr.deref i hi s' (hP s' l hl)).mono ?_
    rintro v s'' ⟨hv, hc⟩
    exact ⟨hv, hc.mono False.elim⟩

theorem Supplies.later {r : InputRange T} {vs : List T} (hr : Supplies s r vs)
    (h₁ : Later s s₁ l₁) : Supplies s₁ r vs :=
  ⟨hr.length, fun i hi s' l hl => hr.deref i hi s' l (h₁.trans hl)⟩

theorem supplies_values (s : Store T) (vs : List T) : Supplies s (values vs) vs :=
  Supplies.of_reads (reads_values vs) fun _ _ _ => trivial

theorem supplies_replicate (s : Store T) (n : ℕ) (v : T) :
    Supplies s ⟨n, fun _ => pure v⟩ (List.replicate n v) :=
  Supplies.of_reads (reads_replicate n v) fun _ _ _ => trivial

theorem supplies_range {ca : CircularArray} (hc : Other s ca lc) :
    Supplies s (range ca) lc.items :=
  Supplies.of_reads (reads_range hc) fun _ _ hl => hl.other hc

section

variable [BEq T] {r : InputRange T} {vs : List T}

/-- `reserve`, as its callers see it: it grows the block, or has no effect. -/
def ReservesOrThrows (rsv : ℕ → Method T PUnit) : Prop :=
  ∀ (s : Store T) (l : BoundedList T) (n : ℕ), s.heap.Fresh → Exact s.heap s.self l →
    Runs (rsv n) s (fun _ s' => Later s s' (l.reserve n)) (Strong s l)

theorem pushDeref_runs (hf : s.heap.Fresh) (hx : Exact s.heap s.self l) (hr : Supplies s r vs)
    {i : ℕ} (hi : i < vs.length) :
    Runs (do pushBack (← r.deref i)) s
      (fun _ s' => ∃ hroom, Later s s' (l.pushBack vs[i] hroom)) (Basic s) := by
  have h₀ := Later.refl hf hx
  refine Runs.bind (hr.deref i hi s l h₀).runs ?_
  rintro _ s₁ ⟨rfl, hc⟩
  have h₁ := h₀.checked hc
  refine (pushBack_runs h₁.fresh h₁.holds vs[i]).mono ?_ fun _ _ h => h₁.basic h.basic
  rintro _ s₂ ⟨hroom, h₂⟩
  exact ⟨hroom, h₁.trans h₂⟩

/-- A loop of `push_back(*it)`: wherever it stops, what was pushed is there. -/
theorem pushRange_runs (hf : s.heap.Fresh) (hx : Exact s.heap s.self l) (hr : Supplies s r vs) :
    Runs (forCount (fun i => do pushBack (← r.deref i)) 0 r.length) s
      (fun _ s' => ∃ l', Later s s' l') (Basic s) := by
  rw [hr.length]
  refine runs_forCount (fun _ s' => ∃ l', Later s s' l') ?_ vs.length 0 s (Nat.zero_add _)
    ⟨l, Later.refl hf hx⟩
  rintro i s₁ hi ⟨l₁, h₁⟩
  refine (pushDeref_runs h₁.fresh h₁.holds (hr.later h₁) hi).mono ?_ fun _ _ h => h₁.basic h
  rintro _ s₂ ⟨hroom, h₂⟩
  exact ⟨_, h₁.trans h₂⟩

omit [BEq T] in
theorem ensureRoomForOneMore_runs {rsv : ℕ → Method T PUnit}
    (hrsv : l.Full → ReservesOrThrows rsv) (hf : s.heap.Fresh) (hx : Exact s.heap s.self l) :
    Runs (ensureRoomForOneMore rsv) s (fun _ s' => Later s s' l.grow) (Strong s l) := by
  unfold ensureRoomForOneMore
  rw [runs_bind, runs_self, hx.size, hx.capacity]
  by_cases hfull : l.Full
  · rw [if_pos (show l.items.length = l.capacity from hfull)]
    refine Runs.bind (hrsv hfull s l _ hf hx) fun _ s₁ h₁ => ?_
    have hgrow : l.reserve (l.capacity + max 10 (l.capacity / 4)) = l.grow := (if_pos hfull).symm
    rw [hgrow] at h₁
    simp only [runs_bind, runs_self, runs_expr]
    exact h₁.noted _ _
  · rw [if_neg (show ¬ l.items.length = l.capacity from hfull),
      show l.grow = l from if_neg hfull]
    simp only [runs_bind, runs_self, runs_expr]
    exact (Later.refl hf hx).noted _ _

/-- One turn of the loop in `assign(first, last)`. -/
theorem appendDeref_runs {rsv : ℕ → Method T PUnit} (hrsv : l.Full → ReservesOrThrows rsv)
    (hf : s.heap.Fresh) (hx : Exact s.heap s.self l) (hr : Supplies s r vs) {i : ℕ}
    (hi : i < vs.length) :
    Runs (do ensureRoomForOneMore rsv; pushBack (← r.deref i)) s
      (fun _ s' => Later s s' (l.append1 vs[i])) (Basic s) := by
  refine Runs.bind ((ensureRoomForOneMore_runs hrsv hf hx).mono (fun _ _ h => h)
    fun _ _ h => h.basic) fun _ s₁ h₁ => ?_
  refine (pushDeref_runs h₁.fresh h₁.holds (hr.later h₁) hi).mono ?_ fun _ _ h => h₁.basic h
  rintro _ s₂ ⟨hroom, h₂⟩
  exact h₁.trans h₂

theorem appendRange_runs {rsv : ℕ → Method T PUnit} {cap : ℕ}
    (hrsv : vs.length ≤ cap ∨ ReservesOrThrows rsv) (hf : s.heap.Fresh)
    (hx : Exact s.heap s.self (BoundedList.empty cap)) (hr : Supplies s r vs) :
    Runs (forCount (fun i => do ensureRoomForOneMore rsv; pushBack (← r.deref i)) 0 r.length) s
      (fun _ s' => Later s s' (vs.foldl BoundedList.append1 (BoundedList.empty cap)))
      (Basic s) := by
  rw [hr.length]
  have hloop : Runs (forCount (fun i => do ensureRoomForOneMore rsv; pushBack (← r.deref i))
      0 vs.length) s (fun _ s' =>
        Later s s' ((vs.take vs.length).foldl BoundedList.append1 (BoundedList.empty cap)))
      (Basic s) := by
    refine runs_forCount (fun i s' =>
      Later s s' ((vs.take i).foldl BoundedList.append1 (BoundedList.empty cap))) ?_ vs.length 0 s
      (Nat.zero_add _) (Later.refl hf hx)
    intro i s₁ hi h₁
    have hfull : ((vs.take i).foldl BoundedList.append1 (BoundedList.empty cap)).Full →
        ReservesOrThrows rsv := fun hf =>
      hrsv.resolve_left fun hfits => BoundedList.foldl_append1_take_not_full hfits hi hf
    refine (appendDeref_runs hfull h₁.fresh h₁.holds (hr.later h₁) hi).mono (fun _ s₂ h₂ => ?_)
      fun _ _ h => h₁.basic h
    rw [foldl_append1_take_succ hi]
    exact h₁.trans h₂
  rw [List.take_length] at hloop
  exact hloop

theorem assignRangeWith_runs {rsv : ℕ → Method T PUnit}
    (hrsv : vs.length ≤ l.capacity ∨ ReservesOrThrows rsv) (hf : s.heap.Fresh)
    (hx : Exact s.heap s.self l) (hr : Supplies s r vs) (hleak : ¬ Leaky l) :
    Runs (assignRangeWith rsv r) s (fun _ s' => Later s s' (l.assignRange vs)) (Basic s) := by
  unfold assignRangeWith
  refine Runs.bind (clear_later hf hx hleak).runs fun _ s₁ h₁ => ?_
  refine Runs.bind ((appendRange_runs hrsv h₁.fresh h₁.holds (hr.later h₁)).mono
    (fun _ _ h => h) fun _ _ h => h₁.basic h) fun _ s₂ h₂ => ?_
  simp only [runs_bind, runs_self, runs_expr]
  exact (h₁.trans h₂).noted _ _

/-- The comparison in a postcondition. -/
theorem operatorEq_later {ca : CircularArray} {heap : Heap T} {a : CircularArray} {t : Option ℕ}
    {β : Bool} {E : Exn → Store T → Prop} (h : Later s ⟨heap, a, t, β⟩ l₁)
    (hc : Other s ca lc) :
    Runs (operatorEq false a ca) ⟨heap, a, t, β⟩ (fun _ s' => Later s s' l₁) E := by
  refine (operatorEq_returns false h.holds.toOwns.shows (h.other hc).owns.shows).runs.mono ?_
    fun _ _ h => h
  rintro _ s' ⟨-, hchecked⟩
  exact h.checked hchecked

theorem constructCopyWith_runs (rsv : ℕ → Method T PUnit) (hf : s.heap.Fresh)
    (hnone : s.self.array = none) {ca : CircularArray} (hc : Owns s.heap ca lc) (cap : ℕ) :
    Runs (constructCopyWith rsv ca cap) s (fun _ s' => Later s s' (lc.copy cap))
      (Abandons s) := by
  unfold constructCopyWith
  simp only [hc.size]
  refine Runs.bind ((init_runs hf _).mono (fun _ _ h => h) fun _ _ h => h.1) fun _ s₁ h₁ => ?_
  have hother : Other s ca lc := by
    refine ⟨hc, ?_, fun b harr => ?_⟩
    · rw [hnone]
      intro heq
      have hsome := hc.array_isSome
      rw [heq] at hsome
      exact absurd hsome Bool.false_ne_true
    · obtain ⟨blk, hblk, -⟩ := hc.cells_at harr
      exact hf.lt_next hblk
  have hother₁ := h₁.other hother
  have hfits : lc.items.length ≤ (BoundedList.empty (T := T) (max lc.items.length cap)).capacity :=
    Nat.le_max_left _ _
  refine Runs.bind ((assignRangeWith_runs (Or.inl hfits) h₁.fresh h₁.holds
    (supplies_range hother₁) (not_leaky_empty _)).mono (fun _ _ h => h)
    fun _ _ h => (h₁.basic h).abandons) fun _ s₂ h₂ => ?_
  have hlist : (BoundedList.empty (max lc.items.length cap)).assignRange lc.items = lc.copy cap :=
    BoundedList.assignRange_of_fits hfits
  rw [hlist] at h₂
  have h₂' := h₁.trans h₂
  simp only [runs_bind, runs_self, runs_expr]
  exact (operatorEq_later (h₂'.noted _ _) hother).mono (fun _ _ h => h.noted _ _) fun _ _ h => h

omit [BEq T] in
/-- The object a replacement is built in is local to the method: a constructor that
throws leaves `*this` alone. -/
theorem onObject_runs (hf : s.heap.Fresh) (hx : Exact s.heap s.self l) {m : Method T PUnit}
    (hm : Runs m { s with self := {} } (fun _ s' => Later { s with self := {} } s' l')
      (Abandons { s with self := {} })) :
    Runs (onObject {} m) s
      (fun o s' => s'.self = s.self ∧ Later { s with self := {} } { s' with self := o } l')
      (Strong s l) := by
  rw [runs_onObject]
  refine hm.mono (fun _ s₁ h₁ => ⟨rfl, h₁⟩) ?_
  rintro e s₁ ⟨he, hspares⟩
  have hblocks : ∀ b, b < s.heap.next → s₁.heap.blocks b = s.heap.blocks b := fun b hb =>
    hspares.frame b hb (Option.some_ne_none b).symm
  refine ⟨he, ⟨⟨hspares.fresh, hspares.next, fun b hb _ => hblocks b hb⟩, Or.inl rfl, ?_⟩, rfl⟩
  refine hx.frame fun b harr => hblocks b ?_
  obtain ⟨blk, hblk, -⟩ := hx.cells_at harr
  exact hf.lt_next hblk

omit [BEq T] in
/-- Destroying the array that `*this` was, after a replacement was built. -/
theorem release_later {E : Exn → Store T → Prop} (hf : s.heap.Fresh)
    (hx : Exact s.heap s.self l) (h : Later { s with self := {} } s₁ l') :
    Runs (onObject s.self teardown) s₁ (fun _ s' => Later s s' l') E := by
  obtain ⟨b, blk, harr, hblk, -⟩ := hx.cells
  have hb := hf.lt_next hblk
  obtain ⟨c, hc, hnew⟩ : ∃ c, s.heap.next ≤ c ∧ s₁.self.array = some c := by
    rcases h.array with hnone | hnew
    · have hsome := h.holds.array_isSome
      rw [hnone] at hsome
      exact absurd hsome Bool.false_ne_true
    · exact hnew
  have hold : Owns s₁.heap s.self l := hx.toOwns.frame fun b' harr' => by
    obtain rfl := Option.some.inj (harr.symm.trans harr')
    exact h.frame b hb (Option.some_ne_none b).symm
  rw [runs_onObject]
  refine (teardown_spares (s := { s₁ with self := s.self }) h.fresh hold).runs.mono ?_
    fun _ _ h => h
  rintro _ s₂ ⟨hspares, -, -⟩
  refine ⟨⟨hspares.fresh, Nat.le_trans h.next hspares.next, fun b' hb' hne => ?_⟩,
    Or.inr ⟨c, hc, hnew⟩, h.holds.frame fun c' hc' => ?_⟩
  · rw [hspares.frame b' (Nat.lt_of_lt_of_le hb' h.next) hne]
    exact h.frame b' hb' (Option.some_ne_none b').symm
  · obtain rfl := Option.some.inj (hnew.symm.trans hc')
    obtain ⟨blk', hblk', -⟩ := h.holds.cells_at hnew
    refine hspares.frame c (h.fresh.lt_next hblk') fun heq => ?_
    obtain rfl := Option.some.inj (harr.symm.trans heq)
    exact absurd hb (Nat.not_lt_of_le hc)

/-- **`reserve` has the strong guarantee**: it throws before the swap. -/
theorem reserve_runs (depth : ℕ) : ReservesOrThrows (T := T) (reserve (depth + 1)) := by
  intro s l n hf hx
  rw [reserve, runs_bind, runs_self, hx.capacity]
  by_cases hn : n ≤ l.capacity
  · rw [if_pos hn]
    have hlist : l.reserve n = l := by
      ext1
      · rfl
      · exact Nat.max_eq_left hn
    rw [hlist]
    exact Later.refl hf hx
  · rw [if_neg hn]
    have hlist : l.copy n = l.reserve n := by
      have hfits := l.fits
      ext1
      · rfl
      · show max l.items.length n = max l.capacity n
        omega
    refine Runs.bind (onObject_runs hf hx (constructCopyWith_runs (s := { s with self := {} })
      (reserve depth) hf rfl hx.toOwns n)) ?_
    rintro o s₁ ⟨hself, h₁⟩
    rw [hlist] at h₁
    simp only [swap, runs_bind, runs_self, runs_modifySelf, runs_pure, runs_expr, runs_discard]
    rw [hself]
    exact release_later hf hx (h₁.noted _ _)

/-! ## Assigning -/

theorem clearReserve_runs (depth : ℕ) (hf : s.heap.Fresh) (hx : Exact s.heap s.self l)
    (hleak : ¬ Leaky l) (n : ℕ) :
    Runs (do clear; reserve (depth + 1) n) s
      (fun _ s' => Later s s' (BoundedList.empty (max l.capacity n))) (Basic s) := by
  refine Runs.bind (clear_later hf hx hleak).runs fun _ s₁ h₁ => ?_
  exact (reserve_runs depth s₁ l.clear n h₁.fresh h₁.holds).mono (fun _ s₂ h₂ => h₁.trans h₂)
    fun _ _ h => h₁.basic h.basic

theorem assignRange_runs (depth : ℕ) (hf : s.heap.Fresh) (hx : Exact s.heap s.self l)
    (hleak : ¬ Leaky l) (vs : List T) :
    Runs (assignRange (depth + 1) (values vs)) s (fun _ s' => ∃ l', Later s s' l') (Basic s) :=
  (assignRangeWith_runs (Or.inr (reserve_runs depth)) hf hx (supplies_values s vs) hleak).mono
    (fun _ _ h => ⟨_, h⟩) fun _ _ h => h

theorem assignFill_runs (depth : ℕ) (hf : s.heap.Fresh) (hx : Exact s.heap s.self l)
    (hleak : ¬ Leaky l) (n : ℕ) (v : T) :
    Runs (assignFill (depth + 1) n v) s (fun _ s' => ∃ l', Later s s' l') (Basic s) := by
  unfold assignFill
  rw [← bind_assoc]
  refine Runs.bind (clearReserve_runs depth hf hx hleak n) fun _ s₁ h₁ => ?_
  refine Runs.bind ((pushRange_runs h₁.fresh h₁.holds (supplies_replicate s₁ n v)).mono
    (fun _ _ h => h) fun _ _ h => h₁.basic h) ?_
  rintro _ s₂ ⟨l₂, h₂⟩
  simp only [runs_bind, runs_self, runs_expr]
  exact ⟨l₂, (h₁.trans h₂).noted _ _⟩

theorem assignList_runs (depth : ℕ) (hf : s.heap.Fresh) (hx : Exact s.heap s.self l)
    (hleak : ¬ Leaky l) (il : List T) :
    Runs (assignList (depth + 1) il) s (fun _ s' => ∃ l', Later s s' l') (Basic s) := by
  unfold assignList
  rw [← bind_assoc]
  refine Runs.bind (clearReserve_runs depth hf hx hleak il.length) fun _ s₁ h₁ => ?_
  refine Runs.bind ((assignRange_runs depth h₁.fresh h₁.holds (not_leaky_empty _) il).mono
    (fun _ _ h => h) fun _ _ h => h₁.basic h) ?_
  rintro _ s₂ ⟨l₂, h₂⟩
  simp only [runs_bind, runs_self, runs_expr]
  exact ⟨l₂, (h₁.trans h₂).noted _ _⟩

/-- `operator=(const CircularArray&)` hands its block back before it allocates: there must be
no throw in that allocation. -/
theorem assignCopy_runs (hf : s.heap.Fresh) (hx : Exact s.heap s.self l) {ca : CircularArray}
    (hc : Other s ca lc) (hsafe : s.throwAt ≠ some 0) :
    Runs (assignCopy false ca) s (fun _ s' => ∃ l', Later s s' l') (Basic s) := by
  unfold assignCopy
  simp only [Bool.false_eq_true, if_false]
  refine Runs.bind (teardown_spares hf hx.toOwns).runs ?_
  rintro _ s₁ ⟨hspares, hnone, hthrow⟩
  refine Runs.bind (P := fun _ s₂ => Later s₁ s₂ (BoundedList.empty ca.capacity))
    ((init_runs hspares.fresh _).mono (fun _ _ h => h) fun _ _ h => ?_) fun _ s₂ h₂' => ?_
  · rw [hthrow] at h
    exact absurd h.2 hsafe
  have h₂ := hspares.later hnone h₂'
  refine Runs.bind ((pushRange_runs h₂.fresh h₂.holds (supplies_range (h₂.other hc))).mono
    (fun _ _ h => h) fun _ _ h => h₂.basic h) ?_
  rintro _ s₃ ⟨l₃, h₃'⟩
  have h₃ := h₂.trans h₃'
  simp only [runs_bind, runs_self, runs_expr]
  exact (operatorEq_later (h₃.noted _ _) hc).mono (fun _ _ h => ⟨l₃, h.noted _ _⟩) fun _ _ h => h

theorem assignCopy_same_runs (hf : s.heap.Fresh) (hx : Exact s.heap s.self l)
    (ca : CircularArray) :
    Runs (assignCopy true ca) s (fun _ s' => ∃ l', Later s s' l') (Basic s) := by
  unfold assignCopy operatorEq
  simp only [if_true, runs_bind, runs_pure, runs_self, runs_expr]
  exact ⟨l, (Later.refl hf hx).noted _ _⟩

/-! ## Resizing -/

omit [BEq T] in
/-- `while (size() > n) pop_back();` -/
theorem popLoop_later (hf : s.heap.Fresh) (hx : Exact s.heap s.self l) (n : ℕ) :
    Returns (whileLoop (do return (← self).size > n) popBack s.self.size) s fun _ s' =>
      ∃ l', Later s s' l' := by
  have hloop : Returns (whileLoop (do return (← self).size > n) popBack s.self.size) s fun _ s' =>
      (∃ l', Later s s' l') ∧ ¬ s'.self.size > n := by
    refine returns_whileLoop (fun s' => ∃ l', Later s s' l') (fun s' => s'.self.size > n)
      (fun s' => s'.self.size) (fun s' _ => ?_) ?_ s.self.size s ⟨l, Later.refl hf hx⟩
      (Nat.le_refl _)
    · exact ⟨rfl, decide_eq_true_iff⟩
    rintro s₁ ⟨l₁, h₁⟩ hsize
    have hpos : 0 < l₁.items.length := by
      rw [← h₁.holds.size]
      exact Nat.zero_lt_of_lt hsize
    refine (popBack_later h₁.fresh h₁.holds (List.length_pos_iff.mp hpos)).mono
      fun _ s₂ h₂ => ⟨⟨_, h₁.trans h₂⟩, ?_⟩
    show s₂.self.size < s₁.self.size
    rw [h₂.holds.size, h₁.holds.size]
    show l₁.items.dropLast.length < l₁.items.length
    rw [List.length_dropLast]
    omega
  exact hloop.mono fun _ _ h => h.1

/-- `while (size() < n) push_back(val);` -/
theorem pushLoop_runs (hf : s.heap.Fresh) (hx : Exact s.heap s.self l) (n : ℕ) (v : T) :
    Runs (whileLoop (do return (← self).size < n) (pushBack v) n) s
      (fun _ s' => ∃ l', Later s s' l') (Basic s) := by
  have hloop : Runs (whileLoop (do return (← self).size < n) (pushBack v) n) s
      (fun _ s' => (∃ l', Later s s' l') ∧ ¬ s'.self.size < n) (Basic s) := by
    refine runs_whileLoop (fun s' => ∃ l', Later s s' l') (fun s' => s'.self.size < n)
      (fun s' => n - s'.self.size) (fun s' _ => ?_) (fun s' _ hsize => Nat.sub_pos_of_lt hsize)
      ?_ n s ⟨l, Later.refl hf hx⟩ (Nat.sub_le _ _)
    · exact ⟨rfl, decide_eq_true_iff⟩
    rintro s₁ ⟨l₁, h₁⟩ hsize
    refine (pushBack_runs h₁.fresh h₁.holds v).mono ?_ fun _ _ h => h₁.basic h.basic
    rintro _ s₂ ⟨hroom, h₂⟩
    have hlen : s₂.self.size = s₁.self.size + 1 := by
      rw [h₂.holds.size, h₁.holds.size]
      show (l₁.items ++ [v]).length = _
      simp
    refine ⟨⟨_, h₁.trans h₂⟩, ?_⟩
    show n - s₂.self.size < n - s₁.self.size
    omega
  exact hloop.mono (fun _ _ h => h.1) fun _ _ h => h

theorem resize_runs (depth : ℕ) (hf : s.heap.Fresh) (hx : Exact s.heap s.self l) (n : ℕ)
    (v : T) : Runs (resize (depth + 1) n v) s (fun _ s' => ∃ l', Later s s' l') (Basic s) := by
  unfold resize
  rw [runs_bind, runs_self]
  refine Runs.bind (popLoop_later hf hx n).runs ?_
  rintro _ s₁ ⟨l₁, h₁⟩
  rw [runs_bind, runs_self]
  by_cases hlt : s₁.self.size < n
  · rw [if_pos hlt]
    refine Runs.bind ((reserve_runs depth s₁ l₁ n h₁.fresh h₁.holds).mono (fun _ _ h => h)
      fun _ _ h => h₁.basic h.basic) fun _ s₂ h₂' => ?_
    have h₂ := h₁.trans h₂'
    refine Runs.bind ((pushBack_runs h₂.fresh h₂.holds v).mono (fun _ _ h => h)
      fun _ _ h => h₂.basic h.basic) ?_
    rintro _ s₃ ⟨hroom, h₃'⟩
    have h₃ := h₂.trans h₃'
    refine Runs.bind ((pushLoop_runs h₃.fresh h₃.holds n v).mono (fun _ _ h => h)
      fun _ _ h => h₃.basic h) ?_
    rintro _ s₄ ⟨l₄, h₄⟩
    simp only [runs_bind, runs_self, runs_expr]
    exact ⟨l₄, (h₃.trans h₄).noted _ _⟩
  · rw [if_neg hlt]
    simp only [runs_bind, runs_self, runs_expr]
    exact ⟨l₁, h₁.noted _ _⟩

theorem shrinkToFit_runs (depth : ℕ) (hf : s.heap.Fresh) (hx : Exact s.heap s.self l) :
    Runs (shrinkToFit (depth + 1)) s (fun _ s' => ∃ l', Later s s' l') (Strong s l) := by
  unfold shrinkToFit
  rw [runs_bind, runs_self]
  by_cases hlt : s.self.capacity > s.self.size
  · rw [if_pos hlt]
    refine Runs.bind (onObject_runs hf hx (constructCopyWith_runs (s := { s with self := {} })
      (reserve (depth + 1)) hf rfl hx.toOwns s.self.size)) ?_
    rintro o s₁ ⟨hself, h₁⟩
    simp only [swap, runs_bind, runs_self, runs_modifySelf, runs_pure, runs_discard]
    rw [hself]
    refine (release_later hf hx h₁).mono (fun _ s₂ h₂ => ?_) fun _ _ h => h
    rw [runs_expr]
    exact ⟨_, h₂.noted _ _⟩
  · rw [if_neg hlt]
    simp only [runs_bind, runs_self, runs_expr]
    exact ⟨l, (Later.refl hf hx).noted _ _⟩

/-! ## Constructors -/

omit [BEq T] in
theorem constructEmpty_runs (hf : s.heap.Fresh) (cap : ℕ) :
    Runs (constructEmpty cap) s (fun _ s' => ∃ l', Later s s' l') (Abandons s) := by
  unfold constructEmpty
  refine Runs.bind ((init_runs hf cap).mono (fun _ _ h => h) fun _ _ h => h.1) fun _ s₁ h₁ => ?_
  simp only [runs_bind, runs_self, runs_expr]
  exact ⟨_, h₁.noted _ _⟩

omit [BEq T] in
/-- The other constructors fill the block `init` made. -/
theorem initThen_runs {m : Method T PUnit} {cap : ℕ} (hf : s.heap.Fresh)
    (hm : ∀ s₁, Later s s₁ (BoundedList.empty cap) →
      Runs m s₁ (fun _ s' => ∃ l', Later s₁ s' l') (Basic s₁)) :
    Runs (do init cap; m) s (fun _ s' => ∃ l', Later s s' l') (Abandons s) := by
  refine Runs.bind ((init_runs hf cap).mono (fun _ _ h => h) fun _ _ h => h.1) fun _ s₁ h₁ => ?_
  refine (hm s₁ h₁).mono ?_ fun _ _ h => (h₁.basic h).abandons
  rintro _ s₂ ⟨l₂, h₂⟩
  exact ⟨l₂, h₁.trans h₂⟩

theorem constructFill_runs (depth : ℕ) (hf : s.heap.Fresh) (n : ℕ) (v : T) (cap : ℕ) :
    Runs (constructFill (depth + 1) n v cap) s (fun _ s' => ∃ l', Later s s' l')
      (Abandons s) := by
  unfold constructFill
  rw [← bind_assoc]
  refine Runs.bind (initThen_runs hf fun s₁ h₁ =>
    assignFill_runs depth h₁.fresh h₁.holds (not_leaky_empty _) n v) ?_
  rintro _ s₂ ⟨l₂, h₂⟩
  simp only [runs_bind, runs_self, runs_expr]
  exact ⟨l₂, h₂.noted _ _⟩

theorem constructRange_runs (depth : ℕ) (hf : s.heap.Fresh) (vs : List T) (cap : ℕ) :
    Runs (constructRange (depth + 1) (values vs) cap) s (fun _ s' => ∃ l', Later s s' l')
      (Abandons s) := by
  unfold constructRange
  rw [← bind_assoc]
  refine Runs.bind (initThen_runs hf fun s₁ h₁ =>
    assignRange_runs depth h₁.fresh h₁.holds (not_leaky_empty _) vs) ?_
  rintro _ s₂ ⟨l₂, h₂⟩
  simp only [runs_bind, runs_self, runs_expr]
  exact ⟨l₂, h₂.noted _ _⟩

theorem constructList_runs (depth : ℕ) (hf : s.heap.Fresh) (il : List T) (cap : ℕ) :
    Runs (constructList (depth + 1) il cap) s (fun _ s' => ∃ l', Later s s' l')
      (Abandons s) := by
  unfold constructList
  rw [← bind_assoc]
  refine Runs.bind (initThen_runs hf fun s₁ h₁ =>
    assignList_runs depth h₁.fresh h₁.holds (not_leaky_empty _) il) ?_
  rintro _ s₂ ⟨l₂, h₂⟩
  simp only [runs_bind, runs_self, runs_expr]
  exact ⟨l₂, h₂.noted _ _⟩

end

/-! ## The two points that spoil an array -/

/-- The counters are in step, and the cells that hold an object are the `_size`
logical ones. -/
structure Intact (h : Heap T) (a : CircularArray) : Prop where
  size_le : a.size ≤ a.capacity
  last_eq : a.last = (a.first + a.size) % a.capacity
  cells : ∃ b blk, a.array = some b ∧ h.blocks b = some blk ∧
    ∀ j, (blk.cell j).isSome = true ↔ ∃ i < a.size, (a.first + i) % a.capacity = j

theorem Exact.intact {h : Heap T} {a : CircularArray} {l : BoundedList T}
    (hx : Exact h a l) : a.Intact h := by
  have hle := hx.size_le
  have hlast := hx.last
  refine ⟨hle, ?_, hx.held_iff hx.bare⟩
  rcases hx.first with hf | ⟨hc, hf⟩
  · rw [hlast, position_eq_mod hf hle]
  · have hsize : a.size = 0 := by omega
    rw [hlast, hsize, hc, hf, position, hc, hf]
    rfl

section

variable [BEq T] {ca : CircularArray}

omit [BEq T] in
/-- The new front is counted, and it is raw. -/
theorem pushFrontMove_spoils (hx : Exact s.heap s.self l) (hroom : ¬ l.Full)
    (hthrow : s.throwAt = some 0) (v : T) :
    Runs (pushFrontMove v) s (fun _ _ => False) fun _ s' => ¬ s'.self.Intact s'.heap := by
  obtain ⟨b, blk, harr, hblk, -⟩ := hx.cells
  have hlt := hx.lt_of_not_full hroom
  have hfirst := hx.first_lt (by omega)
  have hraw : blk.cell (beforeFirst s.self) = none := by
    refine hx.bare b blk harr hblk _ fun i hi heq => ?_
    rw [beforeFirst_eq hfirst] at heq
    have := position_inj (by omega) (by omega) heq
    omega
  unfold pushFrontMove
  rw [runs_bind, runs_checkRoomForOneMore hlt]
  simp only [runs_bind, runs_modifySelf, runs_self]
  refine construct_runs (by exact harr) (fun _ hintact => ?_) fun h => absurd hthrow h
  obtain ⟨b', blk', harr', hblk', hcells⟩ := hintact.cells
  obtain rfl : b = b' := Option.some.inj (harr.symm.trans harr')
  obtain rfl : blk = blk' := Option.some.inj (hblk.symm.trans hblk')
  have hheld : (blk.cell (beforeFirst s.self)).isSome = true := by
    refine (hcells _).mpr ⟨0, Nat.succ_pos _, ?_⟩
    exact Nat.mod_eq_of_lt (beforeFirst_lt hfirst)
  rw [hraw] at hheld
  exact absurd hheld Bool.false_ne_true

theorem pushFront_spoils (hx : Exact s.heap s.self l) (hroom : ¬ l.Full)
    (hthrow : s.throwAt = some 1) (v : T) :
    Runs (pushFront v) s (fun _ _ => False) fun _ s' => ¬ s'.self.Intact s'.heap := by
  unfold pushFront
  rw [runs_bind]
  refine mayThrow_runs (fun h => absurd (hthrow.symm.trans h) (by decide)) fun _ => ?_
  have hnext : s.throwAt.map Nat.pred = some 0 := by rw [hthrow]; rfl
  rw [runs_bind]
  exact (pushFrontMove_spoils (s := { s with throwAt := s.throwAt.map Nat.pred }) hx hroom hnext
    v).mono (fun _ _ h => h.elim) fun _ _ h => h

/-- The old block is gone, and there is no new one. -/
theorem assignCopy_spoils (ho : Owns s.heap s.self l) (hthrow : s.throwAt = some 0) :
    Runs (assignCopy false ca) s (fun _ _ => False) fun _ s' => ¬ s'.self.Intact s'.heap := by
  obtain ⟨b, blk, harr, -⟩ := ho.cells
  unfold assignCopy
  simp only [Bool.false_eq_true, if_false]
  refine Runs.bind (teardown_leaves ho harr).runs ?_
  rintro _ _ ⟨h', rfl, -⟩
  unfold init allocate
  rw [runs_bind, runs_bind, runs_bind]
  refine mayThrow_runs (fun _ hintact => ?_) fun h => absurd hthrow h
  obtain ⟨b', blk', harr', -⟩ := hintact.cells
  cases harr'

end

end CircularArray
end KssUtil.Containers

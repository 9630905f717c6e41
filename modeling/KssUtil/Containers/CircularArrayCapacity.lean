import KssUtil.Containers.CircularArrayCompare

/-!
# Copying, growing and assigning

`reserve`, the constructors and the assignments all replace the elements of
`*this` by those of a range.  A range is described once by `Reads`, whether it
runs over plain values or over another array.
-/

namespace KssUtil.Containers

open KssUtil.Foundation

/-- Every item is equal to itself under the element type's `==`. -/
def SelfEqual {T : Type} [BEq T] (vs : List T) : Prop := ∀ v ∈ vs, (v == v) = true

instance {T : Type} [BEq T] (vs : List T) : Decidable (SelfEqual vs) :=
  inferInstanceAs (Decidable (∀ v ∈ vs, _))

theorem SelfEqual.beq_self {T : Type} [BEq T] {vs : List T} (h : SelfEqual vs) :
    (vs == vs) = true := by
  induction vs with
  | nil => rfl
  | cons v vs ih =>
      rw [List.cons_beq_cons, h v List.mem_cons_self,
        ih fun w hw => h w (List.mem_cons_of_mem v hw)]
      rfl

namespace CircularArray

variable {T : Type} {s s' : Store T} {l lc : BoundedList T}

/-! ## Arrays that start at cell `0` -/

theorem not_wrapped_of_based {a : CircularArray} (h : a.first = 0) : ¬ Wrapped a :=
  fun hw => Nat.ne_of_gt hw.2 h

theorem readable_of_not_wrapped {a : CircularArray} (h : ¬ Wrapped a) (j : ℕ) : Readable a j :=
  fun hw => h hw.1

/-- With the front at cell `0`, `_last` is as the constructors promise. -/
theorem Owns.lastExpr {h : Heap T} {a : CircularArray} (ho : Owns h a l) (hbased : a.first = 0) :
    lastExpr a = true := by
  have hle := ho.size_le
  have hlast := ho.last
  unfold position at hlast
  rw [hbased, Nat.zero_add] at hlast
  simp only [CircularArray.lastExpr, Bool.or_eq_true, Bool.and_eq_true, beq_iff_eq]
  split at hlast <;> omega

/-! ## Replacing `*this` by another array -/

theorem runs_onObject {o : CircularArray} {m : Method T PUnit}
    {Q : CircularArray → Store T → Prop} {E : Exn → Store T → Prop} :
    Runs (onObject o m) s Q E ↔
      Runs m { s with self := o } (fun _ s' => Q s'.self { s' with self := s.self })
        (fun e s' => E e { s' with self := s.self }) := by
  unfold Runs onObject
  cases m { s with self := o } <;> exact Iff.rfl

/-- Destroying the array that `*this` was, after a replacement for it was
built on another block. -/
theorem release_returns {l' : BoundedList T} {k : Prop} (hq : Quiet s)
    (ho : Owns s.heap s.self l) (h : Step { s with self := {} } s' l' True k) :
    Returns (onObject s.self teardown) s' fun _ s'' =>
      Step s s'' l' (¬ Leaky l) k ∧ s''.self = s'.self := by
  have hother : Other s' s.self l :=
    h.other (Other.of_none (s := { s with self := {} }) ⟨hq.throwAt, hq.fresh⟩ rfl ho)
  rw [Returns, runs_onObject]
  refine Returns.mono (teardown_returns ⟨h.quiet.throwAt, h.quiet.fresh⟩ hother.owns)
    fun _ s₂ hrel => ⟨?_, rfl⟩
  have hframe : ∀ b, s'.self.array = some b → s₂.heap.blocks b = s'.heap.blocks b :=
    fun b harr => hrel.frame b fun heq => hother.apart (heq.trans harr.symm)
  refine ⟨⟨hrel.quiet.throwAt, hrel.quiet.fresh⟩, h.owns.frame hframe, ?_, ?_, ?_, ?_, ?_⟩
  · exact Nat.le_trans h.next (Nat.le_of_eq hrel.next.symm)
  · rcases h.array with hnone | hnew
    · have hsome := h.owns.array_isSome
      rw [hnone] at hsome
      exact absurd hsome Bool.false_ne_true
    · exact Or.inr hnew
  · intro b hb hne
    exact (hrel.frame b hne).trans (h.frame b hb (Option.some_ne_none b).symm)
  · intro hleak ht
    have ht' := h.tidy trivial
      ⟨ht.faults, fun b blk harr => absurd harr.symm (Option.some_ne_none b)⟩
    have hold : Tidy s'.heap s.self := by
      refine ⟨ht'.faults, fun b blk harr hblk => ht.raw b blk harr ?_⟩
      rw [← hblk]
      exact (h.frame b (hq.fresh.lt_next (ho.cells_at harr).choose_spec.1)
        (Option.some_ne_none b).symm).symm
    refine ⟨hrel.tidy hleak hold, fun b blk harr hblk => ht'.raw b blk harr ?_⟩
    rw [← hframe b harr]
    exact hblk
  · intro hk
    exact hrel.broken.trans (h.broken hk)

/-! ## Ranges -/

/-- As long as `P` holds, the range `r` produces `vs`; it breaks no contract
if `k` holds. -/
structure Reads (r : InputRange T) (vs : List T) (P : Store T → Prop) (k : Prop) : Prop where
  length : r.length = vs.length
  deref : ∀ i (hi : i < vs.length) s, P s →
    Returns (r.deref i) s fun v s' => v = vs[i] ∧ Checked s s' k
  stable : ∀ {s s' : Store T} {l : BoundedList T} {t k' : Prop},
    Step s s' l t k' → P s → P s'

theorem reads_values (vs : List T) : Reads (values vs) vs (fun _ => True) True where
  length := rfl
  deref := by
    intro i hi s _
    have hv : (values vs).deref i = pure vs[i] := by
      simp only [values, List.getElem?_eq_getElem hi]
    rw [hv]
    exact ⟨rfl, Checked.refl s⟩
  stable := fun _ _ => trivial

theorem reads_replicate (n : ℕ) (v : T) :
    Reads ⟨n, fun _ => pure v⟩ (List.replicate n v) (fun _ => True) True where
  length := List.length_replicate.symm
  deref := by
    intro i hi s _
    exact ⟨(List.getElem_replicate hi).symm, Checked.refl s⟩
  stable := fun _ _ => trivial

/-- Iterating over an array that does not wrap while full. -/
theorem reads_range {ca : CircularArray} (hc : Other s ca lc) :
    Reads (range ca) lc.items (fun s => Other s ca lc) (¬ Wrapped ca) where
  length := hc.owns.size
  deref := by
    intro i hi s hother
    refine (operatorIndex_returns hother.owns.shows hi).mono ?_
    rintro v s' ⟨rfl, h⟩
    exact ⟨rfl, h.mono fun hw hr => hw hr.1⟩
  stable := fun h hother => h.other hother

/-! ## Appending a range -/

theorem foldl_append1_take_succ {b : BoundedList T} {vs : List T} {i : ℕ} (hi : i < vs.length) :
    (vs.take (i + 1)).foldl BoundedList.append1 b =
      ((vs.take i).foldl BoundedList.append1 b).append1 vs[i] := by
  rw [List.take_succ_eq_append_getElem hi, List.foldl_append]
  rfl

section

variable [BEq T]

/-- What `reserve`, at whatever depth, is taken to do by its callers. -/
def Reserves (rsv : ℕ → Method T PUnit) : Prop :=
  ∀ (s : Store T) (l : BoundedList T) (n : ℕ), Quiet s → Owns s.heap s.self l →
    Returns (rsv n) s fun _ s' => BackStep s s' (l.reserve n) (n ≤ l.capacity ∨ ¬ Leaky l)
      (n ≤ l.capacity ∨ ¬ Wrapped s.self ∧ SelfEqual l.items)

theorem ensureRoomForOneMore_returns {rsv : ℕ → Method T PUnit} (hrsv : l.Full → Reserves rsv)
    (hq : Quiet s) (ho : Owns s.heap s.self l) :
    Returns (ensureRoomForOneMore rsv) s fun _ s' =>
      BackStep s s' l.grow (¬ Leaky l) (l.Full → ¬ Wrapped s.self ∧ SelfEqual l.items) := by
  have hroom : ∀ s' : Store T, Owns s'.heap s'.self l.grow →
      decide (s'.self.size < s'.self.capacity) = true := fun _ ho' =>
    decide_eq_true (ho'.lt_of_not_full l.grow_not_full)
  unfold ensureRoomForOneMore
  rw [Returns, runs_bind, runs_self, ho.size, ho.capacity]
  by_cases hfull : l.Full
  · rw [if_pos (show l.items.length = l.capacity from hfull)]
    refine Returns.bind (hrsv hfull s l _ hq ho) fun _ s' h => ?_
    have hgrow : l.reserve (l.capacity + max 10 (l.capacity / 4)) = l.grow := (if_pos hfull).symm
    rw [hgrow] at h
    rw [Returns, runs_bind, runs_self, runs_expr_true (hroom s' h.owns)]
    exact h.mono rfl Or.inr fun hk => Or.inr (hk hfull)
  · rw [if_neg (show ¬ l.items.length = l.capacity from hfull)]
    have hgrow : l.grow = l := if_neg hfull
    have hlt := hroom s (by rw [hgrow]; exact ho)
    simp only [runs_bind, runs_self]
    rw [runs_expr_true hlt, hgrow]
    exact (BackStep.refl hq ho).mono rfl (fun _ => trivial) fun _ => trivial

variable {r : InputRange T} {vs : List T} {P : Store T → Prop} {k : Prop}

/-- `push_back(*it)`. -/
theorem pushDeref_returns (hr : Reads r vs P k) (hP : P s) (hq : Quiet s)
    (ho : Owns s.heap s.self l) (hroom : ¬ l.Full) {i : ℕ} (hi : i < vs.length) :
    Returns (do pushBack (← r.deref i)) s fun _ s' =>
      BackStep s s' (l.pushBack vs[i] hroom) True (k ∧ (vs[i] == vs[i]) = true) := by
  refine Returns.bind (hr.deref i hi s hP) ?_
  rintro _ s₁ ⟨rfl, h₁⟩
  have hstep := h₁.backStep hq ho
  refine Returns.mono (pushBack_returns hstep.quiet hstep.owns hroom vs[i]) fun _ s₂ h₂ => ?_
  exact (hstep.trans h₂).mono rfl (fun _ => ⟨trivial, trivial⟩) id

/-- One turn of the loop in `assign(first, last)`. -/
theorem appendDeref_returns {rsv : ℕ → Method T PUnit} (hrsv : l.Full → Reserves rsv)
    (hr : Reads r vs P k) (hP : P s) (hq : Quiet s) (ho : Owns s.heap s.self l) {i : ℕ}
    (hi : i < vs.length) :
    Returns (do ensureRoomForOneMore rsv; pushBack (← r.deref i)) s fun _ s' =>
      BackStep s s' (l.append1 vs[i]) (¬ Leaky l)
        ((l.Full → ¬ Wrapped s.self ∧ SelfEqual l.items) ∧ k ∧ (vs[i] == vs[i]) = true) := by
  refine Returns.bind (ensureRoomForOneMore_returns hrsv hq ho) fun _ s₁ h₁ => ?_
  refine Returns.mono (pushDeref_returns hr (hr.stable h₁.toStep hP) h₁.quiet h₁.owns
    l.grow_not_full hi) fun _ s₂ h₂ => ?_
  exact (h₁.trans h₂).mono rfl (fun ht => ⟨ht, trivial⟩) id

/-- The loop of `assign(first, last)`, from the state `clear` leaves.  Where
the range fits, `reserve` is not called. -/
theorem appendRange_returns {rsv : ℕ → Method T PUnit} {cap : ℕ}
    (hrsv : vs.length ≤ cap ∨ Reserves rsv) (hr : Reads r vs P k) (hP : P s) (hq : Quiet s)
    (ho : Owns s.heap s.self (BoundedList.empty cap)) (hbased : s.self.first = 0) :
    Returns (forCount (fun i => do ensureRoomForOneMore rsv; pushBack (← r.deref i)) 0 r.length)
      s fun _ s' =>
        BackStep s s' (vs.foldl BoundedList.append1 (BoundedList.empty cap))
          (BoundedList.GrowsClean cap vs.length) (k ∧ SelfEqual vs) := by
  rw [hr.length]
  have hloop : Returns (forCount (fun i => do ensureRoomForOneMore rsv; pushBack (← r.deref i))
      0 vs.length) s fun _ s' =>
        BackStep s s' ((vs.take vs.length).foldl BoundedList.append1 (BoundedList.empty cap))
          (BoundedList.GrowsClean cap vs.length) (k ∧ SelfEqual vs) := by
    refine returns_forCount (fun i s' =>
      BackStep s s' ((vs.take i).foldl BoundedList.append1 (BoundedList.empty cap))
        (BoundedList.GrowsClean cap i) (k ∧ SelfEqual vs)) ?_ vs.length 0 s (Nat.zero_add _)
      ((BackStep.refl hq ho).mono rfl (fun _ => trivial) fun _ => trivial)
    intro i s₁ hi h₁
    have hlen : (vs.take i).length = i := by rw [List.length_take]; omega
    -- an array that is full before the last item means that the range does not fit
    have hfull : ((vs.take i).foldl BoundedList.append1 (BoundedList.empty cap)).Full →
        Reserves rsv := fun hf =>
      hrsv.resolve_left fun hfits => BoundedList.foldl_append1_take_not_full hfits hi hf
    refine (appendDeref_returns hfull hr (hr.stable h₁.toStep hP) h₁.quiet h₁.owns hi).mono
      fun _ s₂ h₂ => ?_
    refine (h₁.trans h₂).mono (foldl_append1_take_succ hi).symm ?_ ?_
    · intro hclean
      refine ⟨hclean.of_succ, fun hleaky => ?_⟩
      rw [← hlen] at hclean
      have hzero := hclean.capacity_eq_zero hleaky.1
      exact Nat.ne_of_gt hleaky.2 hzero
    · rintro ⟨hk, hself⟩
      refine ⟨⟨hk, hself⟩, fun _ => ⟨not_wrapped_of_based (h₁.based hbased), ?_⟩, hk,
        hself _ (List.getElem_mem hi)⟩
      intro v hv
      rw [BoundedList.foldl_append1_items] at hv
      exact hself v (List.mem_of_mem_take hv)
  rw [List.take_length] at hloop
  exact hloop

theorem assignRangeWith_returns {rsv : ℕ → Method T PUnit}
    (hrsv : vs.length ≤ l.capacity ∨ Reserves rsv) (hr : Reads r vs P k) (hP : P s)
    (hq : Quiet s) (ho : Owns s.heap s.self l) :
    Returns (assignRangeWith rsv r) s fun _ s' =>
      BackStep s s' (l.assignRange vs)
        (¬ Leaky l ∧ BoundedList.GrowsClean l.capacity vs.length)
        (k ∧ SelfEqual vs ∧ (0 < l.capacity ∨ vs ≠ [])) ∧ s'.self.first = 0 := by
  unfold assignRangeWith
  refine Returns.bind (clear_returns hq ho) ?_
  rintro _ s₁ ⟨h₁, hf₁⟩
  refine Returns.bind (appendRange_returns hrsv hr (hr.stable h₁.toStep hP) h₁.quiet h₁.owns hf₁)
    fun _ s₂ h₂ => ?_
  rw [Returns, runs_bind, runs_self, runs_bind, runs_expr_true h₂.owns.array_isSome, runs_bind,
    runs_expr_true (decide_eq_true h₂.owns.size_le), runs_expr]
  refine ⟨((h₁.trans h₂).trans (BackStep.of_broken h₂.quiet h₂.owns _)).mono rfl
    (fun ht => ⟨ht, trivial⟩) ?_, h₂.based hf₁⟩
  rintro ⟨hk, hself, hcap⟩
  refine ⟨⟨trivial, hk, hself⟩, ?_⟩
  have hpos : 0 < s₂.self.capacity := by
    rw [h₂.owns.capacity]
    exact BoundedList.assignRange_capacity_pos hcap
  simpa using hpos

/-! ## Copying -/

theorem constructCopyWith_returns (rsv : ℕ → Method T PUnit) (hq : Quiet s)
    (hnone : s.self.array = none) {ca : CircularArray} (hc : Owns s.heap ca lc) (cap : ℕ) :
    Returns (constructCopyWith rsv ca cap) s fun _ s' =>
      BackStep s s' (lc.copy cap) True
        (¬ Wrapped ca ∧ SelfEqual lc.items ∧ 0 < max lc.items.length cap) ∧
      s'.self.first = 0 := by
  unfold constructCopyWith
  simp only [hc.size]
  refine Returns.bind (init_returns hq _) ?_
  rintro _ s₁ ⟨h₁, hf₁⟩
  have hother := h₁.toStep.other (Other.of_none hq hnone hc)
  have hfits : lc.items.length ≤ (BoundedList.empty (T := T) (max lc.items.length cap)).capacity :=
    Nat.le_max_left _ _
  -- the range fits, so `rsv` is not called
  refine Returns.bind (assignRangeWith_returns (Or.inl hfits) (reads_range hother) hother
    h₁.quiet h₁.owns) ?_
  rintro _ s₂ ⟨h₂, hf₂⟩
  have hlist : (BoundedList.empty (max lc.items.length cap)).assignRange lc.items = lc.copy cap :=
    BoundedList.assignRange_of_fits hfits
  rw [hlist] at h₂
  rw [Returns, runs_bind, runs_self, runs_bind, runs_expr_true h₂.owns.array_isSome, runs_bind,
    runs_expr_true (by rw [h₂.owns.capacity]; exact beq_self_eq_true _), runs_bind,
    runs_expr_true (by rw [h₂.owns.size]; exact beq_self_eq_true _), runs_bind,
    runs_expr_true (by rw [hf₂]; rfl), runs_bind, runs_expr_true (h₂.owns.lastExpr hf₂)]
  refine Returns.bind (operatorEq_returns false h₂.owns.shows
    (h₂.toStep.other hother).owns.shows) ?_
  rintro _ s₃ ⟨rfl, h₃⟩
  have hstep₃ := h₃.backStep h₂.quiet h₂.owns
  rw [Returns, runs_expr]
  have hfirst : s₃.self.first = 0 := by
    obtain ⟨β, rfl, -⟩ := h₃
    exact hf₂
  refine ⟨(((h₁.trans h₂).trans hstep₃).trans (BackStep.of_broken hstep₃.quiet hstep₃.owns _)).mono
    rfl ?_ ?_, hfirst⟩
  · intro _
    refine ⟨⟨⟨trivial, fun hleaky => ?_, Or.inl hfits⟩, trivial⟩, trivial⟩
    exact Nat.ne_of_lt hleaky.2 hleaky.1
  · rintro ⟨hw, hself, hcap⟩
    refine ⟨⟨⟨trivial, hw, hself, Or.inl hcap⟩, Or.inr (Or.inr fun j _ => ?_)⟩, ?_⟩
    · exact ⟨readable_of_not_wrapped (not_wrapped_of_based hf₂) j, readable_of_not_wrapped hw j⟩
    · have hbeq : ((lc.copy cap).items == lc.items) = true := hself.beq_self
      rw [hbeq]
      rfl

theorem reserve_returns (depth : ℕ) : Reserves (T := T) (reserve (depth + 1)) := by
  intro s l n hq ho
  rw [reserve, Returns, runs_bind, runs_self, ho.capacity]
  by_cases hn : n ≤ l.capacity
  · rw [if_pos hn]
    have hlist : l = l.reserve n := by
      ext1
      · rfl
      · exact (Nat.max_eq_left hn).symm
    exact (BackStep.refl hq ho).mono hlist (fun _ => trivial) fun _ => trivial
  · -- a copy with more room, swapped with `*this`; the old block goes with the temporary
    rw [if_neg hn, runs_bind, runs_onObject]
    have hq₀ : Quiet { s with self := {} } := ⟨hq.throwAt, hq.fresh⟩
    refine Returns.mono (constructCopyWith_returns (reserve depth) hq₀ rfl ho n) ?_
    rintro _ s₁ ⟨h₁, hf₁⟩
    have hfits := l.fits
    have hlist : l.copy n = l.reserve n := by
      ext1
      · rfl
      · show max l.items.length n = max l.capacity n
        omega
    simp only [swap, runs_bind, runs_self, runs_modifySelf, runs_pure]
    have hcap : n ≤ s₁.self.capacity := by
      rw [h₁.owns.capacity]
      exact Nat.le_max_right _ _
    rw [runs_expr_true h₁.owns.array_isSome, runs_expr_true (decide_eq_true hcap),
      runs_expr_true (decide_eq_true h₁.owns.size_le), runs_discard]
    refine Returns.mono (release_returns hq ho h₁.toStep) ?_
    rintro _ s₂ ⟨h₂, hself⟩
    refine ⟨h₂.mono hlist (fun ht => ht.resolve_left hn) fun hk => ?_, fun _ => ?_⟩
    · obtain ⟨hw, hse⟩ := hk.resolve_left hn
      exact ⟨hw, hse, by omega⟩
    · rw [hself]
      exact hf₁

end
end CircularArray
end KssUtil.Containers

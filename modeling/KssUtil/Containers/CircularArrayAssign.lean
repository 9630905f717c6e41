import KssUtil.Containers.CircularArrayCapacity

/-!
# Construction, assignment and resizing

The methods built from `reserve` and from loops of pushes and pops.
-/

namespace KssUtil.Containers
namespace CircularArray

open KssUtil.Foundation

variable {T : Type} [BEq T] {s s' : Store T} {l lc : BoundedList T}

/-! ## Pushing into reserved room -/

omit [BEq T] in
theorem not_leaky_empty (cap : ℕ) : ¬ Leaky (BoundedList.empty (T := T) cap) :=
  fun h => Nat.ne_of_lt h.2 h.1

/-- A loop of `push_back(*it)` over a range there is room for. -/
theorem pushRange_returns {r : InputRange T} {vs : List T} {P : Store T → Prop} {k : Prop}
    (hr : Reads r vs P k) (hP : P s) (hq : Quiet s) (ho : Owns s.heap s.self l)
    (hfits : l.items.length + vs.length ≤ l.capacity) :
    Returns (forCount (fun i => do pushBack (← r.deref i)) 0 r.length) s fun _ s' =>
      BackStep s s' (l.extend vs hfits) True (k ∧ SelfEqual vs) := by
  have hloop : Returns (forCount (fun i => do pushBack (← r.deref i)) 0 vs.length) s fun _ s' =>
      ∃ l', l'.items = l.items ++ vs.take vs.length ∧ l'.capacity = l.capacity ∧
        BackStep s s' l' True (k ∧ SelfEqual vs) := by
    refine returns_forCount (fun i s' => ∃ l', l'.items = l.items ++ vs.take i ∧
      l'.capacity = l.capacity ∧ BackStep s s' l' True (k ∧ SelfEqual vs)) ?_ vs.length 0 s
      (Nat.zero_add _) ?_
    · rintro i s₁ hi ⟨l₁, hitems, hcap, h₁⟩
      -- the items still to come fit, so there is room for this one
      have hroom : ¬ l₁.Full := by
        unfold BoundedList.Full
        rw [hitems, hcap, List.length_append, List.length_take]
        omega
      refine (pushDeref_returns hr (hr.stable h₁.toStep hP) h₁.quiet h₁.owns hroom hi).mono
        fun _ s₂ h₂ => ⟨l₁.pushBack vs[i] hroom, ?_, hcap, ?_⟩
      · show l₁.items ++ [vs[i]] = l.items ++ vs.take (i + 1)
        rw [hitems, List.take_succ_eq_append_getElem hi, List.append_assoc]
      · refine (h₁.trans h₂).mono rfl (fun _ => ⟨trivial, trivial⟩) fun hk => ⟨hk, hk.1, ?_⟩
        exact hk.2 _ (List.getElem_mem hi)
    · refine ⟨l, by simp, rfl, ?_⟩
      exact (BackStep.refl hq ho).mono rfl id fun _ => trivial
  rw [hr.length]
  refine hloop.mono ?_
  rintro _ s' ⟨l', hitems, hcap, h⟩
  rw [List.take_length] at hitems
  exact h.mono (BoundedList.ext hitems hcap) id id

/-! ## Assigning -/

theorem selfEqual_replicate {n : ℕ} {v : T} (h : 0 < n → (v == v) = true) :
    SelfEqual (List.replicate n v) := by
  intro w hw
  obtain ⟨hn, rfl⟩ := List.mem_replicate.mp hw
  exact h (Nat.pos_of_ne_zero hn)

/-- `clear` and `reserve(n)`: an empty array with room for `n`. -/
theorem clearReserve_returns (depth : ℕ) (hq : Quiet s) (ho : Owns s.heap s.self l) (n : ℕ) :
    Returns (do clear; reserve (depth + 1) n) s fun _ s' =>
      BackStep s s' (BoundedList.empty (max l.capacity n)) (¬ Leaky l) True ∧
      s'.self.first = 0 := by
  refine Returns.bind (clear_returns hq ho) ?_
  rintro _ s₁ ⟨h₁, hf₁⟩
  refine Returns.mono (reserve_returns depth s₁ l.clear n h₁.quiet h₁.owns) fun _ s₂ h₂ => ?_
  refine ⟨(h₁.trans h₂).mono rfl (fun ht => ⟨ht, Or.inr (not_leaky_empty _)⟩) fun _ => ?_,
    h₂.based hf₁⟩
  exact ⟨trivial, Or.inr ⟨not_wrapped_of_based hf₁, fun v hv => absurd hv List.not_mem_nil⟩⟩

theorem assignFill_returns (depth : ℕ) (hq : Quiet s) (ho : Owns s.heap s.self l) (n : ℕ)
    (v : T) :
    Returns (assignFill (depth + 1) n v) s fun _ s' =>
      BackStep s s' (l.assignFill n v) (¬ Leaky l) (0 < n → (v == v) = true) ∧
      s'.self.first = 0 := by
  have hbody : assignFill (depth + 1) n v = (do
      (do clear; reserve (depth + 1) n)
      forCount (fun i => do pushBack (← (⟨n, fun _ => pure v⟩ : InputRange T).deref i)) 0 n
      let a ← self
      expr a.array.isSome
      expr (a.capacity ≥ a.size)
      expr (a.size == n) : Method T PUnit) := by
    unfold assignFill
    rw [bind_assoc]
    rfl
  rw [hbody]
  refine Returns.bind (clearReserve_returns depth hq ho n) ?_
  rintro _ s₁ ⟨h₁, hf₁⟩
  have hfits : (BoundedList.empty (T := T) (max l.capacity n)).items.length +
      (List.replicate n v).length ≤ (BoundedList.empty (T := T) (max l.capacity n)).capacity := by
    rw [List.length_replicate]
    show 0 + n ≤ max l.capacity n
    omega
  refine Returns.bind (pushRange_returns (reads_replicate n v) trivial h₁.quiet h₁.owns hfits)
    fun _ s₂ h₂ => ?_
  have hsize : s₂.self.size = n := by
    rw [h₂.owns.size]
    show ([] ++ List.replicate n v).length = n
    simp
  rw [Returns, runs_bind, runs_self, runs_bind, runs_expr_true h₂.owns.array_isSome, runs_bind,
    runs_expr_true (decide_eq_true h₂.owns.size_le), runs_expr_true (beq_iff_eq.mpr hsize)]
  refine ⟨(h₁.trans h₂).mono rfl (fun ht => ⟨ht, trivial⟩) fun hv => ?_, h₂.based hf₁⟩
  exact ⟨trivial, trivial, selfEqual_replicate hv⟩

theorem assignList_returns (depth : ℕ) (hq : Quiet s) (ho : Owns s.heap s.self l)
    (il : List T) :
    Returns (assignList (depth + 1) il) s fun _ s' =>
      BackStep s s' (l.assignList il) (¬ Leaky l)
        (SelfEqual il ∧ (0 < l.capacity ∨ il ≠ [])) ∧
      s'.self.first = 0 := by
  have hbody : assignList (depth + 1) il = (do
      (do clear; reserve (depth + 1) il.length)
      assignRangeWith (reserve (depth + 1)) (values il)
      let a ← self
      expr a.array.isSome
      expr (a.capacity ≥ a.size)
      expr (a.size == il.length) : Method T PUnit) := by
    unfold assignList assignRange
    rw [bind_assoc]
  rw [hbody]
  refine Returns.bind (clearReserve_returns depth hq ho il.length) ?_
  rintro _ s₁ ⟨h₁, hf₁⟩
  have hfits : il.length ≤ (BoundedList.empty (T := T) (max l.capacity il.length)).capacity :=
    Nat.le_max_right _ _
  refine Returns.bind (assignRangeWith_returns (Or.inl hfits) (reads_values il) trivial
    h₁.quiet h₁.owns) ?_
  rintro _ s₂ ⟨h₂, hf₂⟩
  rw [BoundedList.assignRange_of_fits hfits] at h₂
  have hsize : s₂.self.size = il.length := h₂.owns.size
  rw [Returns, runs_bind, runs_self, runs_bind, runs_expr_true h₂.owns.array_isSome, runs_bind,
    runs_expr_true (decide_eq_true h₂.owns.size_le), runs_expr_true (beq_iff_eq.mpr hsize)]
  refine ⟨(h₁.trans h₂).mono rfl (fun ht => ?_) ?_, hf₂⟩
  · exact ⟨ht, not_leaky_empty _, Or.inl hfits⟩
  · rintro ⟨hself, hcap⟩
    refine ⟨trivial, trivial, hself, hcap.imp_left fun h => ?_⟩
    exact Nat.lt_of_lt_of_le h (Nat.le_max_left _ _)

theorem assignRange_returns (depth : ℕ) (hq : Quiet s) (ho : Owns s.heap s.self l)
    (vs : List T) :
    Returns (assignRange (depth + 1) (values vs)) s fun _ s' =>
      BackStep s s' (l.assignRange vs)
        (¬ Leaky l ∧ BoundedList.GrowsClean l.capacity vs.length)
        (SelfEqual vs ∧ (0 < l.capacity ∨ vs ≠ [])) ∧ s'.self.first = 0 := by
  refine (assignRangeWith_returns (Or.inr (reserve_returns depth)) (reads_values vs) trivial
    hq ho).mono ?_
  rintro _ s' ⟨h, hf⟩
  exact ⟨h.mono rfl id fun hk => ⟨trivial, hk⟩, hf⟩

/-! ## Constructors -/

omit [BEq T] in
theorem constructEmpty_returns (hq : Quiet s) (cap : ℕ) :
    Returns (constructEmpty cap) s fun _ s' =>
      BackStep s s' (BoundedList.empty cap) True True := by
  unfold constructEmpty
  refine Returns.bind (init_returns hq cap) ?_
  rintro _ s₁ ⟨h₁, hf₁⟩
  have hcap : s₁.self.capacity = cap := h₁.owns.capacity
  have hsize : s₁.self.size = 0 := h₁.owns.size
  have hlast : s₁.self.last = s₁.self.size := by
    have hlast := h₁.owns.last
    unfold position at hlast
    rw [hf₁, hsize] at hlast
    split at hlast <;> omega
  rw [Returns, runs_bind, runs_self, runs_bind, runs_expr_true h₁.owns.array_isSome, runs_bind,
    runs_expr_true (beq_iff_eq.mpr hcap), runs_bind,
    runs_expr_true (beq_iff_eq.mpr hsize), runs_bind,
    runs_expr_true (beq_iff_eq.mpr hf₁), runs_expr_true (beq_iff_eq.mpr hlast)]
  exact h₁

theorem constructFill_returns (depth : ℕ) (hq : Quiet s) (n : ℕ) (v : T) (cap : ℕ) :
    Returns (constructFill (depth + 1) n v cap) s fun _ s' =>
      BackStep s s' (BoundedList.fill n v cap) True (0 < n → (v == v) = true) := by
  unfold constructFill
  refine Returns.bind (init_returns hq _) ?_
  rintro _ s₁ ⟨h₁, -⟩
  refine Returns.bind (assignFill_returns depth h₁.quiet h₁.owns n v) ?_
  rintro _ s₂ ⟨h₂, hf₂⟩
  have hlist : (BoundedList.empty (max n cap)).assignFill n v = BoundedList.fill n v cap := by
    ext1
    · rfl
    · show max (max n cap) n = max n cap
      omega
  rw [hlist] at h₂
  have hcap : s₂.self.capacity = max n cap := h₂.owns.capacity
  have hsize : s₂.self.size = n := h₂.owns.size.trans List.length_replicate
  rw [Returns, runs_bind, runs_self, runs_bind, runs_expr_true h₂.owns.array_isSome, runs_bind,
    runs_expr_true (beq_iff_eq.mpr hcap), runs_bind,
    runs_expr_true (beq_iff_eq.mpr hsize), runs_bind, runs_expr_true (beq_iff_eq.mpr hf₂),
    runs_expr_true (h₂.owns.lastExpr hf₂)]
  exact (h₁.trans h₂).mono rfl (fun _ => ⟨trivial, not_leaky_empty _⟩) fun hv => ⟨trivial, hv⟩

theorem constructRange_returns (depth : ℕ) (hq : Quiet s) (vs : List T) (cap : ℕ) :
    Returns (constructRange (depth + 1) (values vs) cap) s fun _ s' =>
      BackStep s s' ((BoundedList.empty cap).assignRange vs)
        (BoundedList.GrowsClean cap vs.length) (SelfEqual vs ∧ (0 < cap ∨ vs ≠ [])) := by
  unfold constructRange
  refine Returns.bind (init_returns hq cap) ?_
  rintro _ s₁ ⟨h₁, -⟩
  refine Returns.bind (assignRange_returns depth h₁.quiet h₁.owns vs) ?_
  rintro _ s₂ ⟨h₂, hf₂⟩
  have hcap : cap ≤ s₂.self.capacity := by
    rw [h₂.owns.capacity]
    exact BoundedList.capacity_le_assignRange (BoundedList.empty cap) vs
  rw [Returns, runs_bind, runs_self, runs_bind, runs_expr_true h₂.owns.array_isSome, runs_bind,
    runs_expr_true (decide_eq_true hcap), runs_bind,
    runs_expr_true (decide_eq_true h₂.owns.size_le), runs_bind,
    runs_expr_true (beq_iff_eq.mpr hf₂), runs_expr_true (h₂.owns.lastExpr hf₂)]
  exact (h₁.trans h₂).mono rfl (fun ht => ⟨trivial, not_leaky_empty _, ht⟩)
    fun hk => ⟨trivial, hk⟩

theorem constructCopy_returns (depth : ℕ) (hq : Quiet s) (hnone : s.self.array = none)
    {ca : CircularArray} (hc : Owns s.heap ca lc) (cap : ℕ) :
    Returns (constructCopy (depth + 1) ca cap) s fun _ s' =>
      BackStep s s' (lc.copy cap) True
        (¬ Wrapped ca ∧ SelfEqual lc.items ∧ 0 < max lc.items.length cap) :=
  (constructCopyWith_returns (reserve (depth + 1)) hq hnone hc cap).mono fun _ _ h => h.1

omit [BEq T] in
/-- Moving from an array takes its members over. -/
theorem constructMove_returns {ca : CircularArray} (hc : Owns s.heap ca lc) :
    Returns (constructMove ca) s fun r s' => r = {} ∧ s'.self = ca ∧ s'.heap = s.heap ∧
      s'.throwAt = s.throwAt ∧ (0 < lc.capacity → s'.broken = s.broken) := by
  unfold constructMove
  simp only [Returns, runs_bind, runs_modifySelf, runs_self]
  rw [runs_expr_true hc.array_isSome, runs_expr_true (decide_eq_true hc.size_le)]
  simp only [runs_expr]
  refine ⟨rfl, rfl, rfl, rfl, fun hcap => ?_⟩
  rw [hc.capacity, decide_eq_true hcap]
  simp

theorem constructList_returns (depth : ℕ) (hq : Quiet s) (il : List T) (cap : ℕ) :
    Returns (constructList (depth + 1) il cap) s fun _ s' =>
      BackStep s s' (BoundedList.ofList il cap) True (SelfEqual il ∧ (0 < cap ∨ il ≠ [])) := by
  unfold constructList
  refine Returns.bind (init_returns hq _) ?_
  rintro _ s₁ ⟨h₁, -⟩
  refine Returns.bind (assignList_returns depth h₁.quiet h₁.owns il) ?_
  rintro _ s₂ ⟨h₂, hf₂⟩
  have hlist : (BoundedList.empty (max il.length cap)).assignList il =
      BoundedList.ofList il cap := by
    ext1
    · rfl
    · show max (max il.length cap) il.length = max il.length cap
      omega
  rw [hlist] at h₂
  have hcap : s₂.self.capacity = max il.length cap := h₂.owns.capacity
  have hsize : s₂.self.size = il.length := h₂.owns.size
  rw [Returns, runs_bind, runs_self, runs_bind, runs_expr_true h₂.owns.array_isSome, runs_bind,
    runs_expr_true (beq_iff_eq.mpr hcap), runs_bind,
    runs_expr_true (beq_iff_eq.mpr hsize), runs_bind,
    runs_expr_true (beq_iff_eq.mpr hf₂), runs_expr_true (h₂.owns.lastExpr hf₂)]
  refine (h₁.trans h₂).mono rfl (fun _ => ⟨trivial, not_leaky_empty _⟩) ?_
  rintro ⟨hself, hcap⟩
  refine ⟨trivial, hself, hcap.imp_left fun h => ?_⟩
  exact Nat.lt_of_lt_of_le h (Nat.le_max_right _ _)

/-! ## Copy assignment -/

omit [BEq T] in
/-- A new block after the old one was handed back. -/
theorem Released.rebuilt {s₁ s₂ : Store T} {t t₂ k₂ : Prop} (hrel : Released s s₁ t)
    (h : Step s₁ s₂ l t₂ k₂) : Step s s₂ l (t ∧ t₂) k₂ := by
  have hnone : s₁.self.array = none := by rw [hrel.self]
  refine ⟨h.quiet, h.owns, Nat.le_trans (Nat.le_of_eq hrel.next.symm) h.next, ?_, ?_, ?_, ?_⟩
  · rcases h.array with heq | ⟨b, hb, hnew⟩
    · have hsome := h.owns.array_isSome
      rw [heq, hnone] at hsome
      exact absurd hsome Bool.false_ne_true
    · exact Or.inr ⟨b, Nat.le_trans (Nat.le_of_eq hrel.next.symm) hb, hnew⟩
  · intro b hb hne
    have hb₁ : b < s₁.heap.next := Nat.lt_of_lt_of_le hb (Nat.le_of_eq hrel.next.symm)
    rw [h.frame b hb₁ (by rw [hnone]; exact (Option.some_ne_none b).symm), hrel.frame b hne]
  · intro ht htidy
    refine h.tidy ht.2 ⟨hrel.tidy ht.1 htidy, fun b blk harr => ?_⟩
    rw [hnone] at harr
    exact absurd harr.symm (Option.some_ne_none b)
  · intro hk
    exact (h.broken hk).trans hrel.broken

theorem assignCopy_same_returns (hq : Quiet s) (ho : Owns s.heap s.self l) :
    Returns (assignCopy true s.self) s fun _ s' => Step s s' l True True := by
  unfold assignCopy operatorEq
  simp only [if_true, runs_bind, Returns, runs_pure, runs_self]
  rw [runs_expr_true ho.array_isSome, runs_expr_true (decide_eq_true (Nat.le_refl _)),
    runs_expr_true rfl]
  exact Step.refl hq ho

theorem assignCopy_returns (hq : Quiet s) (ho : Owns s.heap s.self l) {ca : CircularArray}
    (hc : Other s ca lc) :
    Returns (assignCopy false ca) s fun _ s' =>
      Step s s' lc (¬ Leaky l) (¬ Wrapped ca ∧ SelfEqual lc.items) := by
  unfold assignCopy
  simp only [Bool.false_eq_true, if_false]
  -- the old block is gone before the new one is there
  refine Returns.bind (teardown_returns hq ho) fun _ s₁ hrel => ?_
  have hnone : s₁.self.array = none := by rw [hrel.self]
  have howns₁ : Owns s₁.heap ca lc :=
    hc.owns.frame fun b hb => hrel.frame b fun heq => hc.apart (hb.trans heq.symm)
  refine Returns.bind (init_returns hrel.quiet _) ?_
  rintro _ s₂ ⟨h₂, hf₂⟩
  have hother := h₂.toStep.other (Other.of_none hrel.quiet hnone howns₁)
  have hfits : (BoundedList.empty (T := T) ca.capacity).items.length + lc.items.length ≤
      (BoundedList.empty (T := T) ca.capacity).capacity := by
    have hle := hc.owns.size_le
    rw [hc.owns.size] at hle
    show 0 + lc.items.length ≤ ca.capacity
    omega
  refine Returns.bind (pushRange_returns (reads_range hother) hother h₂.quiet h₂.owns hfits)
    fun _ s₃ h₃ => ?_
  have hlist : (BoundedList.empty ca.capacity).extend lc.items hfits = lc := by
    ext1
    · exact List.nil_append _
    · exact hc.owns.capacity
  rw [hlist] at h₃
  have hcap : s₃.self.capacity = ca.capacity := h₃.owns.capacity.trans hc.owns.capacity.symm
  have hf₃ := h₃.based hf₂
  rw [Returns, runs_bind, runs_self, runs_bind, runs_expr_true h₃.owns.array_isSome, runs_bind,
    runs_expr_true (decide_eq_true (Nat.le_of_eq hcap.symm))]
  refine Returns.bind (operatorEq_returns false h₃.owns.shows
    (h₃.toStep.other hother).owns.shows) ?_
  rintro _ s₄ ⟨rfl, h₄⟩
  have hstep₄ := h₄.backStep h₃.quiet h₃.owns
  rw [Returns, runs_expr]
  refine (hrel.rebuilt (((h₂.trans h₃).trans hstep₄).trans
    (BackStep.of_broken hstep₄.quiet hstep₄.owns _)).toStep).mono rfl ?_ ?_
  · intro ht
    exact ⟨ht, ⟨⟨trivial, trivial⟩, trivial⟩, trivial⟩
  · rintro ⟨hw, hself⟩
    refine ⟨⟨⟨trivial, hw, hself⟩, Or.inr (Or.inr fun j _ => ?_)⟩, ?_⟩
    · exact ⟨readable_of_not_wrapped (not_wrapped_of_based hf₃) j, readable_of_not_wrapped hw j⟩
    · rw [hself.beq_self]
      rfl

/-! ## Resizing -/

omit [BEq T] in
/-- `while (size() > n) pop_back();` -/
theorem popLoop_returns (hq : Quiet s) (ho : Owns s.heap s.self l) (n : ℕ) :
    Returns (whileLoop (do return (← self).size > n) popBack s.self.size) s fun _ s' =>
      ∃ l', l'.items = l.items.take n ∧ l'.capacity = l.capacity ∧ BackStep s s' l' True True := by
  -- what is popped is behind the first `n` items, which stay
  have hloop : Returns (whileLoop (do return (← self).size > n) popBack s.self.size) s fun _ s' =>
      (∃ l', l'.items.take n = l.items.take n ∧ l'.capacity = l.capacity ∧
        BackStep s s' l' True True) ∧ ¬ s'.self.size > n := by
    refine returns_whileLoop (fun s' => ∃ l', l'.items.take n = l.items.take n ∧
      l'.capacity = l.capacity ∧ BackStep s s' l' True True) (fun s' => s'.self.size > n)
      (fun s' => s'.self.size) (fun s' _ => ?_) ?_ s.self.size s
      ⟨l, rfl, rfl, BackStep.refl hq ho⟩ (Nat.le_refl _)
    · exact ⟨rfl, decide_eq_true_iff⟩
    rintro s₁ ⟨l₁, htake, hcap, h₁⟩ hsize
    have hlen : n < l₁.items.length := by rw [← h₁.owns.size]; exact hsize
    have hne : l₁.items ≠ [] := List.length_pos_iff.mp (Nat.zero_lt_of_lt hlen)
    refine (popBack_returns h₁.quiet h₁.owns hne).mono fun _ s₂ h₂ =>
      ⟨⟨l₁.popBack, ?_, hcap, ?_⟩, ?_⟩
    · show l₁.items.dropLast.take n = l.items.take n
      rw [← htake, List.dropLast_eq_take, List.take_take, Nat.min_eq_left (by omega)]
    · exact (h₁.trans h₂).mono rfl (fun _ => ⟨trivial, trivial⟩) fun _ => ⟨trivial, trivial⟩
    · show s₂.self.size < s₁.self.size
      rw [h₂.owns.size, h₁.owns.size]
      show l₁.items.dropLast.length < l₁.items.length
      rw [List.length_dropLast]
      omega
  refine hloop.mono ?_
  rintro _ s' ⟨⟨l', htake, hcap, h⟩, hsize⟩
  rw [h.owns.size] at hsize
  rw [List.take_of_length_le (Nat.le_of_not_lt hsize)] at htake
  exact ⟨l', htake, hcap, h⟩

/-- `while (size() < n) push_back(val);` with room for `n`. -/
theorem pushLoop_returns (hq : Quiet s) (ho : Owns s.heap s.self l) {n : ℕ} (v : T)
    (hle : l.items.length ≤ n) (hcap : n ≤ l.capacity) :
    Returns (whileLoop (do return (← self).size < n) (pushBack v) n) s fun _ s' =>
      ∃ l', l'.items = l.items ++ List.replicate (n - l.items.length) v ∧
        l'.capacity = l.capacity ∧ BackStep s s' l' True ((v == v) = true) := by
  -- the items with the padding still to come do not change
  have hloop : Returns (whileLoop (do return (← self).size < n) (pushBack v) n) s fun _ s' =>
      (∃ l', l'.items.length ≤ n ∧
        l'.items ++ List.replicate (n - l'.items.length) v =
          l.items ++ List.replicate (n - l.items.length) v ∧ l'.capacity = l.capacity ∧
        BackStep s s' l' True ((v == v) = true)) ∧ ¬ s'.self.size < n := by
    refine returns_whileLoop (fun s' => ∃ l', l'.items.length ≤ n ∧
      l'.items ++ List.replicate (n - l'.items.length) v =
        l.items ++ List.replicate (n - l.items.length) v ∧ l'.capacity = l.capacity ∧
      BackStep s s' l' True ((v == v) = true)) (fun s' => s'.self.size < n)
      (fun s' => n - s'.self.size) (fun s' _ => ?_) ?_ n s
      ⟨l, hle, rfl, rfl, (BackStep.refl hq ho).mono rfl id fun _ => trivial⟩ (Nat.sub_le _ _)
    · exact ⟨rfl, decide_eq_true_iff⟩
    rintro s₁ ⟨l₁, hlen, hitems, hcap', h₁⟩ hsize
    have hlt : l₁.items.length < n := by rw [← h₁.owns.size]; exact hsize
    have hroom : ¬ l₁.Full := by
      unfold BoundedList.Full
      omega
    refine (pushBack_returns h₁.quiet h₁.owns hroom v).mono fun _ s₂ h₂ => ?_
    have hlen₂ : (l₁.pushBack v hroom).items.length = l₁.items.length + 1 := by
      show (l₁.items ++ [v]).length = _
      simp
    refine ⟨⟨l₁.pushBack v hroom, by omega, ?_, hcap', ?_⟩, ?_⟩
    · rw [hlen₂, ← hitems]
      have hsub : n - l₁.items.length = n - (l₁.items.length + 1) + 1 := by omega
      rw [hsub, List.replicate_succ]
      show l₁.items ++ [v] ++ _ = _
      rw [List.append_assoc]
      rfl
    · exact (h₁.trans h₂).mono rfl (fun _ => ⟨trivial, trivial⟩) fun hv => ⟨hv, hv⟩
    · show n - s₂.self.size < n - s₁.self.size
      rw [h₂.owns.size, h₁.owns.size, hlen₂]
      omega
  refine hloop.mono ?_
  rintro _ s' ⟨⟨l', hlen, hitems, hcap', h⟩, hsize⟩
  rw [h.owns.size] at hsize
  have hzero : n - l'.items.length = 0 := by omega
  rw [hzero, List.replicate_zero, List.append_nil] at hitems
  exact ⟨l', hitems, hcap', h⟩

/-- The second half of `resize`, and what follows it. -/
theorem padLoop_returns (depth : ℕ) (hq : Quiet s) (ho : Owns s.heap s.self l) {n : ℕ} (v : T)
    (hlt : l.items.length < n) {rest : PUnit → Method T PUnit} {Q : PUnit → Store T → Prop}
    (hrest : ∀ s', BackStep s s' (l.resize n v) (n ≤ l.capacity ∨ ¬ Leaky l)
      ((n ≤ l.capacity ∨ ¬ Wrapped s.self ∧ SelfEqual l.items) ∧ (v == v) = true) →
        Returns (rest ⟨⟩) s' Q) :
    Returns (do
      reserve (depth + 1) n
      pushBack v
      let r ← whileLoop (do return (← self).size < n) (pushBack v) n
      rest r) s Q := by
  refine Returns.bind (reserve_returns depth s l n hq ho) fun _ s₁ h₁ => ?_
  have hroom : ¬ (l.reserve n).Full := by
    show ¬ l.items.length = max l.capacity n
    omega
  refine Returns.bind (pushBack_returns h₁.quiet h₁.owns hroom v) fun _ s₂ h₂ => ?_
  have hlen : ((l.reserve n).pushBack v hroom).items.length = l.items.length + 1 := by
    show (l.items ++ [v]).length = _
    simp
  refine Returns.bind (pushLoop_returns h₂.quiet h₂.owns v (by omega) (Nat.le_max_right _ _)) ?_
  rintro _ s₃ ⟨l', hitems, hcap, h₃⟩
  have hlist : l' = l.resize n v := by
    ext1
    · rw [hitems, hlen]
      have hsub : n - l.items.length = n - (l.items.length + 1) + 1 := by omega
      show l.items ++ [v] ++ _ = l.items.take n ++ List.replicate (n - l.items.length) v
      rw [List.take_of_length_le (Nat.le_of_lt hlt), hsub, List.replicate_succ,
        List.append_assoc]
      rfl
    · exact hcap
  refine hrest s₃ (((h₁.trans h₂).trans h₃).mono hlist (fun ht => ⟨⟨ht, trivial⟩, trivial⟩) ?_)
  rintro ⟨hk, hv⟩
  exact ⟨⟨hk, hv⟩, hv⟩

theorem resize_returns (depth : ℕ) (hq : Quiet s) (ho : Owns s.heap s.self l) (n : ℕ) (v : T) :
    Returns (resize (depth + 1) n v) s fun _ s' =>
      Step s s' (l.resize n v) (n ≤ l.capacity ∨ ¬ Leaky l)
        ((n ≤ l.capacity ∨ ¬ Wrapped s.self ∧ SelfEqual l.items) ∧
          (l.items.length < n → (v == v) = true)) := by
  -- both branches end in the same contract expressions
  have hpost : ∀ s' : Store T, Owns s'.heap s'.self (l.resize n v) →
      s'.self.array.isSome = true ∧ (s'.self.size == n) = true ∧
        decide (s'.self.capacity ≥ n) = true := by
    intro s' ho'
    refine ⟨ho'.array_isSome, ?_, ?_⟩
    · rw [ho'.size, beq_iff_eq]
      show (l.items.take n ++ List.replicate (n - l.items.length) v).length = n
      rw [List.length_append, List.length_take, List.length_replicate]
      omega
    · rw [ho'.capacity]
      exact decide_eq_true (Nat.le_max_right _ _)
  unfold resize
  rw [Returns, runs_bind, runs_self]
  by_cases hlt : l.items.length < n
  · have hdone : Returns (do return decide ((← self).size > n)) s fun b s' =>
        b = false ∧ s' = s := by
      refine ⟨decide_eq_false ?_, rfl⟩
      rw [ho.size]
      omega
    refine Returns.bind (returns_whileLoop_done hdone s.self.size) ?_
    rintro _ _ rfl
    rw [Returns, runs_bind, runs_self, if_pos (by rw [ho.size]; exact hlt)]
    refine padLoop_returns depth hq ho v hlt fun s₂ h₂ => ?_
    obtain ⟨harr, hsize, hle⟩ := hpost s₂ h₂.owns
    rw [Returns, runs_bind, runs_self, runs_bind, runs_expr_true harr, runs_bind,
      runs_expr_true hsize, runs_expr_true hle]
    exact h₂.toStep.mono rfl id fun hk => ⟨hk.1, hk.2 hlt⟩
  · refine Returns.bind (popLoop_returns hq ho n) ?_
    rintro _ s₁ ⟨l₁, hitems, hcap, h₁⟩
    have hlist : l₁ = l.resize n v := by
      ext1
      · have hzero : n - l.items.length = 0 := by omega
        show l₁.items = l.items.take n ++ List.replicate (n - l.items.length) v
        rw [hitems, hzero, List.replicate_zero, List.append_nil]
      · have hfits := l.fits
        show l₁.capacity = max l.capacity n
        omega
    rw [hlist] at h₁
    obtain ⟨harr, hsize, hle⟩ := hpost s₁ h₁.owns
    rw [Returns, runs_bind, runs_self,
      if_neg (by rw [beq_iff_eq.mp hsize]; exact Nat.lt_irrefl n)]
    simp only [runs_bind, runs_self]
    rw [runs_expr_true harr, runs_expr_true hsize, runs_expr_true hle]
    exact h₁.toStep.mono rfl (fun _ => trivial) fun _ => trivial

theorem shrinkToFit_returns (depth : ℕ) (hq : Quiet s) (ho : Owns s.heap s.self l) :
    Returns (shrinkToFit (depth + 1)) s fun _ s' =>
      Step s s' l.shrinkToFit True (l.Full ∨ l.items ≠ [] ∧ SelfEqual l.items) := by
  unfold shrinkToFit
  rw [Returns, runs_bind, runs_self, ho.capacity, ho.size]
  by_cases hfull : l.Full
  · rw [if_neg (by rw [show l.items.length = l.capacity from hfull]; exact Nat.lt_irrefl _)]
    have hlist : l = l.shrinkToFit := by
      ext1
      · rfl
      · exact hfull.symm
    have hsize : s.self.capacity = s.self.size := by
      rw [ho.capacity, ho.size]
      exact hfull.symm
    simp only [runs_bind, runs_self]
    rw [runs_expr_true (beq_iff_eq.mpr hsize)]
    exact (Step.refl hq ho).mono hlist id fun _ => trivial
  · -- a copy of just the size, swapped with `*this`
    rw [if_pos (BoundedList.lt_of_not_full hfull), runs_bind, runs_onObject]
    have hq₀ : Quiet { s with self := {} } := ⟨hq.throwAt, hq.fresh⟩
    refine Returns.mono (constructCopy_returns depth hq₀ rfl ho l.items.length) fun _ s₁ h₁ => ?_
    have hlist : l.copy l.items.length = l.shrinkToFit := by
      ext1
      · rfl
      · exact Nat.max_self _
    rw [hlist] at h₁
    simp only [swap, runs_bind, runs_self, runs_modifySelf, runs_pure, runs_discard]
    refine Returns.mono (release_returns hq ho h₁.toStep) ?_
    rintro _ s₂ ⟨h₂, -⟩
    have hsize : s₂.self.capacity = s₂.self.size := h₂.owns.capacity.trans h₂.owns.size.symm
    rw [runs_expr_true (beq_iff_eq.mpr hsize)]
    refine h₂.mono rfl (fun _ hleaky => hfull hleaky.1) fun hk => ?_
    obtain ⟨hne, hself⟩ := hk.resolve_left hfull
    refine ⟨fun hw => ?_, hself, ?_⟩
    · apply hfull
      rw [BoundedList.Full, ← ho.size, ← ho.capacity]
      exact hw.1
    · exact Nat.lt_of_lt_of_le (List.length_pos_iff.mpr hne) (Nat.le_max_left _ _)

end CircularArray
end KssUtil.Containers

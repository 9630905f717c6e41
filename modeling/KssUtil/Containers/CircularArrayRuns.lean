import KssUtil.Containers.CircularArrayRefinement

/-!
# Runs of calls on circular arrays

Whatever legal calls are made, in whatever order, the arrays are the bounded
lists they stand for.
-/

namespace KssUtil.Containers

open KssUtil.Foundation CircularArray

variable {T : Type} [BEq T] [LT T] [DecidableLT T]

/-! ## From a call to a run -/

/-- **The rule for runs.**  An invariant of the world and the slots, kept by
each call that meets `p`, holds after a run of such calls. -/
theorem World.every_run {depth : ℕ} {p : World T → Slots T → Call T → Bool}
    (I : World T → Slots T → Prop)
    (hstep : ∀ w σ c, I w σ → p w σ c = true → I (w.step depth c).2 (σ.step c).2)
    (cs : List (Call T)) : ∀ w σ, World.every depth p w σ cs = true → I w σ →
      I (w.run depth cs).2 (σ.run cs).2 := by
  induction cs with
  | nil => intro w σ _ h; exact h
  | cons c cs ih =>
      intro w σ hp h
      rw [World.every, Bool.and_eq_true] at hp
      exact ih _ _ hp.2 (hstep w σ c h hp.1)

omit [BEq T] [LT T] [DecidableLT T] in
theorem represents_start : Represents ({} : World T) Slots.start where
  throwAt := rfl
  fresh := fun _ _ => rfl
  slots := fun _ => trivial
  apart := by
    intro x y a b c _ hx
    exact absurd hx.symm (Option.some_ne_none a)

/-- The call is legal, and no array is moved from or onto. -/
def Slots.legalCopy (σ : Slots T) (c : Call T) : Bool := σ.legal c && !c.moves

omit [BEq T] [LT T] [DecidableLT T] in
theorem Slots.legalCopy_iff {σ : Slots T} {c : Call T} :
    σ.legalCopy c = true ↔ σ.legal c = true ∧ c.moves = false := by
  rw [Slots.legalCopy, Bool.and_eq_true, Bool.not_eq_true']

theorem step_refines_copy (depth : ℕ) {w : World T} {σ : Slots T} (hrep : Represents w σ)
    {c : Call T} (hc : σ.legalCopy c = true) :
    Refines w (σ.clean c = true) (w.keeps σ c = true) (w.step (depth + 1) c) (σ.step c) := by
  obtain ⟨hlegal, hmoves⟩ := Slots.legalCopy_iff.mp hc
  refine step_refines depth hrep hlegal fun x y h => ?_
  rw [h] at hmoves
  exact absurd hmoves.symm Bool.false_ne_true

/-- The outcomes of a run are those of the bounded lists. -/
theorem run_outcomes (depth : ℕ) (cs : List (Call T)) : ∀ (w : World T) (σ : Slots T),
    World.every (depth + 1) (fun _ σ c => σ.legalCopy c) w σ cs = true → Represents w σ →
      (w.run (depth + 1) cs).1 = (σ.run cs).1 := by
  induction cs with
  | nil => intro w σ _ _; rfl
  | cons c cs ih =>
      intro w σ hp hrep
      rw [World.every, Bool.and_eq_true] at hp
      have h := step_refines_copy depth hrep hp.1
      rw [World.run, Slots.run, h.outcome, ih _ _ hp.2 h.represents]

/-! ## Runs without moves -/

/-- No name stands for an array that was moved from. -/
def Slots.Settled (σ : Slots T) : Prop := ∀ x, σ x ≠ .movedFrom

omit [BEq T] [LT T] [DecidableLT T] in
theorem Slots.Settled.update {σ : Slots T} (h : σ.Settled) (x : ℕ) {sl : Slot T}
    (hsl : sl ≠ .movedFrom) : Slots.Settled (Function.update σ x sl) := by
  intro y
  by_cases hyx : y = x
  · rw [hyx, Function.update_self]
    exact hsl
  · rw [Function.update_of_ne hyx]
    exact h y

omit [BEq T] [LT T] [DecidableLT T] in
theorem Slots.Settled.on {σ : Slots T} (h : σ.Settled) (x : ℕ)
    (f : BoundedList T → Except Exn (Result T) × BoundedList T) :
    Slots.Settled (σ.on x f).2 := by
  unfold Slots.on
  split
  · exact h.update x (by simp)
  · exact h

omit [BEq T] [LT T] [DecidableLT T] in
theorem Slots.Settled.look {σ : Slots T} (h : σ.Settled) (x : ℕ)
    (f : BoundedList T → Except Exn (Result T)) : Slots.Settled (σ.look x f).2 := by
  unfold Slots.look
  split <;> exact h

theorem Slots.Settled.step {σ : Slots T} (h : σ.Settled) {c : Call T} (hc : c.moves = false) :
    Slots.Settled (σ.step c).2 := by
  cases c with
  | constructMove x y => exact absurd hc.symm Bool.false_ne_true
  | assignMove x y => exact absurd hc.symm Bool.false_ne_true
  | construct x cap => exact h.update x (by simp)
  | constructFill x n v cap => exact h.update x (by simp)
  | constructRange x vs cap => exact h.update x (by simp)
  | constructList x il cap => exact h.update x (by simp)
  | destruct x => exact h.update x (by simp)
  | constructCopy x y cap =>
      simp only [Slots.step]
      split
      · exact h.update x (by simp)
      · exact h
  | assignCopy x y =>
      simp only [Slots.step]
      split
      · exact h.on x _
      · exact h
  | swap x y =>
      simp only [Slots.step]
      split
      · exact (h.update x (by simp)).update y (by simp)
      · exact h
  | compare op x y =>
      simp only [Slots.step]
      split
      · exact h.look x _
      · exact h
  | assignRange x vs => exact h.on x _
  | assignFill x n v => exact h.on x _
  | assignList x il => exact h.on x _
  | resize x n v => exact h.on x _
  | reserve x n => exact h.on x _
  | shrinkToFit x => exact h.on x _
  | pushBack x v => exact h.on x _
  | pushBackMove x v => exact h.on x _
  | popBack x => exact h.on x _
  | pushFront x v => exact h.on x _
  | pushFrontMove x v => exact h.on x _
  | popFront x => exact h.on x _
  | clear x => exact h.on x _
  | index x n => exact h.look x _
  | «at» x n => exact h.look x _
  | front x => exact h.look x _
  | back x => exact h.look x _

/-! ## What a reachable array looks like -/

/-- The four counters are in step, and the entries are the items of `l`. -/
structure CircularArray.Holds (h : Heap T) (a : CircularArray) (l : BoundedList T) : Prop where
  size_le : a.size ≤ a.capacity
  first_lt : 0 < a.capacity → a.first < a.capacity
  last_lt : 0 < a.capacity → a.last < a.capacity
  last_eq : 0 < a.capacity → a.last = (a.first + a.size) % a.capacity
  capacity : a.capacity = l.capacity
  entries : a.entries h = l.items.map some

omit [BEq T] [LT T] [DecidableLT T] in
theorem CircularArray.Owns.holds {h : Heap T} {a : CircularArray} {l : BoundedList T}
    (ho : Owns h a l) : a.Holds h l := by
  refine ⟨ho.size_le, ho.first_lt, fun hc => ?_, ho.last_eq, ho.capacity, ho.shows.entries⟩
  rw [ho.last_eq hc]
  exact Nat.mod_lt _ hc

/-- A call that adds to or takes from one end of the array `x`, or empties it. -/
inductive EndCall (x : ℕ) : Call T → Prop where
  | pushBack (v : T) : EndCall x (.pushBack x v)
  | pushBackMove (v : T) : EndCall x (.pushBackMove x v)
  | pushFront (v : T) : EndCall x (.pushFront x v)
  | pushFrontMove (v : T) : EndCall x (.pushFrontMove x v)
  | popBack : EndCall x (.popBack x)
  | popFront : EndCall x (.popFront x)
  | clear : EndCall x (.clear x)

/-- The accessors and the ends of the array `x` in the world `w`. -/
structure Responds (depth : ℕ) (w : World T) (σ : Slots T) (x : ℕ) (a : CircularArray)
    (l : BoundedList T) : Prop where
  index : ∀ i v, l.items[i]? = some v → (w.step depth (.index x i)).1 = .ok (.element v)
  at_lt : ∀ i v, l.items[i]? = some v → (w.step depth (.at x i)).1 = .ok (.element v)
  at_ge : ∀ i, l.items[i]? = none → (w.step depth (.at x i)).1 = .error .outOfRange
  front : ∀ v, l.items.head? = some v → (w.step depth (.front x)).1 = .ok (.element v)
  back : ∀ v, l.items.getLast? = some v → (w.step depth (.back x)).1 = .ok (.element v)
  push_full : a.size = a.capacity → ∀ v,
    w.step depth (.pushBack x v) = (.error .lengthError, w) ∧
    w.step depth (.pushBackMove x v) = (.error .lengthError, w) ∧
    w.step depth (.pushFront x v) = (.error .lengthError, w) ∧
    w.step depth (.pushFrontMove x v) = (.error .lengthError, w)
  capacity : ∀ c, EndCall x c → σ.legal c = true →
    ∃ a', (w.step depth c).2.arrays x = some a' ∧ a'.capacity = a.capacity

theorem capacity_after_endCall {depth : ℕ} {w : World T} {σ : Slots T} {x : ℕ}
    {a : CircularArray} {l : BoundedList T} (hrep : Represents w σ) (hl : σ x = .holds l)
    (ho : Owns w.heap a l) {c : Call T} (hc : EndCall x c) (hlegal : σ.legal c = true) :
    ∃ a', (w.step (depth + 1) c).2.arrays x = some a' ∧ a'.capacity = a.capacity := by
  -- none of these calls changes the capacity of the list
  have hslot : ∃ l', (σ.step c).2 x = .holds l' ∧ l'.capacity = l.capacity := by
    have hon : ∀ f : BoundedList T → Except Exn (Result T) × BoundedList T,
        (f l).2.capacity = l.capacity →
        ∃ l', (σ.on x f).2 x = .holds l' ∧ l'.capacity = l.capacity := by
      intro f hf
      rw [Slots.on_holds hl]
      exact ⟨_, Function.update_self _ _ _, hf⟩
    have hback : ∀ v, (Slots.pushBack v l).2.capacity = l.capacity := by
      intro v
      unfold Slots.pushBack
      split <;> rfl
    have hfront : ∀ v, (Slots.pushFront v l).2.capacity = l.capacity := by
      intro v
      unfold Slots.pushFront
      split <;> rfl
    cases hc with
    | pushBack v => exact hon _ (hback v)
    | pushBackMove v => exact hon _ (hback v)
    | pushFront v => exact hon _ (hfront v)
    | pushFrontMove v => exact hon _ (hfront v)
    | popBack => exact hon _ rfl
    | popFront => exact hon _ rfl
    | clear => exact hon _ rfl
  obtain ⟨l', hl', hcap⟩ := hslot
  have hmove : ∀ y z, c ≠ .assignMove y z := by
    rintro y z rfl
    cases hc
  obtain ⟨a', ha', ho'⟩ := (step_refines depth hrep hlegal hmove).represents.array hl'
  exact ⟨a', ha', ho'.capacity.trans (hcap.trans ho.capacity.symm)⟩

theorem Represents.responds (depth : ℕ) {w : World T} {σ : Slots T} {x : ℕ} {a : CircularArray}
    {l : BoundedList T} (hrep : Represents w σ) (hl : σ x = .holds l)
    (ha : w.arrays x = some a) : Responds (depth + 1) w σ x a l := by
  obtain ⟨a', ha', ho⟩ := hrep.array hl
  obtain rfl : a = a' := Option.some.inj (ha.symm.trans ha')
  have hlook : ∀ (c : Call T) (f : BoundedList T → Except Exn (Result T)),
      σ.step c = σ.look x f → σ.legal c = true → (∀ y z, c ≠ .assignMove y z) →
      (w.step (depth + 1) c).1 = f l := by
    intro c f hstep hlegal hmove
    rw [(step_refines depth hrep hlegal hmove).outcome, hstep, Slots.look_holds hl]
  have hlive : σ.isLive x = true := Slots.has_holds hl _
  have hnonempty : l.items ≠ [] → σ.has x (fun l => !l.items.isEmpty) = true := by
    intro h
    rw [Slots.has_holds hl, Bool.not_eq_true', List.isEmpty_eq_false_iff]
    exact h
  refine ⟨?_, ?_, ?_, ?_, ?_, ?_, ?_⟩
  · intro i v hv
    have hlegal : σ.legal (.index x i) = true := by
      rw [Slots.legal, Slots.has_holds hl]
      exact decide_eq_true (List.getElem?_eq_some_iff.mp hv).1
    rw [hlook (.index x i) _ rfl hlegal (by simp), hv]
    rfl
  · intro i v hv
    rw [hlook (.at x i) _ rfl hlive (by simp), hv]
    rfl
  · intro i hi
    rw [hlook (.at x i) _ rfl hlive (by simp), hi]
    rfl
  · intro v hv
    have hne : l.items ≠ [] := fun h => by rw [h] at hv; exact absurd hv (by simp)
    rw [hlook (.front x) _ rfl (hnonempty hne) (by simp), hv]
    rfl
  · intro v hv
    have hne : l.items ≠ [] := fun h => by rw [h] at hv; exact absurd hv (by simp)
    rw [hlook (.back x) _ rfl (hnonempty hne) (by simp), hv]
    rfl
  · intro hsize v
    have hfull : l.Full := by rw [BoundedList.Full, ← ho.size, ← ho.capacity, hsize]
    have hrefused : ∀ m : Method T PUnit,
        m (w.store a) = .error .lengthError (w.store a) →
        w.call x (fun _ => World.void m) = (.error .lengthError, w) := fun m hm =>
      (Refines.refused (t := True) (k := True) hrep ha (void_error hm)).1
    refine ⟨hrefused _ ?_, hrefused _ ?_, hrefused _ ?_, hrefused _ ?_⟩
    · exact pushBack_full (hrep.quiet a) ho hfull v
    · exact checkRoomForOneMore_full (s := w.store a) ho hfull
    · exact pushFront_full (hrep.quiet a) ho hfull v
    · exact checkRoomForOneMore_full (s := w.store a) ho hfull
  · intro c hc hlegal
    exact capacity_after_endCall hrep hl ho hc hlegal

/-- **Circular arrays refine bounded lists.**  A run of legal calls without
moves returns and throws what the bounded lists do, and every array it reaches
holds its list and responds as the list does. -/
theorem run_refines_bounded_lists (depth : ℕ) (cs : List (Call T))
    (hlegal : World.every (depth + 1) (fun _ σ c => σ.legalCopy c) {} Slots.start cs = true) :
    (World.run (depth + 1) {} cs).1 = (Slots.start.run cs).1 ∧
    (∀ x, (World.run (depth + 1) {} cs).2.arrays x = none ↔ (Slots.start.run cs).2 x = .free) ∧
    ∀ x a, (World.run (depth + 1) {} cs).2.arrays x = some a →
      ∃ l, (Slots.start.run cs).2 x = .holds l ∧
        a.Holds (World.run (depth + 1) {} cs).2.heap l ∧
        Responds (depth + 1) (World.run (depth + 1) {} cs).2 (Slots.start.run cs).2 x a l := by
  -- along the run: the arrays are the lists, and none has been moved from
  have hrun : Represents (World.run (depth + 1) {} cs).2 (Slots.start.run cs).2 ∧
      (Slots.start.run cs).2.Settled := by
    refine World.every_run (fun w σ => Represents w σ ∧ σ.Settled) ?_ cs {} Slots.start hlegal
      ⟨represents_start, fun x => by simp [Slots.start]⟩
    rintro w σ c ⟨hrep, hsettled⟩ hc
    exact ⟨(step_refines_copy depth hrep hc).represents,
      hsettled.step (Slots.legalCopy_iff.mp hc).2⟩
  obtain ⟨hrep, hsettled⟩ := hrun
  have hslot : ∀ x, HoldsSlot (World.run (depth + 1) {} cs).2.heap
      ((World.run (depth + 1) {} cs).2.arrays x) ((Slots.start.run cs).2 x) := hrep.slots
  refine ⟨run_outcomes depth cs {} Slots.start hlegal represents_start, fun x => ?_, ?_⟩
  · refine ⟨fun hx => ?_, hrep.arrays_eq_none⟩
    have h := hslot x
    rw [hx] at h
    cases hσ : (Slots.start.run cs).2 x with
    | free => rfl
    | movedFrom => rw [hσ] at h; exact h.elim
    | holds l => rw [hσ] at h; exact h.elim
  · intro x a ha
    have h := hslot x
    rw [ha] at h
    cases hσ : (Slots.start.run cs).2 x with
    | free => rw [hσ] at h; exact h.elim
    | movedFrom => exact absurd hσ (hsettled x)
    | holds l =>
        rw [hσ] at h
        exact ⟨l, rfl, h.holds, hrep.responds depth hσ ha⟩

/-- A full array that wraps: `1` is behind the end of the block, and there is no
room for `5`. -/
theorem run_refines_bounded_lists_wrapped :
    (World.run 1 ({} : World ℕ) [.constructFill 0 2 7 2, .popFront 0, .pushBack 0 1,
      .pushBack 0 5, .at 0 1, .at 0 2]).1 =
    [.ok .none, .ok .none, .ok .none, .error .lengthError, .ok (.element 1),
      .error .outOfRange] :=
  (run_refines_bounded_lists 0 _ (by decide)).1.trans rfl

end KssUtil.Containers

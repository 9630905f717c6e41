import KssUtil.Containers.CircularArrayThrows
import KssUtil.Containers.CircularArrayRuns

/-!
# Runs of calls on circular arrays in which calls throw

Each call of a run comes with the throw point at which it fails, if it fails.
An exception goes to the caller, who makes the next call on the arrays as the
throw left them.
-/

namespace KssUtil.Containers

open KssUtil.Foundation CircularArray

variable {T : Type}

/-! ## Runs with failures -/

namespace World

/-- Let the throw point number `k` of the next call throw. -/
def armed (w : World T) (k : Option ℕ) : World T := { w with throwAt := k }

section

variable [BEq T] [LT T] [DecidableLT T]

/-- One call, with its throw point; none is left for the next call. -/
def stepThrowing (depth : ℕ) (w : World T) (k : Option ℕ) (c : Call T) :
    Except Exn (Result T) × World T :=
  let o := (w.armed k).step depth c
  (o.1, o.2.armed none)

def runThrowing (depth : ℕ) (w : World T) : List (Option ℕ × Call T) → World T
  | [] => w
  | (k, c) :: cs => runThrowing depth (w.stepThrowing depth k c).2 cs

/-- Every call of a run meets `p`, in the state it is made in. -/
def everyThrowing (depth : ℕ) (p : World T → Option ℕ → Call T → Bool) (w : World T) :
    List (Option ℕ × Call T) → Bool
  | [] => true
  | (k, c) :: cs => p w k c && everyThrowing depth p (w.stepThrowing depth k c).2 cs

end

/-- `x` is an array with storage, and `p` of its members. -/
def live (w : World T) (x : ℕ) (p : CircularArray → Bool) : Bool :=
  match w.arrays x with
  | some a => a.array.isSome && p a
  | none => false

/-- The call is on arrays that were constructed and neither destroyed nor moved
from, and it meets the preconditions of the method. -/
def legal (w : World T) : Call T → Bool
  | .construct x _ | .constructFill x _ _ _ | .constructRange x _ _ | .constructList x _ _ =>
      (w.arrays x).isNone
  | .constructCopy x y _ | .constructMove x y => (w.arrays x).isNone && w.live y fun _ => true
  | .assignCopy x y | .assignMove x y | .swap x y | .compare _ x y =>
      (w.live x fun _ => true) && w.live y fun _ => true
  | .index x n => w.live x fun a => n < a.size
  | .front x | .back x | .popBack x | .popFront x => w.live x fun a => 0 < a.size
  | .destruct x | .assignRange x _ | .assignFill x _ _ | .assignList x _ | .resize x _ _
  | .reserve x _ | .shrinkToFit x | .at x _ | .pushBack x _ | .pushBackMove x _
  | .pushFront x _ | .pushFrontMove x _ | .clear x => w.live x fun _ => true

/-- No full array is cleared or assigned to in its block, no array is moved to
another one, `push_front` does not throw in the cell it constructs in, and copy
assignment does not throw in its allocation. -/
def withstands (w : World T) (k : Option ℕ) : Call T → Bool
  | .clear x | .assignRange x _ | .assignFill x _ _ | .assignList x _ =>
      w.live x fun a => a.size < a.capacity ∨ a.capacity = 0
  | .assignMove x y => x == y
  | .assignCopy x y => x == y || k ≠ some 0
  | .pushFront x _ => w.live x fun a => a.size = a.capacity ∨ k ≠ some 1
  | .pushFrontMove x _ => w.live x fun a => a.size = a.capacity ∨ k ≠ some 0
  | _ => true

end World

/-- The array that the call constructs elements or allocates storage for, where the
array was there before. -/
def Call.fills : Call T → Option ℕ
  | .assignCopy x _ | .assignRange x _ | .assignFill x _ _ | .assignList x _ | .resize x _ _
  | .reserve x _ | .shrinkToFit x | .pushBack x _ | .pushBackMove x _ | .pushFront x _
  | .pushFrontMove x _ => some x
  | _ => none

/-- The calls that have an effect only if they return. -/
def Call.rollsBack : Call T → Bool
  | .reserve _ _ | .shrinkToFit _ | .pushBack _ _ | .pushBackMove _ _ | .pushFront _ _
  | .pushFrontMove _ _ => true
  | _ => false

/-! ## The invariant -/

/-- The world holds some slots, and there are no objects outside logical ranges. -/
def World.Sound (w : World T) : Prop :=
  ∃ σ : Slots T, Represents w σ ∧ ∀ x a, w.arrays x = some a → Bare w.heap a

/-- How a call that fills an array may throw. -/
def CircularArray.Fails (c : Call T) (s : Store T) (l : BoundedList T) (e : Exn)
    (s' : Store T) : Prop :=
  Basic s e s' ∧ (c.rollsBack = true → Strong s l e s')

/-- A call that was not undefined, and the invariant after it. -/
def Endures (o : Except Exn (Result T) × World T) : Prop :=
  o.1 ≠ .error .undefined ∧ (o.2.armed none).Sound

section

variable {w : World T} {σ : Slots T} {x : ℕ} {a : CircularArray} {k : Option ℕ} {s' : Store T}
  {l l' : BoundedList T}

theorem World.exists_of_live {p : CircularArray → Bool} (hrep : Represents w σ)
    (hbare : ∀ x a, w.arrays x = some a → Bare w.heap a) (h : w.live x p = true) :
    ∃ a l, w.arrays x = some a ∧ σ x = .holds l ∧ Exact w.heap a l ∧ p a = true := by
  unfold World.live at h
  cases ha : w.arrays x with
  | none =>
      rw [ha] at h
      cases h
  | some a =>
      rw [ha, Bool.and_eq_true] at h
      have hx := hrep.slots x
      rw [ha] at hx
      cases hσ : σ x with
      | free =>
          rw [hσ] at hx
          exact hx.elim
      | movedFrom =>
          rw [hσ] at hx
          obtain rfl : a = {} := hx
          cases h.1
      | holds l =>
          rw [hσ] at hx
          exact ⟨a, l, rfl, rfl, ⟨hx, hbare x a ha⟩, h.2⟩

/-- A later state is a step, once nothing is left to throw. -/
theorem CircularArray.Later.step (h : Later ((w.armed k).store a) s' l) :
    Step (w.store a) { s' with throwAt := none } l False False where
  quiet := ⟨rfl, h.fresh⟩
  owns := h.holds.toOwns
  next := h.next
  array := h.array
  frame := h.frame
  tidy := False.elim
  broken := False.elim

theorem CircularArray.Strong.fails {s : Store T} {c : Call T} {e : Exn} (h : Strong s l e s') :
    Fails c s l e s' :=
  ⟨h.basic, fun _ => h⟩

theorem CircularArray.Basic.fails {s : Store T} {c : Call T} {e : Exn} (h : Basic s e s')
    (hc : c.rollsBack = false) : Fails c s l e s' :=
  ⟨h, fun hback => absurd (hc.symm.trans hback) Bool.false_ne_true⟩

theorem Represents.sound_after (hrep : Represents w σ)
    (hbare : ∀ x a, w.arrays x = some a → Bare w.heap a) (hx : w.arrays x = some a ∨ a = {})
    (h : Later ((w.armed k).store a) s' l) :
    ((w.after x (some s'.self) s').armed none).Sound := by
  have hbare' := hrep.bare_after hbare hx h.step h.holds.bare
  exact ⟨_, hrep.after_step hx h.step, hbare'⟩

theorem Represents.sound_abandoned (hrep : Represents w σ)
    (hbare : ∀ x a, w.arrays x = some a → Bare w.heap a)
    (h : Spares ((w.armed k).store {}) s') :
    ((w.after x (w.arrays x) s').armed none).Sound := by
  have hblocks : ∀ b, b < w.heap.next → s'.heap.blocks b = w.heap.blocks b := fun b hb =>
    h.frame b hb (Option.some_ne_none b).symm
  have harr : ((w.after x (w.arrays x) s').armed none).arrays = w.arrays :=
    Function.update_eq_self x w.arrays
  refine ⟨σ, hrep.frame rfl h.fresh harr hblocks, fun y b hy => ?_⟩
  rw [harr] at hy
  exact (hbare y b hy).frame fun c hc => hblocks c (hrep.below hy hc)

end

/-! ## One call -/

section

variable {w : World T} {σ : Slots T} {x : ℕ} {a : CircularArray} {k : Option ℕ}
  {l : BoundedList T}

theorem World.of_live {p : CircularArray → Bool} (ha : w.arrays x = some a)
    (h : w.live x p = true) : p a = true := by
  simp only [World.live, ha, Bool.and_eq_true] at h
  exact h.2

theorem World.live_intro {p : CircularArray → Bool} (ha : w.arrays x = some a)
    (hsome : a.array.isSome = true) (hp : p a = true) : w.live x p = true := by
  simp only [World.live, ha, hsome, hp, Bool.and_self]

theorem CircularArray.Owns.not_leaky {h : Heap T} (ho : Owns h a l)
    (hroom : a.size < a.capacity ∨ a.capacity = 0) : ¬ Leaky l := by
  rintro ⟨hfull, hpos⟩
  have hfull : l.items.length = l.capacity := hfull
  rw [ho.size, ho.capacity] at hroom
  omega

theorem CircularArray.Owns.items_pos {h : Heap T} (ho : Owns h a l) (hpos : 0 < a.size) :
    0 < l.items.length := by
  rw [← ho.size]
  exact hpos

theorem CircularArray.Owns.full_iff {h : Heap T} (ho : Owns h a l) :
    a.size = a.capacity ↔ l.Full := by
  rw [ho.size, ho.capacity]
  exact Iff.rfl

/-- Whether a method returns or throws, the array is back under its name. -/
theorem World.call_runs {m : CircularArray → Method T (Result T)}
    {Q : Result T → Store T → Prop} {E : Exn → Store T → Prop} (ha : w.arrays x = some a)
    (hm : Runs (m a) (w.store a) Q E) :
    ∃ s', (w.call x m).2 = w.after x (some s'.self) s' ∧
      ((∃ r, (w.call x m).1 = .ok r ∧ Q r s') ∨ ∃ e, (w.call x m).1 = .error e ∧ E e s') := by
  unfold Runs at hm
  simp only [World.call, ha]
  cases hr : m a (w.store a) with
  | ok r s' =>
      rw [hr] at hm
      exact ⟨s', rfl, Or.inl ⟨r, rfl, hm⟩⟩
  | error e s' =>
      rw [hr] at hm
      exact ⟨s', rfl, Or.inr ⟨e, rfl, hm⟩⟩

theorem runs_void {m : Method T PUnit} {s : Store T} {P : Store T → Prop}
    {E : Exn → Store T → Prop} (hm : Runs m s (fun _ s' => P s') E) :
    Runs (World.void m) s (fun _ s' => P s') E :=
  Runs.bind hm fun _ _ h => h

theorem Represents.call_endures (hrep : Represents w σ)
    (hbare : ∀ x a, w.arrays x = some a → Bare w.heap a) (ha : w.arrays x = some a)
    {m : CircularArray → Method T (Result T)}
    (hm : Runs (m a) ((w.armed k).store a) (fun _ s' => ∃ l', Later ((w.armed k).store a) s' l')
      (Basic ((w.armed k).store a))) :
    Endures ((w.armed k).call x m) := by
  obtain ⟨s', hafter, hexit⟩ := World.call_runs (w := w.armed k) ha hm
  unfold Endures
  rw [hafter]
  rcases hexit with ⟨r, hr, l', h⟩ | ⟨e, he, hne, l', h⟩
  · rw [hr]
    exact ⟨by simp, hrep.sound_after hbare (Or.inl ha) h⟩
  · rw [he]
    exact ⟨fun heq => hne (Except.error.inj heq), hrep.sound_after hbare (Or.inl ha) h⟩

/-- A call that evaluates contract expressions at most. -/
theorem Represents.look_endures (hrep : Represents w σ)
    (hbare : ∀ x a, w.arrays x = some a → Bare w.heap a) (ha : w.arrays x = some a)
    (hx : Exact w.heap a l) {m : CircularArray → Method T (Result T)} {p : Prop}
    (hm : Returns (m a) ((w.armed k).store a) fun _ s' => Checked ((w.armed k).store a) s' p) :
    Endures ((w.armed k).call x m) := by
  refine hrep.call_endures hbare ha (hm.runs.mono (fun _ s' hc => ⟨l, ?_⟩) fun _ _ h => h)
  exact (Later.refl (s := (w.armed k).store a) hrep.fresh hx).checked hc

theorem Represents.build_endures (hrep : Represents w σ)
    (hbare : ∀ x a, w.arrays x = some a → Bare w.heap a) {m : Method T PUnit}
    (hm : Runs m ((w.armed k).store {}) (fun _ s' => ∃ l', Later ((w.armed k).store {}) s' l')
      (Abandons ((w.armed k).store {}))) :
    Endures ((w.armed k).build x m) := by
  unfold Runs at hm
  unfold Endures World.build
  cases hr : m ((w.armed k).store {}) with
  | ok _ s' =>
      rw [hr] at hm
      obtain ⟨l', h⟩ := hm
      exact ⟨by simp, hrep.sound_after hbare (Or.inr rfl) h⟩
  | error e s' =>
      rw [hr] at hm
      exact ⟨fun heq => hm.1 (Except.error.inj heq), hrep.sound_abandoned hbare hm.2⟩

variable [BEq T] [LT T] [DecidableLT T]

/-- A method without a result, called on a live array that it fills. -/
theorem fills_of_live {p : CircularArray → Bool} {c : Call T} {depth : ℕ} {m : Method T PUnit}
    (hrep : Represents w σ) (hbare : ∀ x a, w.arrays x = some a → Bare w.heap a)
    (hlive : w.live x p = true)
    (hstep : (w.armed k).step depth c = (w.armed k).call x fun _ => World.void m)
    (hm : ∀ a l, w.arrays x = some a → Exact w.heap a l →
      Runs m ((w.armed k).store a) (fun _ s' => ∃ l', Later ((w.armed k).store a) s' l')
        (Fails c ((w.armed k).store a) l)) :
    ∃ a l m, w.arrays x = some a ∧ Exact w.heap a l ∧
      (w.armed k).step depth c = (w.armed k).call x (fun _ => World.void m) ∧
      Runs m ((w.armed k).store a) (fun _ s' => ∃ l', Later ((w.armed k).store a) s' l')
        (Fails c ((w.armed k).store a) l) := by
  obtain ⟨a, l, ha, -, hx, -⟩ := World.exists_of_live hrep hbare hlive
  exact ⟨a, l, m, ha, hx, hstep, hm a l ha hx⟩

/-- The method behind a call that fills `x`. -/
theorem fills_runs (depth : ℕ) (hrep : Represents w σ)
    (hbare : ∀ x a, w.arrays x = some a → Bare w.heap a) {c : Call T}
    (hlegal : w.legal c = true) (hok : w.withstands k c = true) (hc : c.fills = some x) :
    ∃ a l m, w.arrays x = some a ∧ Exact w.heap a l ∧
      (w.armed k).step (depth + 1) c = (w.armed k).call x (fun _ => World.void m) ∧
      Runs m ((w.armed k).store a) (fun _ s' => ∃ l', Later ((w.armed k).store a) s' l')
        (Fails c ((w.armed k).store a) l) := by
  have hf : w.heap.Fresh := hrep.fresh
  cases c with
  | pushBack x' v =>
      cases hc
      refine fills_of_live hrep hbare hlegal rfl fun a l _ hx => ?_
      refine (pushBack_runs (s := (w.armed k).store a) hf hx v).mono ?_ fun _ _ h => h.fails
      rintro _ s' ⟨hroom, h⟩
      exact ⟨_, h⟩
  | pushBackMove x' v =>
      cases hc
      refine fills_of_live hrep hbare hlegal rfl fun a l _ hx => ?_
      refine (pushBackMove_runs (s := (w.armed k).store a) hf hx v).mono ?_ fun _ _ h => h.fails
      rintro _ s' ⟨hroom, h⟩
      exact ⟨_, h⟩
  | pushFront x' v =>
      cases hc
      refine fills_of_live hrep hbare hlegal rfl fun a l ha hx => ?_
      have hsafe : l.Full ∨ k ≠ some 1 :=
        (of_decide_eq_true (World.of_live ha hok)).imp_left hx.full_iff.mp
      refine (pushFront_runs (s := (w.armed k).store a) hf hx v hsafe).mono ?_
        fun _ _ h => h.fails
      rintro _ s' ⟨hroom, h⟩
      exact ⟨_, h⟩
  | pushFrontMove x' v =>
      cases hc
      refine fills_of_live hrep hbare hlegal rfl fun a l ha hx => ?_
      have hsafe : l.Full ∨ k ≠ some 0 :=
        (of_decide_eq_true (World.of_live ha hok)).imp_left hx.full_iff.mp
      refine (pushFrontMove_runs (s := (w.armed k).store a) hf hx v hsafe).mono ?_
        fun _ _ h => h.fails
      rintro _ s' ⟨hroom, h⟩
      exact ⟨_, h⟩
  | reserve x' n =>
      cases hc
      refine fills_of_live hrep hbare hlegal rfl fun a l _ hx => ?_
      exact (reserve_runs depth ((w.armed k).store a) l n hf hx).mono (fun _ _ h => ⟨_, h⟩)
        fun _ _ h => h.fails
  | shrinkToFit x' =>
      cases hc
      refine fills_of_live hrep hbare hlegal rfl fun a l _ hx => ?_
      exact (shrinkToFit_runs (s := (w.armed k).store a) depth hf hx).mono (fun _ _ h => h)
        fun _ _ h => h.fails
  | resize x' n v =>
      cases hc
      refine fills_of_live hrep hbare hlegal rfl fun a l _ hx => ?_
      exact (resize_runs (s := (w.armed k).store a) depth hf hx n v).mono (fun _ _ h => h)
        fun _ _ h => h.fails rfl
  | assignRange x' vs =>
      cases hc
      refine fills_of_live hrep hbare hlegal rfl fun a l ha hx => ?_
      have hleak := hx.not_leaky (of_decide_eq_true (World.of_live ha hok))
      exact (assignRange_runs (s := (w.armed k).store a) depth hf hx hleak vs).mono
        (fun _ _ h => h) fun _ _ h => h.fails rfl
  | assignFill x' n v =>
      cases hc
      refine fills_of_live hrep hbare hlegal rfl fun a l ha hx => ?_
      have hleak := hx.not_leaky (of_decide_eq_true (World.of_live ha hok))
      exact (assignFill_runs (s := (w.armed k).store a) depth hf hx hleak n v).mono
        (fun _ _ h => h) fun _ _ h => h.fails rfl
  | assignList x' il =>
      cases hc
      refine fills_of_live hrep hbare hlegal rfl fun a l ha hx => ?_
      have hleak := hx.not_leaky (of_decide_eq_true (World.of_live ha hok))
      exact (assignList_runs (s := (w.armed k).store a) depth hf hx hleak il).mono
        (fun _ _ h => h) fun _ _ h => h.fails rfl
  | assignCopy x' y =>
      cases hc
      rw [World.legal, Bool.and_eq_true] at hlegal
      obtain ⟨ca, lc, hca, -, hcx, -⟩ := World.exists_of_live hrep hbare hlegal.2
      have hstep : (w.armed k).step (depth + 1) (.assignCopy x y) =
          (w.armed k).call x fun _ => World.void (assignCopy (x == y) ca) := by
        simp only [World.step, show (w.armed k).arrays y = some ca from hca]
      refine fills_of_live hrep hbare hlegal.1 hstep fun a l ha hx => ?_
      refine Runs.mono ?_ (fun _ _ h => h) fun _ _ h => Basic.fails h rfl
      -- the assignment to itself has no throw point, the other one allocates at its first
      by_cases hxy : x = y
      · rw [beq_iff_eq.mpr hxy]
        exact assignCopy_same_runs (s := (w.armed k).store a) hf hx ca
      · have hbeq : (x == y) = false := beq_false_of_ne hxy
        rw [World.withstands, hbeq, Bool.false_or] at hok
        have hother := hrep.other (Or.inl ha) (Ne.symm hxy) hca hcx.toOwns
        rw [hbeq]
        exact assignCopy_runs (s := (w.armed k).store a) hf hx
          ⟨hother.owns, hother.apart, hother.below⟩ (of_decide_eq_true hok)
  | _ => cases hc

/-- A move construction has no throw point. -/
theorem Represents.constructMove_endures (hrep : Represents w σ)
    (hbare : ∀ x a, w.arrays x = some a → Bare w.heap a) {y : ℕ} {ca : CircularArray}
    (hx : w.arrays x = none) (hca : w.arrays y = some ca) (hy : σ y = .holds l)
    (ho : Owns w.heap ca l) (depth : ℕ) :
    Endures ((w.armed k).step depth (.constructMove x y)) := by
  have hfree : σ x = .free := by
    have h := hrep.slots x
    rw [hx] at h
    cases hσ : σ x with
    | free => rfl
    | movedFrom => rw [hσ] at h; exact h.elim
    | holds m => rw [hσ] at h; exact h.elim
  have hsame : (w.armed k).step depth (.constructMove x y) =
      (.ok .none, (w.step depth (.constructMove x y)).2.armed k) := by
    simp only [World.step, show (w.armed k).arrays y = some ca from hca, hca]
    rfl
  have hworld : (w.step depth (.constructMove x y)).2.arrays =
      Function.update (Function.update w.arrays x (some ca)) y (some {}) ∧
      (w.step depth (.constructMove x y)).2.heap = w.heap := by
    simp only [World.step, hca]
    exact ⟨rfl, rfl⟩
  have hrep' := (Refines.constructMove hrep hfree hy hca ho depth).represents
  rw [hsame]
  refine ⟨by simp, _, ⟨rfl, hrep'.fresh, hrep'.slots, hrep'.apart⟩, fun z b hb => ?_⟩
  change (w.step depth (.constructMove x y)).2.arrays z = some b at hb
  show Bare (w.step depth (.constructMove x y)).2.heap b
  rw [hworld.1] at hb
  rw [hworld.2]
  by_cases hzy : z = y
  · rw [hzy, Function.update_self] at hb
    obtain rfl := Option.some.inj hb
    exact Bare.of_none rfl
  · rw [Function.update_of_ne hzy] at hb
    by_cases hzx : z = x
    · rw [hzx, Function.update_self] at hb
      obtain rfl := Option.some.inj hb
      exact hbare y ca hca
    · rw [Function.update_of_ne hzx] at hb
      exact hbare z b hb

omit [BEq T] [LT T] [DecidableLT T] in
theorem Represents.swap_endures (hrep : Represents w σ)
    (hbare : ∀ x a, w.arrays x = some a → Bare w.heap a) {y : ℕ} {ca : CircularArray}
    (ha : w.arrays x = some a) (hca : w.arrays y = some ca) :
    Endures ((w.armed k).callWith x y CircularArray.swap) := by
  have hcall : (w.armed k).callWith x y CircularArray.swap =
      (.ok .none, { w.armed k with arrays := w.arrays ∘ Equiv.swap x y }) := by
    rw [← Refines.swapped w.arrays x y, ha, hca]
    simp only [World.callWith, show (w.armed k).arrays x = some a from ha,
      show (w.armed k).arrays y = some ca from hca]
    rfl
  rw [hcall]
  refine ⟨by simp, _, hrep.rename (Equiv.swap x y).injective rfl hrep.throwAt.symm rfl,
    fun z b hb => ?_⟩
  exact hbare (Equiv.swap x y z) b hb

theorem Represents.destruct_endures (hrep : Represents w σ)
    (hbare : ∀ x a, w.arrays x = some a → Bare w.heap a) (ha : w.arrays x = some a)
    (ho : Owns w.heap a l) (depth : ℕ) :
    Endures ((w.armed k).step depth (.destruct x)) := by
  obtain ⟨b, blk, harr, -⟩ := ho.cells
  obtain ⟨_, s, hrun, h', rfl, hnext, hblocks, -⟩ :=
    (teardown_leaves (s := (w.armed k).store a) ho harr).exists
  let s' : Store T := ⟨h', { a with array := none }, none, w.broken⟩
  have hstep : (w.armed k).step depth (.destruct x) =
      (.ok .none, (w.after x none s').armed k) := by
    simp only [World.step, show (w.armed k).arrays x = some a from ha]
    rw [hrun]
    rfl
  have hframe : ∀ c, (∀ a, w.arrays x = some a → a.array ≠ some c) →
      s'.heap.blocks c = w.heap.blocks c := by
    intro c hc
    show h'.blocks c = _
    rw [hblocks]
    refine Function.update_of_ne ?_ _ _
    rintro rfl
    exact hc a ha harr
  have hquiet : Quiet s' := ⟨rfl, hrep.fresh.update (by rw [hnext]; exact hrep.below ha harr)
    (Nat.le_of_eq hnext.symm) hblocks⟩
  have hbare' : ∀ z b, (w.after x none s').arrays z = some b → Bare s'.heap b :=
    hrep.bare_forget hbare hframe (Or.inl rfl)
  rw [hstep]
  exact ⟨by simp, _, hrep.forget hquiet hframe (Or.inl ⟨rfl, rfl⟩), hbare'⟩

/-- **Every legal call that withstands its throw point** keeps the invariant. -/
theorem step_endures (depth : ℕ) (hrep : Represents w σ)
    (hbare : ∀ x a, w.arrays x = some a → Bare w.heap a) {c : Call T}
    (hlegal : w.legal c = true) (hok : w.withstands k c = true) :
    Endures ((w.armed k).step (depth + 1) c) := by
  have hf : w.heap.Fresh := hrep.fresh
  cases hc : c.fills with
  | some x =>
      obtain ⟨a, l, m, ha, hx, hstep, hm⟩ := fills_runs depth hrep hbare hlegal hok hc
      rw [hstep]
      exact hrep.call_endures hbare ha ((runs_void hm).mono (fun _ _ h => h) fun _ _ h => h.1)
  | none =>
      cases c with
      | construct x cap =>
          exact hrep.build_endures hbare (constructEmpty_runs (s := (w.armed k).store {}) hf cap)
      | constructFill x n v cap =>
          exact hrep.build_endures hbare
            (constructFill_runs (s := (w.armed k).store {}) depth hf n v cap)
      | constructRange x vs cap =>
          exact hrep.build_endures hbare
            (constructRange_runs (s := (w.armed k).store {}) depth hf vs cap)
      | constructList x il cap =>
          exact hrep.build_endures hbare
            (constructList_runs (s := (w.armed k).store {}) depth hf il cap)
      | constructCopy x y cap =>
          rw [World.legal, Bool.and_eq_true] at hlegal
          obtain ⟨ca, lc, hca, -, hcx, -⟩ := World.exists_of_live hrep hbare hlegal.2
          simp only [World.step, show (w.armed k).arrays y = some ca from hca]
          refine hrep.build_endures hbare (Runs.mono (constructCopyWith_runs
            (s := (w.armed k).store {}) (reserve (depth + 1)) hf rfl hcx.toOwns cap) ?_
            fun _ _ h => h)
          exact fun _ _ h => ⟨_, h⟩
      | constructMove x y =>
          rw [World.legal, Bool.and_eq_true] at hlegal
          obtain ⟨ca, lc, hca, hy, hcx, -⟩ := World.exists_of_live hrep hbare hlegal.2
          exact hrep.constructMove_endures hbare (Option.isNone_iff_eq_none.mp hlegal.1) hca hy
            hcx.toOwns (depth + 1)
      | destruct x =>
          obtain ⟨a, l, ha, -, hx, -⟩ := World.exists_of_live hrep hbare hlegal
          exact hrep.destruct_endures hbare ha hx.toOwns (depth + 1)
      | assignMove x y =>
          rw [World.legal, Bool.and_eq_true] at hlegal
          obtain ⟨a, l, ha, -, hx, -⟩ := World.exists_of_live hrep hbare hlegal.1
          obtain rfl : x = y := beq_iff_eq.mp hok
          simp only [World.step, if_true]
          refine hrep.call_endures hbare ha ?_
          unfold assignMove
          simp only [if_true, runs_bind, runs_discard, runs_pure, runs_self, runs_expr]
          exact ⟨l, (Later.refl (s := (w.armed k).store a) hf hx).noted _ _⟩
      | index x n =>
          obtain ⟨a, l, ha, -, hx, hn⟩ := World.exists_of_live hrep hbare hlegal
          have hn : n < l.items.length := by
            rw [← hx.size]
            exact of_decide_eq_true hn
          exact hrep.look_endures hbare ha hx
            (Returns.bind (operatorIndex_returns (s := (w.armed k).store a) hx.toOwns.shows hn)
              fun _ _ h => h.2)
      | «at» x n =>
          obtain ⟨a, l, ha, -, hx, -⟩ := World.exists_of_live hrep hbare hlegal
          by_cases hn : n < l.items.length
          · exact hrep.look_endures hbare ha hx
              (Returns.bind (at_returns (s := (w.armed k).store a) hx.toOwns.shows hn)
                fun _ _ h => h.2)
          · refine hrep.call_endures hbare ha ?_
            rw [runs_bind]
            unfold Runs
            rw [at_out_of_range (s := (w.armed k).store a) hx.toOwns (Nat.le_of_not_lt hn)]
            exact ⟨by decide, l, Later.refl hf hx⟩
      | front x =>
          obtain ⟨a, l, ha, -, hx, hpos⟩ := World.exists_of_live hrep hbare hlegal
          have hpos := hx.items_pos (of_decide_eq_true hpos)
          refine hrep.look_endures (p := True) hbare ha hx ?_
          rw [Returns, runs_bind, runs_front (s := (w.armed k).store a) hx.toOwns hpos]
          exact Checked.refl _
      | back x =>
          obtain ⟨a, l, ha, -, hx, hpos⟩ := World.exists_of_live hrep hbare hlegal
          have hpos := hx.items_pos (of_decide_eq_true hpos)
          refine hrep.look_endures (p := True) hbare ha hx ?_
          rw [Returns, runs_bind, runs_back (s := (w.armed k).store a) hx.toOwns hpos]
          exact Checked.refl _
      | popBack x =>
          obtain ⟨a, l, ha, -, hx, hpos⟩ := World.exists_of_live hrep hbare hlegal
          have hne := List.length_pos_iff.mp (hx.items_pos (of_decide_eq_true hpos))
          exact hrep.call_endures hbare ha (runs_void (Returns.runs
            ((popBack_later (s := (w.armed k).store a) hf hx hne).mono fun _ _ h => ⟨_, h⟩)))
      | popFront x =>
          obtain ⟨a, l, ha, -, hx, hpos⟩ := World.exists_of_live hrep hbare hlegal
          have hne := List.length_pos_iff.mp (hx.items_pos (of_decide_eq_true hpos))
          exact hrep.call_endures hbare ha (runs_void (Returns.runs
            ((popFront_later (s := (w.armed k).store a) hf hx hne).mono fun _ _ h => ⟨_, h⟩)))
      | swap x y =>
          rw [World.legal, Bool.and_eq_true] at hlegal
          obtain ⟨a, l, ha, -, hx, -⟩ := World.exists_of_live hrep hbare hlegal.1
          obtain ⟨ca, lc, hca, -, -, -⟩ := World.exists_of_live hrep hbare hlegal.2
          by_cases hxy : x = y
          · simp only [World.step, if_pos hxy]
            refine hrep.look_endures (p := True) hbare ha hx ?_
            exact Checked.refl _
          · simp only [World.step, if_neg hxy]
            exact hrep.swap_endures hbare ha hca
      | clear x =>
          obtain ⟨a, l, ha, -, hx, -⟩ := World.exists_of_live hrep hbare hlegal
          have hleak := hx.not_leaky (of_decide_eq_true (World.of_live ha hok))
          exact hrep.call_endures hbare ha (runs_void (Returns.runs
            ((clear_later (s := (w.armed k).store a) hf hx hleak).mono fun _ _ h => ⟨_, h⟩)))
      | compare op x y =>
          rw [World.legal, Bool.and_eq_true] at hlegal
          obtain ⟨a, l, ha, -, hx, -⟩ := World.exists_of_live hrep hbare hlegal.1
          obtain ⟨ca, lc, hca, -, hcx, -⟩ := World.exists_of_live hrep hbare hlegal.2
          simp only [World.step, show (w.armed k).arrays y = some ca from hca]
          exact hrep.look_endures hbare ha hx
            (Returns.bind (compareOp_returns (s := (w.armed k).store a) op (x == y)
              hx.toOwns.shows hcx.toOwns.shows) fun _ _ h => h.2)
      | _ => cases hc

end

/-! ## Every run -/

/-- What a call on `x` is meant to leave behind, also where it throws. -/
structure Survives (w : World T) (c : Call T) (x : ℕ)
    (o : Except Exn (Result T) × World T) : Prop where
  intact : ∃ a, o.2.arrays x = some a ∧ a.Intact o.2.heap
  restored : c.rollsBack = true → ∀ e a a', o.1 = .error e → w.arrays x = some a →
    o.2.arrays x = some a' → a'.entries o.2.heap = a.entries w.heap ∧ a'.capacity = a.capacity

theorem World.sound_start : ({} : World T).Sound :=
  ⟨Slots.start, represents_start, fun _ a hx => absurd hx.symm (Option.some_ne_none a)⟩

section

variable [BEq T] [LT T] [DecidableLT T]

theorem World.Sound.run (depth : ℕ) (cs : List (Option ℕ × Call T)) :
    ∀ w : World T, w.Sound →
      World.everyThrowing (depth + 1) (fun w k c => w.legal c && w.withstands k c) w cs = true →
        (w.runThrowing (depth + 1) cs).Sound := by
  induction cs with
  | nil =>
      intro w h _
      exact h
  | cons kc cs ih =>
      obtain ⟨k, c⟩ := kc
      rintro w ⟨σ, hrep, hbare⟩ hcs
      rw [World.everyThrowing, Bool.and_eq_true, Bool.and_eq_true] at hcs
      exact ih _ (step_endures depth hrep hbare hcs.1.1 hcs.1.2).2 hcs.2

theorem fills_survive (depth : ℕ) {w : World T} {σ : Slots T} {k : Option ℕ} {x : ℕ}
    (hrep : Represents w σ) (hbare : ∀ x a, w.arrays x = some a → Bare w.heap a) {c : Call T}
    (hlegal : w.legal c = true) (hok : w.withstands k c = true) (hc : c.fills = some x) :
    Survives w c x (w.stepThrowing (depth + 1) k c) := by
  obtain ⟨a, l, m, ha, hx, hstep, hm⟩ := fills_runs depth hrep hbare hlegal hok hc
  obtain ⟨s', hafter, hexit⟩ := World.call_runs (w := w.armed k) (m := fun _ => World.void m) ha
    (runs_void hm)
  have harr : ((w.armed k).call x fun _ => World.void m).2.arrays x = some s'.self := by
    rw [hafter]
    exact Function.update_self x _ _
  have hheap : ((w.armed k).call x fun _ => World.void m).2.heap = s'.heap := by
    rw [hafter]
    rfl
  have hlater : ∃ l', Later ((w.armed k).store a) s' l' := by
    rcases hexit with ⟨-, -, h⟩ | ⟨e, -, ⟨-, h⟩, -⟩ <;> exact h
  unfold World.stepThrowing
  rw [hstep]
  constructor
  · obtain ⟨l', h⟩ := hlater
    refine ⟨s'.self, harr, ?_⟩
    show s'.self.Intact ((w.armed k).call x fun _ => World.void m).2.heap
    rw [hheap]
    exact h.holds.intact
  · intro hback e a₀ a' he ha₀ ha'
    obtain rfl := Option.some.inj (ha.symm.trans ha₀)
    obtain rfl := Option.some.inj (harr.symm.trans ha')
    rcases hexit with ⟨r, hr, -⟩ | ⟨e', -, -, hstrong⟩
    · exact absurd (hr.symm.trans he) (by simp)
    · obtain ⟨-, hl, hself⟩ := hstrong hback
      have hself : s'.self = a := hself
      show s'.self.entries ((w.armed k).call x fun _ => World.void m).2.heap = _ ∧ _
      rw [hheap]
      exact ⟨hl.holds.holds.entries.trans hx.holds.entries.symm, by rw [hself]⟩

omit [BEq T] [LT T] [DecidableLT T] in
theorem not_survives {w : World T} {x : ℕ} {a : CircularArray} {k : Option ℕ} {c : Call T}
    (ha : w.arrays x = some a) {m : Method T PUnit}
    (hm : Runs m ((w.armed k).store a) (fun _ _ => False)
      fun _ s' => ¬ s'.self.Intact s'.heap) :
    let o := (w.armed k).call x fun _ => World.void m
    ¬ Survives w c x (o.1, o.2.armed none) := by
  intro o hsurvives
  obtain ⟨s', hafter, hexit⟩ := World.call_runs (w := w.armed k) (m := fun _ => World.void m) ha
    (runs_void hm)
  obtain ⟨a', ha', hintact⟩ := hsurvives.intact
  change ((w.armed k).call x fun _ => World.void m).2.arrays x = some a' at ha'
  change a'.Intact ((w.armed k).call x fun _ => World.void m).2.heap at hintact
  rw [hafter] at ha' hintact
  obtain rfl : s'.self = a' := Option.some.inj ((Function.update_self x _ _).symm.trans ha')
  rcases hexit with ⟨-, -, h⟩ | ⟨-, -, h⟩
  · exact h
  · exact h hintact

/-- On an array that is not full, a call leaves what it should only if it withstands its
throw point. -/
theorem withstands_of_survives (depth : ℕ) {w : World T} {σ : Slots T} {k : Option ℕ} {x : ℕ}
    (hrep : Represents w σ) (hbare : ∀ x a, w.arrays x = some a → Bare w.heap a) {c : Call T}
    (hlegal : w.legal c = true) (hc : c.fills = some x)
    (hroom : (w.live x fun a => a.size < a.capacity ∨ a.capacity = 0) = true)
    (hsurvives : Survives w c x (w.stepThrowing (depth + 1) k c)) :
    w.withstands k c = true := by
  by_contra hok
  obtain ⟨a, l, ha, -, hx, -⟩ := World.exists_of_live hrep hbare hroom
  cases c with
  | pushFront x' v =>
      cases hc
      have hpoint : ¬ (a.size = a.capacity ∨ k ≠ some 1) := fun h =>
        hok (World.live_intro ha hx.array_isSome (decide_eq_true h))
      rw [not_or, not_not, hx.full_iff] at hpoint
      exact not_survives ha (pushFront_spoils (s := (w.armed k).store a) hx hpoint.1 hpoint.2 v)
        hsurvives
  | pushFrontMove x' v =>
      cases hc
      have hpoint : ¬ (a.size = a.capacity ∨ k ≠ some 0) := fun h =>
        hok (World.live_intro ha hx.array_isSome (decide_eq_true h))
      rw [not_or, not_not, hx.full_iff] at hpoint
      exact not_survives ha
        (pushFrontMove_spoils (s := (w.armed k).store a) hx hpoint.1 hpoint.2 v) hsurvives
  | assignCopy x' y =>
      cases hc
      have hpoint : ¬ (x = y ∨ k ≠ some 0) := by
        intro h
        apply hok
        rw [World.withstands, Bool.or_eq_true, beq_iff_eq]
        exact h.imp_right decide_eq_true
      rw [not_or, not_not] at hpoint
      rw [World.legal, Bool.and_eq_true] at hlegal
      obtain ⟨ca, lc, hca, -⟩ := World.exists_of_live hrep hbare hlegal.2
      have hstep : (w.armed k).step (depth + 1) (.assignCopy x y) =
          (w.armed k).call x fun _ => World.void (assignCopy false ca) := by
        simp only [World.step, show (w.armed k).arrays y = some ca from hca,
          beq_false_of_ne hpoint.1]
      unfold World.stepThrowing at hsurvives
      rw [hstep] at hsurvives
      exact not_survives ha (assignCopy_spoils (s := (w.armed k).store a) hx.toOwns hpoint.2)
        hsurvives
  -- an array that is not full withstands every throw point of the other calls
  | assignRange x' vs => cases hc; exact hok hroom
  | assignFill x' n v => cases hc; exact hok hroom
  | assignList x' il => cases hc; exact hok hroom
  | _ => first | exact hok rfl | cases hc

/-- **Exception safety.**  In every run in which each call withstands its throw point, so
does the array the next call fills; on an array that is not full it does so in no other case. -/
theorem throwing_calls_survive (depth : ℕ) (cs : List (Option ℕ × Call T))
    (hcs : World.everyThrowing (depth + 1) (fun w k c => w.legal c && w.withstands k c) {} cs =
      true) (k : Option ℕ) (c : Call T) (x : ℕ) :
    let w := World.runThrowing (depth + 1) {} cs
    w.legal c = true → c.fills = some x →
      let o := w.stepThrowing (depth + 1) k c
      (w.withstands k c = true → Survives w c x o) ∧
      ((w.live x fun a => a.size < a.capacity ∨ a.capacity = 0) = true →
        Survives w c x o → w.withstands k c = true) := by
  intro w hlegal hc o
  obtain ⟨σ, hrep, hbare⟩ := World.Sound.run depth cs {} World.sound_start hcs
  exact ⟨fun hok => fills_survive depth hrep hbare hlegal hok hc,
    fun hroom hsurvives => withstands_of_survives depth hrep hbare hlegal hc hroom hsurvives⟩

end

/-- A push and a growth that failed, then an assignment that fails at its second push. -/
theorem throwing_calls_survive_assignment :
    let w := World.runThrowing 1 ({} : World ℕ) [(none, .constructFill 0 2 7 4),
      (some 1, .pushBack 0 5), (some 4, .reserve 0 9), (none, .pushFront 0 6),
      (none, .construct 1 3)]
    Survives w (.assignCopy 1 0) 1 (w.stepThrowing 1 (some 3) (.assignCopy 1 0)) :=
  (throwing_calls_survive 0 _ (by decide +kernel) (some 3) (.assignCopy 1 0) 1 (by decide +kernel)
    rfl).1 (by decide +kernel)

/-- `push_front` counts the new element before it constructs it: where that throws, the
front of the array is a raw cell. -/
theorem push_front_leaves_raw_front :
    ¬ ∀ (cs : List (Option ℕ × Call ℕ)) (k : Option ℕ) (c : Call ℕ) (x : ℕ),
      World.everyThrowing 1 (fun w _ c => w.legal c) {} cs = true →
        (World.runThrowing 1 {} cs).legal c = true → c.fills = some x →
          Survives (World.runThrowing 1 {} cs) c x
            ((World.runThrowing 1 {} cs).stepThrowing 1 k c) := by
  intro h
  obtain ⟨a, ha, hintact⟩ := (h [(none, .constructFill 0 1 7 3)] (some 1) (.pushFront 0 5) 0
    (by decide +kernel) (by decide +kernel) rfl).intact
  have hlook : ((World.runThrowing 1 ({} : World ℕ) [(none, .constructFill 0 1 7 3)]).stepThrowing 1
      (some 1) (.pushFront 0 5)).2.arrays 0 = some ⟨some 0, 3, 2, 1, 2⟩ := by decide +kernel
  obtain rfl := Option.some.inj (hlook.symm.trans ha)
  obtain ⟨b, blk, harr, hblk, hcells⟩ := hintact.cells
  obtain rfl := Option.some.inj harr
  have hheld : (blk.cell 2).isSome = true := (hcells 2).mpr ⟨0, by decide, by decide⟩
  have hraw : ((World.runThrowing 1 ({} : World ℕ) [(none, .constructFill 0 1 7 3)]).stepThrowing 1
      (some 1) (.pushFront 0 5)).2.heap.read 0 2 = none := by decide +kernel
  rw [Heap.read, hblk] at hraw
  change blk.cell 2 = none at hraw
  rw [hraw] at hheld
  exact absurd hheld Bool.false_ne_true

end KssUtil.Containers

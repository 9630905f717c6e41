import KssUtil.Containers.CircularArrayAssign
import Mathlib.Logic.Equiv.Basic

/-!
# Circular arrays refine bounded lists

`Represents w σ`: the world `w` holds, under each name, what the slots `σ` say.
`Refines` says of one call that the world and the slots agree on its outcome and
on the state after it, and under which conditions the call kept the heap tidy
and broke no contract.  `step_refines` is the lemma for a call; what holds over
whole runs follows from it by `World.every_run`.
-/

namespace KssUtil.Containers

open KssUtil.Foundation CircularArray

variable {T : Type}

/-! ## Representation of a world -/

/-- What is stored under one name. -/
def HoldsSlot (h : Heap T) : Option CircularArray → Slot T → Prop
  | none, .free => True
  | some a, .movedFrom => a = {}
  | some a, .holds l => Owns h a l
  | _, _ => False

theorem HoldsSlot.frame {h h' : Heap T} {o : Option CircularArray} {sl : Slot T}
    (hs : HoldsSlot h o sl)
    (hb : ∀ a c, o = some a → a.array = some c → h'.blocks c = h.blocks c) :
    HoldsSlot h' o sl := by
  cases o with
  | none => cases sl <;> exact hs
  | some a =>
      cases sl with
      | free => exact hs
      | movedFrom => exact hs
      | holds m => exact Owns.frame hs fun c hc => hb a c rfl hc

structure Represents (w : World T) (σ : Slots T) : Prop where
  throwAt : w.throwAt = none
  fresh : w.heap.Fresh
  slots : ∀ x, HoldsSlot w.heap (w.arrays x) (σ x)
  apart : ∀ x y a b c, x ≠ y → w.arrays x = some a → w.arrays y = some b →
    a.array = some c → b.array ≠ some c

/-- No lifetime rule was broken, and only logical ranges hold objects. -/
structure TidyWorld (w : World T) : Prop where
  faults : w.heap.faults = []
  arrays : ∀ x a, w.arrays x = some a → Tidy w.heap a

namespace Represents

variable {w : World T} {σ : Slots T} {x y : ℕ} {l : BoundedList T} {a : CircularArray}

theorem quiet (hrep : Represents w σ) (a : CircularArray) : Quiet (w.store a) :=
  ⟨hrep.throwAt, hrep.fresh⟩

/-- The array behind a list. -/
theorem array (hrep : Represents w σ) (hx : σ x = .holds l) :
    ∃ a, w.arrays x = some a ∧ Owns w.heap a l := by
  have h := hrep.slots x
  rw [hx] at h
  cases hw : w.arrays x with
  | none => rw [hw] at h; exact h.elim
  | some a => rw [hw] at h; exact ⟨a, rfl, h⟩

theorem arrays_eq_none (hrep : Represents w σ) (hx : σ x = .free) : w.arrays x = none := by
  have h := hrep.slots x
  rw [hx] at h
  cases hw : w.arrays x with
  | none => rfl
  | some a => rw [hw] at h; exact h.elim

theorem other (hrep : Represents w σ) (hx : w.arrays x = some a ∨ a = {}) (hxy : y ≠ x)
    {b : CircularArray} (hy : w.arrays y = some b) {m : BoundedList T} (ho : Owns w.heap b m) :
    Other (w.store a) b m where
  owns := ho
  apart := by
    obtain ⟨c, blk, hc, -⟩ := ho.cells
    intro heq
    rcases hx with hx | rfl
    · exact hrep.apart y x b a c hxy hy hx hc (heq.symm.trans hc)
    · exact Option.some_ne_none c (hc.symm.trans heq)
  below := by
    intro c hc
    obtain ⟨blk, hblk, -⟩ := ho.cells_at hc
    exact hrep.fresh.lt_next hblk

/-- Another array on the heap a step leaves behind. -/
theorem slot_of_step (hrep : Represents w σ) (hx : w.arrays x = some a ∨ a = {}) (hyx : y ≠ x)
    {s' : Store T} {l' : BoundedList T} {t k : Prop} (h : Step (w.store a) s' l' t k) :
    HoldsSlot s'.heap (w.arrays y) (σ y) ∧
      ∀ b c, w.arrays y = some b → b.array = some c → s'.self.array ≠ some c ∧
        s'.heap.blocks c = w.heap.blocks c := by
  have hapart : ∀ b c, w.arrays y = some b → b.array = some c → s'.self.array ≠ some c ∧
      s'.heap.blocks c = w.heap.blocks c := by
    intro b c hb hc
    have hy := hrep.slots y
    rw [hb] at hy
    cases hσ : σ y with
    | free => rw [hσ] at hy; exact hy.elim
    | movedFrom =>
        rw [hσ] at hy
        obtain rfl : b = {} := hy
        cases hc
    | holds m =>
        rw [hσ] at hy
        have hother := hrep.other hx hyx hb hy
        refine ⟨fun heq => (h.other hother).apart (hc.trans heq.symm), ?_⟩
        exact h.frame c (hother.below c hc) fun heq => hother.apart (hc.trans heq.symm)
  exact ⟨(hrep.slots y).frame fun b c hb hc => (hapart b c hb hc).2, hapart⟩

/-- **After a step**, the array it was made on is back under its name. -/
theorem after_step (hrep : Represents w σ) (hx : w.arrays x = some a ∨ a = {})
    {s' : Store T} {l' : BoundedList T} {t k : Prop} (h : Step (w.store a) s' l' t k) :
    Represents (w.after x (some s'.self) s') (Function.update σ x (.holds l')) where
  throwAt := h.quiet.throwAt
  fresh := h.quiet.fresh
  slots := by
    intro y
    show HoldsSlot s'.heap (Function.update w.arrays x (some s'.self) y)
      (Function.update σ x (.holds l') y)
    by_cases hyx : y = x
    · rw [hyx, Function.update_self, Function.update_self]
      exact h.owns
    · rw [Function.update_of_ne hyx, Function.update_of_ne hyx]
      exact (hrep.slot_of_step hx hyx h).1
  apart := by
    intro y z b b' c hyz hy hz hc
    change Function.update w.arrays x (some s'.self) y = some b at hy
    change Function.update w.arrays x (some s'.self) z = some b' at hz
    by_cases hyx : y = x
    · subst hyx
      rw [Function.update_self] at hy
      rw [Function.update_of_ne hyz.symm] at hz
      obtain rfl := Option.some.inj hy
      intro hc'
      exact ((hrep.slot_of_step hx hyz.symm h).2 b' c hz hc').1 hc
    · rw [Function.update_of_ne hyx] at hy
      by_cases hzx : z = x
      · subst hzx
        rw [Function.update_self] at hz
        obtain rfl := Option.some.inj hz
        exact ((hrep.slot_of_step hx hyx h).2 b c hy hc).1
      · rw [Function.update_of_ne hzx] at hz
        exact hrep.apart y z b b' c hyz hy hz hc

/-- The same arrays under other names. -/
theorem rename (hrep : Represents w σ) {f : ℕ → ℕ} (hf : Function.Injective f) {w' : World T}
    (hheap : w'.heap = w.heap) (hthrow : w'.throwAt = w.throwAt)
    (harr : w'.arrays = w.arrays ∘ f) : Represents w' (σ ∘ f) where
  throwAt := hthrow.trans hrep.throwAt
  fresh := by rw [hheap]; exact hrep.fresh
  slots := by
    intro z
    rw [hheap, harr]
    exact hrep.slots (f z)
  apart := by
    intro z z' b b' c hz hb hb'
    rw [harr] at hb hb'
    exact hrep.apart (f z) (f z') b b' c (fun h => hz (hf h)) hb hb'

/-- The array named `y` goes away; no other array sees a change. -/
theorem forget (hrep : Represents w σ) {s' : Store T} (hq : Quiet s')
    (hframe : ∀ c, (∀ a, w.arrays y = some a → a.array ≠ some c) →
      s'.heap.blocks c = w.heap.blocks c)
    {o : Option CircularArray} {sl : Slot T}
    (ho : o = none ∧ sl = .free ∨ o = some {} ∧ sl = .movedFrom) :
    Represents (w.after y o s') (Function.update σ y sl) where
  throwAt := hq.throwAt
  fresh := hq.fresh
  slots := by
    intro z
    show HoldsSlot s'.heap (Function.update w.arrays y o z) (Function.update σ y sl z)
    by_cases hzy : z = y
    · rw [hzy, Function.update_self, Function.update_self]
      rcases ho with ⟨rfl, rfl⟩ | ⟨rfl, rfl⟩
      · trivial
      · exact rfl
    · rw [Function.update_of_ne hzy, Function.update_of_ne hzy]
      refine (hrep.slots z).frame fun b c hb hc => hframe c fun a ha hac => ?_
      exact hrep.apart z y b a c hzy hb ha hc hac
  apart := by
    intro z z' b b' c hz hb hb' hc
    have hempty : ∀ {z b}, (w.after y o s').arrays z = some b → b.array = some c →
        w.arrays z = some b := by
      intro z b hb hc
      change Function.update w.arrays y o z = some b at hb
      by_cases hzy : z = y
      · rw [hzy, Function.update_self] at hb
        rcases ho with ⟨rfl, -⟩ | ⟨rfl, -⟩
        · exact absurd hb.symm (Option.some_ne_none b)
        · obtain rfl := Option.some.inj hb
          exact absurd hc.symm (Option.some_ne_none c)
      · rwa [Function.update_of_ne hzy] at hb
    intro hc'
    exact hrep.apart z z' b b' c hz (hempty hb hc) (hempty hb' hc') hc hc'

end Represents

theorem Represents.owns_or_none {w : World T} {σ : Slots T} {x : ℕ} {a : CircularArray}
    (hrep : Represents w σ) (ha : w.arrays x = some a) :
    (∃ l, Owns w.heap a l) ∨ a.array = none := by
  have hx := hrep.slots x
  rw [ha] at hx
  cases hσ : σ x with
  | free =>
      rw [hσ] at hx
      exact hx.elim
  | movedFrom =>
      rw [hσ] at hx
      obtain rfl : a = {} := hx
      exact Or.inr rfl
  | holds l =>
      rw [hσ] at hx
      exact Or.inl ⟨l, hx⟩

/-- The blocks of the arrays of a world have names below `next`. -/
theorem Represents.below {w : World T} {σ : Slots T} {x b : ℕ} {a : CircularArray}
    (hrep : Represents w σ) (ha : w.arrays x = some a) (harr : a.array = some b) :
    b < w.heap.next := by
  rcases hrep.owns_or_none ha with ⟨l, ho⟩ | hnone
  · obtain ⟨blk, hblk, -⟩ := ho.cells_at harr
    exact hrep.fresh.lt_next hblk
  · rw [hnone] at harr
    cases harr

/-- The heap changed at names that no array has. -/
theorem Represents.frame {w w' : World T} {σ : Slots T} (hrep : Represents w σ)
    (hthrow : w'.throwAt = none) (hfresh : w'.heap.Fresh) (harr : w'.arrays = w.arrays)
    (hblocks : ∀ b, b < w.heap.next → w'.heap.blocks b = w.heap.blocks b) :
    Represents w' σ where
  throwAt := hthrow
  fresh := hfresh
  slots := by
    intro z
    rw [harr]
    exact (hrep.slots z).frame fun b c hb hc => hblocks c (hrep.below hb hc)
  apart := by
    rw [harr]
    exact hrep.apart

theorem TidyWorld.rename {w w' : World T} (htidy : TidyWorld w) {f : ℕ → ℕ}
    (hheap : w'.heap = w.heap) (harr : w'.arrays = w.arrays ∘ f) : TidyWorld w' where
  faults := by rw [hheap]; exact htidy.faults
  arrays := by
    intro z a ha
    rw [harr] at ha
    rw [hheap]
    exact htidy.arrays (f z) a ha

theorem Represents.bare_forget {w : World T} {σ : Slots T} {y : ℕ}
    (hbare : ∀ x a, w.arrays x = some a → Bare w.heap a) (hrep : Represents w σ) {s' : Store T}
    (hframe : ∀ c, (∀ a, w.arrays y = some a → a.array ≠ some c) →
      s'.heap.blocks c = w.heap.blocks c)
    {o : Option CircularArray} (ho : o = none ∨ o = some {}) :
    ∀ x a, (w.after y o s').arrays x = some a → Bare s'.heap a := by
  intro z b hb
  change Function.update w.arrays y o z = some b at hb
  by_cases hzy : z = y
  · rw [hzy, Function.update_self] at hb
    rcases ho with rfl | rfl
    · exact absurd hb.symm (Option.some_ne_none b)
    · obtain rfl := Option.some.inj hb
      exact Bare.of_none rfl
  · rw [Function.update_of_ne hzy] at hb
    refine (hbare z b hb).frame fun c hc => hframe c fun a ha hac => ?_
    exact hrep.apart z y b a c hzy hb ha hc hac

theorem Represents.bare_after {w : World T} {σ : Slots T} {x : ℕ} {a : CircularArray}
    (hbare : ∀ x a, w.arrays x = some a → Bare w.heap a) (hrep : Represents w σ)
    (hx : w.arrays x = some a ∨ a = {}) {s' : Store T} {l' : BoundedList T} {t k : Prop}
    (h : Step (w.store a) s' l' t k) (hself : Bare s'.heap s'.self) :
    ∀ y b, (w.after x (some s'.self) s').arrays y = some b → Bare s'.heap b := by
  intro y b hy
  change Function.update w.arrays x (some s'.self) y = some b at hy
  by_cases hyx : y = x
  · rw [hyx, Function.update_self] at hy
    obtain rfl := Option.some.inj hy
    exact hself
  · rw [Function.update_of_ne hyx] at hy
    exact (hbare y b hy).frame fun c hc => ((hrep.slot_of_step hx hyx h).2 b c hy hc).2

theorem TidyWorld.forget {w : World T} {σ : Slots T} {y : ℕ} (htidy : TidyWorld w)
    (hrep : Represents w σ) {s' : Store T} (hfaults : s'.heap.faults = [])
    (hframe : ∀ c, (∀ a, w.arrays y = some a → a.array ≠ some c) →
      s'.heap.blocks c = w.heap.blocks c)
    {o : Option CircularArray} (ho : o = none ∨ o = some {}) : TidyWorld (w.after y o s') :=
  ⟨hfaults, fun z b hb => ⟨hfaults,
    hrep.bare_forget (fun x a ha => (htidy.arrays x a ha).raw) hframe ho z b hb⟩⟩

theorem TidyWorld.after_step {w : World T} {σ : Slots T} {x : ℕ} {a : CircularArray}
    (htidy : TidyWorld w) (hrep : Represents w σ) (hx : w.arrays x = some a ∨ a = {})
    {s' : Store T} {l' : BoundedList T} {t k : Prop} (h : Step (w.store a) s' l' t k) (ht : t) :
    TidyWorld (w.after x (some s'.self) s') := by
  have ha : Tidy w.heap a := by
    rcases hx with hx | rfl
    · exact htidy.arrays x a hx
    · exact ⟨htidy.faults, Bare.of_none rfl⟩
  have hself : Tidy s'.heap s'.self := h.tidy ht ha
  exact ⟨hself.faults, fun y b hy => ⟨hself.faults,
    hrep.bare_after (fun x a ha => (htidy.arrays x a ha).raw) hx h hself.raw y b hy⟩⟩

/-! ## One call -/

/-- A call took `w` to `o` where the slots were meant to go from `σ` to `o'`. -/
structure Refines (w : World T) (tidy kept : Prop) (o : Except Exn (Result T) × World T)
    (o' : Except Exn (Result T) × Slots T) : Prop where
  outcome : o.1 = o'.1
  represents : Represents o.2 o'.2
  tidy : tidy → TidyWorld w → TidyWorld o.2
  kept : kept → o.2.broken = w.broken

namespace Refines

variable {w : World T} {σ : Slots T} {x y : ℕ} {l l' : BoundedList T} {a : CircularArray}
  {t k t' k' : Prop} {o : Except Exn (Result T) × World T}
  {o' : Except Exn (Result T) × Slots T}

theorem mono (h : Refines w t k o o') (ht : t' → t) (hk : k' → k) : Refines w t' k' o o' :=
  ⟨h.outcome, h.represents, fun h' => h.tidy (ht h'), fun h' => h.kept (hk h')⟩

/-- Nothing happened. -/
theorem unchanged (hrep : Represents w σ) (r : Except Exn (Result T)) :
    Refines w t k (r, w) (r, σ) :=
  ⟨rfl, hrep, fun _ => id, fun _ => rfl⟩

theorem build {m : Method T PUnit} (hrep : Represents w σ)
    (hm : Returns m (w.store {}) fun _ s' => Step (w.store {}) s' l' t k) :
    Refines w t k (w.build x m) (.ok .none, Function.update σ x (.holds l')) := by
  obtain ⟨_, s', hrun, h⟩ := hm.exists
  rw [World.build, hrun]
  exact ⟨rfl, hrep.after_step (Or.inr rfl) h,
    fun ht htidy => htidy.after_step hrep (Or.inr rfl) h ht, h.broken⟩

theorem call {m : CircularArray → Method T (Result T)} {r : Result T} (hrep : Represents w σ)
    (ha : w.arrays x = some a)
    (hm : Returns (m a) (w.store a) fun v s' => v = r ∧ Step (w.store a) s' l' t k) :
    Refines w t k (w.call x m) (.ok r, Function.update σ x (.holds l')) := by
  obtain ⟨v, s', hrun, rfl, h⟩ := hm.exists
  have hcall : w.call x m = (.ok v, w.after x (some s'.self) s') := by
    simp only [World.call, ha, hrun]
  rw [hcall]
  exact ⟨rfl, hrep.after_step (Or.inl ha) h,
    fun ht htidy => htidy.after_step hrep (Or.inl ha) h ht, h.broken⟩

theorem void {m : Method T PUnit} (hrep : Represents w σ) (ha : w.arrays x = some a)
    (hm : Returns m (w.store a) fun _ s' => Step (w.store a) s' l' t k) :
    Refines w t k (w.call x fun _ => World.void m)
      (.ok .none, Function.update σ x (.holds l')) := by
  refine call hrep ha ?_
  unfold World.void
  exact Returns.bind hm fun _ s' h => ⟨rfl, h⟩

/-- A call that only reads. -/
theorem look {m : CircularArray → Method T (Result T)} {r : Result T} (hrep : Represents w σ)
    (hl : σ x = .holds l) (ha : w.arrays x = some a)
    (hm : Returns (m a) (w.store a) fun v s' => v = r ∧ Checked (w.store a) s' k) :
    Refines w t k (w.call x m) (.ok r, σ) := by
  have ho : Owns w.heap a l := by
    have h := hrep.slots x
    rw [ha, hl] at h
    exact h
  have hupdate : Function.update σ x (.holds l) = σ := Function.update_eq_self_iff.mpr hl.symm
  have h : Refines w True k (w.call x m) (.ok r, Function.update σ x (.holds l)) := by
    refine call hrep ha (hm.mono ?_)
    rintro v s' ⟨rfl, hc⟩
    exact ⟨rfl, (hc.backStep (hrep.quiet a) ho).toStep⟩
  rw [hupdate] at h
  exact h.mono (fun _ => trivial) id

/-- A call that throws before it changes anything. -/
theorem refused {m : CircularArray → Method T (Result T)} {e : Exn} (hrep : Represents w σ)
    (ha : w.arrays x = some a) (hm : m a (w.store a) = .error e (w.store a)) :
    w.call x m = (.error e, w) ∧ Refines w t k (w.call x m) (.error e, σ) := by
  have hcall : w.call x m = (.error e, w) := by
    have hself : Function.update w.arrays x (some a) = w.arrays :=
      Function.update_eq_self_iff.mpr ha.symm
    simp only [World.call, ha, hm]
    simp only [World.after, World.store, hself]
  refine ⟨hcall, ?_⟩
  rw [hcall]
  exact unchanged hrep _

theorem swapped {α : Type} (f : ℕ → α) (x y : ℕ) :
    Function.update (Function.update f x (f y)) y (f x) = f ∘ Equiv.swap x y := by
  funext z
  by_cases hzy : z = y
  · subst hzy
    rw [Function.update_self, Function.comp_apply, Equiv.swap_apply_right]
  · rw [Function.update_of_ne hzy, Function.comp_apply]
    by_cases hzx : z = x
    · subst hzx
      rw [Function.update_self, Equiv.swap_apply_left]
    · rw [Function.update_of_ne hzx, Equiv.swap_apply_of_ne_of_ne hzx hzy]

theorem swap {m : BoundedList T} {ca : CircularArray} (hrep : Represents w σ)
    (hx : σ x = .holds l) (hy : σ y = .holds m) (ha : w.arrays x = some a)
    (hca : w.arrays y = some ca) :
    Refines w True True (w.callWith x y CircularArray.swap)
      (.ok .none, Function.update (Function.update σ x (.holds m)) y (.holds l)) := by
  have hcall : w.callWith x y CircularArray.swap =
      (.ok .none, { w with arrays := w.arrays ∘ Equiv.swap x y }) := by
    rw [← swapped w.arrays x y, ha, hca]
    simp only [World.callWith, ha, hca]
    rfl
  have hslots : Function.update (Function.update σ x (.holds m)) y (.holds l) =
      σ ∘ Equiv.swap x y := by
    rw [← swapped σ x y, hx, hy]
  rw [hcall, hslots]
  exact ⟨rfl, hrep.rename (Equiv.swap x y).injective rfl rfl rfl,
    fun _ htidy => htidy.rename rfl rfl, fun _ => rfl⟩

theorem constructMove {ca : CircularArray} (hrep : Represents w σ) (hx : σ x = .free)
    (hy : σ y = .holds l) (hca : w.arrays y = some ca) (ho : Owns w.heap ca l)
    [BEq T] [LT T] [DecidableLT T] (depth : ℕ) :
    Refines w True (0 < l.capacity) (w.step depth (.constructMove x y))
      (σ.step (.constructMove x y)) := by
  obtain ⟨r, s, hrun, rfl, hself, hheap, hthrow, hbroken⟩ :=
    (constructMove_returns (s := w.store {}) ho).exists
  -- the array under its new name first, then the emptied object under the old one
  let w₁ : World T := { w with arrays := w.arrays ∘ Equiv.swap x y }
  have hrep₁ : Represents w₁ (σ ∘ Equiv.swap x y) :=
    hrep.rename (Equiv.swap x y).injective rfl rfl rfl
  have hgone : w₁.arrays y = none := by
    show w.arrays (Equiv.swap x y y) = none
    rw [Equiv.swap_apply_right]
    exact hrep.arrays_eq_none hx
  have hframe : ∀ c, (∀ a, w₁.arrays y = some a → a.array ≠ some c) →
      s.heap.blocks c = w₁.heap.blocks c := fun c _ => by rw [hheap]; rfl
  have hworld : (w.after x (some s.self) s).after y (some {}) s = w₁.after y (some {}) s := by
    simp only [World.after, World.mk.injEq, true_and, and_true]
    show Function.update (Function.update w.arrays x (some s.self)) y (some {}) =
      Function.update (w.arrays ∘ Equiv.swap x y) y (some {})
    rw [← swapped w.arrays x y, Function.update_idem, hself, hca]
  have hslots : Function.update (Function.update σ x (.holds l)) y .movedFrom =
      Function.update (σ ∘ Equiv.swap x y) y .movedFrom := by
    rw [← swapped σ x y, Function.update_idem, hy]
  have hstep : w.step depth (.constructMove x y) =
      (.ok .none, w₁.after y (some {}) s) := by
    simp only [World.step, hca, hrun, hworld]
  have hspec : σ.step (.constructMove x y) =
      (.ok .none, Function.update (σ ∘ Equiv.swap x y) y .movedFrom) := by
    simp only [Slots.step, hy, hslots]
  rw [hstep, hspec]
  refine ⟨rfl, ?_, fun _ htidy => ?_, hbroken⟩
  · refine hrep₁.forget ⟨hthrow.trans hrep.throwAt, ?_⟩ hframe (Or.inr ⟨rfl, rfl⟩)
    rw [hheap]
    exact hrep.fresh
  · refine (TidyWorld.rename htidy (show w₁.heap = w.heap from rfl) rfl).forget hrep₁ ?_ hframe
      (Or.inr rfl)
    rw [hheap]
    exact htidy.faults

theorem destruct [BEq T] [LT T] [DecidableLT T] (hrep : Represents w σ)
    (ha : w.arrays x = some a) (ho : Owns w.heap a l) (depth : ℕ) :
    Refines w (¬ Leaky l) True (w.step depth (.destruct x)) (σ.step (.destruct x)) := by
  obtain ⟨_, s, hrun, hrel⟩ := (teardown_returns (hrep.quiet a) ho).exists
  have hframe : ∀ c, (∀ a, w.arrays x = some a → a.array ≠ some c) →
      s.heap.blocks c = w.heap.blocks c := fun c hc => hrel.frame c (hc a ha)
  have hstep : w.step depth (.destruct x) = (.ok .none, w.after x none s) := by
    simp only [World.step, ha, hrun]
  rw [hstep]
  refine ⟨rfl, hrep.forget hrel.quiet hframe (Or.inl ⟨rfl, rfl⟩), fun hleak htidy => ?_,
    fun _ => hrel.broken⟩
  exact htidy.forget hrep (hrel.tidy hleak (htidy.arrays x a ha)) hframe (Or.inl rfl)

end Refines

/-! ## When a call keeps the heap tidy, and when it keeps its contracts -/

/-- The call neither clears nor replaces the block of a full array. -/
def Slots.clean (σ : Slots T) : Call T → Bool
  | .destruct x | .clear x | .assignFill x _ _ | .assignList x _ => σ.has x fun l => ¬ Leaky l
  | .assignCopy x y => x == y || σ.has x fun l => ¬ Leaky l
  | .assignRange x vs =>
      σ.has x fun l => ¬ Leaky l ∧ BoundedList.GrowsClean l.capacity vs.length
  | .constructRange _ vs cap => BoundedList.GrowsClean cap vs.length
  | .resize x n _ | .reserve x n => σ.has x fun l => n ≤ l.capacity ∨ ¬ Leaky l
  | _ => true

/-- `p` of the array named `x` and of the list in it. -/
def World.has (w : World T) (σ : Slots T) (x : ℕ)
    (p : CircularArray → BoundedList T → Bool) : Bool :=
  match w.arrays x, σ x with
  | some a, .holds l => p a l
  | _, _ => false

/-- Every contract expression of the call is true. -/
def World.keeps [BEq T] [LT T] [DecidableLT T] (w : World T) (σ : Slots T) : Call T → Bool
  | .constructFill _ n v _ | .assignFill _ n v => decide (0 < n → (v == v) = true)
  | .constructRange _ vs cap | .constructList _ vs cap => SelfEqual vs ∧ (0 < cap ∨ vs ≠ [])
  | .constructCopy _ y cap => w.has σ y fun a l =>
      ¬ Wrapped a ∧ SelfEqual l.items ∧ 0 < max l.items.length cap
  | .constructMove _ y => σ.has y fun l => 0 < l.capacity
  | .assignCopy x y => x == y || w.has σ y fun a l => ¬ Wrapped a ∧ SelfEqual l.items
  | .assignMove _ _ => false
  | .assignRange x vs | .assignList x vs =>
      σ.has x fun l => SelfEqual vs ∧ (0 < l.capacity ∨ vs ≠ [])
  | .resize x n v => w.has σ x fun a l =>
      (n ≤ l.capacity ∨ ¬ Wrapped a ∧ SelfEqual l.items) ∧ (l.items.length < n → (v == v) = true)
  | .reserve x n => w.has σ x fun a l => n ≤ l.capacity ∨ ¬ Wrapped a ∧ SelfEqual l.items
  | .shrinkToFit x => σ.has x fun l => l.Full ∨ l.items ≠ [] ∧ SelfEqual l.items
  | .index x n | .at x n => w.has σ x fun a l => n < l.items.length → Readable a n
  | .pushBack x v | .pushFront x v => σ.has x fun l => l.Full ∨ (v == v) = true
  | .compare op x y => w.has σ x fun a l => w.has σ y fun b m =>
      ReadableOp op (x == y) a b l.items m.items
  | _ => true

/-! ## Every call -/

section

variable {σ : Slots T} {w : World T} {x : ℕ} {l : BoundedList T} {a : CircularArray}

theorem Slots.has_holds (h : σ x = .holds l) (p : BoundedList T → Bool) : σ.has x p = p l := by
  simp only [Slots.has, h]

theorem Slots.of_has {p : BoundedList T → Bool} (hl : σ x = .holds l) (h : σ.has x p = true) :
    p l = true :=
  (Slots.has_holds hl p).symm.trans h

theorem Slots.exists_of_has {p : BoundedList T → Bool} (h : σ.has x p = true) :
    ∃ l, σ x = .holds l ∧ p l = true := by
  unfold Slots.has at h
  split at h
  · rename_i l hl
    exact ⟨l, hl, h⟩
  · exact absurd h Bool.false_ne_true

theorem Slots.eq_free_of_isFree (h : σ.isFree x = true) : σ x = .free := by
  unfold Slots.isFree at h
  split at h
  · assumption
  · exact absurd h Bool.false_ne_true

theorem Slots.on_holds (h : σ x = .holds l)
    (f : BoundedList T → Except Exn (Result T) × BoundedList T) :
    σ.on x f = ((f l).1, Function.update σ x (.holds (f l).2)) := by
  simp only [Slots.on, h]

theorem Slots.look_holds (h : σ x = .holds l) (f : BoundedList T → Except Exn (Result T)) :
    σ.look x f = (f l, σ) := by
  simp only [Slots.look, h]

theorem World.has_holds (ha : w.arrays x = some a) (hl : σ x = .holds l)
    (p : CircularArray → BoundedList T → Bool) : w.has σ x p = p a l := by
  simp only [World.has, ha, hl]

theorem World.of_has {p : CircularArray → BoundedList T → Bool} (ha : w.arrays x = some a)
    (hl : σ x = .holds l) (h : w.has σ x p = true) : p a l = true :=
  (World.has_holds ha hl p).symm.trans h

theorem void_error {m : Method T PUnit} {s : Store T} {e : Exn} (h : m s = .error e s) :
    World.void m s = .error e s := by
  unfold World.void
  show EStateM.bind m _ s = _
  unfold EStateM.bind
  rw [h]

/-- A method without a result, called on a live array: what it does to the list
there, it does in the world. -/
theorem method_refines {p : BoundedList T → Bool} {t k : Prop} {m : Method T PUnit}
    {f : BoundedList T → BoundedList T} (hrep : Represents w σ) (hlegal : σ.has x p = true)
    (hm : ∀ a l, w.arrays x = some a → σ x = .holds l → p l = true → Quiet (w.store a) →
      Owns w.heap a l → Returns m (w.store a) fun _ s' => Step (w.store a) s' (f l) t k) :
    Refines w t k (w.call x fun _ => World.void m) (σ.on x fun l => (.ok .none, f l)) := by
  obtain ⟨l, hl, hp⟩ := Slots.exists_of_has hlegal
  obtain ⟨a, ha, ho⟩ := hrep.array hl
  rw [Slots.on_holds hl]
  exact Refines.void hrep ha (hm a l ha hl hp (hrep.quiet a) ho)

/-- The two pushes at the back and the two at the front differ only in what
they check afterwards. -/
theorem push_refines {t k q : Prop} {m : Method T PUnit}
    {f : BoundedList T → Except Exn (Result T) × BoundedList T}
    {push : ∀ l : BoundedList T, ¬ l.Full → BoundedList T} (hrep : Represents w σ)
    (hlegal : σ.isLive x = true)
    (hf : ∀ l, f l = if h : l.Full then (.error .lengthError, l) else (.ok .none, push l h))
    (hfull : ∀ a l, Quiet (w.store a) → Owns w.heap a l → l.Full →
      m (w.store a) = .error .lengthError (w.store a))
    (hroom : ∀ a l, Quiet (w.store a) → Owns w.heap a l → ∀ h : ¬ l.Full,
      Returns m (w.store a) fun _ s' => Step (w.store a) s' (push l h) True k)
    (hq : ∀ l, σ x = .holds l → q → l.Full ∨ k) :
    Refines w t q (w.call x fun _ => World.void m) (σ.on x f) := by
  obtain ⟨l, hl, -⟩ := Slots.exists_of_has hlegal
  obtain ⟨a, ha, ho⟩ := hrep.array hl
  rw [Slots.on_holds hl, hf]
  by_cases h : l.Full
  · have hupdate : Function.update σ x (.holds l) = σ := Function.update_eq_self_iff.mpr hl.symm
    rw [dif_pos h, hupdate]
    exact (Refines.refused hrep ha (void_error (hfull a l (hrep.quiet a) ho h))).2
  · rw [dif_neg h]
    exact (Refines.void hrep ha (hroom a l (hrep.quiet a) ho h)).mono (fun _ => trivial)
      fun hk => (hq l hl hk).resolve_left h

/-- A method that only reads, called on a live array. -/
theorem read_refines {α : Type} {t k : Prop} {m : CircularArray → Method T α} {v : α}
    (g : α → Result T) (hrep : Represents w σ) (hl : σ x = .holds l) (ha : w.arrays x = some a)
    (hm : Returns (m a) (w.store a) fun v' s' => v' = v ∧ Checked (w.store a) s' k) :
    Refines w t k (w.call x fun a => do return g (← m a)) (.ok (g v), σ) :=
  Refines.look hrep hl ha (Returns.bind hm fun _ _ h => ⟨congrArg g h.1, h.2⟩)

theorem getLast?_eq_getElem {xs : List T} (h : 0 < xs.length) :
    xs.getLast? = some xs[xs.length - 1] := by
  rw [List.getLast?_eq_getElem?, List.getElem?_eq_getElem (by omega)]

variable [BEq T] [LT T] [DecidableLT T]

/-- **Every legal call but a move assignment** does what it is meant to do. -/
theorem step_refines (depth : ℕ) (hrep : Represents w σ) {c : Call T} (hlegal : σ.legal c = true)
    (hmove : ∀ x y, c ≠ .assignMove x y) :
    Refines w (σ.clean c = true) (w.keeps σ c = true) (w.step (depth + 1) c) (σ.step c) := by
  cases c with
  | construct x cap =>
      exact Refines.build hrep ((constructEmpty_returns (hrep.quiet {}) cap).mono fun _ _ h =>
        h.toStep.mono rfl (fun _ => trivial) fun _ => trivial)
  | constructFill x n v cap =>
      exact Refines.build hrep ((constructFill_returns depth (hrep.quiet {}) n v cap).mono
        fun _ _ h => h.toStep.mono rfl (fun _ => trivial) of_decide_eq_true)
  | constructRange x vs cap =>
      exact Refines.build hrep ((constructRange_returns depth (hrep.quiet {}) vs cap).mono
        fun _ _ h => h.toStep.mono rfl of_decide_eq_true of_decide_eq_true)
  | constructCopy x y cap =>
      rw [Slots.legal, Bool.and_eq_true] at hlegal
      obtain ⟨m, hm, -⟩ := Slots.exists_of_has hlegal.2
      obtain ⟨ca, hca, ho⟩ := hrep.array hm
      simp only [World.step, Slots.step, hca, hm]
      exact Refines.build hrep ((constructCopy_returns depth (hrep.quiet {}) rfl ho cap).mono
        fun _ _ h => h.toStep.mono rfl (fun _ => trivial)
          fun hk => of_decide_eq_true (World.of_has hca hm hk))
  | constructMove x y =>
      rw [Slots.legal, Bool.and_eq_true] at hlegal
      obtain ⟨m, hm, -⟩ := Slots.exists_of_has hlegal.2
      obtain ⟨ca, hca, ho⟩ := hrep.array hm
      exact (Refines.constructMove hrep (Slots.eq_free_of_isFree hlegal.1) hm hca ho _).mono
        (fun _ => trivial) fun hk => of_decide_eq_true (Slots.of_has hm hk)
  | constructList x il cap =>
      exact Refines.build hrep ((constructList_returns depth (hrep.quiet {}) il cap).mono
        fun _ _ h => h.toStep.mono rfl (fun _ => trivial) of_decide_eq_true)
  | destruct x =>
      obtain ⟨l, hl, -⟩ := Slots.exists_of_has hlegal
      obtain ⟨a, ha, ho⟩ := hrep.array hl
      exact (Refines.destruct hrep ha ho _).mono
        (fun ht => of_decide_eq_true (Slots.of_has hl ht)) fun _ => trivial
  | assignCopy x y =>
      rw [Slots.legal, Bool.and_eq_true] at hlegal
      obtain ⟨m, hm, -⟩ := Slots.exists_of_has hlegal.2
      obtain ⟨ca, hca, hoc⟩ := hrep.array hm
      simp only [World.step, Slots.step, hca, hm]
      refine method_refines hrep hlegal.1 fun a l ha hl _ hq ho => ?_
      by_cases hxy : x = y
      · subst hxy
        obtain rfl : a = ca := Option.some.inj (ha.symm.trans hca)
        obtain rfl : l = m := Slot.holds.inj (hl.symm.trans hm)
        rw [beq_self_eq_true]
        exact (assignCopy_same_returns hq ho).mono fun _ _ h =>
          h.mono rfl (fun _ => trivial) fun _ => trivial
      · have hbeq : (x == y) = false := beq_false_of_ne hxy
        have hother := hrep.other (Or.inl ha) (Ne.symm hxy) hca hoc
        rw [Slots.clean, World.keeps, hbeq]
        exact (assignCopy_returns hq ho hother).mono fun _ _ h =>
          h.mono rfl (fun ht => of_decide_eq_true (Slots.of_has hl ht))
            fun hk => of_decide_eq_true (World.of_has hca hm hk)
  | assignMove x y => exact absurd rfl (hmove x y)
  | assignRange x vs =>
      exact method_refines hrep hlegal fun a l ha hl _ hq ho =>
        (assignRange_returns depth hq ho vs).mono fun _ _ h =>
          h.1.toStep.mono rfl (fun ht => of_decide_eq_true (Slots.of_has hl ht))
            fun hk => of_decide_eq_true (Slots.of_has hl hk)
  | assignFill x n v =>
      exact method_refines hrep hlegal fun a l ha hl _ hq ho =>
        (assignFill_returns depth hq ho n v).mono fun _ _ h =>
          h.1.toStep.mono rfl (fun ht => of_decide_eq_true (Slots.of_has hl ht)) of_decide_eq_true
  | assignList x il =>
      exact method_refines hrep hlegal fun a l ha hl _ hq ho =>
        (assignList_returns depth hq ho il).mono fun _ _ h =>
          h.1.toStep.mono rfl (fun ht => of_decide_eq_true (Slots.of_has hl ht))
            fun hk => of_decide_eq_true (Slots.of_has hl hk)
  | resize x n v =>
      exact method_refines hrep hlegal fun a l ha hl _ hq ho =>
        (resize_returns depth hq ho n v).mono fun _ _ h =>
          h.mono rfl (fun ht => of_decide_eq_true (Slots.of_has hl ht))
            fun hk => of_decide_eq_true (World.of_has ha hl hk)
  | reserve x n =>
      exact method_refines hrep hlegal fun a l ha hl _ hq ho =>
        (reserve_returns depth _ l n hq ho).mono fun _ _ h =>
          h.toStep.mono rfl (fun ht => of_decide_eq_true (Slots.of_has hl ht))
            fun hk => of_decide_eq_true (World.of_has ha hl hk)
  | shrinkToFit x =>
      exact method_refines hrep hlegal fun a l ha hl _ hq ho =>
        (shrinkToFit_returns depth hq ho).mono fun _ _ h =>
          h.mono rfl (fun _ => trivial) fun hk => of_decide_eq_true (Slots.of_has hl hk)
  | index x n =>
      obtain ⟨l, hl, hn⟩ := Slots.exists_of_has hlegal
      obtain ⟨a, ha, ho⟩ := hrep.array hl
      have hn := of_decide_eq_true hn
      rw [World.step, Slots.step, Slots.look_holds hl, List.getElem?_eq_getElem hn]
      exact (read_refines .element hrep hl ha (operatorIndex_returns ho.shows hn)).mono id
        fun hk => of_decide_eq_true (World.of_has ha hl hk) hn
  | «at» x n =>
      obtain ⟨l, hl, -⟩ := Slots.exists_of_has hlegal
      obtain ⟨a, ha, ho⟩ := hrep.array hl
      rw [World.step, Slots.step, Slots.look_holds hl]
      by_cases hn : n < l.items.length
      · rw [List.getElem?_eq_getElem hn]
        exact (read_refines .element hrep hl ha (at_returns ho.shows hn)).mono id
          fun hk => of_decide_eq_true (World.of_has ha hl hk) hn
      · have hn' := Nat.le_of_not_lt hn
        rw [List.getElem?_eq_none hn']
        refine (Refines.refused hrep ha ?_).2
        show EStateM.bind (at' a n) _ (w.store a) = _
        unfold EStateM.bind
        rw [at_out_of_range (s := w.store a) ho hn']
  | front x =>
      obtain ⟨l, hl, hne⟩ := Slots.exists_of_has hlegal
      obtain ⟨a, ha, ho⟩ := hrep.array hl
      have hpos : 0 < l.items.length := List.length_pos_iff.mpr (by simpa using hne)
      rw [World.step, Slots.step, Slots.look_holds hl, List.head?_eq_getElem?,
        List.getElem?_eq_getElem hpos]
      refine (read_refines (k := True) .element hrep hl ha ?_).mono id fun _ => trivial
      rw [Returns, runs_front (s := w.store a) ho hpos]
      exact ⟨rfl, Checked.refl _⟩
  | back x =>
      obtain ⟨l, hl, hne⟩ := Slots.exists_of_has hlegal
      obtain ⟨a, ha, ho⟩ := hrep.array hl
      have hpos : 0 < l.items.length := List.length_pos_iff.mpr (by simpa using hne)
      rw [World.step, Slots.step, Slots.look_holds hl, getLast?_eq_getElem hpos]
      refine (read_refines (k := True) .element hrep hl ha ?_).mono id fun _ => trivial
      rw [Returns, runs_back (s := w.store a) ho hpos]
      exact ⟨rfl, Checked.refl _⟩
  | pushBack x v =>
      exact push_refines hrep hlegal (fun _ => rfl) (fun a l hq ho h => pushBack_full hq ho h v)
        (fun a l hq ho h => (pushBack_returns hq ho h v).mono fun _ _ h => h.toStep)
        fun l hl hk => of_decide_eq_true (Slots.of_has hl hk)
  | pushBackMove x v =>
      exact push_refines hrep hlegal (fun _ => rfl)
        (fun a l _ ho h => checkRoomForOneMore_full (s := w.store a) ho h)
        (fun a l hq ho h => (pushBackMove_returns hq ho h v).mono fun _ _ h => h.toStep)
        fun l _ _ => Or.inr trivial
  | popBack x =>
      exact method_refines hrep hlegal fun a l ha hl hne hq ho =>
        (popBack_returns hq ho (by simpa using hne)).mono fun _ _ h =>
          h.toStep.mono rfl (fun _ => trivial) fun _ => trivial
  | pushFront x v =>
      exact push_refines hrep hlegal (fun _ => rfl) (fun a l hq ho h => pushFront_full hq ho h v)
        (fun a l hq ho h => pushFront_returns hq ho h v)
        fun l hl hk => of_decide_eq_true (Slots.of_has hl hk)
  | pushFrontMove x v =>
      exact push_refines hrep hlegal (fun _ => rfl)
        (fun a l _ ho h => checkRoomForOneMore_full (s := w.store a) ho h)
        (fun a l hq ho h => pushFrontMove_returns hq ho h v)
        fun l _ _ => Or.inr trivial
  | popFront x =>
      exact method_refines hrep hlegal fun a l ha hl hne hq ho =>
        (popFront_returns hq ho (by simpa using hne)).mono fun _ _ h =>
          h.mono rfl (fun _ => trivial) fun _ => trivial
  | swap x y =>
      rw [Slots.legal, Bool.and_eq_true] at hlegal
      obtain ⟨l, hl, -⟩ := Slots.exists_of_has hlegal.1
      obtain ⟨m, hm, -⟩ := Slots.exists_of_has hlegal.2
      obtain ⟨a, ha, ho⟩ := hrep.array hl
      obtain ⟨ca, hca, hoc⟩ := hrep.array hm
      by_cases hxy : x = y
      · subst hxy
        obtain rfl : l = m := Slot.holds.inj (hl.symm.trans hm)
        have hupdate : Function.update σ x (.holds l) = σ :=
          Function.update_eq_self_iff.mpr hl.symm
        simp only [World.step, Slots.step, hl, if_true, hupdate]
        refine (Refines.look (k := True) hrep hl ha ?_).mono (fun _ => trivial) fun _ => trivial
        exact ⟨rfl, Checked.refl _⟩
      · simp only [World.step, Slots.step, hl, hm, if_neg hxy]
        exact (Refines.swap hrep hl hm ha hca).mono (fun _ => trivial) fun _ => trivial
  | clear x =>
      exact method_refines hrep hlegal fun a l ha hl _ hq ho =>
        (clear_returns hq ho).mono fun _ _ h =>
          h.1.toStep.mono rfl (fun ht => of_decide_eq_true (Slots.of_has hl ht)) fun _ => trivial
  | compare op x y =>
      rw [Slots.legal, Bool.and_eq_true] at hlegal
      obtain ⟨l, hl, -⟩ := Slots.exists_of_has hlegal.1
      obtain ⟨m, hm, -⟩ := Slots.exists_of_has hlegal.2
      obtain ⟨a, ha, ho⟩ := hrep.array hl
      obtain ⟨b, hb, hob⟩ := hrep.array hm
      simp only [World.step, Slots.step, hb, hm, Slots.look_holds hl]
      exact (read_refines (m := fun a => World.compareOp op (x == y) a b) .bool hrep hl ha
        (compareOp_returns op (x == y) ho.shows hob.shows)).mono id
        fun hk => of_decide_eq_true (World.of_has hb hm (World.of_has ha hl hk))

end

end KssUtil.Containers

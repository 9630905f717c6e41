import KssUtil.Containers.SequentialMapRefinement

/-!
# Runs of calls on sequential maps

Whatever calls are made on the maps of a program, in whatever order, each map is
the association list it stands for, and each call returns what the list says.
-/

namespace KssUtil.Containers

open KssUtil.Foundation

namespace SequentialMap

variable {K T : Type}

/-! ## The abstract steps -/

/-- The association lists of a program. -/
abbrev Lists (K T : Type) := ℕ → List (K × T)

namespace Lists

variable (o : StrictWeakOrder K)

def step [Inhabited T] (σ : Lists K T) : Call K T → Except Exn (Result T) × Lists K T
  | .insert x val =>
      (.ok (.inserted (AssocList.position o (σ x) val.1) (!AssocList.has o (σ x) val.1)),
        Function.update σ x (AssocList.insert o (σ x) val))
  | .insertAt x _ val =>
      (.ok (.position (AssocList.position o (σ x) val.1)),
        Function.update σ x (AssocList.insert o (σ x) val))
  | .insertRange x vals => (.ok .none, Function.update σ x (AssocList.insertRange o (σ x) vals))
  | .index x k =>
      (.ok (.value ((AssocList.lookup o (σ x) k).getD default)),
        Function.update σ x (AssocList.insert o (σ x) (k, default)))
  | .assign x k v => (.ok .none, Function.update σ x (AssocList.assign o (σ x) k v))
  | .at x k =>
      match AssocList.lookup o (σ x) k with
      | some v => (.ok (.value v), σ)
      | none => (.error .outOfRange, σ)
  | .find x k => (.ok (.position (AssocList.position o (σ x) k)), σ)
  | .count x k => (.ok (.number (if AssocList.has o (σ x) k then 1 else 0)), σ)
  | .erase x k =>
      (.ok (.number (if AssocList.has o (σ x) k then 1 else 0)),
        Function.update σ x (AssocList.erase o (σ x) k))
  | .erasePosition x p =>
      (.ok .none, Function.update σ x (AssocList.eraseRange (σ x) p.toNat (p.toNat + 1)))
  | .eraseRange x i j =>
      (.ok .none, Function.update σ x (AssocList.eraseRange (σ x) i.toNat j.toNat))
  | .clear x => (.ok .none, Function.update σ x [])
  | .constructCopy x y => (.ok .none, Function.update σ x (σ y))
  | .assignCopy x y => (.ok .none, Function.update σ x (σ y))
  | .swap x y => (.ok .none, Function.update (Function.update σ x (σ y)) y (σ x))

/-- Positions are within the map. -/
def legal (σ : Lists K T) : Call K T → Bool
  | .erasePosition x p => decide (0 ≤ p ∧ p < (σ x).length)
  | .eraseRange x i j => decide (0 ≤ i ∧ i ≤ j ∧ j ≤ (σ x).length)
  | _ => true

def run [Inhabited T] (σ : Lists K T) :
    List (Call K T) → List (Except Exn (Result T)) × Lists K T
  | [] => ([], σ)
  | c :: cs =>
      let p := step o σ c
      let r := run p.2 cs
      (p.1 :: r.1, r.2)

def legalRun [Inhabited T] (σ : Lists K T) : List (Call K T) → Bool
  | [] => true
  | c :: cs => legal σ c && legalRun (step o σ c).2 cs

end Lists

/-! ## Steps -/

/-- Each map holds the list it stands for. -/
def Represents (o : StrictWeakOrder K) (w : World K T) (σ : Lists K T) : Prop :=
  ∀ x, Holds o (σ x) ⟨w.maps x, w.throwAt, w.broken⟩

def Refines (o : StrictWeakOrder K) (p : Except Exn (Result T) × World K T)
    (q : Except Exn (Result T) × Lists K T) : Prop :=
  p.1 = q.1 ∧ Represents o p.2 q.2

section Steps

variable {o : StrictWeakOrder K} {w : World K T} {σ : Lists K T}

theorem Represents.throwAt (h : Represents o w σ) : w.throwAt = none := (h 0).throwAt

theorem Represents.broken (h : Represents o w σ) : w.broken = false := (h 0).broken

/-- A map replaced by one that holds `l`. -/
theorem Represents.update (h : Represents o w σ) {x : ℕ} {l : List (K × T)} {s : Store K T}
    (hs : Holds o l s) :
    Represents o ⟨Function.update w.maps x s.self, s.throwAt, s.broken⟩
      (Function.update σ x l) := by
  intro y
  by_cases hyx : y = x
  · rw [hyx]
    simp only [Function.update_self]
    exact hs
  · simp only [Function.update_of_ne hyx]
    have hy := h y
    constructor
    · exact hs.throwAt
    · exact hs.broken
    · exact hy.order
    · exact hy.vec
    · exact hy.agrees

theorem call_refines (h : Represents o w σ) {x : ℕ} {m : Method K T (Result T)} {r : Result T}
    {l : List (K × T)}
    (hm : Returns m ⟨w.maps x, w.throwAt, w.broken⟩ fun a s' => a = r ∧ Holds o l s') :
    Refines o (w.call x m) (.ok r, Function.update σ x l) := by
  obtain ⟨a, s', hrun, rfl, hs'⟩ := hm.exists
  rw [World.call, hrun]
  exact ⟨rfl, h.update hs'⟩

/-- A call that only looks. -/
theorem look_refines (h : Represents o w σ) {x : ℕ} {m : Method K T (Result T)} {r : Result T}
    (hm : Returns m ⟨w.maps x, w.throwAt, w.broken⟩ fun a s' =>
      a = r ∧ s' = ⟨w.maps x, w.throwAt, w.broken⟩) :
    Refines o (w.call x m) (.ok r, σ) := by
  have hsame : Function.update σ x (σ x) = σ := Function.update_eq_self x σ
  rw [← hsame]
  apply call_refines h
  apply hm.mono
  rintro a _ ⟨rfl, rfl⟩
  exact ⟨rfl, h x⟩

/-- A method that changes the map, with what is made of its result. -/
theorem returns_refines {α : Type} (h : Represents o w σ) {x : ℕ} {m : Method K T α} {v : α}
    (g : α → Result T) {l : List (K × T)}
    (hm : Returns m ⟨w.maps x, w.throwAt, w.broken⟩ fun a s' => a = v ∧ Holds o l s') :
    Refines o (w.call x do return g (← m)) (.ok (g v), Function.update σ x l) := by
  apply call_refines h
  rw [Returns, runs_bind]
  apply hm.mono
  rintro _ s' ⟨rfl, h'⟩
  exact ⟨rfl, h'⟩

theorem void_refines (h : Represents o w σ) {x : ℕ} {m : Method K T PUnit} {l : List (K × T)}
    (hm : Returns m ⟨w.maps x, w.throwAt, w.broken⟩ fun _ s' => Holds o l s') :
    Refines o (w.call x do m; return .none) (.ok .none, Function.update σ x l) := by
  apply call_refines h
  rw [Returns, runs_bind]
  apply hm.mono
  intro _ s' h'
  exact ⟨rfl, h'⟩

/-- A method that only looks, with what is made of its result. -/
theorem reads_refines {α : Type} (h : Represents o w σ) {x : ℕ} {m : Method K T α} {v : α}
    (g : α → Result T)
    (hm : Returns m ⟨w.maps x, w.throwAt, w.broken⟩ fun a s' =>
      a = v ∧ s' = ⟨w.maps x, w.throwAt, w.broken⟩) :
    Refines o (w.call x do return g (← m)) (.ok (g v), σ) := by
  apply look_refines h
  rw [Returns, runs_bind]
  apply hm.mono
  rintro _ _ ⟨rfl, rfl⟩
  exact ⟨rfl, rfl⟩

theorem throw_refines (h : Represents o w σ) {x : ℕ} {m : Method K T (Result T)} {e : Exn}
    (hm : Runs m ⟨w.maps x, w.throwAt, w.broken⟩ (fun _ _ => False) fun e' s' =>
      e' = e ∧ s' = ⟨w.maps x, w.throwAt, w.broken⟩) :
    Refines o (w.call x m) (.error e, σ) := by
  have hsame : Function.update w.maps x (w.maps x) = w.maps := Function.update_eq_self x w.maps
  rw [World.call, eq_error_of_runs hm]
  dsimp only
  rw [hsame]
  exact ⟨rfl, h⟩

/-- **One call.**  It returns what the list says, and the maps are still the
lists. -/
theorem step_refines [Inhabited T] (h : Represents o w σ) {c : Call K T}
    (hc : Lists.legal σ c = true) : Refines o (w.step c) (Lists.step o σ c) := by
  cases c with
  | insert x val => exact returns_refines h (fun r => .inserted r.1 r.2) (insert_returns (h x) val)
  | insertAt x position val =>
      exact returns_refines h .position (insertAt_returns (h x) position val)
  | insertRange x vals => exact void_refines h (insertRange_returns (h x) vals)
  | index x k =>
      apply call_refines h
      rw [Returns, runs_bind]
      apply (operatorIndex_returns (h x) k).mono
      rintro _ s' ⟨rfl, h'⟩
      -- what the new position holds is what is found under the key afterwards
      have hlookup := AssocList.lookup_insert (o := o) (l := σ x) (k, default)
      rw [AssocList.lookup_eq, AssocList.position_insert, Option.map_eq_some_iff] at hlookup
      obtain ⟨e, he, hv⟩ := hlookup
      rw [runs_bind]
      apply (deref_returns h' he).mono
      rintro _ _ ⟨rfl, rfl⟩
      rw [runs_pure, hv]
      exact ⟨rfl, h'⟩
  | assign x k v => exact void_refines h (assignIndex_returns (h x) k v)
  | «at» x k =>
      rw [Lists.step]
      split
      · rename_i v hv
        apply look_refines h
        rw [Returns, runs_bind]
        apply (at_runs (h x) k).mono
        · rintro _ _ ⟨hr, rfl⟩
          rw [hv] at hr
          rw [runs_pure, ← Option.some.inj hr]
          exact ⟨rfl, rfl⟩
        · rintro _ _ ⟨hr, -⟩
          rw [hv] at hr
          exact absurd hr (Option.some_ne_none v)
      · rename_i hv
        apply throw_refines h
        rw [runs_bind]
        apply (at_runs (h x) k).mono
        · rintro r _ ⟨hr, -⟩
          rw [hv] at hr
          exact absurd hr.symm (Option.some_ne_none r)
        · rintro _ _ ⟨-, rfl, rfl⟩
          exact ⟨rfl, rfl⟩
  | find x k => exact reads_refines h .position (find_returns (h x) k)
  | count x k => exact reads_refines h .number (count_returns (h x) k)
  | erase x k => exact returns_refines h .number (erase_returns (h x) k)
  | erasePosition x p =>
      obtain ⟨hp, hlt⟩ := of_decide_eq_true hc
      obtain ⟨i, rfl⟩ := Int.eq_ofNat_of_zero_le hp
      exact void_refines h (erasePosition_returns (h x) (by omega))
  | eraseRange x i j =>
      obtain ⟨hi, hij, hlen⟩ := of_decide_eq_true hc
      obtain ⟨i, rfl⟩ := Int.eq_ofNat_of_zero_le hi
      obtain ⟨j, rfl⟩ := Int.eq_ofNat_of_zero_le (Int.le_trans hi hij)
      exact void_refines h (eraseRange_returns (h x) (by omega) (by omega))
  | clear x => exact void_refines h (clear_returns (h x))
  | constructCopy x y =>
      apply call_refines h
      rw [Returns, runs_bind, runs_mayThrow h.throwAt, runs_bind, runs_modifySelf]
      exact ⟨rfl, h y⟩
  | assignCopy x y => exact void_refines h (assignCopy_returns (h x) (h y))
  | swap x y =>
      rw [World.step, Lists.step]
      split
      · rename_i hxy
        rw [← hxy, Function.update_eq_self, Function.update_eq_self]
        apply look_refines h
        rw [Returns, runs_bind, runs_sizesExpr (h x).agrees, runs_bind,
          runs_sizesExpr (h x).agrees]
        exact ⟨rfl, rfl⟩
      · rename_i hxy
        obtain ⟨_, _, hrun, rfl, rfl⟩ := (swap_returns (h x) (h y)).exists
        rw [World.callWith, hrun]
        exact ⟨rfl, (h.update (h y)).update (h x)⟩

end Steps

/-! ## Runs -/

section Runs

variable {o : StrictWeakOrder K}

theorem represents_start (o : StrictWeakOrder K) :
    Represents o (World.start o : World K T) fun _ => [] := by
  intro x
  constructor
  · rfl
  · rfl
  · rfl
  · rfl
  · exact agrees_empty o

theorem run_refines [Inhabited T] (cs : List (Call K T)) :
    ∀ (w : World K T) (σ : Lists K T), Represents o w σ →
      Lists.legalRun o σ cs = true →
        (w.run cs).1 = (Lists.run o σ cs).1 ∧
          Represents o (w.run cs).2 (Lists.run o σ cs).2 := by
  induction cs with
  | nil => intro w σ h _; exact ⟨rfl, h⟩
  | cons c cs ih =>
      intro w σ h hlegal
      rw [Lists.legalRun, Bool.and_eq_true] at hlegal
      obtain ⟨hout, hrep⟩ := step_refines h hlegal.1
      obtain ⟨houts, hreps⟩ := ih _ _ hrep hlegal.2
      rw [World.run, Lists.run, hout, houts]
      exact ⟨rfl, hreps⟩

/-- **Sequential maps are association lists.**  After any run of calls on
default-constructed maps, positions within them, each call has returned what the
association lists return, each map is its list, and no contract expression was
false. -/
theorem run_refines_assoc_lists [Inhabited T] (o : StrictWeakOrder K) (cs : List (Call K T))
    (hlegal : Lists.legalRun o (fun _ => []) cs = true) :
    ((World.start o).run cs).1 = (Lists.run o (fun _ => []) cs).1 ∧
      ((World.start o).run cs).2.broken = false ∧
        ∀ x, Coherent o (((World.start o).run cs).2.maps x)
          ((Lists.run o (fun _ => []) cs).2 x) := by
  obtain ⟨hout, hrep⟩ := run_refines cs _ _ (represents_start o) hlegal
  exact ⟨hout, hrep.broken, fun x => (hrep x).coherent⟩

/-- Numbers in their usual order. -/
def natOrder : StrictWeakOrder ℕ where
  less := fun a b => decide (a < b)
  lawful :=
    { irrefl := by simp
      trans := by
        intro a b c hab hbc
        exact decide_eq_true (Nat.lt_trans (of_decide_eq_true hab) (of_decide_eq_true hbc))
      incomp_trans := by
        intro a b c
        simp only [decide_eq_true_eq]
        omega }

theorem run_refines_assoc_lists_erase :
    let cs : List (Call ℕ ℕ) := [.insertRange 0 [(3, 30), (1, 10), (3, 31), (2, 20)],
      .eraseRange 0 1 2, .assign 0 7 70, .swap 0 1, .at 1 2]
    ((World.start natOrder).run cs).1 =
        [.ok .none, .ok .none, .ok .none, .ok .none, .ok (.value 20)] ∧
      Coherent natOrder (((World.start natOrder).run cs).2.maps 1) [(3, 30), (2, 20), (7, 70)] := by
  intro cs
  obtain ⟨hout, -, hmaps⟩ := run_refines_assoc_lists natOrder cs (by decide +kernel)
  have hlist : (Lists.run natOrder (fun _ => []) cs).2 1 = [(3, 30), (2, 20), (7, 70)] := by
    decide +kernel
  have hfirst : (Lists.run natOrder (fun _ => []) cs).1 =
      [.ok .none, .ok .none, .ok .none, .ok .none, .ok (.value 20)] := by rfl
  exact ⟨hout.trans hfirst, hlist ▸ hmaps 1⟩

end Runs
end SequentialMap
end KssUtil.Containers

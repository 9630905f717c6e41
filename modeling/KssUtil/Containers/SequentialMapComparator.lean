import KssUtil.Containers.SequentialMapRuns

/-!
# The comparator of a sequential map

The constructors take a comparator and do not hand it to the index, and the observers
make a comparator of their own: all of them use `Compare()`, here `compare`.  What the
comparator given should do is stated in terms of the first pair of each of its classes.
-/

namespace KssUtil.Containers

open KssUtil.Foundation

namespace SequentialMap

variable {K T : Type}

/-! ## Constructors and observers -/

/-- `SequentialMap(comp)` -/
def constructWith (compare _comp : StrictWeakOrder K) : Method K T PUnit := do
  modifySelf fun _ => construct compare
  let m ← self
  expr m.vec.isEmpty
  expr (m.map.size == 0)

/-- `SequentialMap(first, last, comp)` -/
def constructRange (compare _comp : StrictWeakOrder K) (vals : List (K × T)) :
    Method K T PUnit := do
  modifySelf fun _ => construct compare
  insertRange vals
  sizesExpr

def keyComp (compare : StrictWeakOrder K) (_m : SequentialMap K T) : K → K → Bool := compare.less

def valueComp (compare : StrictWeakOrder K) (_m : SequentialMap K T) :
    K × T → K × T → Bool := fun x y => compare.less x.1 y.1

/-- A map constructed empty and filled by `insert`. -/
def constructInsert (compare comp : StrictWeakOrder K) (vals : List (K × T)) :
    Method K T PUnit := do
  constructWith compare comp
  vals.forM fun val => discard (insert val)

/-! ## What honouring a comparator means -/

/-- Nothing is about to throw and no contract expression was false. -/
structure Fresh (s : Store K T) : Prop where
  throwAt : s.throwAt = none
  broken : s.broken = false

/-- The map that `build` leaves holds the first pair of each class under `comp`, and
tells keys apart as `comp` does. -/
structure Identifies (comp : StrictWeakOrder K) (vals : List (K × T))
    (build : Method K T PUnit) : Prop where
  pairs : ∀ s, Fresh s → Returns build s fun _ s' =>
    s'.self.vec = AssocList.firsts comp vals ∧ s'.broken = false
  find : ∀ s k, Fresh s → Returns (build >>= fun _ => find k) s fun r s' =>
    r = AssocList.position comp (AssocList.firsts comp vals) k ∧
      s'.self.vec = AssocList.firsts comp vals
  count : ∀ s k, Fresh s → Returns (build >>= fun _ => count k) s fun r s' =>
    r = (if AssocList.has comp (AssocList.firsts comp vals) k then 1 else 0) ∧
      s'.self.vec = AssocList.firsts comp vals
  erase : ∀ s k, Fresh s → Returns (build >>= fun _ => erase k) s fun r s' =>
    r = (if AssocList.has comp (AssocList.firsts comp vals) k then 1 else 0) ∧
      s'.self.vec = AssocList.erase comp (AssocList.firsts comp vals) k

/-- Both ways to build a map from `vals` with `comp` give it what it should have, and
its observers order as `comp`. -/
structure HonoursComparator (compare comp : StrictWeakOrder K) (vals : List (K × T)) :
    Prop where
  range : Identifies comp vals (constructRange compare comp vals)
  inserts : Identifies comp vals (constructInsert compare comp vals)
  key_comp : ∀ m : SequentialMap K T, ∀ a b, keyComp compare m a b = comp.less a b
  value_comp : ∀ m : SequentialMap K T, ∀ x y, valueComp compare m x y = comp.less x.1 y.1

/-! ## What the constructors do -/

section Constructors

variable {compare comp : StrictWeakOrder K} {vals : List (K × T)} {s : Store K T}

theorem Fresh.holds_empty (h : Fresh s) :
    Holds compare ([] : List (K × T)) { s with self := construct compare } where
  throwAt := h.throwAt
  broken := h.broken
  order := rfl
  vec := rfl
  agrees := agrees_empty compare

theorem constructRange_returns (h : Fresh s) :
    Returns (constructRange compare comp vals) s fun _ s' =>
      Holds compare (AssocList.firsts compare vals) s' := by
  rw [Returns, constructRange, runs_bind, runs_modifySelf]
  apply Returns.bind (insertRange_returns h.holds_empty vals)
  intro _ s' h'
  rw [Returns, runs_sizesExpr h'.agrees, ← AssocList.insertRange_nil]
  exact h'

/-- Pairs inserted one by one. -/
theorem inserts_return {o : StrictWeakOrder K} {l : List (K × T)} (h : Holds o l s) :
    Returns (vals.forM fun val => discard (insert val)) s fun _ s' =>
      Holds o (AssocList.insertRange o l vals) s' := by
  induction vals generalizing l s with
  | nil => exact h
  | cons e es ih =>
      apply Returns.bind (P := fun _ s' => Holds o (AssocList.insert o l e) s')
      · rw [Returns, runs_discard]
        exact (insert_returns h e).mono fun _ _ h' => h'.2
      · exact fun _ s' h' => ih h'

theorem constructInsert_returns (h : Fresh s) :
    Returns (constructInsert compare comp vals) s fun _ s' =>
      Holds compare (AssocList.firsts compare vals) s' := by
  rw [Returns, constructInsert, runs_bind, constructWith, runs_bind, runs_modifySelf, runs_bind,
    runs_self, runs_bind]
  apply (runs_expr rfl).mpr
  apply (runs_expr rfl).mpr
  rw [← AssocList.insertRange_nil]
  exact inserts_return h.holds_empty

/-- A map that holds the first pairs under its own order identifies keys by it. -/
theorem identifies_of_holds {build : Method K T PUnit}
    (h : ∀ s, Fresh s → Returns build s fun _ s' =>
      Holds compare (AssocList.firsts compare vals) s') : Identifies compare vals build where
  pairs s hs := (h s hs).mono fun _ _ h' => ⟨h'.vec, h'.broken⟩
  find s k hs := (h s hs).bind fun _ _ h' => (find_returns h' k).mono fun
    | _, _, ⟨hr, rfl⟩ => ⟨hr, h'.vec⟩
  count s k hs := (h s hs).bind fun _ _ h' => (count_returns h' k).mono fun
    | _, _, ⟨hr, rfl⟩ => ⟨hr, h'.vec⟩
  erase s k hs := (h s hs).bind fun _ _ h' => (erase_returns h' k).mono fun
    | _, _, ⟨hr, h''⟩ => ⟨hr, h''.vec⟩

end Constructors

/-! ## Two orders with the same classes -/

section Classes

variable {o p : StrictWeakOrder K}

theorem firsts_congr (h : o.equiv = p.equiv) (vals : List (K × T)) :
    AssocList.firsts o vals = AssocList.firsts p vals := by
  induction vals with
  | nil => rfl
  | cons e es ih => rw [AssocList.firsts, AssocList.firsts, ih, h]

/-- Only the classes matter to what a map holds and finds. -/
theorem identifies_congr (h : o.equiv = p.equiv) {vals : List (K × T)}
    {build : Method K T PUnit} (hbuild : Identifies o vals build) : Identifies p vals build := by
  have hfirsts := firsts_congr h vals
  have hposition : ∀ l : List (K × T), AssocList.position p l = AssocList.position o l := by
    intro l
    funext k
    rw [AssocList.position, AssocList.position, h]
  have hhas : ∀ l : List (K × T), AssocList.has p l = AssocList.has o l := by
    intro l
    funext k
    rw [AssocList.has, AssocList.has, h]
  have herase : ∀ l : List (K × T), AssocList.erase p l = AssocList.erase o l := by
    intro l
    funext k
    rw [AssocList.erase, AssocList.erase, h]
  constructor
  · rw [← hfirsts]
    exact hbuild.pairs
  · rw [← hfirsts, hposition]
    exact hbuild.find
  · rw [← hfirsts, hhas]
    exact hbuild.count
  · rw [← hfirsts, hhas, herase]
    exact hbuild.erase

/-- Two pairs tell whether their keys are equivalent. -/
theorem length_firsts_two (o : StrictWeakOrder K) (a b : K) (v : T) :
    (AssocList.firsts o [(a, v), (b, v)]).length = if o.equiv a b then 1 else 2 := by
  rw [AssocList.firsts, AssocList.firsts, AssocList.firsts, List.filter_nil, List.filter_cons,
    List.filter_nil]
  cases o.equiv a b <;> rfl

theorem equiv_of_firsts (a b : K) (v : T)
    (h : AssocList.firsts o [(a, v), (b, v)] = AssocList.firsts p [(a, v), (b, v)]) :
    o.equiv a b = p.equiv a b := by
  have hlen := congrArg List.length h
  rw [length_firsts_two, length_firsts_two] at hlen
  revert hlen
  cases o.equiv a b <;> cases p.equiv a b <;> decide

theorem equiv_congr (h : ∀ a b, o.less a b = p.less a b) : o.equiv = p.equiv := by
  funext a b
  rw [StrictWeakOrder.equiv, StrictWeakOrder.equiv, h, h]

end Classes

/-! ## When the comparator is honoured -/

section Honoured

variable {compare comp : StrictWeakOrder K}

theorem fresh_construct (o : StrictWeakOrder K) :
    Fresh (⟨construct o, none, false⟩ : Store K T) := ⟨rfl, rfl⟩

/-- What a map of `build` holds is decided by `compare` alone. -/
theorem identifies_iff [Inhabited T] (build : List (K × T) → Method K T PUnit)
    (hbuild : ∀ vals s, Fresh s → Returns (build vals) s fun _ s' =>
      Holds compare (AssocList.firsts compare vals) s') :
    (∀ vals, Identifies comp vals (build vals)) ↔ compare.equiv = comp.equiv := by
  constructor
  · intro h
    funext a b
    have hfresh := fresh_construct (T := T) compare
    obtain ⟨_, s, hrun, hholds⟩ := (hbuild [(a, default), (b, default)] _ hfresh).exists
    have hpairs := (h [(a, default), (b, default)]).pairs _ hfresh
    rw [Returns, Runs, hrun] at hpairs
    exact equiv_of_firsts a b default (hholds.vec.symm.trans hpairs.1)
  · intro h vals
    exact identifies_congr h (identifies_of_holds (hbuild vals))

/-- **A comparator is honoured exactly if it orders as `Compare()`.**  Whatever pairs
the map is built from, it holds, finds and orders as the comparator given says just
when that is what a default-constructed one says; what it holds and finds is right for
all pairs just when the two have the same classes. -/
theorem comparator_honoured_iff [Inhabited T] (compare comp : StrictWeakOrder K) :
    (∀ vals : List (K × T), HonoursComparator compare comp vals ↔
        ∀ a b, compare.less a b = comp.less a b) ∧
      ((∀ vals : List (K × T), Identifies comp vals (constructRange compare comp vals)) ↔
        ∀ a b, compare.equiv a b = comp.equiv a b) ∧
      ((∀ vals : List (K × T), Identifies comp vals (constructInsert compare comp vals)) ↔
        ∀ a b, compare.equiv a b = comp.equiv a b) := by
  have hequiv : (∀ a b, compare.equiv a b = comp.equiv a b) ↔ compare.equiv = comp.equiv :=
    ⟨fun h => funext fun a => funext fun b => h a b, fun h a b => by rw [h]⟩
  refine ⟨fun vals => ⟨fun h => h.key_comp (construct compare), fun h => ?_⟩, ?_, ?_⟩
  · have hclasses := equiv_congr h
    constructor
    · exact identifies_congr hclasses (identifies_of_holds fun s => constructRange_returns)
    · exact identifies_congr hclasses (identifies_of_holds fun s => constructInsert_returns)
    · exact fun _ => h
    · exact fun _ x y => h x.1 y.1
  · rw [hequiv]
    exact identifies_iff _ fun vals s => constructRange_returns
  · rw [hequiv]
    exact identifies_iff _ fun vals s => constructInsert_returns

/-- Numbers told apart only in steps of `unit`. -/
def byUnit (unit : ℕ) : StrictWeakOrder ℕ where
  less := fun a b => decide (a / unit < b / unit)
  lawful :=
    { irrefl := by simp
      trans := by
        intro a b c hab hbc
        exact decide_eq_true (Nat.lt_trans (of_decide_eq_true hab) (of_decide_eq_true hbc))
      incomp_trans := by
        intro a b c
        simp only [decide_eq_true_eq]
        omega }

/-- Built with a comparator of steps of ten, where the default is steps of one, the map
keeps both pairs; the comparator says one. -/
theorem comparator_is_not_honoured :
    let vals := [((1 : ℕ), (10 : ℕ)), (2, 20)]
    Returns (constructRange (byUnit 1) (byUnit 10) vals) ⟨construct (byUnit 1), none, false⟩
        (fun _ s' => s'.self.vec = vals) ∧
      AssocList.firsts (byUnit 10) vals = [(1, 10)] ∧
        ¬ HonoursComparator (byUnit 1) (byUnit 10) vals := by
  refine ⟨?_, by decide, ?_⟩
  · apply (constructRange_returns (fresh_construct (byUnit 1))).mono
    intro _ s' h
    rw [h.vec]
    decide
  · intro h
    have := h.key_comp (construct (byUnit 1)) 1 2
    exact absurd this (by decide)

end Honoured
end SequentialMap
end KssUtil.Containers

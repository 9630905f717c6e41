import KssUtil.Containers.SequentialMapRuns

/-!
# Insertions that throw

An insertion of a new key has two points at which it may throw: where the pair is
appended, and where its position goes into the index.  Between the two the members
disagree, so only the first leaves the map as it was.
-/

namespace KssUtil.Containers

open KssUtil.Foundation

namespace SequentialMap

variable {K T : Type}

/-- Where a call throws: at the `n`-th pair it appends, or at the `n`-th position
that goes into the index. -/
inductive Failure where
  | append (n : ℕ)
  | index (n : ℕ)
deriving DecidableEq, Repr

def Failure.point : Failure → ℕ
  | .append n => 2 * n
  | .index n => 2 * n + 1

/-- The calls that insert at most what they are given. -/
def Call.inserts : Call K T → Bool
  | .insert _ _ | .insertAt _ _ _ | .insertRange _ _ | .index _ _ | .assign _ _ _ => true
  | _ => false

namespace World

variable [Inhabited T]

/-- A call that throws at `f`, if it gets there. -/
def attempt (w : World K T) (f : Option Failure) (c : Call K T) :
    Except Exn (Result T) × World K T :=
  let r := World.step { w with throwAt := f.map Failure.point } c
  (r.1, { r.2 with throwAt := none })

def runAttempts (w : World K T) : List (Option Failure × Call K T) → World K T
  | [] => w
  | x :: xs => runAttempts (w.attempt x.1 x.2).2 xs

/-- Positions are within the map, and if anything throws it is an insertion, where it
appends. -/
def appendOnly (w : World K T) (x : Option Failure × Call K T) : Bool :=
  Lists.legal (fun y => (w.maps y).vec) x.2 &&
    match x.1 with
    | none => true
    | some (.append _) => x.2.inserts
    | some (.index _) => false

def everyAttempt (p : World K T → Option Failure × Call K T → Bool) (w : World K T) :
    List (Option Failure × Call K T) → Bool
  | [] => true
  | x :: xs => p w x && everyAttempt p (w.attempt x.1 x.2).2 xs

/-- The call completes, or leaves both members of every map as they were. -/
def Atomic (w : World K T) (f : Option Failure) (c : Call K T) : Prop :=
  (∃ r, (w.attempt f c).1 = .ok r) ∨ (w.attempt f c).2.maps = w.maps

end World

/-! ## Rules for the points that may throw -/

section Rules

variable {s : Store K T} {e : Exn} {Q : PUnit → Store K T → Prop} {E : Exn → Store K T → Prop}

theorem runs_mayThrow_zero (h : s.throwAt = some 0) :
    Runs (mayThrow e) s Q E ↔ E e { s with throwAt := none } := by
  rw [mayThrow, runs_bind, runs_get, h]
  exact Iff.rfl

theorem runs_mayThrow_succ {n : ℕ} (h : s.throwAt = some (n + 1)) :
    Runs (mayThrow e) s Q E ↔ Q ⟨⟩ { s with throwAt := some n } := by
  rw [mayThrow, runs_bind, runs_get, h]
  exact Iff.rfl

end Rules

/-! ## An insertion that may throw -/

section Insertions

variable {o : StrictWeakOrder K} {l : List (K × T)} {s : Store K T}

/-- The map holds the pairs `l`, with no more than the throwing point left to come. -/
def HoldsAt (o : StrictWeakOrder K) (l : List (K × T)) (s : Store K T) : Prop :=
  Holds o l { s with throwAt := none }

/-- No append has thrown yet, and the next point is an append. -/
def AtAppend (o : StrictWeakOrder K) (l : List (K × T)) (s : Store K T) : Prop :=
  HoldsAt o l s ∧ ∃ n, s.throwAt = some (2 * n)

/-- A new pair: what happens at each point. -/
theorem runs_insert_new (h : HoldsAt o l s) {e : K × T} (hnew : AssocList.has o l e.1 = false)
    {Q : ℕ × Bool → Store K T → Prop} {E : Exn → Store K T → Prop} :
    Runs (insert e) s Q E ↔ Runs (do
      mayThrow .badAlloc
      modifySelf fun m => { m with vec := m.vec ++ [e] }
      mayThrow .badAlloc
      modifySelf fun m => { m with map := m.map.insert e.1 (m.vec.length - 1) }
      sizesExpr
      return (l.length, true)) s Q E := by
  have hagrees : Agrees s.self := h.agrees
  have horder : s.self.map.order = o := h.order
  have hvec : s.self.vec = l := h.vec
  rw [SequentialMap.insert, runs_bind, runs_sizesExpr hagrees, runs_bind, runs_find hagrees,
    runs_bind, runs_self, horder, hvec, if_pos (AssocList.position_eq_length hnew),
    AssocList.position_eq_length hnew]
  simp only [runs_bind, runs_pure, runs_modifySelf]

/-- A key that is there: nothing happens. -/
theorem runs_insert_old (h : HoldsAt o l s) {e : K × T} (hold : AssocList.has o l e.1 = true)
    {Q : ℕ × Bool → Store K T → Prop} {E : Exn → Store K T → Prop} :
    Runs (insert e) s Q E ↔ Q (AssocList.position o l e.1, false) s := by
  have hagrees : Agrees s.self := h.agrees
  have horder : s.self.map.order = o := h.order
  have hvec : s.self.vec = l := h.vec
  rw [SequentialMap.insert, runs_bind, runs_sizesExpr hagrees, runs_bind, runs_find hagrees,
    runs_bind, runs_self, horder, hvec, if_neg (Nat.ne_of_lt (AssocList.has_iff.mp hold)),
    runs_bind, runs_pure, runs_bind, runs_sizesExpr hagrees, runs_pure]

/-- **An insertion that can throw only where it appends** leaves the map as it was if
it throws. -/
theorem insert_attempt (h : AtAppend o l s) (e : K × T) :
    Runs (insert e) s
      (fun r s' => r = (AssocList.position o l e.1, !AssocList.has o l e.1) ∧
        AtAppend o (AssocList.insert o l e) s')
      fun _ s' => s' = { s with throwAt := none } := by
  obtain ⟨h, n, hn⟩ := h
  cases hhas : AssocList.has o l e.1 with
  | true =>
      rw [runs_insert_old h hhas, AssocList.insert, hhas]
      exact ⟨rfl, h, n, hn⟩
  | false =>
      rw [runs_insert_new h hhas, runs_bind]
      cases n with
      | zero =>
          rw [runs_mayThrow_zero hn]
      | succ n =>
          have happ : HoldsAt o (l ++ [e]) ⟨⟨s.self.vec ++ [e],
              s.self.map.insert e.1 s.self.vec.length⟩, some (2 * n), s.broken⟩ := h.appended hhas
          have hagrees : Agrees (⟨s.self.vec ++ [e], s.self.map.insert e.1 s.self.vec.length⟩ :
              SequentialMap K T) := happ.agrees
          have hlen : (s.self.vec ++ [e]).length - 1 = s.self.vec.length := by simp
          rw [runs_mayThrow_succ (n := 2 * n + 1) hn, runs_bind, runs_modifySelf, runs_bind,
            runs_mayThrow_succ (n := 2 * n) rfl, runs_bind, runs_modifySelf]
          dsimp only
          rw [hlen, runs_bind, runs_sizesExpr hagrees, runs_pure, AssocList.insert, hhas,
            AssocList.position_eq_length hhas]
          exact ⟨rfl, happ, n, rfl⟩

/-- The index throws: the pair has been appended. -/
theorem insert_index_throws (h : HoldsAt o l s) {e : K × T}
    (hnew : AssocList.has o l e.1 = false) (hthrow : s.throwAt = some 1) :
    Runs (insert e) s (fun _ _ => False) fun _ s' => s'.self.vec = l ++ [e] := by
  have hvec : s.self.vec = l := h.vec
  rw [runs_insert_new h hnew, runs_bind, runs_mayThrow_succ (n := 0) hthrow, runs_bind,
    runs_modifySelf, runs_bind, runs_mayThrow_zero rfl, hvec]

/-- **An insertion** completes or leaves the map as it was, unless the index throws. -/
theorem insert_atomic (h : HoldsAt o l s) {e : K × T}
    (hindex : s.throwAt = some 1 → AssocList.has o l e.1 = true) :
    Runs (insert e) s
      (fun r s' => r.1 = AssocList.position o l e.1 ∧ s'.self.vec = AssocList.insert o l e ∧
        Agrees s'.self)
      fun _ s' => s'.self = s.self := by
  have hvec : s.self.vec = l := h.vec
  cases hhas : AssocList.has o l e.1 with
  | true =>
      rw [runs_insert_old h hhas, AssocList.insert, hhas]
      exact ⟨rfl, hvec, h.agrees⟩
  | false =>
      have happ := h.appended hhas
      have hagrees : Agrees (⟨s.self.vec ++ [e], s.self.map.insert e.1 s.self.vec.length⟩ :
          SequentialMap K T) := happ.agrees
      have hlen : (s.self.vec ++ [e]).length - 1 = s.self.vec.length := by simp
      rw [runs_insert_new h hhas, runs_bind, AssocList.insert, hhas,
        AssocList.position_eq_length hhas, ← hvec]
      -- a new key has two throw points: the append, and the insertion in the index
      rcases hpoint : s.throwAt with _ | _ | _ | n
      · rw [runs_mayThrow hpoint, runs_bind, runs_modifySelf, runs_bind]
        rw [runs_mayThrow (by exact hpoint), runs_bind, runs_modifySelf]
        dsimp only
        rw [hlen, runs_bind, runs_sizesExpr hagrees]
        exact ⟨rfl, rfl, hagrees⟩
      · rw [runs_mayThrow_zero hpoint]
      · rw [hhas] at hindex
        exact absurd (hindex hpoint) Bool.false_ne_true
      · rw [runs_mayThrow_succ (n := n + 1) hpoint, runs_bind, runs_modifySelf, runs_bind,
          runs_mayThrow_succ (n := n) rfl, runs_bind, runs_modifySelf]
        dsimp only
        rw [hlen, runs_bind, runs_sizesExpr hagrees]
        exact ⟨rfl, rfl, hagrees⟩

/-- The map holds some pairs. -/
def HoldsSome (o : StrictWeakOrder K) (s : Store K T) : Prop := ∃ l, HoldsAt o l s

theorem AtAppend.holdsSome (h : AtAppend o l s) : HoldsSome o s := ⟨l, h.1⟩

theorem AtAppend.calm (h : AtAppend o l s) : HoldsSome o { s with throwAt := none } := ⟨l, h.1⟩

theorem insertAt_attempt (h : AtAppend o l s) (position : ℕ) (e : K × T) :
    Runs (insertAt position e) s (fun _ => HoldsSome o) fun _ => HoldsSome o := by
  rw [insertAt, runs_bind]
  apply (insert_attempt h e).mono
  · rintro r s' ⟨-, h'⟩
    exact h'.holdsSome
  · rintro _ _ rfl
    exact h.calm

theorem insertRange_attempt (h : AtAppend o l s) (es : List (K × T)) :
    Runs (insertRange es) s (fun _ => HoldsSome o) fun _ => HoldsSome o := by
  have hagrees : Agrees s.self := h.1.agrees
  rw [insertRange, runs_bind, runs_sizesExpr hagrees]
  apply Runs.bind (P := fun _ s' => ∃ l', AtAppend o l' s')
  · induction es generalizing l s with
    | nil => exact ⟨l, h⟩
    | cons e es ih =>
        show Runs (discard (insert e) >>= fun _ => es.forM fun val => discard (insert val)) s _ _
        apply Runs.bind (P := fun _ s' => AtAppend o (AssocList.insert o l e) s')
        · rw [runs_discard]
          apply (insert_attempt h e).mono
          · rintro _ s' ⟨-, h'⟩
            exact h'
          · rintro _ _ rfl
            exact h.calm
        · intro _ s' h'
          exact ih h' h'.1.agrees
  · rintro _ s' ⟨l', h'⟩
    have hagrees' : Agrees s'.self := h'.1.agrees
    rw [runs_sizesExpr hagrees']
    exact h'.holdsSome

theorem operatorIndex_attempt [Inhabited T] (h : AtAppend o l s) (k : K) :
    Runs (operatorIndex k) s
      (fun r s' => r = AssocList.position o l k ∧
        AtAppend o (AssocList.insert o l (k, default)) s')
      fun _ s' => s' = { s with throwAt := none } := by
  have hagrees : Agrees s.self := h.1.agrees
  have horder : s.self.map.order = o := h.1.order
  have hvec : s.self.vec = l := h.1.vec
  rw [operatorIndex, runs_bind, runs_sizesExpr hagrees, runs_bind, runs_find hagrees, runs_bind,
    runs_self, horder, hvec]
  dsimp only
  cases hhas : AssocList.has o l k with
  | true =>
      rw [if_neg (Nat.ne_of_lt (AssocList.has_iff.mp hhas)), runs_bind, runs_pure, runs_bind,
        runs_sizesExpr hagrees, runs_pure, AssocList.insert, hhas]
      exact ⟨rfl, h⟩
  | false =>
      rw [if_pos (AssocList.position_eq_length hhas), runs_bind]
      apply (insert_attempt h (k, default)).mono
      · rintro _ s' ⟨rfl, h'⟩
        have hagrees' : Agrees s'.self := h'.1.agrees
        rw [runs_bind, runs_pure, runs_bind, runs_sizesExpr hagrees']
        exact ⟨rfl, h'⟩
      · exact fun _ _ h' => h'

theorem index_attempt [Inhabited T] (h : AtAppend o l s) (k : K) :
    Runs (do return Result.value (← deref (← operatorIndex k)).2) s
      (fun _ s' => HoldsSome o s') fun _ s' => s' = { s with throwAt := none } := by
  rw [runs_bind]
  apply (operatorIndex_attempt h k).mono
  · rintro _ s' ⟨rfl, h'⟩
    have hlt : AssocList.position o l k < (AssocList.insert o l (k, default)).length := by
      rw [← AssocList.position_insert (k, default)]
      exact AssocList.has_iff.mp (AssocList.has_insert (k, default))
    have hvec : s'.self.vec = AssocList.insert o l (k, default) := h'.1.vec
    rw [runs_bind, deref, runs_bind, runs_self, hvec, List.getElem?_eq_getElem hlt]
    exact h'.holdsSome
  · exact fun _ _ h' => h'

theorem assignIndex_attempt [Inhabited T] (h : AtAppend o l s) (k : K) (v : T) :
    Runs (assignIndex k v) s (fun _ => HoldsSome o) fun _ => HoldsSome o := by
  rw [assignIndex, runs_bind]
  apply (operatorIndex_attempt h k).mono
  · rintro it s' ⟨-, h'⟩
    rw [runs_modifySelf]
    have hkeys : (s'.self.vec.modify it fun e => (e.1, v)).map Prod.fst =
        s'.self.vec.map Prod.fst := by
      ext i
      simp only [List.getElem?_map, List.getElem?_modify]
      split <;> cases s'.self.vec[i]? <;> rfl
    refine ⟨_, rfl, h'.1.broken, h'.1.order, rfl, ?_⟩
    exact h'.1.agrees.of_keys hkeys
  · rintro _ _ rfl
    exact h.calm

theorem index_atomic [Inhabited T] (h : HoldsAt o l s) {k : K}
    (hindex : s.throwAt = some 1 → AssocList.has o l k = true) :
    Runs (do return Result.value (← deref (← operatorIndex k)).2) s (fun _ _ => True)
      fun _ s' => s'.self = s.self := by
  have hagrees : Agrees s.self := h.agrees
  have horder : s.self.map.order = o := h.order
  have hvec : s.self.vec = l := h.vec
  rw [runs_bind, operatorIndex, runs_bind, runs_sizesExpr hagrees, runs_bind, runs_find hagrees,
    runs_bind, runs_self, horder, hvec]
  dsimp only
  cases hhas : AssocList.has o l k with
  | true =>
      have hlt := AssocList.has_iff.mp hhas
      rw [if_neg (Nat.ne_of_lt hlt), runs_bind, runs_pure, runs_bind, runs_sizesExpr hagrees,
        runs_pure, runs_bind, deref, runs_bind, runs_self, hvec, List.getElem?_eq_getElem hlt]
      trivial
  | false =>
      rw [if_pos (AssocList.position_eq_length hhas), runs_bind]
      apply (insert_atomic h (e := (k, default)) hindex).mono
      · rintro r s' ⟨hr, hvec', hagrees'⟩
        have hlt : r.1 < (AssocList.insert o l (k, default)).length := by
          rw [hr, ← AssocList.position_insert (k, default)]
          exact AssocList.has_iff.mp (AssocList.has_insert (k, default))
        rw [runs_bind, runs_pure, runs_bind, runs_sizesExpr hagrees', runs_pure, runs_bind, deref,
          runs_bind, runs_self, hvec', List.getElem?_eq_getElem hlt]
        trivial
      · exact fun _ _ h' => h'

theorem index_index_throws [Inhabited T] (h : HoldsAt o l s) {k : K}
    (hnew : AssocList.has o l k = false) (hthrow : s.throwAt = some 1) :
    Runs (do return Result.value (← deref (← operatorIndex k)).2) s (fun _ _ => False)
      fun _ s' => s'.self.vec = l ++ [(k, default)] := by
  have hagrees : Agrees s.self := h.agrees
  have horder : s.self.map.order = o := h.order
  have hvec : s.self.vec = l := h.vec
  rw [runs_bind, operatorIndex, runs_bind, runs_sizesExpr hagrees, runs_bind, runs_find hagrees,
    runs_bind, runs_self, horder, hvec]
  dsimp only
  rw [if_pos (AssocList.position_eq_length hnew), runs_bind]
  exact (insert_index_throws h (e := (k, default)) hnew hthrow).mono (fun _ _ h' => h'.elim)
    fun _ _ h' => h'

end Insertions

/-! ## Calls -/

section Calls

variable [Inhabited T] {o : StrictWeakOrder K} {w : World K T}

/-- Every map holds the pairs of its vector. -/
def Sound (o : StrictWeakOrder K) (w : World K T) : Prop :=
  Represents o w fun x => (w.maps x).vec

omit [Inhabited T] in
theorem Represents.sound {σ : Lists K T} (h : Represents o w σ) : Sound o w := by
  intro x
  have hvec : (w.maps x).vec = σ x := (h x).vec
  show Holds o (w.maps x).vec _
  rw [hvec]
  exact h x

omit [Inhabited T] in
theorem Sound.atAppend (h : Sound o w) (x n : ℕ) :
    AtAppend o (w.maps x).vec ⟨w.maps x, some (2 * n), w.broken⟩ :=
  ⟨⟨rfl, (h x).broken, (h x).order, rfl, (h x).agrees⟩, n, rfl⟩

omit [Inhabited T] in
/-- One map replaced, by what a call left of it. -/
theorem Sound.after (h : Sound o w) {x : ℕ} {s : Store K T} (hs : HoldsSome o s) :
    Sound o ⟨Function.update w.maps x s.self, none, s.broken⟩ := by
  obtain ⟨l, hl⟩ := hs
  exact (Represents.update h hl).sound

omit [Inhabited T] in
theorem Sound.call (h : Sound o w) {x : ℕ} {t : Option ℕ} {m : Method K T (Result T)}
    (hm : Runs m ⟨w.maps x, t, w.broken⟩ (fun _ => HoldsSome o) fun _ => HoldsSome o) :
    Sound o { (World.call { w with throwAt := t } x m).2 with throwAt := none } := by
  unfold Runs at hm
  unfold World.call
  dsimp only
  split at hm
  · rename_i hrun
    rw [hrun]
    exact h.after hm
  · rename_i hrun
    rw [hrun]
    exact h.after hm

/-- **One call** of which nothing but an append throws. -/
theorem Sound.attempt (h : Sound o w) {x : Option Failure × Call K T}
    (hx : w.appendOnly x = true) : Sound o (w.attempt x.1 x.2).2 := by
  obtain ⟨f, c⟩ := x
  rw [World.appendOnly, Bool.and_eq_true] at hx
  obtain ⟨hlegal, hf⟩ := hx
  rcases f with _ | ⟨n⟩ | ⟨n⟩
  · have hw : ({ w with throwAt := none } : World K T) = w := by
      rw [← h.throwAt]
    have hstep := (step_refines h hlegal).2
    have hattempt : (w.attempt none c).2 = (w.step c).2 := by
      show ({ (World.step { w with throwAt := none } c).2 with throwAt := none } : World K T) = _
      rw [hw, ← hstep.throwAt]
    rw [hattempt]
    exact hstep.sound
  · -- only the calls that append have a throw point that is an append
    have hat := fun y => h.atAppend y n
    cases c with
    | insert y val =>
        apply h.call
        rw [runs_bind]
        apply (insert_attempt (hat y) val).mono
        · rintro r s' ⟨-, h'⟩
          exact h'.holdsSome
        · rintro _ _ rfl
          exact (hat y).calm
    | insertAt y position val =>
        apply h.call
        rw [runs_bind]
        exact insertAt_attempt (hat y) position val
    | insertRange y vals =>
        apply h.call
        rw [runs_bind]
        exact insertRange_attempt (hat y) vals
    | index y k =>
        apply h.call
        apply (index_attempt (hat y) k).mono
        · exact fun _ _ h' => h'
        · rintro _ _ rfl
          exact (hat y).calm
    | assign y k v =>
        apply h.call
        rw [runs_bind]
        exact assignIndex_attempt (hat y) k v
    | _ => exact absurd hf Bool.false_ne_true
  · exact absurd hf Bool.false_ne_true

theorem Sound.runAttempts (xs : List (Option Failure × Call K T)) : ∀ {w : World K T},
    Sound o w → World.everyAttempt World.appendOnly w xs = true → Sound o (w.runAttempts xs) := by
  induction xs with
  | nil => intro w h _; exact h
  | cons x xs ih =>
      intro w h hxs
      rw [World.everyAttempt, Bool.and_eq_true] at hxs
      exact ih (h.attempt hxs.1) hxs.2

theorem World.atomic_of_runs {f : Option Failure} {c : Call K T} {x : ℕ}
    {m : Method K T (Result T)} (hc : ∀ w : World K T, w.step c = w.call x m)
    (hm : Runs m ⟨w.maps x, f.map Failure.point, w.broken⟩ (fun _ _ => True)
      fun _ s' => s'.self = w.maps x) : w.Atomic f c := by
  unfold Runs at hm
  unfold World.Atomic World.attempt
  rw [hc, World.call]
  dsimp only
  split at hm
  · rename_i hrun
    rw [hrun]
    exact Or.inl ⟨_, rfl⟩
  · rename_i hrun
    rw [hrun]
    right
    dsimp only
    rw [hm, Function.update_eq_self]

theorem World.not_atomic_of_runs {f : Option Failure} {c : Call K T} {x : ℕ}
    {m : Method K T (Result T)} (hc : ∀ w : World K T, w.step c = w.call x m)
    (hm : Runs m ⟨w.maps x, f.map Failure.point, w.broken⟩ (fun _ _ => False)
      fun _ s' => s'.self.vec ≠ (w.maps x).vec) : ¬ w.Atomic f c := by
  unfold Runs at hm
  unfold World.Atomic World.attempt
  rw [hc, World.call]
  dsimp only
  split at hm
  · exact hm.elim
  · rename_i hrun
    rw [hrun]
    rintro (⟨r, hr⟩ | hmaps)
    · cases hr
    · dsimp only at hmaps
      have hx := congrFun hmaps x
      rw [Function.update_self] at hx
      exact hm (by rw [hx])

/-- The index may throw only if there is nothing to insert. -/
def NoIndexThrow (o : StrictWeakOrder K) (w : World K T) (f : Option Failure) (x : ℕ) (k : K) :
    Prop :=
  f = some (.index 0) → AssocList.has o (w.maps x).vec k = true

omit [Inhabited T] in
theorem point_eq_one {f : Option Failure} :
    f.map Failure.point = some 1 ↔ f = some (.index 0) := by
  rcases f with _ | ⟨n⟩ | ⟨n⟩
  · simp only [Option.map_none, reduceCtorEq]
  · have hodd : 2 * n ≠ 1 := by omega
    simp only [Option.map_some, Failure.point, Option.some.injEq, hodd, reduceCtorEq]
  · have heq : 2 * n + 1 = 1 ↔ n = 0 := by omega
    simp only [Option.map_some, Failure.point, Option.some.injEq, heq, Failure.index.injEq]

omit [Inhabited T] in
theorem Sound.holdsAt (h : Sound o w) (x : ℕ) (t : Option ℕ) :
    HoldsAt o (w.maps x).vec ⟨w.maps x, t, w.broken⟩ :=
  ⟨rfl, (h x).broken, (h x).order, rfl, (h x).agrees⟩

theorem Sound.insert_atomic_iff (h : Sound o w) {f : Option Failure} {x : ℕ} {val : K × T} :
    w.Atomic f (.insert x val) ↔ NoIndexThrow o w f x val.1 := by
  have hat := h.holdsAt x (f.map Failure.point)
  constructor
  · intro hatomic hf
    by_contra hnew
    refine World.not_atomic_of_runs (fun _ => rfl) ?_ hatomic
    rw [runs_bind]
    apply (insert_index_throws hat (Bool.not_eq_true _ ▸ hnew) (point_eq_one.mpr hf)).mono
    · exact fun _ _ h' => h'.elim
    · rintro _ s' h' heq
      rw [h'] at heq
      exact absurd (congrArg List.length heq) (by simp)
  · intro hf
    apply World.atomic_of_runs (fun _ => rfl)
    rw [runs_bind]
    apply (insert_atomic hat fun hpoint => hf (point_eq_one.mp hpoint)).mono
    · exact fun _ _ _ => trivial
    · exact fun _ _ h' => h'

theorem Sound.index_atomic_iff (h : Sound o w) {f : Option Failure} {x : ℕ} {k : K} :
    w.Atomic f (.index x k) ↔ NoIndexThrow o w f x k := by
  have hat := h.holdsAt x (f.map Failure.point)
  constructor
  · intro hatomic hf
    by_contra hnew
    refine World.not_atomic_of_runs (fun _ => rfl) ?_ hatomic
    apply (index_index_throws hat (Bool.not_eq_true _ ▸ hnew) (point_eq_one.mpr hf)).mono
    · exact fun _ _ h' => h'.elim
    · rintro _ s' h' heq
      rw [h'] at heq
      exact absurd (congrArg List.length heq) (by simp)
  · intro hf
    apply World.atomic_of_runs (fun _ => rfl)
    exact index_atomic hat fun hpoint => hf (point_eq_one.mp hpoint)

/-- **Insertions are atomic if the index does not throw.**  After any run of calls in
which appends may throw and the index does not, the two members agree and no contract
expression was false; and from there an insertion is atomic unless the index throws
for a new key. -/
theorem insertions_atomic_iff (o : StrictWeakOrder K) (xs : List (Option Failure × Call K T))
    (hxs : World.everyAttempt World.appendOnly (World.start o) xs = true) :
    let w := (World.start o).runAttempts xs
    w.broken = false ∧
      (∀ x, (w.maps x).vec.length = (w.maps x).map.size ∧
        Coherent o (w.maps x) (w.maps x).vec) ∧
      (∀ f x val, w.Atomic f (.insert x val) ↔ NoIndexThrow o w f x val.1) ∧
      ∀ f x k, w.Atomic f (.index x k) ↔ NoIndexThrow o w f x k := by
  have hsound : Sound o ((World.start o).runAttempts xs) :=
    Sound.runAttempts xs (represents_start o).sound hxs
  refine ⟨hsound.broken, ?_, ?_, ?_⟩
  · intro x
    exact ⟨(hsound x).agrees.size_eq.symm, (hsound x).coherent⟩
  · exact fun f x val => hsound.insert_atomic_iff
  · exact fun f x k => hsound.index_atomic_iff

/-- The second pair of a range cannot be appended; the map goes on with the first. -/
theorem insertions_atomic_iff_range :
    let w := (World.start natOrder).runAttempts
      [(some (.append 1), Call.insertRange 0 [(3, 30), (1, 10)]), (none, .insert 0 (2, 20))]
    (w.maps 0).vec = [(3, 30), (2, 20)] ∧ Coherent natOrder (w.maps 0) (w.maps 0).vec := by
  have h := insertions_atomic_iff natOrder
    [(some (.append 1), Call.insertRange 0 [(3, 30), (1, 10)]), (none, .insert 0 (2, 20))]
    (by decide +kernel)
  exact ⟨by decide +kernel, (h.2.1 0).2⟩

/-- The index throws: the pair stays behind in the vector. -/
theorem index_throw_breaks_map :
    let w := ((World.start natOrder).attempt (some (.index 0)) (Call.insert 0 (1, 10))).2
    ¬ (World.start natOrder).Atomic (some (.index 0)) (Call.insert 0 (1, 10)) ∧
      (w.maps 0).vec.length ≠ (w.maps 0).map.size := by
  constructor
  · rw [(represents_start natOrder).sound.insert_atomic_iff, NoIndexThrow]
    decide +kernel
  · decide +kernel

end Calls
end SequentialMap
end KssUtil.Containers

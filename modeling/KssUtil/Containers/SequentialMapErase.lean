import KssUtil.Containers.SequentialMapRuns

/-!
# Positions that `erase` should reject

Positions outside the map are documented to raise `invalid_argument`.  What is
compared is only the signs of `first - begin()` and `last - first`, behind contract
expressions that say the same; `end()` is never looked at.

A false contract expression may end the program or do nothing, depending on how the
contracts were built.  Both readings are covered.
-/

namespace KssUtil.Containers

open KssUtil.Foundation

namespace SequentialMap

variable {K T : Type}

/-- `size()` -/
def size (m : SequentialMap K T) : ℕ := m.map.size

/-- `erase(find(k))` -/
def eraseFound (k : K) : Method K T PUnit := do
  let it ← find k
  erasePosition it

/-- The call throws `invalid_argument` and leaves the map unchanged.  Where contracts
are `terminating` it gets that far only if none of their expressions is false. -/
def Rejects (terminating : Bool) (m : Method K T PUnit) (s : Store K T) : Prop :=
  Runs m s (fun _ _ => False) fun e s' =>
    e = .invalidArgument ∧ s'.self = s.self ∧ (terminating = true → s'.broken = false)

/-! ## What `erase` does at any positions -/

section Erase

variable {s : Store K T} {i j : ℤ}

theorem runs_expr_any {b : Bool} {Q : PUnit → Store K T → Prop} {E : Exn → Store K T → Prop} :
    Runs (expr b) s Q E ↔ Q ⟨⟩ { s with broken := s.broken || !b } := Iff.rfl

theorem runs_sizesExpr_any {Q : PUnit → Store K T → Prop} {E : Exn → Store K T → Prop} :
    Runs sizesExpr s Q E ↔
      Q ⟨⟩ { s with broken := s.broken || !(s.self.vec.length == s.self.map.size) } := Iff.rfl

/-- A start before `begin()`, or a reversed range, is noticed twice: by a contract
expression and by the test that throws. -/
theorem eraseRange_bad (h : i < 0 ∨ j < i) :
    Runs (eraseRange i j) s (fun _ _ => False) fun e s' =>
      e = .invalidArgument ∧ s'.self = s.self ∧ s'.broken = true := by
  have hbad : i < 0 ∨ j - i < 0 := h.imp_right fun hji => by omega
  have hexpr : (!decide (i ≥ 0) || !decide (j ≥ i)) = true := by
    rw [← Bool.not_and, Bool.not_eq_true', Bool.and_eq_false_iff, decide_eq_false_iff_not,
      decide_eq_false_iff_not]
    omega
  rw [eraseRange, runs_bind, runs_expr_any, runs_bind, runs_expr_any, runs_bind,
    runs_sizesExpr_any]
  dsimp only
  rw [if_pos hbad, runs_bind, runs_throw]
  refine ⟨rfl, rfl, ?_⟩
  rw [Bool.or_assoc s.broken, hexpr, Bool.or_true, Bool.true_or]

/-- One turn of the loop gets past the position `p` only if there is a pair there. -/
theorem erase_turn (p : ℕ) :
    Runs (do
      let e ← deref p
      modifySelf fun m => { m with map := m.map.erase e.1 }) s
      (fun _ s' => s'.self.vec = s.self.vec ∧ p < s.self.vec.length) fun e _ => e = .undefined := by
  rw [runs_bind, deref, runs_bind, runs_self]
  cases hget : s.self.vec[p]? with
  | none => exact rfl
  | some e => exact ⟨rfl, (List.getElem?_eq_some_iff.mp hget).1⟩

/-- A range in order passes the test, wherever it ends.  The call returns only if the
range is empty or within the map, and nothing else notices: otherwise it reads past
the end. -/
theorem eraseRange_ordered (hi : 0 ≤ i) (hij : i ≤ j) :
    Runs (eraseRange i j) s (fun _ _ => i = j ∨ j ≤ s.self.vec.length)
      fun e _ => e = .undefined := by
  have hgood : ¬(i < 0 ∨ j - i < 0) := by omega
  rw [eraseRange, runs_bind, runs_expr_any, runs_bind, runs_expr_any, runs_bind,
    runs_sizesExpr_any]
  dsimp only
  rw [if_neg hgood]
  -- the loop gets past a position only by reading the pair there
  have hloop := fun t : Store K T => runs_forCount (fun p (s' : Store K T) =>
      s'.self.vec = s.self.vec ∧ (p = i.toNat ∨ p ≤ s.self.vec.length))
    (fun p s' (_ : p < j.toNat) hs' => (erase_turn (s := s') p).mono
      (fun _ u hu => ⟨hu.1.trans hs'.1, Or.inr (hs'.1 ▸ hu.2)⟩) fun _ _ hE => hE)
    (j - i).toNat i.toNat t (by omega)
  refine Runs.bind (hloop _ ?_) ?_
  · exact ⟨rfl, Or.inl rfl⟩
  · rintro _ s' ⟨-, hend⟩
    show i = j ∨ j ≤ s.self.vec.length
    omega

/-- `erase(first, last)` throws where it compares the positions and finds them bad,
and nowhere else. -/
theorem eraseRange_rejects {terminating : Bool} :
    Rejects terminating (eraseRange i j) s ↔ terminating = false ∧ (i < 0 ∨ j < i) := by
  by_cases hbad : i < 0 ∨ j < i
  · rw [and_iff_left hbad]
    constructor
    · intro hrejects
      rw [← Bool.not_eq_true]
      intro hterm
      refine (eraseRange_bad hbad).excludes (fun _ _ h => h.elim) ?_ hrejects
      rintro e s' ⟨-, -, hbroken⟩ ⟨-, -, hsound⟩
      rw [hsound hterm] at hbroken
      exact Bool.false_ne_true hbroken
    · rintro rfl
      apply (eraseRange_bad hbad).mono
      · exact fun _ _ h => h
      · rintro e s' ⟨he, hs', -⟩
        exact ⟨he, hs', fun h => absurd h Bool.false_ne_true⟩
  · constructor
    · intro hrejects
      refine absurd hrejects ((eraseRange_ordered (by omega) (by omega)).excludes ?_ ?_)
      · exact fun _ _ _ h => h
      · rintro _ s' rfl ⟨he, -⟩
        exact Exn.noConfusion he
    · exact fun h => absurd h.2 hbad

theorem erasePosition_rejects {terminating : Bool} :
    Rejects terminating (erasePosition i) s ↔ terminating = false ∧ i < 0 := by
  have hstep : (i < 0 ∨ i + 1 < i) ↔ i < 0 := by omega
  rw [erasePosition, eraseRange_rejects, hstep]

/-- Whatever `find` returns, it is not before `begin()`. -/
theorem eraseFound_rejects {terminating : Bool} (k : K) :
    ¬ Rejects terminating (eraseFound k) s := by
  have hnever : ∀ (it : ℕ) (t : Store K T), ¬ Runs (erasePosition it) t (fun _ _ => False)
      fun e s' => e = .invalidArgument ∧ s'.self = s.self ∧
        (terminating = true → s'.broken = false) := by
    intro it t
    refine (eraseRange_ordered (Int.natCast_nonneg it) (by omega)).excludes ?_ ?_
    · exact fun _ _ _ h => h
    · rintro _ s' rfl ⟨he, -⟩
      exact Exn.noConfusion he
  intro hrejects
  rw [Rejects, eraseFound, runs_bind] at hrejects
  exact hnever _ _ hrejects

end Erase

/-! ## When bad positions are rejected -/

/-- **Bad positions are rejected only where they lie before `begin()` or in the wrong
order, and only if contracts do not end the program first.**  For any state of the map
and any positions: where the range is not within the map, `erase` throws and leaves the
map unchanged in just those cases.  A position past the end never is, so the position
`find` returns for a key that is not there never is either. -/
theorem erase_rejects_iff (terminating : Bool) (s : Store K T) (i j : ℤ) (k : K) :
    ((¬(0 ≤ i ∧ i ≤ j ∧ j ≤ s.self.size) → Rejects terminating (eraseRange i j) s) ↔
        (0 ≤ i ∧ i ≤ j ∧ j ≤ s.self.size) ∨ terminating = false ∧ (i < 0 ∨ j < i)) ∧
      ((¬(0 ≤ i ∧ i < s.self.size) → Rejects terminating (erasePosition i) s) ↔
        (0 ≤ i ∧ i < s.self.size) ∨ terminating = false ∧ i < 0) ∧
      ((s.self.map.find? k = none → Rejects terminating (eraseFound k) s) ↔
        s.self.map.find? k ≠ none) := by
  refine ⟨?_, ?_, ?_⟩
  · rw [eraseRange_rejects]
    exact or_iff_not_imp_left.symm
  · rw [erasePosition_rejects]
    exact or_iff_not_imp_left.symm
  · exact forall_congr' fun _ => iff_false_intro (eraseFound_rejects k)

/-- In a map with one pair, `erase(find(2))` reads past the end for want of a key 2. -/
theorem erase_end_is_not_rejected :
    let w := ((World.start natOrder).run [.insert 0 ((1 : ℕ), (10 : ℕ))]).2
    (w.step (.find 0 2)).1 = .ok (.position 1) ∧
      (w.step (.erasePosition 0 1)).1 = .error .undefined ∧
        ∀ terminating, ¬ Rejects terminating (eraseFound 2) ⟨w.maps 0, w.throwAt, w.broken⟩ :=
  ⟨by decide +kernel, by decide +kernel, fun _ => eraseFound_rejects 2⟩

end SequentialMap
end KssUtil.Containers

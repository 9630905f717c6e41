import KssUtil.Foundation.RemoveIf
import KssUtil.Containers.SequentialMapThrows

/-!
# `eraseIf` on sequential maps (containerutil.hpp)

`std::remove_if` moves pairs through the iterators of the map, past its index; the
range that is erased afterwards is looked up by the keys that are found there.
-/

namespace KssUtil.Containers

open KssUtil.Foundation

namespace SequentialMap

variable {K T : Type}

/-- `eraseIf(c, pred)` -/
def eraseIf (pred : K × T → Bool) (movedFrom : K × T → K × T) : Method K T PUnit := do
  let m ← self
  let r := removeIf pred movedFrom m.vec
  modifySelf fun m => { m with vec := r.1 ++ r.2 }
  eraseRange r.1.length (r.1 ++ r.2).length

/-- The map becomes its pairs that do not satisfy `pred`, and answers as they do. -/
def Erases (o : StrictWeakOrder K) (pred : K × T → Bool) (movedFrom : K × T → K × T)
    (s : Store K T) : Prop :=
  let kept := s.self.vec.filter fun e => !pred e
  ∃ s', eraseIf pred movedFrom s = .ok ⟨⟩ s' ∧ s'.broken = false ∧ Coherent o s'.self kept ∧
    ∀ k, Returns (find k) s' (fun r t => r = AssocList.position o kept k ∧ t = s') ∧
      Runs (at' k) s' (fun v t => AssocList.lookup o kept k = some v ∧ t = s')
        fun e t => AssocList.lookup o kept k = none ∧ e = .outOfRange ∧ t = s'

section

variable {o : StrictWeakOrder K} {l : List (K × T)} {s : Store K T} {pred : K × T → Bool}
  {movedFrom : K × T → K × T}

/-- Nothing is moved, and the range that is erased is the one that should be. -/
theorem Holds.erases (h : Holds o l s) (hlast : RemovedLast pred l) :
    Erases o pred movedFrom s := by
  have happ : (removeIf pred movedFrom l).1 ++ (removeIf pred movedFrom l).2 = l :=
    removeIf_append_of_removedLast hlast
  have hkept : (removeIf pred movedFrom l).1 = l.filter fun e => !pred e := removeIf_fst l
  have hself : { s with self := { s.self with vec := l } } = s := by
    rw [← h.vec]
  have hle : (removeIf pred movedFrom l).1.length ≤ l.length := by
    have hlen := congrArg List.length happ
    rw [List.length_append] at hlen
    omega
  have htake : ((removeIf pred movedFrom l).1 ++ (removeIf pred movedFrom l).2).take
      (removeIf pred movedFrom l).1.length = (removeIf pred movedFrom l).1 := List.take_left
  rw [happ] at htake
  have hrange : AssocList.eraseRange l (removeIf pred movedFrom l).1.length l.length =
      l.filter fun e => !pred e := by
    rw [AssocList.eraseRange, List.drop_length, List.append_nil, htake, hkept]
  have hruns : Returns (eraseIf pred movedFrom) s
      fun _ s' => Holds o (l.filter fun e => !pred e) s' := by
    rw [Returns, eraseIf, runs_bind, runs_self, runs_bind, runs_modifySelf, h.vec, happ, hself,
      ← hrange]
    exact eraseRange_returns h hle (Nat.le_refl _)
  obtain ⟨_, s', hrun, h'⟩ := hruns.exists
  rw [← h.vec] at h'
  exact ⟨s', hrun, h'.broken, h'.coherent, fun k => ⟨find_returns h' k, at_runs h' k⟩⟩

theorem runs_expr_record {b : Bool} {Q : PUnit → Store K T → Prop}
    {E : Exn → Store K T → Prop} :
    Runs (expr b) s Q E ↔ Q ⟨⟩ { s with broken := s.broken || !b } := Iff.rfl

theorem runs_sizesExpr_record {Q : PUnit → Store K T → Prop} {E : Exn → Store K T → Prop} :
    Runs sizesExpr s Q E ↔
      Q ⟨⟩ { s with broken := s.broken || !(s.self.vec.length == s.self.map.size) } := Iff.rfl

/-- A key in the index stays there if it is not found in the range that is erased. -/
theorem eraseRange_keeps {i j : ℕ} (hij : i ≤ j) (hj : j = s.self.vec.length) {k : K} {q : ℕ}
    (hmem : (k, q) ∈ s.self.map.entries)
    (hrange : ∀ p e, i ≤ p → s.self.vec[p]? = some e →
      ¬ s.self.map.order.equiv k e.1 = true) :
    Returns (eraseRange i j) s fun _ s' => ∃ q', (k, q') ∈ s'.self.map.entries := by
  have hn : ((j : ℤ) - i).toNat = j - i := by omega
  rw [Returns, eraseRange, runs_bind, runs_expr_record, runs_bind, runs_expr_record, runs_bind,
    runs_sizesExpr_record, if_neg (by omega), Int.toNat_natCast, hn]
  -- each turn takes one entry from the index, and not the one for `k`
  apply Returns.bind (P := fun _ s' => (k, q) ∈ s'.self.map.entries)
  · refine Runs.mono (returns_forCount (fun p s' => i ≤ p ∧ s'.self.vec = s.self.vec ∧
        s'.self.map.order = s.self.map.order ∧ (k, q) ∈ s'.self.map.entries)
      ?_ (j - i) i _ (Nat.add_sub_cancel' hij) ⟨Nat.le_refl i, rfl, rfl, hmem⟩) ?_ ?_
    · rintro p s' hp ⟨hip, hvec, horder, hmem'⟩
      obtain ⟨e, he⟩ : ∃ e, s.self.vec[p]? = some e :=
        ⟨_, List.getElem?_eq_getElem (hj ▸ hp)⟩
      rw [Returns, runs_bind, deref, runs_bind, runs_self, hvec, he]
      refine ⟨Nat.le_succ_of_le hip, hvec, horder, ?_⟩
      rw [OrderedMap.mem_erase, horder]
      exact ⟨hmem', hrange p e hip he⟩
    · exact fun _ _ hI => hI.2.2.2
    · exact fun _ _ hE => hE
  · intro _ s' hmem'
    show ∃ q', (k, q') ∈ (OrderedMap.mapValues _ _).entries
    exact ⟨_, OrderedMap.mem_mapValues.mpr ⟨q, hmem', rfl⟩⟩

/-- If something is kept behind an item that is removed, the first key that should go
stays in the index. -/
theorem Holds.not_erases (h : Holds o l s) (hlast : ¬ RemovedLast pred l)
    (hmoved : ∀ e ∈ l, ∀ d ∈ l, pred e = false → pred d = true →
      ¬ o.equiv (movedFrom e).1 d.1 = true) :
    ¬ Erases o pred movedFrom s := by
  rintro ⟨s', hrun, -, hcoherent, -⟩
  obtain ⟨front, r, rest, hl, hr, hbehind⟩ : ∃ front r rest, l = front ++ r :: rest ∧
      pred r = true ∧ ∀ d ∈ (removeIf pred movedFrom l).2, (d ∈ rest ∧ pred d = true) ∨
        ∃ e ∈ rest, pred e = false ∧ movedFrom e = d := exists_overwritten hlast
  have hinequiv := h.agrees.inequivalent
  rw [h.order, h.vec, hl, List.pairwise_append, List.pairwise_cons] at hinequiv
  obtain ⟨-, ⟨hrest, -⟩, hfront⟩ := hinequiv
  have hrl : r ∈ l := by rw [hl]; simp
  have hget : s.self.vec[front.length]? = some r := by
    rw [h.vec, hl, List.getElem?_append_right (Nat.le_refl _), Nat.sub_self]
    rfl
  have hruns : Returns (eraseIf pred movedFrom) s
      fun _ s' => ∃ q', (r.1, q') ∈ s'.self.map.entries := by
    rw [Returns, eraseIf, runs_bind, runs_self, runs_bind, runs_modifySelf, h.vec]
    generalize removeIf pred movedFrom l = kb at hbehind
    have hij : kb.1.length ≤ (kb.1 ++ kb.2).length := by simp
    have hmem := h.agrees.mem_of_getElem? hget
    refine eraseRange_keeps (s := { s with self := ⟨kb.1 ++ kb.2, s.self.map⟩ }) hij rfl hmem ?_
    intro p e hip he hequiv
    dsimp only at he hequiv
    rw [h.order] at hequiv
    rw [List.getElem?_append_right hip] at he
    rcases hbehind e (List.mem_of_getElem? he) with ⟨hmem, -⟩ | ⟨d, hmem, hd, rfl⟩
    · exact hrest e hmem hequiv
    · have hdl : d ∈ l := by rw [hl]; simp [hmem]
      exact hmoved d hdl r hrl hd hr (StrictWeakOrder.equiv_symm hequiv)
  rw [Returns, Runs, hrun] at hruns
  -- so one of the kept pairs would have its key
  obtain ⟨v, hv⟩ := (hcoherent.keys r.1).mp hruns
  rw [hcoherent.vec, h.vec, List.mem_filter] at hv
  obtain ⟨hmem, hkeep⟩ := hv
  rw [hl] at hmem
  rcases List.mem_append.mp hmem with hmem | hmem
  · exact hfront _ hmem r List.mem_cons_self (StrictWeakOrder.equiv_refl r.1)
  · rcases List.mem_cons.mp hmem with heq | hmem
    · rw [heq, hr] at hkeep
      cases hkeep
    · exact hrest _ hmem (StrictWeakOrder.equiv_refl r.1)

end

/-- The map named `x` after a run of calls. -/
def reached [Inhabited T] (o : StrictWeakOrder K) (xs : List (Option Failure × Call K T)) (x : ℕ) :
    Store K T :=
  let w := (World.start o).runAttempts xs
  ⟨w.maps x, w.throwAt, w.broken⟩

/-- **`eraseIf` erases what it should if what is removed is last**, and otherwise does
not, unless a pair that was moved from happens to be left with a key that is to go. -/
theorem eraseIf_erases_iff [Inhabited T] (o : StrictWeakOrder K)
    (xs : List (Option Failure × Call K T))
    (hxs : World.everyAttempt World.appendOnly (World.start o) xs = true) (x : ℕ)
    (pred : K × T → Bool) (movedFrom : K × T → K × T) :
    let l := (reached o xs x).self.vec
    (RemovedLast pred l → Erases o pred movedFrom (reached o xs x)) ∧
      ((∀ e ∈ l, ∀ d ∈ l, pred e = false → pred d = true →
          ¬ o.equiv (movedFrom e).1 d.1 = true) →
        (Erases o pred movedFrom (reached o xs x) ↔ RemovedLast pred l)) := by
  have h : Holds o (reached o xs x).self.vec (reached o xs x) :=
    Sound.runAttempts xs (represents_start o).sound hxs x
  refine ⟨h.erases, fun hmoved => ⟨?_, h.erases⟩⟩
  intro herases
  by_contra hlast
  exact h.not_erases hlast hmoved herases

/-- Erasing the two pairs inserted last. -/
theorem eraseIf_erases_iff_last :
    Erases natOrder (fun e => 2 ≤ e.1) id
      (reached natOrder [(none, Call.insertRange 0 [(1, 10), (3, 30), (2, 20)])] 0) :=
  (eraseIf_erases_iff natOrder [(none, Call.insertRange 0 [(1, 10), (3, 30), (2, 20)])]
    (by decide +kernel) 0 (fun e => 2 ≤ e.1) id).1 (by decide +kernel)

/-- Erasing the first of two pairs: its key stays in the index, and that of the other
is lost. -/
theorem eraseIf_first_loses_key :
    ¬ Erases natOrder (fun e => e.1 = 1) id
      (reached natOrder [(none, Call.insertRange 0 [(1, 10), (2, 20)])] 0) := by
  rintro ⟨s', hrun, -, hcoherent, -⟩
  have hkey : (2, 20) ∈ s'.self.vec := by
    rw [hcoherent.vec]
    decide +kernel
  obtain ⟨q, hq⟩ := (hcoherent.keys 2).mpr ⟨20, hkey⟩
  have hresult : (eraseIf (fun e => e.1 = 1) id
      (reached natOrder [(none, Call.insertRange 0 [(1, 10), (2, 20)])] 0)) =
        .ok ⟨⟩ s' := hrun
  have hentries : s'.self.map.entries = [(1, 0)] := by
    have := congrArg (fun r : EStateM.Result Exn (Store ℕ ℕ) PUnit => match r with
      | .ok _ t => t.self.map.entries
      | .error _ t => t.self.map.entries) hresult
    dsimp only at this
    rw [← this]
    decide +kernel
  rw [hentries] at hq
  simp at hq

end SequentialMap
end KssUtil.Containers

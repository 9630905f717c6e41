import KssUtil.Containers.SequentialMapAgreement

/-!
# Sequential maps refine insertion-ordered association lists

Each method keeps the agreement of the two members, and does to the pairs what
the association list does.
-/

namespace KssUtil.Containers

open KssUtil.Foundation

namespace SequentialMap

variable {K T : Type}

/-! ## Rules for the steps of a method -/

@[simp] theorem runs_self {s : Store K T} {Q : SequentialMap K T → Store K T → Prop}
    {E : Exn → Store K T → Prop} : Runs self s Q E ↔ Q s.self s := Iff.rfl

@[simp] theorem runs_modifySelf {f : SequentialMap K T → SequentialMap K T} {s : Store K T}
    {Q : PUnit → Store K T → Prop} {E : Exn → Store K T → Prop} :
    Runs (modifySelf f) s Q E ↔ Q ⟨⟩ { s with self := f s.self } := Iff.rfl

theorem runs_expr {s : Store K T} {b : Bool} (hb : b = true) {Q : PUnit → Store K T → Prop}
    {E : Exn → Store K T → Prop} : Runs (expr b) s Q E ↔ Q ⟨⟩ s := by
  show Q ⟨⟩ { s with broken := s.broken || !b } ↔ Q ⟨⟩ s
  rw [hb, Bool.not_true, Bool.or_false]

theorem runs_sizesExpr {s : Store K T} (h : Agrees s.self) {Q : PUnit → Store K T → Prop}
    {E : Exn → Store K T → Prop} : Runs sizesExpr s Q E ↔ Q ⟨⟩ s := by
  have hsize : (s.self.vec.length == s.self.map.size) = true := by
    rw [h.size_eq, beq_self_eq_true]
  show Q ⟨⟩ { s with broken := s.broken || !(s.self.vec.length == s.self.map.size) } ↔ Q ⟨⟩ s
  rw [hsize, Bool.not_true, Bool.or_false]

theorem runs_mayThrow {s : Store K T} (h : s.throwAt = none) {e : Exn}
    {Q : PUnit → Store K T → Prop} {E : Exn → Store K T → Prop} :
    Runs (mayThrow e) s Q E ↔ Q ⟨⟩ s := by
  rw [mayThrow, runs_bind, runs_get, h]
  exact Iff.rfl

theorem advance_eq (turns : ℕ) : ∀ it remain, advance it remain turns = it + remain := by
  induction turns with
  | zero => intro it remain; rfl
  | succ turns ih =>
      intro it remain
      rw [advance]
      split
      · rw [ih]
        omega
      · rfl

theorem runs_find {s : Store K T} (h : Agrees s.self) {k : K} {Q : ℕ → Store K T → Prop}
    {E : Exn → Store K T → Prop} :
    Runs (find k) s Q E ↔ Q (AssocList.position s.self.map.order s.self.vec k) s := by
  rw [find, runs_bind, runs_sizesExpr h, runs_bind, runs_self, runs_bind, runs_sizesExpr h,
    runs_pure, h.find?_eq]
  cases hhas : AssocList.has s.self.map.order s.self.vec k with
  | true =>
      show Q (advance 0 _ _) s ↔ _
      rw [advance_eq, Nat.zero_add]
  | false => rw [AssocList.position_eq_length hhas]; exact Iff.rfl

/-! ## What each method does -/

/-- The map holds the pairs `l`; nothing is about to throw and no contract
expression was false. -/
structure Holds (o : StrictWeakOrder K) (l : List (K × T)) (s : Store K T) : Prop where
  throwAt : s.throwAt = none
  broken : s.broken = false
  order : s.self.map.order = o
  vec : s.self.vec = l
  agrees : Agrees s.self

section Methods

variable {o : StrictWeakOrder K} {l : List (K × T)} {s : Store K T}

theorem Holds.coherent (h : Holds o l s) :
    Coherent o s.self l := by
  constructor
  · exact h.vec
  · exact h.agrees.keys
  · rw [← h.order]
    exact h.agrees.inequivalent
  · rw [← h.order]
    exact fun k i => h.agrees.find?_eq_some

theorem find_returns (h : Holds o l s) (k : K) :
    Returns (find k) s fun r s' => r = AssocList.position o l k ∧ s' = s := by
  rw [Returns, runs_find h.agrees, h.order, h.vec]
  exact ⟨rfl, rfl⟩

theorem count_returns (h : Holds o l s) (k : K) :
    Returns (count k) s fun r s' => r = (if AssocList.has o l k then 1 else 0) ∧ s' = s := by
  rw [Returns, count, runs_bind, runs_sizesExpr h.agrees, runs_bind, runs_self, runs_pure,
    h.agrees.find?_eq, h.order, h.vec]
  cases AssocList.has o l k <;> exact ⟨rfl, rfl⟩

theorem deref_returns (h : Holds o l s) {it : ℕ} {e : K × T} (he : l[it]? = some e) :
    Returns (deref it) s fun r s' => r = e ∧ s' = s := by
  rw [Returns, deref, runs_bind, runs_self, h.vec, he]
  exact ⟨rfl, rfl⟩

theorem at_runs (h : Holds o l s) (k : K) :
    Runs (at' k) s (fun r s' => AssocList.lookup o l k = some r ∧ s' = s)
      fun e s' => AssocList.lookup o l k = none ∧ e = .outOfRange ∧ s' = s := by
  rw [SequentialMap.at', runs_bind, runs_sizesExpr h.agrees, runs_bind, runs_find h.agrees,
    runs_bind, runs_self, h.order, h.vec, AssocList.lookup_eq]
  dsimp only
  cases hhas : AssocList.has o l k with
  | true =>
      have hlt := AssocList.has_iff.mp hhas
      have hget := List.getElem?_eq_getElem hlt
      rw [if_neg (Nat.ne_of_lt hlt), runs_bind, runs_sizesExpr h.agrees, runs_bind]
      refine ((deref_returns h hget).runs).mono ?_ fun _ _ hE => hE
      rintro _ _ ⟨rfl, rfl⟩
      rw [hget]
      exact ⟨rfl, rfl⟩
  | false =>
      have hlen := AssocList.position_eq_length hhas
      rw [if_pos hlen, runs_bind, runs_throw, hlen, List.getElem?_eq_none (Nat.le_refl _)]
      exact ⟨rfl, rfl, rfl⟩

/-- A pair with a new key goes to the end, and its position into the index. -/
theorem Holds.appended (h : Holds o l s) {e : K × T} (hnew : AssocList.has o l e.1 = false) :
    Holds o (l ++ [e])
      { s with self := ⟨s.self.vec ++ [e], s.self.map.insert e.1 s.self.vec.length⟩ } where
  throwAt := h.throwAt
  broken := h.broken
  order := h.order
  vec := by rw [h.vec]
  agrees := by
    apply h.agrees.insert
    rw [h.order, h.vec]
    exact hnew

theorem insert_returns (h : Holds o l s) (e : K × T) :
    Returns (insert e) s fun r s' =>
      r = (AssocList.position o l e.1, !AssocList.has o l e.1) ∧
        Holds o (AssocList.insert o l e) s' := by
  rw [Returns, SequentialMap.insert, runs_bind, runs_sizesExpr h.agrees, runs_bind,
    runs_find h.agrees, runs_bind, runs_self, h.order, h.vec]
  rw [AssocList.insert]
  dsimp only
  cases hhas : AssocList.has o l e.1 with
  | true =>
      have hlt := AssocList.has_iff.mp hhas
      rw [if_neg (Nat.ne_of_lt hlt), runs_bind, runs_pure, runs_bind, runs_sizesExpr h.agrees,
        runs_pure]
      exact ⟨rfl, h⟩
  | false =>
      have happ := h.appended hhas
      have hlen : (s.self.vec ++ [e]).length - 1 = s.self.vec.length := by
        rw [List.length_append]
        rfl
      rw [if_pos (AssocList.position_eq_length hhas), runs_bind, runs_mayThrow h.throwAt, runs_bind,
        runs_modifySelf, runs_bind]
      rw [runs_mayThrow (by exact h.throwAt), runs_bind, runs_modifySelf]
      dsimp only
      rw [hlen, runs_bind, runs_pure, runs_bind, runs_sizesExpr happ.agrees, runs_pure]
      exact ⟨rfl, happ⟩

theorem insertAt_returns (h : Holds o l s) (position : ℕ) (e : K × T) :
    Returns (insertAt position e) s fun r s' =>
      r = AssocList.position o l e.1 ∧ Holds o (AssocList.insert o l e) s' := by
  rw [Returns, insertAt, runs_bind]
  apply (insert_returns h e).mono
  rintro _ _ ⟨rfl, h'⟩
  exact ⟨rfl, h'⟩

theorem insertRange_returns (h : Holds o l s) (es : List (K × T)) :
    Returns (insertRange es) s fun _ s' => Holds o (AssocList.insertRange o l es) s' := by
  rw [Returns, insertRange, runs_bind, runs_sizesExpr h.agrees]
  apply Returns.bind (P := fun _ s' => Holds o (AssocList.insertRange o l es) s')
  · induction es generalizing l s with
    | nil => exact h
    | cons e es ih =>
        show Returns (discard (insert e) >>= fun _ => es.forM fun val => discard (insert val)) s _
        apply Returns.bind (P := fun _ s' => Holds o (AssocList.insert o l e) s')
        · rw [Returns, runs_discard]
          exact (insert_returns h e).mono fun _ _ h' => h'.2
        · intro _ s' h'
          exact ih h'
  · intro _ s' h'
    rw [Returns, runs_sizesExpr h'.agrees]
    exact h'

theorem operatorIndex_returns [Inhabited T] (h : Holds o l s) (k : K) :
    Returns (operatorIndex k) s fun r s' =>
      r = AssocList.position o l k ∧ Holds o (AssocList.insert o l (k, default)) s' := by
  rw [Returns, operatorIndex, runs_bind, runs_sizesExpr h.agrees, runs_bind, runs_find h.agrees,
    runs_bind, runs_self, h.order, h.vec]
  dsimp only
  cases hhas : AssocList.has o l k with
  | true =>
      have hlt := AssocList.has_iff.mp hhas
      rw [if_neg (Nat.ne_of_lt hlt), runs_bind, runs_pure, runs_bind, runs_sizesExpr h.agrees,
        runs_pure, AssocList.insert, hhas]
      exact ⟨rfl, h⟩
  | false =>
      rw [if_pos (AssocList.position_eq_length hhas), runs_bind]
      apply (insert_returns h (k, default)).mono
      rintro _ s' ⟨rfl, h'⟩
      rw [runs_bind, runs_pure, runs_bind, runs_sizesExpr h'.agrees]
      exact ⟨rfl, h'⟩

theorem assignIndex_returns [Inhabited T] (h : Holds o l s) (k : K) (v : T) :
    Returns (assignIndex k v) s fun _ s' => Holds o (AssocList.assign o l k v) s' := by
  rw [Returns, assignIndex, runs_bind]
  apply (operatorIndex_returns h k).mono
  rintro _ s' ⟨rfl, h'⟩
  have hvec : s'.self.vec.modify (AssocList.position o l k) (fun e => (e.1, v)) =
      AssocList.assign o l k v := by
    have hpos : AssocList.position s'.self.map.order s'.self.vec k = AssocList.position o l k := by
      rw [h'.order, h'.vec, AssocList.position_insert (k, default)]
    rw [← hpos, h'.agrees.modify_position, h'.order, h'.vec]
    rfl
  rw [runs_modifySelf, hvec]
  constructor
  · exact h'.throwAt
  · exact h'.broken
  · exact h'.order
  · rfl
  · apply h'.agrees.of_keys
    rw [h'.vec, AssocList.assign, List.map_map]
    apply List.map_congr_left
    intro e _
    show (if o.equiv e.1 k then (e.1, v) else e).1 = e.1
    split <;> rfl

/-- What the erasing loop has done when it reaches `p`. -/
def Erased (s : Store K T) (i p : ℕ) (s' : Store K T) : Prop :=
  ∃ map : OrderedMap K ℕ, s' = { s with self := ⟨s.self.vec, map⟩ } ∧
    map.order = s.self.map.order ∧
      ∀ k q, (k, q) ∈ map.entries ↔ (k, q) ∈ s.self.map.entries ∧ ¬(i ≤ q ∧ q < p)

theorem erased_start (s : Store K T) (i : ℕ) : Erased s i i s := by
  refine ⟨s.self.map, rfl, rfl, fun k q => ?_⟩
  rw [and_iff_left]
  intro hin
  omega

/-- One turn of the loop: the index loses the entry for the pair at `p`, and
no other. -/
theorem erased_step (h : Agrees s.self) {i p : ℕ} (hp : p < s.self.vec.length) (hip : i ≤ p)
    {s' : Store K T} (hs' : Erased s i p s') :
    Returns (do
      let e ← deref p
      modifySelf fun m => { m with map := m.map.erase e.1 }) s'
      fun _ t => Erased s i (p + 1) t := by
  obtain ⟨map, rfl, horder, hmap⟩ := hs'
  have hget := List.getElem?_eq_getElem hp
  rw [Returns, runs_bind, deref, runs_bind, runs_self, hget]
  refine ⟨map.erase s.self.vec[p].1, rfl, horder, fun k q => ?_⟩
  rw [OrderedMap.mem_erase, hmap, horder, and_assoc]
  apply and_congr_right
  intro hmem
  rw [h, Option.map_eq_some_iff] at hmem
  obtain ⟨e, he, rfl⟩ := hmem
  have hsame : s.self.map.order.equiv e.1 s.self.vec[p].1 = true ↔ q = p := by
    constructor
    · exact h.eq_of_equiv he hget
    · rintro rfl
      rw [hget] at he
      rw [Option.some.inj he]
      exact StrictWeakOrder.equiv_refl _
  rw [hsame]
  omega

theorem eraseRange_returns (h : Holds o l s) {i j : ℕ} (hij : i ≤ j) (hj : j ≤ l.length) :
    Returns (eraseRange i j) s fun _ s' => Holds o (AssocList.eraseRange l i j) s' := by
  have hlen : s.self.vec.length = l.length := by rw [h.vec]
  have hfirst : decide ((i : ℤ) ≥ 0) = true := by simp
  have hlast : decide ((j : ℤ) ≥ i) = true := by simpa using hij
  rw [Returns, eraseRange, runs_bind, runs_expr hfirst, runs_bind, runs_expr hlast, runs_bind,
    runs_sizesExpr h.agrees]
  dsimp only
  have hi : ((i : ℤ)).toNat = i := Int.toNat_natCast i
  have hj' : ((j : ℤ)).toNat = j := Int.toNat_natCast j
  have hn : ((j : ℤ) - i).toNat = j - i := by omega
  rw [if_neg (by omega), hi, hj', hn]
  -- the loop runs over the positions `i ≤ p < j`, all of them in the map
  apply Returns.bind (P := fun _ s' => i ≤ j ∧ Erased s i j s')
  · apply returns_forCount fun p s' => i ≤ p ∧ Erased s i p s'
    · rintro p s' hp ⟨hip, hs'⟩
      apply (erased_step h.agrees (by omega) hip hs').mono
      intro _ t ht
      exact ⟨by omega, ht⟩
    · omega
    · exact ⟨Nat.le_refl i, erased_start s i⟩
  · rintro _ s' ⟨-, map, rfl, horder, hmap⟩
    have hagrees := h.agrees.eraseRange hij (by omega) hmap
    rw [Returns, runs_bind, runs_modifySelf, runs_bind, runs_modifySelf]
    rw [runs_sizesExpr hagrees]
    constructor
    · exact h.throwAt
    · exact h.broken
    · exact horder.trans h.order
    · rw [← h.vec]
      rfl
    · exact hagrees

theorem erasePosition_returns (h : Holds o l s) {i : ℕ} (hi : i < l.length) :
    Returns (erasePosition i) s fun _ s' => Holds o (AssocList.eraseRange l i (i + 1)) s' :=
  eraseRange_returns h (Nat.le_succ i) hi

theorem erase_returns (h : Holds o l s) (k : K) :
    Returns (erase k) s fun r s' =>
      r = (if AssocList.has o l k then 1 else 0) ∧ Holds o (AssocList.erase o l k) s' := by
  rw [Returns, erase, runs_bind, runs_sizesExpr h.agrees, runs_bind, runs_find h.agrees,
    runs_bind, runs_self, h.order, h.vec]
  dsimp only
  cases hhas : AssocList.has o l k with
  | true =>
      have hlt := AssocList.has_iff.mp hhas
      have herase : AssocList.erase o l k = AssocList.eraseRange l (AssocList.position o l k)
          (AssocList.position o l k + 1) := by
        have := h.agrees.erase_eq (k := k) (by rw [h.order, h.vec]; exact hhas)
        rw [h.order, h.vec] at this
        exact this
      rw [if_pos (Nat.ne_of_lt hlt), runs_bind]
      apply (erasePosition_returns h hlt).mono
      intro _ s' h'
      rw [runs_bind, runs_pure, runs_bind, runs_sizesExpr h'.agrees, runs_pure, herase]
      exact ⟨rfl, h'⟩
  | false =>
      have hkeep : AssocList.erase o l k = l := by
        apply List.filter_eq_self.mpr
        intro e he
        rw [AssocList.has, List.any_eq_false] at hhas
        rw [Bool.not_eq_true', ← Bool.not_eq_true]
        exact hhas e he
      rw [if_neg (not_not.mpr (AssocList.position_eq_length hhas)), runs_bind, runs_pure, runs_bind,
        runs_sizesExpr h.agrees, runs_pure, hkeep]
      exact ⟨rfl, h⟩

theorem agrees_empty (o : StrictWeakOrder K) :
    Agrees (⟨[], OrderedMap.empty o⟩ : SequentialMap K T) := by
  intro k i
  constructor
  · intro hmem
    exact absurd hmem List.not_mem_nil
  · intro hget
    exact absurd hget.symm (Option.some_ne_none k)

theorem clear_returns (h : Holds o l s) :
    Returns clear s fun _ s' => Holds o [] s' := by
  rw [Returns, clear, runs_bind, runs_modifySelf, runs_bind, runs_self, runs_bind]
  apply (runs_expr rfl).mpr
  apply (runs_expr rfl).mpr
  constructor
  · exact h.throwAt
  · exact h.broken
  · exact h.order
  · rfl
  · exact agrees_empty _

theorem assignCopy_returns (h : Holds o l s) {x : SequentialMap K T} {l' : List (K × T)}
    (hx : Holds o l' { s with self := x }) :
    Returns (assignCopy x) s fun _ s' => Holds o l' s' := by
  rw [Returns, assignCopy, runs_bind, runs_mayThrow h.throwAt, runs_bind, runs_modifySelf,
    runs_bind]
  rw [runs_mayThrow (by exact h.throwAt), runs_modifySelf]
  exact hx

theorem swap_returns (h : Holds o l s) {x : SequentialMap K T} {l' : List (K × T)}
    (hx : Holds o l' { s with self := x }) :
    Returns (swap x) s fun r s' => r = s.self ∧ s' = { s with self := x } := by
  have hsize : (s.self.vec.length == s.self.map.size) = true := by
    rw [h.agrees.size_eq, beq_self_eq_true]
  rw [Returns, swap, runs_bind, runs_self, runs_bind, runs_modifySelf, runs_bind]
  rw [runs_sizesExpr hx.agrees, runs_bind, runs_expr hsize, runs_pure]
  exact ⟨rfl, rfl⟩

end Methods
end SequentialMap
end KssUtil.Containers

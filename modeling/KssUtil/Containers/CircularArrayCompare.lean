import KssUtil.Containers.CircularArrayMethods
import KssUtil.Containers.CircularArrayWorld

/-!
# Comparing circular arrays

A comparison changes nothing; it evaluates the position check of `operator[]`
at the positions it examines, which are those up to the one that decides.
-/

namespace KssUtil.Containers

open KssUtil.Foundation

/-! ## Comparing lists of items -/

section

variable {T : Type} [BEq T] [LT T] [DecidableLT T]

/-- How many positions `==` examines. -/
def examinedEq : List T → List T → ℕ
  | x :: xs, y :: ys => if x == y then examinedEq xs ys + 1 else 1
  | _, _ => 0

/-- How many positions `<` examines. -/
def examinedLt : List T → List T → ℕ
  | x :: xs, y :: ys => if x < y then 1 else if y < x then 1 else examinedLt xs ys + 1
  | _, _ => 0

end

namespace CircularArray

variable {T : Type} {s : Store T} {l : BoundedList T} {xs ys : List T}

/-- `operator[]` passes its own position check at index `j`. -/
def Readable (a : CircularArray) (j : ℕ) : Prop := ¬ (Wrapped a ∧ a.capacity - a.first ≤ j)

/-- `s'` is `s` after some contract expressions, all true under `kept`. -/
def Checked (s s' : Store T) (kept : Prop) : Prop :=
  ∃ β, s' = { s with broken := s.broken || β } ∧ (kept → β = false)

theorem Checked.refl (s : Store T) : Checked s s True :=
  ⟨false, by simp, fun _ => rfl⟩

theorem Checked.trans {s₁ s₂ s₃ : Store T} {k₁ k₂ : Prop} (h₁ : Checked s₁ s₂ k₁)
    (h₂ : Checked s₂ s₃ k₂) : Checked s₁ s₃ (k₁ ∧ k₂) := by
  obtain ⟨β₁, rfl, hk₁⟩ := h₁
  obtain ⟨β₂, rfl, hk₂⟩ := h₂
  refine ⟨β₁ || β₂, by simp [Bool.or_assoc], fun hk => ?_⟩
  rw [hk₁ hk.1, hk₂ hk.2]
  rfl

theorem Checked.mono {s s' : Store T} {k k' : Prop} (h : Checked s s' k) (hk : k' → k) :
    Checked s s' k' := by
  obtain ⟨β, hs, hβ⟩ := h
  exact ⟨β, hs, fun h' => hβ (hk h')⟩

theorem Checked.backStep {s s' : Store T} {k : Prop} (h : Checked s s' k) (hq : Quiet s)
    (ho : Owns s.heap s.self l) : BackStep s s' l True k := by
  obtain ⟨β, rfl, hk⟩ := h
  exact (BackStep.of_broken hq ho β).mono rfl id hk

theorem Checked.shows {s s' : Store T} {k : Prop} {a : CircularArray} (h : Checked s s' k)
    (hs : Shows s.heap a xs) : Shows s'.heap a xs := by
  obtain ⟨β, rfl, -⟩ := h
  exact hs

theorem operatorIndex_returns {a : CircularArray} (hs : Shows s.heap a xs) {i : ℕ}
    (hi : i < xs.length) :
    Returns (operatorIndex a i) s fun v s' => v = xs[i] ∧ Checked s s' (Readable a i) := by
  rw [Returns, runs_operatorIndex hs hi]
  refine ⟨rfl, _, rfl, fun hr => ?_⟩
  rw [(positionExpr_iff hs hi).mpr hr]
  rfl

theorem at_returns {a : CircularArray} (hs : Shows s.heap a xs) {i : ℕ}
    (hi : i < xs.length) :
    Returns (at' a i) s fun v s' => v = xs[i] ∧ Checked s s' (Readable a i) := by
  rw [Returns, runs_at hs hi]
  refine ⟨rfl, _, rfl, fun hr => ?_⟩
  rw [(positionExpr_iff hs hi).mpr hr]
  rfl

/-- Reading both arrays at `i`. -/
theorem operatorIndex₂_returns {α : Type} {a b : CircularArray} (ha : Shows s.heap a xs)
    (hb : Shows s.heap b ys) {i : ℕ} (hia : i < xs.length) (hib : i < ys.length)
    {f : T → T → Method T α} {Q : α → Store T → Prop}
    (hf : ∀ s', Checked s s' (Readable a i ∧ Readable b i) →
      Returns (f xs[i] ys[i]) s' Q) :
    Returns (do let x ← operatorIndex a i; let y ← operatorIndex b i; f x y) s Q := by
  refine Returns.bind (operatorIndex_returns ha hia) ?_
  rintro _ s₁ ⟨rfl, h₁⟩
  refine Returns.bind (operatorIndex_returns (h₁.shows hb) hib) ?_
  rintro _ s₂ ⟨rfl, h₂⟩
  exact hf s₂ (h₁.trans h₂)

section

variable [BEq T]

theorem notEqual_returns {a b : CircularArray} : ∀ (n : ℕ) (i : ℕ) (s : Store T),
    Shows s.heap a xs → Shows s.heap b ys → i + n = xs.length → i + n = ys.length →
    Returns (notEqual a b i n) s fun r s' =>
      r = !(xs.drop i == ys.drop i) ∧
      Checked s s' (∀ j, i ≤ j →
        j < i + examinedEq (xs.drop i) (ys.drop i) → Readable a j ∧ Readable b j) := by
  intro n
  induction n with
  | zero =>
      intro i s _ _ hla hlb
      rw [notEqual, List.drop_eq_nil_of_le (by omega), List.drop_eq_nil_of_le (by omega)]
      exact ⟨rfl, (Checked.refl s).mono fun _ => trivial⟩
  | succ n ih =>
      intro i s ha hb hla hlb
      have hia : i < xs.length := by omega
      have hib : i < ys.length := by omega
      rw [notEqual, List.drop_eq_getElem_cons hia, List.drop_eq_getElem_cons hib]
      refine operatorIndex₂_returns ha hb hia hib fun s₁ h₁ => ?_
      by_cases hxy : (xs[i] == ys[i]) = true
      · rw [if_pos hxy]
        refine Returns.mono (ih (i + 1) s₁ (h₁.shows ha) (h₁.shows hb) (by omega) (by omega)) ?_
        rintro r s₂ ⟨rfl, h₂⟩
        refine ⟨by rw [List.cons_beq_cons, hxy, Bool.true_and],
          (h₁.trans h₂).mono fun hk => ⟨?_, ?_⟩⟩
        · exact hk i (Nat.le_refl i) (by simp [examinedEq, hxy])
        · intro j hj hjlt
          refine hk j (by omega) ?_
          simp only [examinedEq, hxy, if_true]
          omega
      · rw [if_neg hxy]
        have hfalse : (xs[i] == ys[i]) = false := by simpa using hxy
        refine ⟨by rw [List.cons_beq_cons, hfalse]; rfl, h₁.mono fun hk => ?_⟩
        exact hk i (Nat.le_refl i) (by simp [examinedEq, hxy])

theorem beq_length {xs : List T} : ∀ {ys : List T}, (xs == ys) = true → xs.length = ys.length := by
  induction xs with
  | nil =>
      intro ys h
      cases ys with
      | nil => rfl
      | cons y ys => exact absurd h (by simp)
  | cons x xs ih =>
      intro ys h
      cases ys with
      | nil => exact absurd h (by simp)
      | cons y ys =>
          rw [List.cons_beq_cons, Bool.and_eq_true] at h
          rw [List.length_cons, List.length_cons, ih h.2]

theorem length_and_beq (xs ys : List T) :
    (xs.length == ys.length && xs == ys) = (xs == ys) := by
  by_cases h : (xs == ys) = true
  · rw [h, beq_length h]
    simp
  · rw [Bool.eq_false_iff.mpr h, Bool.and_false]

/-- The positions `a == b` examines pass the position checks of both arrays. -/
def ReadableEq (same : Bool) (a b : CircularArray) (xs ys : List T) : Prop :=
  same = true ∨ xs.length ≠ ys.length ∨
    ∀ j < examinedEq xs ys, Readable a j ∧ Readable b j

theorem operatorEq_returns {a b : CircularArray} (same : Bool) (ha : Shows s.heap a xs)
    (hb : Shows s.heap b ys) :
    Returns (operatorEq same a b) s fun r s' =>
      r = (same || xs == ys) ∧
      Checked s s' (ReadableEq same a b xs ys) := by
  unfold operatorEq
  cases same with
  | true => exact ⟨rfl, (Checked.refl s).mono fun _ => trivial⟩
  | false =>
      rw [if_neg Bool.false_ne_true, ha.size, hb.size]
      by_cases hlen : xs.length = ys.length
      · rw [if_neg (not_not.mpr hlen)]
        refine Returns.bind (notEqual_returns _ 0 s ha hb (by omega) (by omega)) ?_
        rintro _ s₁ ⟨rfl, h₁⟩
        refine ⟨by simp, h₁.mono fun hk => ?_⟩
        rcases hk with h | h | h
        · exact absurd h Bool.false_ne_true
        · exact absurd hlen h
        · intro j _ hj
          rw [Nat.zero_add] at hj
          exact h j hj
      · rw [if_pos hlen]
        refine ⟨?_, (Checked.refl s).mono fun _ => trivial⟩
        rw [← length_and_beq, beq_eq_false_iff_ne.mpr hlen]
        rfl

end

section

variable [LT T] [DecidableLT T]

theorem lexicographicalCompare_returns {a b : CircularArray} : ∀ (n : ℕ) (i : ℕ) (s : Store T),
    Shows s.heap a xs → Shows s.heap b ys →
    i + n = min xs.length ys.length →
    Returns (lexicographicalCompare a b i n) s fun r s' =>
      r = Slots.lexLt (xs.drop i) (ys.drop i) ∧
      Checked s s' (∀ j, i ≤ j →
        j < i + examinedLt (xs.drop i) (ys.drop i) → Readable a j ∧ Readable b j) := by
  intro n
  induction n with
  | zero =>
      intro i s ha hb hmin
      -- one position is at its end: that array is less unless the other one is too
      rw [lexicographicalCompare]
      refine ⟨?_, (Checked.refl s).mono fun _ => trivial⟩
      rw [ha.size, hb.size]
      by_cases hia : i = xs.length
      · rw [List.drop_eq_nil_of_le (Nat.le_of_eq hia.symm)]
        cases hd : ys.drop i with
        | nil =>
            have := List.drop_eq_nil_iff.mp hd
            simp only [Slots.lexLt]
            have : i = ys.length := by omega
            simp [this]
        | cons z zs =>
            have hne : i ≠ ys.length := by
              intro h
              rw [List.drop_eq_nil_of_le (Nat.le_of_eq h.symm)] at hd
              exact absurd hd (by simp)
            simp [Slots.lexLt, hia, hia ▸ hne]
      · have hd : ys.drop i = [] := List.drop_eq_nil_of_le (by omega)
        rw [hd]
        cases xs.drop i <;> simp [Slots.lexLt, hia]
  | succ n ih =>
      intro i s ha hb hmin
      have hia : i < xs.length := by omega
      have hib : i < ys.length := by omega
      rw [lexicographicalCompare, List.drop_eq_getElem_cons hia, List.drop_eq_getElem_cons hib]
      refine operatorIndex₂_returns ha hb hia hib fun s₁ h₁ => ?_
      by_cases hxy : xs[i] < ys[i]
      · rw [if_pos hxy]
        refine ⟨by simp [Slots.lexLt, hxy], h₁.mono fun hk => ?_⟩
        exact hk i (Nat.le_refl i) (by simp [examinedLt, hxy])
      · rw [if_neg hxy]
        by_cases hyx : ys[i] < xs[i]
        · rw [if_pos hyx]
          refine ⟨by simp [Slots.lexLt, hxy, hyx], h₁.mono fun hk => ?_⟩
          exact hk i (Nat.le_refl i) (by simp [examinedLt, hxy, hyx])
        · rw [if_neg hyx]
          refine Returns.mono (ih (i + 1) s₁ (h₁.shows ha) (h₁.shows hb) (by omega)) ?_
          rintro r s₂ ⟨rfl, h₂⟩
          refine ⟨by simp [Slots.lexLt, hxy, hyx], (h₁.trans h₂).mono fun hk => ⟨?_, ?_⟩⟩
          · exact hk i (Nat.le_refl i) (by simp [examinedLt, hxy, hyx])
          · intro j hj hjlt
            refine hk j (by omega) ?_
            simp only [examinedLt, hxy, hyx, if_false]
            omega

/-- The positions `a < b` examines pass the position checks of both arrays. -/
def ReadableLt (same : Bool) (a b : CircularArray) (xs ys : List T) : Prop :=
  same = true ∨ ∀ j < examinedLt xs ys, Readable a j ∧ Readable b j

theorem operatorLt_returns {a b : CircularArray} (same : Bool) (ha : Shows s.heap a xs)
    (hb : Shows s.heap b ys) :
    Returns (operatorLt same a b) s fun r s' =>
      r = (!same && Slots.lexLt xs ys) ∧
      Checked s s' (ReadableLt same a b xs ys) := by
  unfold operatorLt
  cases same with
  | true => exact ⟨rfl, (Checked.refl s).mono fun _ => trivial⟩
  | false =>
      rw [if_neg Bool.false_ne_true, ha.size, hb.size]
      refine Returns.mono (lexicographicalCompare_returns _ 0 s ha hb (by omega)) ?_
      rintro _ s₁ ⟨rfl, h₁⟩
      refine ⟨rfl, h₁.mono fun hk => ?_⟩
      rcases hk with h | h
      · exact absurd h Bool.false_ne_true
      · intro j _ hj
        rw [Nat.zero_add] at hj
        exact h j hj

end

/-! ## The six operators -/

instance (a : CircularArray) : Decidable (Wrapped a) := inferInstanceAs (Decidable (_ ∧ _))

instance (a : CircularArray) (j : ℕ) : Decidable (Readable a j) :=
  inferInstanceAs (Decidable (¬ (_ ∧ _)))

instance [BEq T] (same : Bool) (a b : CircularArray) (xs ys : List T) :
    Decidable (ReadableEq same a b xs ys) :=
  inferInstanceAs (Decidable (_ ∨ _ ∨ ∀ j < _, _ ∧ _))

instance [LT T] [DecidableLT T] (same : Bool) (a b : CircularArray) (xs ys : List T) :
    Decidable (ReadableLt same a b xs ys) :=
  inferInstanceAs (Decidable (_ ∨ ∀ j < _, _ ∧ _))

section

variable [BEq T] [LT T] [DecidableLT T]

/-- The positions the operator examines pass the position checks. -/
def ReadableOp (op : RelOp) (same : Bool) (a b : CircularArray) (xs ys : List T) : Prop :=
  match op with
  | .eq | .ne => ReadableEq same a b xs ys
  | .lt | .ge => ReadableLt same a b xs ys
  | .le => ReadableLt same a b xs ys ∧
      (Slots.compareOp .lt same xs ys = false → ReadableEq same a b xs ys)
  | .gt => ReadableEq same a b xs ys ∧
      (Slots.compareOp .eq same xs ys = false → ReadableLt same a b xs ys)

instance (op : RelOp) (same : Bool) (a b : CircularArray) (xs ys : List T) :
    Decidable (ReadableOp op same a b xs ys) :=
  match op with
  | .eq | .ne => inferInstanceAs (Decidable (ReadableEq same a b xs ys))
  | .lt | .ge => inferInstanceAs (Decidable (ReadableLt same a b xs ys))
  | .le | .gt => inferInstanceAs (Decidable (_ ∧ (_ → _)))

theorem compareOp_returns {a b : CircularArray} (op : RelOp) (same : Bool)
    (ha : Shows s.heap a xs) (hb : Shows s.heap b ys) :
    Returns (World.compareOp op same a b) s fun r s' =>
      r = Slots.compareOp op same xs ys ∧
      Checked s s' (ReadableOp op same a b xs ys) := by
  cases op with
  | eq => exact operatorEq_returns same ha hb
  | ne =>
      refine Returns.bind (operatorEq_returns same ha hb) ?_
      rintro _ s' ⟨rfl, h⟩
      exact ⟨rfl, h⟩
  | lt => exact operatorLt_returns same ha hb
  | ge =>
      refine Returns.bind (operatorLt_returns same ha hb) ?_
      rintro _ s' ⟨rfl, h⟩
      exact ⟨rfl, h⟩
  | le =>
      refine Returns.bind (operatorLt_returns same ha hb) ?_
      rintro _ s₁ ⟨rfl, h₁⟩
      by_cases hlt : (!same && Slots.lexLt xs ys) = true
      · rw [if_pos hlt]
        refine ⟨?_, h₁.mono fun hk => hk.1⟩
        simp only [Slots.compareOp, hlt, Bool.true_or]
      · rw [if_neg hlt]
        refine (operatorEq_returns same (h₁.shows ha) (h₁.shows hb)).mono ?_
        rintro r s₂ ⟨rfl, h₂⟩
        have hfalse := Bool.eq_false_iff.mpr hlt
        refine ⟨?_, (h₁.trans h₂).mono fun hk => ⟨hk.1, hk.2 hfalse⟩⟩
        simp only [Slots.compareOp, hfalse, Bool.false_or]
  | gt =>
      refine Returns.bind (operatorEq_returns same ha hb) ?_
      rintro _ s₁ ⟨rfl, h₁⟩
      by_cases heq : (same || xs == ys) = true
      · rw [if_pos heq]
        refine ⟨?_, h₁.mono fun hk => hk.1⟩
        simp only [Slots.compareOp, heq, Bool.not_true, Bool.false_and]
      · rw [if_neg heq]
        refine Returns.bind (operatorLt_returns same (h₁.shows ha) (h₁.shows hb)) ?_
        rintro _ s₂ ⟨rfl, h₂⟩
        have hfalse := Bool.eq_false_iff.mpr heq
        refine ⟨?_, (h₁.trans h₂).mono fun hk => ⟨hk.1, hk.2 hfalse⟩⟩
        simp only [Slots.compareOp, hfalse, Bool.not_false, Bool.true_and]

end

end CircularArray
end KssUtil.Containers

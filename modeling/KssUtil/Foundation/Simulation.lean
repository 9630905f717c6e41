import KssUtil.Foundation.Program

/-!
# Programs that do the same on two states

`Follows wrap R P m n`: from related states the action `m` returns a value that is related to
the one `n` returns, or throws what `n` throws, and leaves related states behind.  The state of
`m` may have a part that `n` knows nothing of; `onFst` and `onSnd` are actions on one part of a
pair.
-/

namespace KssUtil.Foundation

variable {ε ε' ε₁ ε₂ σ τ υ α α' β β' : Type}

/-- What `n` throws is wrapped when `m` throws it. -/
def Follows (wrap : ε' → ε) (R : σ → τ → Prop) (P : α → β → Prop) (m : EStateM ε σ α)
    (n : EStateM ε' τ β) : Prop :=
  ∀ s t, R s t → Runs m s (fun a s' => ∃ b t', n t = .ok b t' ∧ P a b ∧ R s' t')
    fun e s' => ∃ e' t', e = wrap e' ∧ n t = .error e' t' ∧ R s' t'

section

variable {wrap : ε' → ε} {R : σ → τ → Prop} {P : α → β → Prop} {Q : α' → β' → Prop}
  {m : EStateM ε σ α} {n : EStateM ε' τ β} {f : α → EStateM ε σ α'} {g : β → EStateM ε' τ β'}

theorem runs_of_ok {t t' : τ} {b : β} {Q : β → τ → Prop} {E : ε' → τ → Prop}
    (h : n t = .ok b t') : Runs n t Q E ↔ Q b t' := by
  unfold Runs
  rw [h]

theorem runs_of_error {t t' : τ} {e : ε'} {Q : β → τ → Prop} {E : ε' → τ → Prop}
    (h : n t = .error e t') : Runs n t Q E ↔ E e t' := by
  unfold Runs
  rw [h]

theorem bind_of_ok {t t' : τ} {b : β} (h : n t = .ok b t') : (n >>= g) t = g b t' := by
  show EStateM.bind n g t = g b t'
  rw [EStateM.bind, h]

theorem bind_of_error {t t' : τ} {e : ε'} (h : n t = .error e t') :
    (n >>= g) t = .error e t' := by
  show EStateM.bind n g t = .error e t'
  rw [EStateM.bind, h]

theorem follows_pure {a : α} {b : β} (h : P a b) :
    Follows wrap R P (pure a : EStateM ε σ α) (pure b : EStateM ε' τ β) :=
  fun _ t hR => ⟨b, t, rfl, h, hR⟩

theorem Follows.bind (hm : Follows wrap R P m n)
    (hf : ∀ a b, P a b → Follows wrap R Q (f a) (g b)) :
    Follows wrap R Q (m >>= f) (n >>= g) := by
  intro s t h
  refine Runs.bind ((hm s t h).mono (fun _ _ h => h) ?_) ?_
  · rintro e s' ⟨e', t', rfl, hn, h'⟩
    exact ⟨e', t', rfl, bind_of_error hn, h'⟩
  · rintro a s' ⟨b, t', hn, hab, h'⟩
    rw [bind_of_ok hn]
    exact hf a b hab s' t' h'

theorem Follows.ite {c : Prop} [Decidable c] {m₁ m₂ : EStateM ε σ α} {n₁ n₂ : EStateM ε' τ β}
    (h₁ : c → Follows wrap R P m₁ n₁) (h₂ : ¬ c → Follows wrap R P m₂ n₂) :
    Follows wrap R P (if c then m₁ else m₂) (if c then n₁ else n₂) := by
  split
  · exact h₁ ‹_›
  · exact h₂ ‹_›

/-- The values are related in another way. -/
theorem Follows.mono {P' : α → β → Prop} (hm : Follows wrap R P m n)
    (h : ∀ a b, P a b → P' a b) : Follows wrap R P' m n := by
  intro s t hR
  refine (hm s t hR).mono ?_ fun _ _ h => h
  rintro a s' ⟨b, t', hn, hab, hR'⟩
  exact ⟨b, t', hn, h a b hab, hR'⟩

/-- A value that is computed from another one, by `m` or by `n` -/
theorem Follows.mapLeft {r : α → α'} {P' : α' → β → Prop} (hm : Follows wrap R P m n)
    (h : ∀ a b, P a b → P' (r a) b) : Follows wrap R P' (m >>= fun a => pure (r a)) n := by
  intro s t hR
  refine Runs.bind ((hm s t hR).mono (fun _ _ h => h) fun _ _ h => h) ?_
  rintro a s' ⟨b, t', hn, hab, hR'⟩
  exact ⟨b, t', hn, h a b hab, hR'⟩

theorem Follows.mapRight {r : β → β'} {P' : α → β' → Prop} (hm : Follows wrap R P m n)
    (h : ∀ a b, P a b → P' a (r b)) : Follows wrap R P' m (n >>= fun b => pure (r b)) := by
  intro s t hR
  refine (hm s t hR).mono ?_ ?_
  · rintro a s' ⟨b, t', hn, hab, hR'⟩
    exact ⟨r b, t', bind_of_ok hn, h a b hab, hR'⟩
  · rintro e s' ⟨e', t', rfl, hn, hR'⟩
    exact ⟨e', t', rfl, bind_of_error hn, hR'⟩

/-- A step that `n` does not make. -/
theorem Follows.read {v : α} {n : EStateM ε' τ β'}
    (hm : ∀ s t, R s t → Returns m s fun a s' => a = v ∧ R s' t)
    (hf : Follows wrap R Q (f v) n) : Follows wrap R Q (m >>= f) n := by
  intro s t h
  refine Runs.bind (hm s t h).runs ?_
  rintro a s' ⟨rfl, h'⟩
  exact hf s' t h'

end

/-! ## Parts of a state -/

def onFst (wrap : ε₁ → ε) (m : EStateM ε₁ σ α) : EStateM ε (σ × υ) α := fun s =>
  match m s.1 with
  | .ok a s' => .ok a (s', s.2)
  | .error e s' => .error (wrap e) (s', s.2)

def onSnd (wrap : ε₂ → ε) (m : EStateM ε₂ υ α) : EStateM ε (σ × υ) α := fun s =>
  match m s.2 with
  | .ok a u' => .ok a (s.1, u')
  | .error e u' => .error (wrap e) (s.1, u')

section

variable {s : σ × υ} {Q : α → σ × υ → Prop} {E : ε → σ × υ → Prop}

@[simp] theorem runs_onFst {wrap : ε₁ → ε} {m : EStateM ε₁ σ α} :
    Runs (onFst wrap m) s Q E ↔
      Runs m s.1 (fun a s' => Q a (s', s.2)) fun e s' => E (wrap e) (s', s.2) := by
  unfold Runs onFst
  cases m s.1 <;> exact Iff.rfl

@[simp] theorem runs_onSnd {wrap : ε₂ → ε} {m : EStateM ε₂ υ α} :
    Runs (onSnd wrap m) s Q E ↔
      Runs m s.2 (fun a u' => Q a (s.1, u')) fun e u' => E (wrap e) (s.1, u') := by
  unfold Runs onSnd
  cases m s.2 <;> exact Iff.rfl

end

/-- The second part is the whole state of the other program, and the first one is as `I` says. -/
def Beside (I : σ → Prop) (s : σ × υ) (u : υ) : Prop := I s.1 ∧ s.2 = u

section

variable {I : σ → Prop} {wrap₁ : ε₁ → ε} {wrap : ε' → ε}

theorem follows_onSnd (m : EStateM ε' υ α) :
    Follows wrap (Beside I) Eq (onSnd wrap m) m := by
  rintro ⟨s, u⟩ _ ⟨hI, rfl⟩
  rw [runs_onSnd]
  unfold Runs
  cases hm : m u with
  | ok a u' => exact ⟨a, u', rfl, rfl, hI, rfl⟩
  | error e u' => exact ⟨e, u', rfl, rfl, hI, rfl⟩

/-- A value that the first part has to give -/
theorem Follows.readFst {m : EStateM ε₁ σ α} {v : α} {f : α → EStateM ε (σ × υ) α'}
    {n : EStateM ε' υ β'} {Q : α' → β' → Prop}
    (hm : ∀ s, I s → Returns m s fun a s' => a = v ∧ I s')
    (hf : Follows wrap (Beside I) Q (f v) n) :
    Follows wrap (Beside I) Q (onFst wrap₁ m >>= f) n := by
  refine Follows.read ?_ hf
  rintro ⟨s, u⟩ _ ⟨hI, rfl⟩
  rw [Returns, runs_onFst]
  exact (hm s hI).mono fun _ _ h => ⟨h.1, h.2, rfl⟩

end

end KssUtil.Foundation

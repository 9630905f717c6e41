import Mathlib.Logic.Function.Basic
import Mathlib.Tactic.Common

/-!
# Programs with a state and exceptions

A method is an `EStateM ε σ` action: it returns or throws, and in both cases
leaves a state behind.  `Runs` is the weakest precondition of such an action
with one postcondition for each exit, so a claim about what is left after a
throw has the same form as one about a normal return.
-/

namespace KssUtil.Foundation

variable {ε σ α β : Type}

/-- `m`, started in `s`, returns into `Q` or throws into `E`. -/
def Runs (m : EStateM ε σ α) (s : σ) (Q : α → σ → Prop) (E : ε → σ → Prop) : Prop :=
  match m s with
  | .ok a s' => Q a s'
  | .error e s' => E e s'

/-- `m`, started in `s`, returns into `Q`; it does not throw. -/
abbrev Returns (m : EStateM ε σ α) (s : σ) (Q : α → σ → Prop) : Prop :=
  Runs m s Q fun _ _ => False

theorem Returns.exists {m : EStateM ε σ α} {s : σ} {Q : α → σ → Prop}
    (h : Returns m s Q) : ∃ a s', m s = .ok a s' ∧ Q a s' := by
  unfold Returns Runs at h
  split at h
  · rename_i a s' hm
    exact ⟨a, s', hm, h⟩
  · exact h.elim

/-- An action all of whose runs throw `e` into the state `s'` does just that. -/
theorem eq_error_of_runs {m : EStateM ε σ α} {s s' : σ} {e : ε}
    (h : Runs m s (fun _ _ => False) fun e' t => e' = e ∧ t = s') : m s = .error e s' := by
  unfold Runs at h
  split at h
  · exact h.elim
  · rename_i hm
    rw [hm, h.1, h.2]

theorem eq_ok_of_returns {m : EStateM ε σ α} {s s' : σ} {a : α}
    (h : Returns m s fun a' t => a' = a ∧ t = s') : m s = .ok a s' := by
  obtain ⟨a', t, hm, rfl, rfl⟩ := h.exists
  exact hm

/-! ## One rule for each way to build an action -/

@[simp] theorem runs_pure {a : α} {s : σ} {Q : α → σ → Prop} {E : ε → σ → Prop} :
    Runs (pure a : EStateM ε σ α) s Q E ↔ Q a s := Iff.rfl

@[simp] theorem runs_throw {e : ε} {s : σ} {Q : α → σ → Prop} {E : ε → σ → Prop} :
    Runs (throw e : EStateM ε σ α) s Q E ↔ E e s := Iff.rfl

@[simp] theorem runs_get {s : σ} {Q : σ → σ → Prop} {E : ε → σ → Prop} :
    Runs (get : EStateM ε σ σ) s Q E ↔ Q s s := Iff.rfl

@[simp] theorem runs_modify {f : σ → σ} {s : σ} {Q : PUnit → σ → Prop}
    {E : ε → σ → Prop} :
    Runs (modify f : EStateM ε σ PUnit) s Q E ↔ Q ⟨⟩ (f s) := Iff.rfl

@[simp] theorem runs_ofExcept_ok {a : α} {s : σ} {Q : α → σ → Prop} {E : ε → σ → Prop} :
    Runs (ofExcept (.ok a) : EStateM ε σ α) s Q E ↔ Q a s := Iff.rfl

@[simp] theorem runs_ofExcept_error {e : ε} {s : σ} {Q : α → σ → Prop} {E : ε → σ → Prop} :
    Runs (ofExcept (.error e) : EStateM ε σ α) s Q E ↔ E e s := Iff.rfl

@[simp] theorem runs_bind {m : EStateM ε σ α} {f : α → EStateM ε σ β} {s : σ}
    {Q : β → σ → Prop} {E : ε → σ → Prop} :
    Runs (m >>= f) s Q E ↔ Runs m s (fun a s' => Runs (f a) s' Q E) E := by
  show (match EStateM.bind m f s with
        | .ok a s' => Q a s'
        | .error e s' => E e s') ↔ _
  unfold Runs EStateM.bind
  cases m s <;> exact Iff.rfl

@[simp] theorem runs_map {m : EStateM ε σ α} {f : α → β} {s : σ}
    {Q : β → σ → Prop} {E : ε → σ → Prop} :
    Runs (f <$> m) s Q E ↔ Runs m s (fun a s' => Q (f a) s') E := by
  show (match EStateM.map f m s with
        | .ok a s' => Q a s'
        | .error e s' => E e s') ↔ _
  unfold Runs EStateM.map
  cases m s <;> exact Iff.rfl

@[simp] theorem runs_discard {m : EStateM ε σ α} {s : σ} {Q : PUnit → σ → Prop}
    {E : ε → σ → Prop} :
    Runs (discard m) s Q E ↔ Runs m s (fun _ s' => Q ⟨⟩ s') E :=
  runs_map

/-- The consequence rule, on both exits. -/
theorem Runs.mono {m : EStateM ε σ α} {s : σ} {Q Q' : α → σ → Prop}
    {E E' : ε → σ → Prop} (h : Runs m s Q E)
    (hQ : ∀ a s', Q a s' → Q' a s') (hE : ∀ e s', E e s' → E' e s') :
    Runs m s Q' E' := by
  unfold Runs at *
  cases hm : m s with
  | ok a s' => rw [hm] at h; exact hQ a s' h
  | error e s' => rw [hm] at h; exact hE e s' h

theorem Returns.mono {m : EStateM ε σ α} {s : σ} {Q Q' : α → σ → Prop}
    (h : Returns m s Q) (hQ : ∀ a s', Q a s' → Q' a s') : Returns m s Q' :=
  Runs.mono h hQ fun _ _ h => h

theorem Returns.runs {m : EStateM ε σ α} {s : σ} {Q : α → σ → Prop}
    {E : ε → σ → Prop} (h : Returns m s Q) : Runs m s Q E :=
  Runs.mono h (fun _ _ h => h) fun _ _ h => h.elim

/-- An action has one exit: postconditions that exclude each other cannot both be
reached. -/
theorem Runs.excludes {m : EStateM ε σ α} {s : σ} {Q Q' : α → σ → Prop}
    {E E' : ε → σ → Prop} (h : Runs m s Q E)
    (hQ : ∀ a s', Q a s' → ¬ Q' a s') (hE : ∀ e s', E e s' → ¬ E' e s') :
    ¬ Runs m s Q' E' := by
  unfold Runs at *
  cases hm : m s with
  | ok a s' => rw [hm] at h; exact hQ a s' h
  | error e s' => rw [hm] at h; exact hE e s' h

/-- Sequencing: the second action is run from whatever the first one leaves. -/
theorem Runs.bind {m : EStateM ε σ α} {f : α → EStateM ε σ β} {s : σ}
    {P : α → σ → Prop} {Q : β → σ → Prop} {E : ε → σ → Prop}
    (hm : Runs m s P E) (hf : ∀ a s', P a s' → Runs (f a) s' Q E) :
    Runs (m >>= f) s Q E :=
  runs_bind.mpr (hm.mono hf fun _ _ h => h)

theorem Returns.bind {m : EStateM ε σ α} {f : α → EStateM ε σ β} {s : σ}
    {P : α → σ → Prop} {Q : β → σ → Prop}
    (hm : Returns m s P) (hf : ∀ a s', P a s' → Returns (f a) s' Q) :
    Returns (m >>= f) s Q :=
  Runs.bind hm hf

/-- Two values of one thing that is left are the same. -/
theorem Runs.eq_iff {γ : Type} {m : EStateM ε σ α} {s : σ} {f : σ → γ} {x y : γ}
    (h : Runs m s (fun _ s' => f s' = x) fun _ s' => f s' = x) :
    Runs m s (fun _ s' => f s' = y) (fun _ s' => f s' = y) ↔ x = y := by
  unfold Runs at *
  cases hm : m s with
  | ok a s' => rw [hm] at h; exact ⟨fun h' => h.symm.trans h', fun hxy => h.trans hxy⟩
  | error e s' => rw [hm] at h; exact ⟨fun h' => h.symm.trans h', fun hxy => h.trans hxy⟩

/-! ## Clean-up -/

/-- `cleanup` is run after `body`, whether that returns or throws. -/
def withCleanup (cleanup : σ → σ) (body : EStateM ε σ α) : EStateM ε σ α := fun s =>
  match body s with
  | .ok a s' => .ok a (cleanup s')
  | .error e s' => .error e (cleanup s')

@[simp] theorem runs_withCleanup {cleanup : σ → σ} {m : EStateM ε σ α} {s : σ}
    {Q : α → σ → Prop} {E : ε → σ → Prop} :
    Runs (withCleanup cleanup m) s Q E ↔
      Runs m s (fun a s' => Q a (cleanup s')) fun e s' => E e (cleanup s') := by
  unfold Runs withCleanup
  cases m s <;> exact Iff.rfl

/-! ## Loops -/

/-- Run `body` on the numbers `i, i + 1, …, i + n - 1`. -/
def forCount (body : ℕ → EStateM ε σ PUnit) (i : ℕ) : ℕ → EStateM ε σ PUnit
  | 0 => pure ⟨⟩
  | n + 1 => do
      body i
      forCount body (i + 1) n

/-- **The counted-loop rule.**  An invariant indexed by the counter, kept by
the body, holds with the counter at its end; a throw is a throw of the body. -/
theorem runs_forCount {body : ℕ → EStateM ε σ PUnit} {E : ε → σ → Prop} (I : ℕ → σ → Prop)
    {hi : ℕ} (hbody : ∀ i s, i < hi → I i s → Runs (body i) s (fun _ s' => I (i + 1) s') E) :
    ∀ n i s, i + n = hi → I i s → Runs (forCount body i n) s (fun _ s' => I hi s') E := by
  intro n
  induction n with
  | zero =>
      intro i s hi h
      rw [forCount]
      obtain rfl : i = _ := by simpa using hi
      exact h
  | succ n ih =>
      intro i s hi h
      rw [forCount]
      refine Runs.bind (hbody i s (by omega) h) ?_
      intro _ s' h'
      exact ih (i + 1) s' (by omega) h'

theorem returns_forCount {body : ℕ → EStateM ε σ PUnit} (I : ℕ → σ → Prop)
    {hi : ℕ} (hbody : ∀ i s, i < hi → I i s → Returns (body i) s fun _ s' => I (i + 1) s') :
    ∀ n i s, i + n = hi → I i s → Returns (forCount body i n) s fun _ s' => I hi s' :=
  runs_forCount I hbody

/-- `while (cond) body`, for at most `fuel` turns. -/
def whileLoop (cond : EStateM ε σ Bool) (body : EStateM ε σ PUnit) :
    ℕ → EStateM ε σ PUnit
  | 0 => pure ⟨⟩
  | fuel + 1 => do
      if ← cond then
        body
        whileLoop cond body fuel
      else
        pure ⟨⟩

/-- **The while rule.**  The condition reads the state; each turn keeps the
invariant and decreases the measure, so no more turns than the measure are
needed. -/
theorem runs_whileLoop {cond : EStateM ε σ Bool} {body : EStateM ε σ PUnit}
    {E : ε → σ → Prop} (I c : σ → Prop) (μ : σ → ℕ)
    (hcond : ∀ s, I s → Returns cond s fun b s' => s' = s ∧ (b = true ↔ c s))
    (hpos : ∀ s, I s → c s → 0 < μ s)
    (hbody : ∀ s, I s → c s → Runs body s (fun _ s' => I s' ∧ μ s' < μ s) E) :
    ∀ fuel s, I s → μ s ≤ fuel →
      Runs (whileLoop cond body fuel) s (fun _ s' => I s' ∧ ¬ c s') E := by
  intro fuel
  induction fuel with
  | zero =>
      intro s hI hμ
      rw [whileLoop]
      refine ⟨hI, fun hc => ?_⟩
      have := hpos s hI hc
      omega
  | succ fuel ih =>
      intro s hI hμ
      rw [whileLoop]
      refine Runs.bind (hcond s hI).runs ?_
      rintro b s₁ ⟨heq, hb⟩
      rw [← heq] at hI hμ hb
      by_cases hc : c s₁
      · rw [if_pos (hb.mpr hc)]
        refine Runs.bind (hbody s₁ hI hc) ?_
        rintro _ s' ⟨hI', hlt⟩
        exact ih s' hI' (by omega)
      · rw [if_neg fun h => hc (hb.mp h)]
        exact ⟨hI, hc⟩

theorem returns_whileLoop {cond : EStateM ε σ Bool} {body : EStateM ε σ PUnit}
    (I c : σ → Prop) (μ : σ → ℕ)
    (hcond : ∀ s, I s → Returns cond s fun b s' => s' = s ∧ (b = true ↔ c s))
    (hbody : ∀ s, I s → c s → Returns body s fun _ s' => I s' ∧ μ s' < μ s) :
    ∀ fuel s, I s → μ s ≤ fuel →
      Returns (whileLoop cond body fuel) s fun _ s' => I s' ∧ ¬ c s' := by
  refine runs_whileLoop I c μ hcond (fun s hI hc => ?_) hbody
  obtain ⟨_, s', -, -, hlt⟩ := (hbody s hI hc).exists
  omega

theorem returns_whileLoop_done {cond : EStateM ε σ Bool} {body : EStateM ε σ PUnit} {s : σ}
    (hcond : Returns cond s fun b s' => b = false ∧ s' = s) (fuel : ℕ) :
    Returns (whileLoop cond body fuel) s fun _ s' => s' = s := by
  cases fuel with
  | zero => exact rfl
  | succ fuel =>
      rw [whileLoop]
      refine Returns.bind hcond ?_
      rintro _ _ ⟨rfl, rfl⟩
      exact rfl

end KssUtil.Foundation

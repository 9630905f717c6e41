import KssUtil.Scopes.Guards

/-!
# What guards are for (raii.hpp, error.hpp)

A guard acquires something in its initialisation, and gives it back in its clean-up.  Whatever
else a program does, it ends with what it had.
-/

namespace KssUtil.Scopes

open KssUtil.Foundation

variable {ε α β σ ρ : Type}

section

variable (held : σ → ρ)

/-- The code, however it ends, holds what it held. -/
def Keeps (m : Process σ) : Ending ε α (Process σ) → Prop
  | .returned _ m' => held m'.state = held m.state
  | .thrown _ m' => held m'.state = held m.state
  | .terminated _ => True

/-- Something is acquired; or it cannot be, and an exception says so. -/
def Acquires (acquire : ρ → ρ) (m : Process σ) : Ending ε α (Process σ) → Prop
  | .returned _ m' => held m'.state = acquire (held m.state)
  | .thrown _ m' => held m'.state = held m.state
  | .terminated _ => True

/-- What has been acquired last is given back. -/
def GivesBack (acquire : ρ → ρ) (m : Process σ) : Ending ε α (Process σ) → Prop
  | .returned _ m' => ∀ x, held m.state = acquire x → held m'.state = x
  | _ => True

/-- The clean-up of each guard gives back what its initialisation acquires.  All other calls
keep what is held. -/
def Program.Guards (isStd : ε → Bool) (fuel : ℕ) : Program ε σ → Prop
  | call f => Ends (Keeps held) (callCode f)
  | seq first second => first.Guards isStd fuel ∧ second.Guards isStd fuel
  | branch _ yes no => yes.Guards isStd fuel ∧ no.Guards isStd fuel
  | loop _ body => body.Guards isStd fuel
  | guarded initCode cleanupCode body => body.Guards isStd fuel ∧ ∃ acquire : ρ → ρ,
      Ends (Acquires held acquire) (initCode.run isStd fuel) ∧
        Ends (GivesBack held acquire) (cleanupCode.run isStd fuel)
  | ifAll fn yes no => fn.Guards isStd fuel ∧ yes.Guards isStd fuel ∧ no.Guards isStd fuel
  | withAll fn _ _ next => fn.Guards isStd fuel ∧ ∀ r, (next r).Guards isStd fuel

end

section

variable {held : σ → ρ} {code : Code ε α σ} {m : Process σ}

/-- What is held after some code, and then kept. -/
theorem Keeps.trans {m' : Process σ} (h : held m'.state = held m.state)
    {r : Ending ε α (Process σ)} (hr : Keeps held m' r) : Keeps held m r := by
  cases r with
  | returned a m'' => exact Eq.trans hr h
  | thrown e m'' => exact Eq.trans hr h
  | terminated m'' => exact trivial

theorem Ends.andThen_keeps {next : α → Code ε β σ} (h : Ends (Keeps held) code)
    (hnext : ∀ a, Ends (Keeps held) (next a)) :
    Ends (Keeps held) fun m => (code m).bind (·.andThen next) := by
  intro m r hr
  rcases bind_andThen_eq_some.mp hr with
    ⟨a, m', hcode, hr⟩ | ⟨e, m', hcode, rfl⟩ | ⟨m', hcode, rfl⟩
  · exact Keeps.trans (h m _ hcode) (hnext a m' r hr)
  · exact h m _ hcode
  · exact trivial

/-- The end of a scope: the body holds what the guard has acquired, and the clean-up gives it
back. -/
theorem leave_keeps {acquire : ρ → ρ} {cleanupCode : Code ε Unit σ}
    (h : Ends (GivesBack held acquire) cleanupCode) (guard : ℕ) {x : ρ} {m₁ : Process σ}
    (hacquired : held m₁.state = acquire x) (hx : x = held m.state)
    {body r : Ending ε α (Process σ)} (hbody : Keeps held m₁ body)
    (hr : leave cleanupCode guard body = some r) : Keeps held m r := by
  have hdestruct : ∀ {m' m'' : Process σ} {u : Unit}, held m'.state = held m₁.state →
      destruct cleanupCode guard m' = some (.returned u m'') →
        held m''.state = held m.state := by
    intro m' m'' u hm' hcode
    obtain ⟨r', hcode, hreturned⟩ := Option.map_eq_some_iff.mp hcode
    cases r' with
    | returned u' m₂ =>
        cases hreturned
        have hback := h _ _ hcode x (hm'.trans hacquired)
        exact hback.trans hx
    | thrown e m₂ => cases hreturned
    | terminated m₂ => cases hreturned
  have hthrown : ∀ {m' m'' : Process σ} {e : ε},
      destruct cleanupCode guard m' ≠ some (.thrown e m'') := by
    intro m' m'' e hcode
    obtain ⟨r', -, hthrown⟩ := Option.map_eq_some_iff.mp hcode
    cases r' <;> cases hthrown
  cases body with
  | terminated m' =>
      obtain rfl := Option.some.inj hr
      exact trivial
  | returned a m' =>
      rcases bind_andThen_eq_some.mp hr with
        ⟨u, m'', hcode, hr⟩ | ⟨e, m'', hcode, rfl⟩ | ⟨m'', hcode, rfl⟩
      · obtain rfl := Option.some.inj hr
        exact hdestruct hbody hcode
      · exact (hthrown hcode).elim
      · exact trivial
  | thrown e m' =>
      rcases bind_andThen_eq_some.mp hr with
        ⟨u, m'', hcode, hr⟩ | ⟨e', m'', hcode, rfl⟩ | ⟨m'', hcode, rfl⟩
      · obtain rfl := Option.some.inj hr
        exact hdestruct hbody hcode
      · exact (hthrown hcode).elim
      · exact trivial

theorem raii_keeps {acquire : ρ → ρ} {initCode cleanupCode : Code ε Unit σ}
    (hinit : Ends (Acquires held acquire) initCode)
    (hcleanup : Ends (GivesBack held acquire) cleanupCode) (hbody : Ends (Keeps held) code) :
    Ends (Keeps held) (raii initCode cleanupCode code) := by
  intro m r hr
  rcases bind_andThen_eq_some.mp hr with
    ⟨guard, m', hmade, hr⟩ | ⟨e, m', hmade, rfl⟩ | ⟨m', hmade, rfl⟩ <;>
    rcases bind_andThen_eq_some.mp hmade with
      ⟨_, m₁, hcode, hmade⟩ | ⟨e', m₁, hcode, hmade⟩ | ⟨m₁, hcode, hmade⟩ <;>
    cases hmade
  · obtain ⟨r', hrun, hr⟩ := Option.bind_eq_some_iff.mp hr
    have hacquired : held m₁.opened.state = acquire (held m.state) := hinit m _ hcode
    exact leave_keeps hcleanup _ hacquired rfl (hbody _ _ hrun) hr
  · exact hinit m _ hcode
  · exact trivial

theorem catchStd_keeps (h : Ends (Keeps held) code) (isStd : ε → Bool) (ok : α → β)
    (failed : β) : Ends (Keeps held) (catchStd isStd ok failed code) := by
  intro m r hr
  obtain ⟨r', hcode, rfl⟩ := Option.map_eq_some_iff.mp hr
  have hkeeps := h m _ hcode
  cases r' with
  | returned a m' => exact hkeeps
  | terminated m' => exact trivial
  | thrown e m' =>
      dsimp only
      split
      · exact hkeeps
      · exact trivial

theorem returning_keeps {code : Code ε Unit σ} (h : Ends (Keeps held) code) (value : σ → α) :
    Ends (Keeps held) (returning value code) :=
  h.andThen_keeps fun _ _ _ hr => Option.some.inj hr ▸ rfl

theorem whileTrue_keeps {body : Code ε Unit σ} (h : Ends (Keeps held) body) (cond : σ → Bool)
    (rounds : ℕ) : Ends (Keeps held) (whileTrue cond body rounds) := by
  induction rounds with
  | zero =>
      intro m r hr
      cases hr
  | succ rounds ih =>
      intro m r hr
      rw [Scopes.whileTrue] at hr
      split at hr
      · exact h.andThen_keeps (fun _ => ih) m r hr
      · obtain rfl := Option.some.inj hr
        exact rfl

end

/-- **Resources are given back.**  A program whose guards give back what they acquire, and which
acquires nothing without a guard, holds at its end what it held when it began: whether it
returns or throws, wherever exceptions come from, and whichever of them are caught. -/
theorem resources_restored {held : σ → ρ} {isStd : ε → Bool} {fuel : ℕ} {p : Program ε σ}
    (h : p.Guards held isStd fuel) : Ends (Keeps held) (p.run isStd fuel) := by
  induction p with
  | call f => exact h
  | seq first second ihFirst ihSecond => exact (ihFirst h.1).andThen_keeps fun _ => ihSecond h.2
  | branch cond yes no ihYes ihNo =>
      intro m r hr
      simp only [Program.run] at hr
      split at hr
      · exact ihYes h.1 m r hr
      · exact ihNo h.2 m r hr
  | loop cond body ih => exact whileTrue_keeps (ih h) cond fuel
  | guarded initCode cleanupCode body _ _ ihBody =>
      obtain ⟨hbody, acquire, hinit, hcleanup⟩ := h
      exact raii_keeps hinit hcleanup (ihBody hbody)
  | ifAll fn yes no ihFn ihYes ihNo =>
      obtain ⟨hfn, hyes, hno⟩ := h
      refine (catchStd_keeps (ihFn hfn) isStd _ _).andThen_keeps fun b m r hr => ?_
      cases b with
      | true => exact ihYes hyes m r hr
      | false => exact ihNo hno m r hr
  | withAll fn value empty next ihFn ihNext =>
      have hkeeps := catchStd_keeps (returning_keeps (ihFn h.1) value) isStd
        (fun a => (a, true)) (empty, false)
      exact hkeeps.andThen_keeps fun r => ihNext r (h.2 r)

/-- Two locks in scopes, and an exception under the inner one. -/
def nestedLocks : Program Bool (List ℕ) :=
  .ifAll (.guarded (lock 1) unlock (.guarded (lock 2) unlock fails))
    fails (.guarded (lock 4) unlock fails)

theorem guards_nestedLocks : nestedLocks.Guards id id 1 := by
  have hacquires : ∀ n, Ends (Acquires id (n :: ·)) ((lock n).run id 1) := by
    intro n m r hr
    cases hr
    exact rfl
  have hback : ∀ n, Ends (GivesBack id (n :: ·)) (unlock.run id 1) := by
    intro n m r hr
    cases hr
    intro x hx
    exact congrArg List.tail hx
  have hfails : fails.Guards id id 1 := by
    intro m r hr
    cases hr
    exact rfl
  exact ⟨⟨⟨hfails, _, hacquires 2, hback 2⟩, _, hacquires 1, hback 1⟩, hfails, hfails, _,
    hacquires 4, hback 4⟩

theorem resources_restored_locks : Ends (Keeps id) (nestedLocks.run id 1) :=
  resources_restored guards_nestedLocks

/-! ## `Finally` around an action -/

/-- How an action ends. -/
def endingOf (body : EStateM ε σ α) (s : σ) : Ending ε α σ :=
  match body s with
  | .ok a s' => .returned a s'
  | .error e s' => .thrown e s'

/-- An ending of a process, without its log. -/
def Ending.onState : Ending ε α (Process σ) → Ending ε α σ
  | .returned a m => .returned a m.state
  | .thrown e m => .thrown e m.state
  | .terminated m => .terminated m.state

/-- A `Finally` whose code does not throw runs it after the body, whether that returns or
throws. -/
theorem finally'_eq_withCleanup (cleanup : σ → σ) (body : EStateM ε σ Unit) (m : Process σ) :
    (finally' (callCode fun s => .returned ⟨⟩ (cleanup s)) (callCode (endingOf body)) m).map
      Ending.onState = some (endingOf (withCleanup cleanup body) m.state) := by
  have hguard : finally' (callCode fun s => .returned ⟨⟩ (cleanup s))
      (callCode (endingOf body)) m = (callCode (endingOf body) m.opened).bind
        (leave (callCode fun s => .returned ⟨⟩ (cleanup s)) m.made) := rfl
  have hstate : m.opened.state = m.state := rfl
  rw [hguard, callCode, endingOf, endingOf, withCleanup, hstate]
  cases body m.state <;> rfl

end KssUtil.Scopes

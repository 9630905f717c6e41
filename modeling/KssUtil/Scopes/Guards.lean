import KssUtil.Foundation.Nesting
import KssUtil.Foundation.Program

/-!
# Guards (raii.hpp, error.hpp, error.cpp)

Code with guards in its scopes, and `tryAll` around it.  Code may throw, and an exception that
would leave a function that is `noexcept` ends the process.  A process has a log of the guards
that are made and destroyed in it.
-/

namespace KssUtil.Scopes

open KssUtil.Foundation

variable {ε α β σ : Type}

/-- How code ends: it returns, it throws, or the process is terminated. -/
inductive Ending (ε α σ : Type) where
  | returned (a : α) (s : σ)
  | thrown (e : ε) (s : σ)
  | terminated (s : σ)
deriving DecidableEq, Repr

namespace Ending

/-- What is left. -/
def state : Ending ε α σ → σ
  | returned _ s => s
  | thrown _ s => s
  | terminated s => s

/-- What follows is run if nothing was thrown. -/
def andThen (r : Ending ε α σ) (next : α → σ → Option (Ending ε β σ)) : Option (Ending ε β σ) :=
  match r with
  | returned a s => next a s
  | thrown e s => some (thrown e s)
  | terminated s => some (terminated s)

/-- No exception leaves a function that is `noexcept`. -/
def noexcept : Ending ε α σ → Ending ε α σ
  | thrown _ s => terminated s
  | r => r

end Ending

/-- The state of the program, and its guards: they are numbered as they are made. -/
structure Process (σ : Type) where
  state : σ
  made : ℕ
  log : List (Mark ℕ)
deriving DecidableEq, Repr

/-- A guard has been made. -/
def Process.opened (m : Process σ) : Process σ :=
  { m with made := m.made + 1, log := m.log ++ [.opened m.made] }

/-- A guard is being destroyed. -/
def Process.closed (m : Process σ) (guard : ℕ) : Process σ :=
  { m with log := m.log ++ [.closed guard] }

/-- Code; it may not end. -/
abbrev Code (ε α σ : Type) := Process σ → Option (Ending ε α (Process σ))

/-- `RAII(initCode, cleanupCode)`; there is no guard if `initCode` throws. -/
def construct (initCode : Code ε Unit σ) : Code ε ℕ σ := fun m =>
  (initCode m).bind (·.andThen fun _ m' => some (.returned m'.made m'.opened))

/-- `~RAII()` -/
def destruct (cleanupCode : Code ε Unit σ) (guard : ℕ) : Code ε Unit σ := fun m =>
  (cleanupCode (m.closed guard)).map Ending.noexcept

/-- The end of the scope of a guard. -/
def leave (cleanupCode : Code ε Unit σ) (guard : ℕ) :
    Ending ε α (Process σ) → Option (Ending ε α (Process σ))
  | .returned a m => (destruct cleanupCode guard m).bind (·.andThen fun _ m' =>
      some (.returned a m'))
  | .thrown e m => (destruct cleanupCode guard m).bind (·.andThen fun _ m' => some (.thrown e m'))
  | .terminated m => some (.terminated m)

/-- `{ RAII guard(initCode, cleanupCode); body }` -/
def raii (initCode cleanupCode : Code ε Unit σ) (body : Code ε α σ) : Code ε α σ := fun m =>
  (construct initCode m).bind (·.andThen fun guard m' => (body m').bind (leave cleanupCode guard))

/-- `[]{}` -/
def nothing : Code ε Unit σ := fun m => some (.returned ⟨⟩ m)

/-- `{ Finally guard(code); body }` -/
def finally' (code : Code ε Unit σ) (body : Code ε α σ) : Code ε α σ := raii nothing code body

/-- `try { return ok(fn()); } catch (const std::exception&) { return failed; }`, in a function
that is `noexcept`; `isStd` are the exceptions that are derived from `std::exception`. -/
def catchStd (isStd : ε → Bool) (ok : α → β) (failed : β) (fn : Code ε α σ) : Code ε β σ :=
  fun m => (fn m).map fun
    | .returned a m' => .returned (ok a) m'
    | .thrown e m' => if isStd e then .returned failed m' else .terminated m'
    | .terminated m' => .terminated m'

/-- `bool tryAll(fn)` -/
def tryAll (isStd : ε → Bool) (fn : Code ε Unit σ) : Code ε Bool σ :=
  catchStd isStd (fun _ => true) false fn

/-- `pair<T, bool> tryAll(fn)`; `empty` is `T()`. -/
def tryAllValue (isStd : ε → Bool) (fn : Code ε α σ) (empty : α) : Code ε (α × Bool) σ :=
  catchStd isStd (fun a => (a, true)) (empty, false) fn

/-- `[] { code; return value; }` -/
def returning (value : σ → α) (code : Code ε Unit σ) : Code ε α σ := fun m =>
  (code m).bind (·.andThen fun _ m' => some (.returned (value m'.state) m'))

/-- `while (cond) { body }`, for so many rounds at most. -/
def whileTrue (cond : σ → Bool) (body : Code ε Unit σ) : ℕ → Code ε Unit σ
  | 0, _ => none
  | rounds + 1, m =>
      if cond m.state then (body m).bind (·.andThen fun _ m' => whileTrue cond body rounds m')
      else some (.returned ⟨⟩ m)

/-! ## Programs -/

/-- What can be written with guards and `tryAll`, around calls of other code. -/
inductive Program (ε σ : Type) : Type 1 where
  | call (f : σ → Ending ε Unit σ)
  | seq (first second : Program ε σ)
  | branch (cond : σ → Bool) (yes no : Program ε σ)
  | loop (cond : σ → Bool) (body : Program ε σ)
  | guarded (initCode cleanupCode body : Program ε σ)
  | ifAll (fn yes no : Program ε σ)
  | withAll {T : Type} (fn : Program ε σ) (value : σ → T) (empty : T)
      (next : T × Bool → Program ε σ)

/-- A call of code without guards. -/
def callCode (f : σ → Ending ε Unit σ) : Code ε Unit σ := fun m =>
  match f m.state with
  | .returned _ s => some (.returned ⟨⟩ { m with state := s })
  | .thrown e s => some (.thrown e { m with state := s })
  | .terminated s => some (.terminated { m with state := s })

namespace Program

/-- A loop is run for `fuel` rounds at most. -/
def run (isStd : ε → Bool) (fuel : ℕ) : Program ε σ → Code ε Unit σ
  | call f => callCode f
  | seq first second => fun m =>
      (run isStd fuel first m).bind (·.andThen fun _ m' => run isStd fuel second m')
  | branch cond yes no => fun m =>
      if cond m.state then run isStd fuel yes m else run isStd fuel no m
  | loop cond body => whileTrue cond (run isStd fuel body) fuel
  | guarded initCode cleanupCode body =>
      raii (run isStd fuel initCode) (run isStd fuel cleanupCode) (run isStd fuel body)
  | ifAll fn yes no => fun m =>
      (tryAll isStd (run isStd fuel fn) m).bind (·.andThen fun b m' =>
        if b then run isStd fuel yes m' else run isStd fuel no m')
  | withAll fn value empty next => fun m =>
      (tryAllValue isStd (returning value (run isStd fuel fn)) empty m).bind (·.andThen
        fun r m' => run isStd fuel (next r) m')

end Program

/-! ## Ways to build code -/

/-- A property of code by how it ends. -/
def Ends (P : Process σ → Ending ε α (Process σ) → Prop) (code : Code ε α σ) : Prop :=
  ∀ m r, code m = some r → P m r

theorem bind_andThen_eq_some {code : Option (Ending ε α (Process σ))}
    {next : α → Process σ → Option (Ending ε β (Process σ))} {r : Ending ε β (Process σ)} :
    code.bind (·.andThen next) = some r ↔
      (∃ a m', code = some (.returned a m') ∧ next a m' = some r) ∨
      (∃ e m', code = some (.thrown e m') ∧ r = .thrown e m') ∨
      ∃ m', code = some (.terminated m') ∧ r = .terminated m' := by
  rcases code with _ | (⟨a, m'⟩ | ⟨e, m'⟩ | m')
  · simp
  · simp [Ending.andThen]
  · simp [Ending.andThen, eq_comm]
  · simp [Ending.andThen, eq_comm]

/-! ## The log -/

/-- `w` has been logged, and the guards that are opened in it are those made meanwhile. -/
structure Logged (m m' : Process σ) (w : List (Mark ℕ)) : Prop where
  log : m'.log = m.log ++ w
  le : m.made ≤ m'.made
  opens : Mark.opens w = List.range' m.made (m'.made - m.made)

/-- The guards made meanwhile have been destroyed again, the last one first. -/
def Level (m m' : Process σ) : Prop := ∃ w, Logged m m' w ∧ Mark.Nested w

/-- Code ends with the guards it began with.  Where the process is terminated, those that are
left are never destroyed. -/
def Unwound (m : Process σ) : Ending ε α (Process σ) → Prop
  | .returned _ m' => Level m m'
  | .thrown _ m' => Level m m'
  | .terminated m' => ∃ w left, Logged m m' w ∧ Mark.replay w [] = some left

section

variable {m m' m'' : Process σ} {w v : List (Mark ℕ)}

theorem Logged.refl (m : Process σ) : Logged m m [] := by
  refine ⟨(List.append_nil _).symm, le_rfl, ?_⟩
  rw [Nat.sub_self]
  rfl

theorem Logged.trans (h : Logged m m' w) (h' : Logged m' m'' v) : Logged m m'' (w ++ v) := by
  refine ⟨?_, h.le.trans h'.le, ?_⟩
  · rw [h'.log, h.log, List.append_assoc]
  · have hsum : m''.made - m.made = (m'.made - m.made) + (m''.made - m'.made) := by
      have hle := h.le
      have hle' := h'.le
      omega
    have hstart : m.made + (m'.made - m.made) = m'.made := Nat.add_sub_cancel' h.le
    rw [Mark.opens_append, h.opens, h'.opens, hsum, ← List.range'_append_1, hstart]

theorem logged_opened (m : Process σ) : Logged m m.opened [.opened m.made] := by
  refine ⟨rfl, Nat.le_succ _, ?_⟩
  show [m.made] = List.range' m.made (m.made + 1 - m.made)
  rw [Nat.add_sub_cancel_left]
  rfl

theorem logged_closed (m : Process σ) (guard : ℕ) :
    Logged m (m.closed guard) [.closed guard] := by
  refine ⟨rfl, le_rfl, ?_⟩
  show [] = List.range' m.made (m.made - m.made)
  rw [Nat.sub_self]
  rfl

theorem Level.refl (m : Process σ) : Level m m := ⟨[], .refl m, Mark.nested_nil⟩

theorem Level.trans (h : Level m m') (h' : Level m' m'') : Level m m'' := by
  obtain ⟨w, hw, hnested⟩ := h
  obtain ⟨v, hv, hnested'⟩ := h'
  exact ⟨w ++ v, hw.trans hv, hnested.append hnested'⟩

/-- What is behind code that has unwound. -/
theorem Level.unwound (h : Level m m') {r : Ending ε α (Process σ)} (hr : Unwound m' r) :
    Unwound m r := by
  cases r with
  | returned a m'' => exact h.trans hr
  | thrown e m'' => exact h.trans hr
  | terminated m'' =>
      obtain ⟨w, hw, hnested⟩ := h
      obtain ⟨v, left, hv, hreplay⟩ := hr
      refine ⟨w ++ v, left, hw.trans hv, ?_⟩
      rw [Mark.replay_append, hnested.replay]
      exact hreplay

/-- A guard, and all that has been made under it: it is destroyed, and then the rest runs. -/
theorem Level.enclose (h : Level m.opened m') (h' : Level (m'.closed m.made) m'') :
    Level m m'' := by
  obtain ⟨w, hw, hnested⟩ := h
  obtain ⟨v, hv, hnested'⟩ := h'
  have hlogged := ((logged_opened m).trans hw).trans (logged_closed m' m.made)
  refine ⟨_, hlogged.trans hv, ?_⟩
  exact Mark.Nested.append (hnested.wrap m.made) hnested'

/-- The process is terminated under a guard: it is left. -/
theorem unwound_under (h : ∃ w left, Logged m.opened m' w ∧ Mark.replay w [] = some left) :
    Unwound m (.terminated m' : Ending ε α (Process σ)) := by
  obtain ⟨w, left, hw, hreplay⟩ := h
  refine ⟨[.opened m.made] ++ w, left ++ [m.made], (logged_opened m).trans hw, ?_⟩
  show Mark.replay w ([] ++ [m.made]) = some (left ++ [m.made])
  exact Mark.replay_frame hreplay [m.made]

/-- The process is terminated while a guard is destroyed. -/
theorem unwound_destroyed (h : Level m.opened m')
    (h' : ∃ w left, Logged (m'.closed m.made) m'' w ∧ Mark.replay w [] = some left) :
    Unwound m (.terminated m'' : Ending ε α (Process σ)) := by
  obtain ⟨w, hw, hnested⟩ := h
  obtain ⟨v, left, hv, hreplay⟩ := h'
  have hlogged := ((logged_opened m).trans hw).trans (logged_closed m' m.made)
  refine ⟨_, left, hlogged.trans hv, ?_⟩
  rw [Mark.replay_append]
  have hwrap : Mark.replay ([.opened m.made] ++ w ++ [.closed m.made]) [] = some [] :=
    hnested.wrap m.made
  rw [hwrap]
  exact hreplay

end

/-! ## Each way to build code unwinds -/

/-- Whenever the code ends, it has unwound. -/
abbrev Unwinds (code : Code ε α σ) : Prop := Ends Unwound code

theorem Unwinds.andThen {code : Code ε α σ} {next : α → Code ε β σ} (h : Unwinds code)
    (hnext : ∀ a, Unwinds (next a)) : Unwinds fun m => (code m).bind (·.andThen next) := by
  intro m r hr
  rcases bind_andThen_eq_some.mp hr with
    ⟨a, m', hcode, hr⟩ | ⟨e, m', hcode, rfl⟩ | ⟨m', hcode, rfl⟩
  · exact Level.unwound (h m _ hcode) (hnext a m' r hr)
  · exact h m _ hcode
  · exact h m _ hcode

theorem unwinds_destruct {cleanupCode : Code ε Unit σ} (h : Unwinds cleanupCode) (guard : ℕ)
    {m : Process σ} {r : Ending ε Unit (Process σ)} (hr : destruct cleanupCode guard m = some r) :
    Unwound (m.closed guard) r := by
  obtain ⟨r', hcode, rfl⟩ := Option.map_eq_some_iff.mp hr
  have hunwound := h _ _ hcode
  cases r' with
  | returned a m' => exact hunwound
  | terminated m' => exact hunwound
  | thrown e m' =>
      obtain ⟨w, hw, hnested⟩ := hunwound
      exact ⟨w, [], hw, hnested⟩

/-- However the body ends, its guard is destroyed, unless the process is terminated. -/
theorem unwound_leave {cleanupCode : Code ε Unit σ} (h : Unwinds cleanupCode) {m : Process σ}
    {body r : Ending ε α (Process σ)} (hbody : Unwound m.opened body)
    (hr : leave cleanupCode m.made body = some r) : Unwound m r := by
  cases body with
  | terminated m' =>
      obtain rfl := Option.some.inj hr
      exact unwound_under hbody
  | returned a m' =>
      rcases bind_andThen_eq_some.mp hr with
        ⟨_, m'', hcode, hr⟩ | ⟨e, m'', hcode, rfl⟩ | ⟨m'', hcode, rfl⟩
      · obtain rfl := Option.some.inj hr
        exact Level.enclose hbody (unwinds_destruct h _ hcode)
      · exact Level.enclose hbody (unwinds_destruct h _ hcode)
      · exact unwound_destroyed hbody (unwinds_destruct h _ hcode)
  | thrown e m' =>
      rcases bind_andThen_eq_some.mp hr with
        ⟨_, m'', hcode, hr⟩ | ⟨e', m'', hcode, rfl⟩ | ⟨m'', hcode, rfl⟩
      · obtain rfl := Option.some.inj hr
        exact Level.enclose hbody (unwinds_destruct h _ hcode)
      · exact Level.enclose hbody (unwinds_destruct h _ hcode)
      · exact unwound_destroyed hbody (unwinds_destruct h _ hcode)

theorem Unwinds.raii {initCode cleanupCode : Code ε Unit σ} {body : Code ε α σ}
    (hinit : Unwinds initCode) (hcleanup : Unwinds cleanupCode) (hbody : Unwinds body) :
    Unwinds (raii initCode cleanupCode body) := by
  intro m r hr
  rcases bind_andThen_eq_some.mp hr with
    ⟨guard, m', hmade, hr⟩ | ⟨e, m', hmade, rfl⟩ | ⟨m', hmade, rfl⟩ <;>
    rcases bind_andThen_eq_some.mp hmade with
      ⟨_, m₁, hcode, hmade⟩ | ⟨e', m₁, hcode, hmade⟩ | ⟨m₁, hcode, hmade⟩ <;>
    cases hmade
  · obtain ⟨r', hrun, hr⟩ := Option.bind_eq_some_iff.mp hr
    exact Level.unwound (hinit m _ hcode) (unwound_leave hcleanup (hbody _ _ hrun) hr)
  · exact hinit m _ hcode
  · exact hinit m _ hcode

theorem Unwinds.catchStd {fn : Code ε α σ} (h : Unwinds fn) (isStd : ε → Bool) (ok : α → β)
    (failed : β) : Unwinds (catchStd isStd ok failed fn) := by
  intro m r hr
  obtain ⟨r', hcode, rfl⟩ := Option.map_eq_some_iff.mp hr
  have hunwound := h m _ hcode
  cases r' with
  | returned a m' => exact hunwound
  | terminated m' => exact hunwound
  | thrown e m' =>
      dsimp only
      split
      · exact hunwound
      · obtain ⟨w, hw, hnested⟩ := hunwound
        exact ⟨w, [], hw, hnested⟩

theorem Unwinds.returning {code : Code ε Unit σ} (h : Unwinds code) (value : σ → α) :
    Unwinds (returning value code) := by
  refine h.andThen fun _ m r hr => ?_
  obtain rfl := Option.some.inj hr
  exact Level.refl m

theorem Unwinds.whileTrue {body : Code ε Unit σ} (h : Unwinds body) (cond : σ → Bool)
    (rounds : ℕ) : Unwinds (whileTrue cond body rounds) := by
  induction rounds with
  | zero =>
      intro m r hr
      cases hr
  | succ rounds ih =>
      intro m r hr
      rw [Scopes.whileTrue] at hr
      split at hr
      · exact Unwinds.andThen h (fun _ => ih) m r hr
      · obtain rfl := Option.some.inj hr
        exact Level.refl m

theorem unwinds_callCode (f : σ → Ending ε Unit σ) : Unwinds (callCode f) := by
  intro m r hr
  have hsame : ∀ s, Level m { m with state := s } := fun s =>
    ⟨[], ⟨(List.append_nil _).symm, le_rfl, (Logged.refl m).opens⟩, Mark.nested_nil⟩
  unfold callCode at hr
  split at hr <;> cases hr
  · exact hsame _
  · exact hsame _
  · obtain ⟨w, hw, hnested⟩ := hsame _
    exact ⟨w, [], hw, hnested⟩

/-- **Unwinding.**  There is a case for each way to build a program. -/
theorem unwinds_run (isStd : ε → Bool) (fuel : ℕ) (p : Program ε σ) :
    Unwinds (p.run isStd fuel) := by
  induction p with
  | call f => exact unwinds_callCode f
  | seq first second ihFirst ihSecond => exact ihFirst.andThen fun _ => ihSecond
  | branch cond yes no ihYes ihNo =>
      intro m r hr
      simp only [Program.run] at hr
      split at hr
      · exact ihYes m r hr
      · exact ihNo m r hr
  | loop cond body ih => exact ih.whileTrue cond fuel
  | guarded initCode cleanupCode body ihInit ihCleanup ihBody =>
      exact ihInit.raii ihCleanup ihBody
  | ifAll fn yes no ihFn ihYes ihNo =>
      refine (ihFn.catchStd isStd _ _).andThen fun b m r hr => ?_
      cases b with
      | true => exact ihYes m r hr
      | false => exact ihNo m r hr
  | withAll fn value empty next ihFn ihNext =>
      exact ((ihFn.returning value).catchStd isStd _ _).andThen ihNext

/-! ## Processes that are not terminated -/

/-- The process is not terminated. -/
def Survives (_ : Process σ) : Ending ε α (Process σ) → Prop
  | .terminated _ => False
  | _ => True

/-- What is thrown, if anything is, is one of `P`. -/
def Throws (P : ε → Prop) (_ : Process σ) : Ending ε α (Process σ) → Prop
  | .thrown e _ => P e
  | _ => True

/-- No call ends the process, no clean-up throws, and `tryAll` is given code that throws nothing
but exceptions derived from `std::exception`. -/
def Program.Careful (isStd : ε → Bool) (fuel : ℕ) : Program ε σ → Prop
  | call f => ∀ s s', f s ≠ .terminated s'
  | seq first second => first.Careful isStd fuel ∧ second.Careful isStd fuel
  | branch _ yes no => yes.Careful isStd fuel ∧ no.Careful isStd fuel
  | loop _ body => body.Careful isStd fuel
  | guarded initCode cleanupCode body =>
      (initCode.Careful isStd fuel ∧ cleanupCode.Careful isStd fuel ∧ body.Careful isStd fuel) ∧
        Ends (Throws fun _ => False) (cleanupCode.run isStd fuel)
  | ifAll fn yes no =>
      (fn.Careful isStd fuel ∧ yes.Careful isStd fuel ∧ no.Careful isStd fuel) ∧
        Ends (Throws fun e => isStd e = true) (fn.run isStd fuel)
  | withAll fn _ _ next => (fn.Careful isStd fuel ∧ ∀ r, (next r).Careful isStd fuel) ∧
      Ends (Throws fun e => isStd e = true) (fn.run isStd fuel)

section

variable {code : Code ε α σ} {m : Process σ}

/-- Where code survives, and what follows does. -/
theorem Ends.andThen_survives {next : α → Code ε β σ} (h : Ends Survives code)
    (hnext : ∀ a, Ends Survives (next a)) :
    Ends Survives fun m => (code m).bind (·.andThen next) := by
  intro m r hr
  rcases bind_andThen_eq_some.mp hr with
    ⟨a, m', -, hr⟩ | ⟨e, m', -, rfl⟩ | ⟨m', hcode, rfl⟩
  · exact hnext a m' r hr
  · exact trivial
  · exact h m _ hcode

/-- A clean-up that does not throw returns. -/
theorem destruct_survives {cleanupCode : Code ε Unit σ} (h : Ends Survives cleanupCode)
    (hthrows : Ends (Throws fun _ => False) cleanupCode) (guard : ℕ) :
    Ends Survives (destruct cleanupCode guard) := by
  intro m r hr
  obtain ⟨r', hcode, rfl⟩ := Option.map_eq_some_iff.mp hr
  cases r' with
  | returned a m' => exact trivial
  | thrown e m' => exact (hthrows _ _ hcode).elim
  | terminated m' =>
      have hsurvives := h _ _ hcode
      exact hsurvives

theorem leave_survives {cleanupCode : Code ε Unit σ} (h : Ends Survives cleanupCode)
    (hthrows : Ends (Throws fun _ => False) cleanupCode) (guard : ℕ)
    {body r : Ending ε α (Process σ)} (hbody : Survives m body)
    (hr : leave cleanupCode guard body = some r) : Survives m r := by
  have hdestruct := destruct_survives h hthrows guard
  cases body with
  | terminated m' => exact hbody.elim
  | returned a m' =>
      have hnext (_ : Unit) : Ends Survives fun m : Process σ => some (.returned (ε := ε) a m) :=
        fun _ _ hr => Option.some.inj hr ▸ trivial
      exact hdestruct.andThen_survives hnext m' r hr
  | thrown e m' =>
      have hnext (_ : Unit) : Ends Survives fun m : Process σ => some (.thrown (α := α) e m) :=
        fun _ _ hr => Option.some.inj hr ▸ trivial
      exact hdestruct.andThen_survives hnext m' r hr

theorem raii_survives {initCode cleanupCode : Code ε Unit σ} (hinit : Ends Survives initCode)
    (hcleanup : Ends Survives cleanupCode)
    (hthrows : Ends (Throws fun _ => False) cleanupCode) (hbody : Ends Survives code) :
    Ends Survives (raii initCode cleanupCode code) := by
  have hconstruct : Ends Survives (construct initCode) :=
    hinit.andThen_survives fun _ _ _ hr => Option.some.inj hr ▸ trivial
  refine hconstruct.andThen_survives fun guard m r hr => ?_
  obtain ⟨r', hrun, hr⟩ := Option.bind_eq_some_iff.mp hr
  exact leave_survives hcleanup hthrows guard (hbody _ _ hrun) hr

theorem catchStd_survives {isStd : ε → Bool} (h : Ends Survives code)
    (hthrows : Ends (Throws fun e => isStd e = true) code) (ok : α → β) (failed : β) :
    Ends Survives (catchStd isStd ok failed code) := by
  intro m r hr
  obtain ⟨r', hcode, rfl⟩ := Option.map_eq_some_iff.mp hr
  cases r' with
  | returned a m' => exact trivial
  | terminated m' => exact h m _ hcode
  | thrown e m' =>
      have hstd : isStd e = true := hthrows m _ hcode
      dsimp only
      rw [if_pos hstd]
      exact trivial

theorem returning_survives {code : Code ε Unit σ} (h : Ends Survives code) (value : σ → α) :
    Ends Survives (returning value code) :=
  h.andThen_survives fun _ _ _ hr => Option.some.inj hr ▸ trivial

theorem returning_throws {P : ε → Prop} {code : Code ε Unit σ} (h : Ends (Throws P) code)
    (value : σ → α) : Ends (Throws P) (returning value code) := by
  intro m r hr
  rcases bind_andThen_eq_some.mp hr with
    ⟨_, m', -, hr⟩ | ⟨e, m', hcode, rfl⟩ | ⟨m', -, rfl⟩
  · obtain rfl := Option.some.inj hr
    exact trivial
  · exact h m _ hcode
  · exact trivial

theorem whileTrue_survives {body : Code ε Unit σ} (h : Ends Survives body) (cond : σ → Bool)
    (rounds : ℕ) : Ends Survives (whileTrue cond body rounds) := by
  induction rounds with
  | zero =>
      intro m r hr
      cases hr
  | succ rounds ih =>
      intro m r hr
      rw [Scopes.whileTrue] at hr
      split at hr
      · exact h.andThen_survives (fun _ => ih) m r hr
      · obtain rfl := Option.some.inj hr
        exact trivial

end

theorem Program.Careful.survives {isStd : ε → Bool} {fuel : ℕ} {p : Program ε σ}
    (h : p.Careful isStd fuel) : Ends Survives (p.run isStd fuel) := by
  induction p with
  | call f =>
      intro m r hr
      simp only [run, callCode] at hr
      split at hr <;> cases hr
      · exact trivial
      · exact trivial
      · rename_i s hs
        exact (h _ _ hs).elim
  | seq first second ihFirst ihSecond => exact (ihFirst h.1).andThen_survives fun _ => ihSecond h.2
  | branch cond yes no ihYes ihNo =>
      intro m r hr
      simp only [run] at hr
      split at hr
      · exact ihYes h.1 m r hr
      · exact ihNo h.2 m r hr
  | loop cond body ih => exact whileTrue_survives (ih h) cond fuel
  | guarded initCode cleanupCode body ihInit ihCleanup ihBody =>
      obtain ⟨⟨hinit, hcleanup, hbody⟩, hthrows⟩ := h
      exact raii_survives (ihInit hinit) (ihCleanup hcleanup) hthrows (ihBody hbody)
  | ifAll fn yes no ihFn ihYes ihNo =>
      obtain ⟨⟨hfn, hyes, hno⟩, hthrows⟩ := h
      refine (catchStd_survives (ihFn hfn) hthrows _ _).andThen_survives fun b m r hr => ?_
      cases b with
      | true => exact ihYes hyes m r hr
      | false => exact ihNo hno m r hr
  | withAll fn value empty next ihFn ihNext =>
      obtain ⟨⟨hfn, hnext⟩, hthrows⟩ := h
      have hsurvives := catchStd_survives (returning_survives (ihFn hfn) value)
        (returning_throws hthrows value) (fun a => (a, true)) (empty, false)
      exact hsurvives.andThen_survives fun r => ihNext r (hnext r)

/-! ## Programs with guards -/

/-- The guards are those that were made in the meantime, in the order in which they were made;
and each is destroyed once, before those that are older. -/
structure Unwinding (m m' : Process σ) (w : List (Mark ℕ)) : Prop where
  log : m'.log = m.log ++ w
  opens : Mark.opens w = List.range' m.made (m'.made - m.made)
  nested : Mark.Nested w
  once : (Mark.closes w).Perm (List.range' m.made (m'.made - m.made))

theorem Level.unwinding {m m' : Process σ} (h : Level m m') : ∃ w, Unwinding m m' w := by
  obtain ⟨w, hw, hnested⟩ := h
  refine ⟨w, hw.log, hw.opens, hnested, ?_⟩
  rw [← hw.opens]
  exact hnested.perm

/-- **Guards unwind.**  However the code of a program returns and throws, each guard that has
been made is destroyed, once, the last one first.  There are guards left only where the process
is terminated, and where the code is careful it is not. -/
theorem guards_unwind (isStd : ε → Bool) (fuel : ℕ) (p : Program ε σ) {m : Process σ}
    {r : Ending ε Unit (Process σ)} (h : p.run isStd fuel m = some r) :
    (Survives m r → ∃ w, Unwinding m r.state w) ∧
      (∃ w left, r.state.log = m.log ++ w ∧ Mark.replay w [] = some left) ∧
      (p.Careful isStd fuel → Survives m r) := by
  have hunwound := unwinds_run isStd fuel p m r h
  refine ⟨fun hsurvives => ?_, ?_, fun hcareful => hcareful.survives m r h⟩
  · cases r with
    | returned a m' => exact Level.unwinding hunwound
    | thrown e m' => exact Level.unwinding hunwound
    | terminated m' => exact hsurvives.elim
  · cases r with
    | returned a m' =>
        obtain ⟨w, hw, hnested⟩ := hunwound
        exact ⟨w, [], hw.log, hnested⟩
    | thrown e m' =>
        obtain ⟨w, hw, hnested⟩ := hunwound
        exact ⟨w, [], hw.log, hnested⟩
    | terminated m' =>
        obtain ⟨w, left, hw, hreplay⟩ := hunwound
        exact ⟨w, left, hw.log, hreplay⟩

/-- Takes the lock `n`. -/
def lock (n : ℕ) : Program Bool (List ℕ) := .call fun s => .returned ⟨⟩ (n :: s)

/-- Gives the last lock back. -/
def unlock : Program Bool (List ℕ) := .call fun s => .returned ⟨⟩ s.tail

def fails : Program Bool (List ℕ) := .call fun s => .thrown true s

/-- Two locks in scopes, under `tryAll`, and an exception under the inner one. -/
def twoLocks : Program Bool (List ℕ) :=
  .ifAll (.guarded (lock 1) unlock (.seq (.guarded (lock 2) unlock fails) (lock 3))) (lock 4)
    (.seq (lock 5) unlock)

theorem run_twoLocks : twoLocks.run id 1 ⟨[], 0, []⟩ =
    some (.returned ⟨⟩ ⟨[], 2, [.opened 0, .opened 1, .closed 1, .closed 0]⟩) := by decide

theorem careful_twoLocks : twoLocks.Careful id 1 := by
  have hcall : ∀ n : ℕ, (lock n).Careful id 1 := fun n s s' h => by cases h
  have hunlock : unlock.Careful id 1 := fun s s' h => by cases h
  have hfails : fails.Careful id 1 := fun s s' h => by cases h
  have hreturns : Ends (Throws fun _ => False) (unlock.run id 1) := by
    intro m r hr
    cases hr
    exact trivial
  refine ⟨⟨⟨⟨hcall 1, hunlock, ⟨⟨hcall 2, hunlock, hfails⟩, hreturns⟩, hcall 3⟩, hreturns⟩,
    hcall 4, hcall 5, hunlock⟩, ?_⟩
  intro m r hr
  cases hr
  exact rfl

theorem guards_unwind_locks :
    (∃ w, Unwinding (⟨[], 0, []⟩ : Process (List ℕ))
      ⟨[], 2, [.opened 0, .opened 1, .closed 1, .closed 0]⟩ w) ∧
    Survives (⟨[], 0, []⟩ : Process (List ℕ)) (.returned ⟨⟩
      ⟨[], 2, [.opened 0, .opened 1, .closed 1, .closed 0]⟩ : Ending Bool Unit _) :=
  ⟨(guards_unwind id 1 twoLocks run_twoLocks).1 trivial,
    (guards_unwind id 1 twoLocks run_twoLocks).2.2 careful_twoLocks⟩

end KssUtil.Scopes

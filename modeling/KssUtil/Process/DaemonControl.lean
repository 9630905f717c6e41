import KssUtil.Process.DaemonFiles

/-!
# Which process carries on

Any number of processes may call `daemonize`, beside any others.  What each has called is
carried on by one process.
-/

namespace KssUtil.Process

open KssUtil.Foundation

/-- The process that takes the step. -/
def Event.slot : Event → ℕ
  | .call i _ => i
  | .act i _ => i

namespace System

/-- Some processes are about to call `daemonize`, and the others run other code. -/
structure Start (s : System) : Prop where
  phase : ∀ i < s.count, (s.process i).phase = .other ∨ (s.process i).phase = .fork
  origin : ∀ i < s.count, (s.process i).origin = i
  running : ∀ i < s.count, (s.process i).ledSince = false ∧ (s.process i).gone = false
  pids : ∀ i < s.count, ∀ j < s.count, (s.process i).pid = (s.process j).pid → i = j

/-- The process `i` goes on with what `c` has called. -/
structure Carries (s : System) (c i : ℕ) : Prop where
  slot : i < s.count
  active : (s.process i).phase.active = true
  origin : (s.process i).origin = c

section

variable {m : Machine} {s s₀ s' : System} {c i j pid : ℕ} {p' : Proc}

/-! ## One process carries on -/

/-- What shows of a process to the outside. -/
theorem carries_congr (hcount : s'.count = s.count)
    (hactive : ∀ j < s.count, (s'.process j).phase.active = (s.process j).phase.active)
    (horigin : ∀ j < s.count, (s'.process j).origin = (s.process j).origin) :
    s'.Carries c j ↔ s.Carries c j := by
  constructor
  · rintro ⟨h₁, h₂, h₃⟩
    rw [hcount] at h₁
    exact ⟨h₁, (hactive j h₁).symm.trans h₂, (horigin j h₁).symm.trans h₃⟩
  · rintro ⟨h₁, h₂, h₃⟩
    exact ⟨hcount ▸ h₁, (hactive j h₁).trans h₂, (horigin j h₁).trans h₃⟩

theorem carries_update (hcount : s'.count = s.count)
    (hprocess : s'.process = Function.update s.process i p')
    (hactive : p'.phase.active = (s.process i).phase.active)
    (horigin : p'.origin = (s.process i).origin) : s'.Carries c j ↔ s.Carries c j := by
  refine carries_congr hcount ?_ ?_
  · intro k _
    rw [hprocess]
    by_cases hk : k = i
    · rw [hk, Function.update_self, hactive]
    · rw [Function.update_of_ne hk]
  · intro k _
    rw [hprocess]
    by_cases hk : k = i
    · rw [hk, Function.update_self, horigin]
    · rw [Function.update_of_ne hk]

theorem carries_onward (honward : (s.process i).Onward p') :
    (s.put i p').Carries c j ↔ s.Carries c j :=
  carries_update rfl rfl (honward.active'.trans honward.active.symm) honward.origin

/-- A fork hands on to the child what the parent leaves off. -/
theorem carries_forked {parent child : Phase} (hi : i < s.count) :
    (s.forked i pid parent child).Carries c j ↔
      (j = s.count ∧ child.active = true ∧ (s.process i).origin = c) ∨
      (j = i ∧ parent.active = true ∧ (s.process i).origin = c) ∨
      (j ≠ i ∧ s.Carries c j) := by
  have hnew : (s.forked i pid parent child).process s.count =
      { s.process i with pid, phase := child } := Function.update_self ..
  have hold : ∀ k < s.count, (s.forked i pid parent child).process k =
      (s.put i ((s.process i).goTo parent)).process k :=
    fun k hk => Function.update_of_ne (Nat.ne_of_lt hk) ..
  constructor
  · rintro ⟨hj, hactive, horigin⟩
    rcases Nat.lt_succ_iff_lt_or_eq.mp hj with hj | rfl
    · rw [hold j hj] at hactive horigin
      by_cases hji : j = i
      · rw [hji, put_process] at hactive horigin
        exact Or.inr (Or.inl ⟨hji, hactive, horigin⟩)
      · rw [put_process_ne hji] at hactive horigin
        exact Or.inr (Or.inr ⟨hji, hj, hactive, horigin⟩)
    · rw [hnew] at hactive horigin
      exact Or.inl ⟨rfl, hactive, horigin⟩
  · rintro (⟨rfl, hactive, horigin⟩ | ⟨rfl, hactive, horigin⟩ | ⟨hji, hj, hactive, horigin⟩)
    · refine ⟨Nat.lt_succ_self _, ?_, ?_⟩
      · rw [hnew]
        exact hactive
      · rw [hnew]
        exact horigin
    · refine ⟨Nat.lt_succ_of_lt hi, ?_, ?_⟩
      · rw [hold j hi, put_process]
        exact hactive
      · rw [hold j hi, put_process]
        exact horigin
    · refine ⟨Nat.lt_succ_of_lt hj, ?_, ?_⟩
      · rw [hold j hj, put_process_ne hji]
        exact hactive
      · rw [hold j hj, put_process_ne hji]
        exact horigin

/-- A process that other code makes carries on nothing. -/
theorem carries_spawned : (s.spawned i pid).Carries c j ↔ s.Carries c j := by
  have hnew : (s.spawned i pid).process s.count =
      { s.process i with pid, phase := .other, origin := s.count } := Function.update_self ..
  constructor
  · rintro ⟨hj, hactive, horigin⟩
    rcases Nat.lt_succ_iff_lt_or_eq.mp hj with hj | rfl
    · have hold : (s.spawned i pid).process j = s.process j := add_process hj
      rw [hold] at hactive horigin
      exact ⟨hj, hactive, horigin⟩
    · rw [hnew] at hactive
      cases hactive
  · rintro ⟨hj, hactive, horigin⟩
    have hold : (s.spawned i pid).process j = s.process j := add_process hj
    refine ⟨Nat.lt_succ_of_lt hj, ?_, ?_⟩
    · rw [hold]
      exact hactive
    · rw [hold]
      exact horigin

/-- What has come to the end of `daemonize` stays there when it exits. -/
theorem active_leave {p : Proc} (h : p.phase = .exiting ∨ p.Free) :
    p.leave.phase.active = p.phase.active ∧ p.leave.origin = p.origin := by
  unfold Proc.leave
  cases hended : p.phase.ended with
  | true => exact ⟨rfl, rfl⟩
  | false =>
      refine ⟨?_, rfl⟩
      rcases h with hphase | ⟨hphase | hphase, -⟩
      · rw [hphase]
        rfl
      · rw [hphase]
        rfl
      · rw [hphase] at hended
        cases hended

/-- In each step what carries on a call stays, or hands on to a new process. -/
theorem step_carries {e : Event} (hstep : s.step m e = some s') :
    (∀ c j, s'.Carries c j ↔ s.Carries c j) ∨
      ∃ i < s.count, (s.process i).phase.active = true ∧ s'.count = s.count + 1 ∧
        ∀ c j, s'.Carries c j ↔
          j = s.count ∧ (s.process i).origin = c ∨ j ≠ i ∧ s.Carries c j := by
  cases e with
  | call i answer =>
      obtain ⟨hi, hcall⟩ := step_call hstep
      cases hcall with
      | forked hphase hfresh =>
          refine Or.inr ⟨i, hi, by rw [hphase]; rfl, rfl, fun c j => ?_⟩
          rw [carries_forked hi]
          simp [Phase.active]
      | forkFails hphase =>
          exact Or.inl fun c j => carries_onward (Proc.onward_throws (by rw [hphase]; rfl) _ _)
      | leads hphase hlead =>
          refine Or.inl fun c j => carries_update rfl rfl ?_ rfl
          rw [hphase]
          rfl
      | setsidFails hphase hlead =>
          exact Or.inl fun c j => carries_onward (Proc.onward_throws (by rw [hphase]; rfl) _ _)
      | forkedAgain hphase hfresh =>
          refine Or.inr ⟨i, hi, by rw [hphase]; rfl, rfl, fun c j => ?_⟩
          rw [carries_forked hi]
          simp [Phase.active]
      | forkAgainFails hphase =>
          exact Or.inl fun c j => carries_onward (Proc.onward_throws (by rw [hphase]; rfl) _ _)
      | exits hphase =>
          obtain ⟨hactive, horigin⟩ := active_leave (Or.inl hphase)
          obtain ⟨hcount, hprocess⟩ := exit_frame s i
          exact Or.inl fun c j => carries_update hcount hprocess hactive horigin
      | advances hadvance => exact Or.inl fun c j => carries_onward (Proc.onward_advance hadvance)
      | opens hphase hadvance =>
          obtain ⟨hcount, hprocess⟩ := openTerminal_frame s i console
          have honward := Proc.onward_advance hadvance
          refine Or.inl fun c j => carries_update hcount ?_
            (honward.active'.trans honward.active.symm) honward.origin
          show Function.update (s.openTerminal i console).process i _ = _
          rw [hprocess]
  | act i action =>
      obtain ⟨hi, hfree, hact⟩ := step_act hstep
      cases hact with
      | spawned hfresh => exact Or.inl fun c j => carries_spawned
      | leads hlead => exact Or.inl fun c j => carries_update rfl rfl rfl rfl
      | opens =>
          obtain ⟨hcount, hprocess⟩ := openTerminal_frame s i ‹ℕ›
          refine Or.inl fun c j => carries_congr hcount ?_ ?_
          · intro k _
            rw [hprocess]
          · intro k _
            rw [hprocess]
      | exits =>
          obtain ⟨hactive, horigin⟩ := active_leave (Or.inr hfree)
          obtain ⟨hcount, hprocess⟩ := exit_frame s i
          exact Or.inl fun c j => carries_update hcount hprocess hactive horigin

/-- Exactly one process carries on what `c` has called. -/
def Carried (s : System) (c : ℕ) : Prop := ∃ i, s.Carries c i ∧ ∀ j, s.Carries c j → j = i

theorem Carried.step {e : Event} (h : s.Carried c) (hstep : s.step m e = some s') :
    s'.Carried c := by
  obtain ⟨i₀, hcarries, hunique⟩ := h
  rcases step_carries hstep with hsame | ⟨i, hi, hactive, _, hhands⟩
  · exact ⟨i₀, (hsame c i₀).mpr hcarries, fun j hj => hunique j ((hsame c j).mp hj)⟩
  · by_cases horigin : (s.process i).origin = c
    · have hi₀ : i = i₀ := hunique i ⟨hi, hactive, horigin⟩
      refine ⟨s.count, (hhands c s.count).mpr (Or.inl ⟨rfl, horigin⟩), fun j hj => ?_⟩
      rcases (hhands c j).mp hj with ⟨hj, _⟩ | ⟨hne, hj⟩
      · exact hj
      · exact absurd ((hunique j hj).trans hi₀.symm) hne
    · have hne : i₀ ≠ i := by
        rintro rfl
        exact horigin hcarries.origin
      refine ⟨i₀, (hhands c i₀).mpr (Or.inr ⟨hne, hcarries⟩), fun j hj => ?_⟩
      rcases (hhands c j).mp hj with ⟨_, h⟩ | ⟨_, hj⟩
      · exact absurd h horigin
      · exact hunique j hj

/-! ## The process that calls -/

/-- What a step of the process `i` leaves alone.  A process that is made goes back to the same
as `i`, or to itself. -/
structure Frame (s s' : System) (i : ℕ) : Prop where
  other : ∀ k < s.count, k ≠ i → s'.process k = s.process k
  origin : (s'.process i).origin = (s.process i).origin
  count : s'.count = s.count ∨ s'.count = s.count + 1 ∧
    ((s'.process s.count).origin = (s.process i).origin ∨
      (s'.process s.count).origin = s.count)

theorem frame_put {p' : Proc} (horigin : p'.origin = (s.process i).origin) :
    s.Frame (s.put i p') i := by
  refine ⟨fun k _ hki => put_process_ne hki, ?_, Or.inl rfl⟩
  rw [put_process]
  exact horigin

theorem frame_forked {parent child : Phase} (hi : i < s.count) :
    s.Frame (s.forked i pid parent child) i := by
  obtain ⟨hself, hnew⟩ : (s.forked i pid parent child).process i = (s.process i).goTo parent ∧
      (s.forked i pid parent child).process s.count = { s.process i with pid, phase := child } :=
    ⟨(Function.update_of_ne (Nat.ne_of_lt hi) ..).trans (Function.update_self ..),
      Function.update_self ..⟩
  refine ⟨fun k hk hki => ?_, ?_, Or.inr ⟨rfl, Or.inl ?_⟩⟩
  · exact (Function.update_of_ne (Nat.ne_of_lt hk) ..).trans (Function.update_of_ne hki ..)
  · rw [hself]
    rfl
  · rw [hnew]

theorem frame_spawned (hi : i < s.count) : s.Frame (s.spawned i pid) i := by
  have hold : ∀ k < s.count, (s.spawned i pid).process k = s.process k :=
    fun k hk => add_process hk
  have hnew : (s.spawned i pid).process s.count =
      { s.process i with pid, phase := .other, origin := s.count } := Function.update_self ..
  refine ⟨fun k hk _ => hold k hk, ?_, Or.inr ⟨rfl, Or.inr ?_⟩⟩
  · rw [hold i hi]
  · rw [hnew]

theorem frame_lead {p : Proc} (horigin : p.origin = (s.process i).origin) :
    s.Frame (s.lead i p) i := by
  refine ⟨fun k _ hki => Function.update_of_ne hki .., ?_, Or.inl rfl⟩
  rw [lead_process]
  exact horigin

theorem frame_exit (s : System) (i : ℕ) : s.Frame (s.exit i) i := by
  obtain ⟨hcount, hprocess⟩ := exit_frame s i
  refine ⟨fun k _ hki => ?_, ?_, Or.inl hcount⟩
  · rw [hprocess]
    exact Function.update_of_ne hki ..
  · rw [hprocess, Function.update_self]
    unfold Proc.leave
    split
    · rfl
    · rfl

theorem frame_openTerminal (s : System) (i tty : ℕ) : s.Frame (s.openTerminal i tty) i := by
  obtain ⟨hcount, hprocess⟩ := openTerminal_frame s i tty
  refine ⟨fun k _ _ => congrFun hprocess k, ?_, Or.inl hcount⟩
  rw [hprocess]

theorem step_frame {e : Event} (hstep : s.step m e = some s') :
    e.slot < s.count ∧ s.Frame s' e.slot := by
  cases e with
  | call i answer =>
      obtain ⟨hi, hcall⟩ := step_call hstep
      refine ⟨hi, ?_⟩
      cases hcall with
      | forked _ _ => exact frame_forked hi
      | forkFails _ => exact frame_put rfl
      | leads _ _ => exact frame_lead rfl
      | setsidFails _ _ => exact frame_put rfl
      | forkedAgain _ _ => exact frame_forked hi
      | forkAgainFails _ => exact frame_put rfl
      | exits _ => exact frame_exit s i
      | advances hadvance => exact frame_put (Proc.onward_advance hadvance).origin
      | opens _ hadvance =>
          obtain ⟨hcount, hprocess⟩ := openTerminal_frame s i console
          refine ⟨fun k _ hki => ?_, ?_, Or.inl hcount⟩
          · exact (put_process_ne hki).trans (congrFun hprocess k)
          · exact (congrArg Proc.origin (put_process _ i _)).trans
              (Proc.onward_advance hadvance).origin
  | act i action =>
      obtain ⟨hi, -, hact⟩ := step_act hstep
      refine ⟨hi, ?_⟩
      cases hact with
      | spawned _ => exact frame_spawned hi
      | leads _ => exact frame_lead rfl
      | opens => exact frame_openTerminal s i _
      | exits => exact frame_exit s i

/-- Nothing but `c` goes back to `c`. -/
def Alone (s : System) (c : ℕ) : Prop := ∀ j < s.count, (s.process j).origin = c → j = c

/-- What can have become of the process that has called `daemonize`. -/
inductive Fate (s : System) (c : ℕ) : Prop where
  | calls (hphase : (s.process c).phase = .fork) (halone : s.Alone c)
  | throws {errno : ℤ} (hphase : (s.process c).phase = .threw ⟨errno, "fork"⟩) (halone : s.Alone c)
  | exits (hphase : (s.process c).phase = .exiting ∨ (s.process c).phase = .exited)

/-- The steps of the other processes make nothing that goes back to `c`. -/
theorem Alone.step {e : Event} (h : s.Alone c) (hc : c < s.count)
    (hstep : s.step m e = some s') (hne : e.slot ≠ c) : s'.Alone c := by
  obtain ⟨hslot, hframe⟩ := step_frame hstep
  intro j hj horigin
  by_cases hlt : j < s.count
  · by_cases hje : j = e.slot
    · rw [hje, hframe.origin] at horigin
      exact absurd (h e.slot hslot horigin) hne
    · rw [hframe.other j hlt hje] at horigin
      exact h j hlt horigin
  · rcases hframe.count with hcount | ⟨hcount, hnew⟩
    · exact absurd (hcount ▸ hj) hlt
    · obtain rfl : j = s.count := by omega
      rcases hnew with hnew | hnew
      · exact absurd (h e.slot hslot (hnew.symm.trans horigin)) hne
      · exact absurd (horigin.symm.trans hnew) (Nat.ne_of_lt hc)

/-- A step of `c` itself that makes no process. -/
theorem Alone.stays (h : s.Alone c) (hcount : s'.count = s.count) (hframe : s.Frame s' c) :
    s'.Alone c := by
  intro j hj horigin
  rw [hcount] at hj
  by_cases hjc : j = c
  · exact hjc
  · rw [hframe.other j hj hjc] at horigin
    exact h j hj horigin

theorem Alone.spawned (h : s.Alone c) (hc : c < s.count) : (s.spawned i pid).Alone c := by
  intro j hj horigin
  rcases Nat.lt_succ_iff_lt_or_eq.mp hj with hj | rfl
  · have hold : (s.spawned i pid).process j = s.process j := add_process hj
    rw [hold] at horigin
    exact h j hj horigin
  · have hnew : ((s.spawned i pid).process s.count).origin = s.count := by
      rw [System.spawned, add_process_new]
    exact absurd (horigin.symm.trans hnew) (Nat.ne_of_lt hc)

theorem Fate.step {e : Event} (h : s.Fate c) (hc : c < s.count) (hstep : s.step m e = some s') :
    s'.Fate c := by
  obtain ⟨hslot, hframe⟩ := step_frame hstep
  by_cases hne : e.slot = c
  · have hphases : ∀ {phase : Phase}, (s.process c).phase = phase →
        phase = .fork ∨ (∃ errno, phase = .threw ⟨errno, "fork"⟩) ∨ phase = .exiting ∨
          phase = .exited := by
      intro phase hphase
      rw [← hphase]
      cases h with
      | calls hphase _ => exact Or.inl hphase
      | throws hphase _ => exact Or.inr (Or.inl ⟨_, hphase⟩)
      | exits hphase => exact Or.inr (Or.inr hphase)
    cases e with
    | act i action =>
        obtain rfl : i = c := hne
        obtain ⟨_, hfree, hact⟩ := step_act hstep
        -- other code runs in the process only if its `fork` has failed
        obtain ⟨errno, hthrew, halone⟩ : ∃ errno, (s.process i).phase = .threw ⟨errno, "fork"⟩ ∧
            s.Alone i := by
          cases h with
          | calls hphase _ => exact absurd hphase (ne_of_free hfree rfl)
          | throws hphase halone => exact ⟨_, hphase, halone⟩
          | exits hphase =>
              rcases hphase with hphase | hphase
              · exact absurd hphase (ne_exiting_of_free hfree)
              · exact absurd hphase hfree.2.1
        cases hact with
        | @spawned pid _ =>
            have hsame : (s.spawned i pid).process i = s.process i := add_process hc
            exact .throws ((congrArg Proc.phase hsame).trans hthrew) (halone.spawned hc)
        | leads _ =>
            have hsame : ((s.lead i { s.process i with ledSince := true }).process i).phase =
                (s.process i).phase := by
              rw [lead_process]
            exact .throws (hsame.trans hthrew) (halone.stays rfl hframe)
        | @opens tty =>
            obtain ⟨hcount, hprocess⟩ := openTerminal_frame s i tty
            have hsame : (s.openTerminal i tty).process i = s.process i := congrFun hprocess i
            exact .throws ((congrArg Proc.phase hsame).trans hthrew) (halone.stays hcount hframe)
        | exits =>
            obtain ⟨hcount, hprocess⟩ := exit_frame s i
            have hsame : ((s.exit i).process i).phase = (s.process i).phase := by
              rw [hprocess, Function.update_self, Proc.leave, if_pos (by rw [hthrew]; rfl)]
            exact .throws (hsame.trans hthrew) (halone.stays hcount hframe)
    | call i answer =>
        obtain rfl : i = c := hne
        obtain ⟨_, hcall⟩ := step_call hstep
        cases hcall with
        | forked hphase _ =>
            refine .exits (Or.inl ?_)
            exact congrArg Proc.phase
              (((Function.update_of_ne (Nat.ne_of_lt hc) ..).trans (Function.update_self ..) :
                (s.forked i _ .exiting .setsid).process i = (s.process i).goTo .exiting))
        | @forkFails errno hphase =>
            have halone : s.Alone i := by
              cases h with
              | calls _ halone => exact halone
              | throws _ halone => exact halone
              | exits h => rw [hphase] at h; rcases h with h | h <;> cases h
            have hthrows : ((s.put i ((s.process i).throws errno "fork")).process i).phase =
                .threw ⟨errno, "fork"⟩ := congrArg Proc.phase (put_process s i _)
            exact .throws hthrows (halone.stays rfl hframe)
        | exits hphase =>
            refine .exits (Or.inr ?_)
            rw [(exit_frame s i).2, Function.update_self, Proc.leave, hphase]
            rfl
        | leads hphase _ => rcases hphases hphase with h | ⟨errno, h⟩ | h | h <;> cases h
        | setsidFails hphase _ => rcases hphases hphase with h | ⟨errno, h⟩ | h | h <;> cases h
        | forkedAgain hphase _ => rcases hphases hphase with h | ⟨errno, h⟩ | h | h <;> cases h
        | forkAgainFails hphase => rcases hphases hphase with h | ⟨errno, h⟩ | h | h <;> cases h
        | advances hadvance =>
            have hdetached := (Proc.detached_of_advance hadvance).1
            rcases hphases rfl with h | ⟨errno, h⟩ | h | h
              <;> rw [h] at hdetached
              <;> cases hdetached
        | opens hphase _ => rcases hphases hphase with h | ⟨errno, h⟩ | h | h <;> cases h
  · have hsame : s'.process c = s.process c := hframe.other c hc (Ne.symm hne)
    cases h with
    | calls hphase halone => exact .calls (hsame ▸ hphase) (halone.step hc hstep hne)
    | throws hphase halone => exact .throws (hsame ▸ hphase) (halone.step hc hstep hne)
    | exits hphase => exact .exits (hsame ▸ hphase)

end
end System
end KssUtil.Process

import KssUtil.Process.Daemonize

/-!
# Runs of daemons

What one step can do is said once, as an inductive relation; the invariants of runs are
derived from it.
-/

namespace KssUtil.Process

open KssUtil.Foundation

/-! ## What a step can do -/

/-- The process has carried the call of `daemonize` to this point, and goes on with it. -/
def Phase.active : Phase → Bool
  | .other | .exiting | .exited => false
  | _ => true

/-- The process has been forked for the second time, and has not thrown. -/
def Phase.detached : Phase → Bool
  | .other | .fork | .setsid | .forkAgain | .threw _ | .exiting | .exited => false
  | _ => true

/-- The process is on its way through `daemonize`. -/
def Phase.busy (phase : Phase) : Bool := phase.active && !phase.ended

/-- The process has been forked for the second time; it has not called `setsid` since, nor
exited. -/
structure Proc.Secluded (p : Proc) : Prop where
  detached : p.phase.detached = true
  ledSince : p.ledSince = false
  alive : p.Alive

/-- The step concerns the process alone. -/
structure Proc.Onward (p p' : Proc) : Prop where
  pid : p'.pid = p.pid
  group : p'.group = p.group
  session : p'.session = p.session
  origin : p'.origin = p.origin
  ledSince : p'.ledSince = p.ledSince
  gone : p'.gone = p.gone
  busy : p.phase.busy = true
  active' : p'.phase.active = true
  setsid : p'.phase ≠ .setsid
  forkAgain : p'.phase ≠ .forkAgain
  detached : p'.phase.detached = true → p.phase.detached = true

namespace System

/-- The steps of `daemonize`. -/
inductive CallChange (m : Machine) (s : System) (i : ℕ) : System → Prop where
  | forked {pid : ℕ} (hphase : (s.process i).phase = .fork) (hfresh : s.Fresh pid) :
      CallChange m s i (s.forked i pid .exiting .setsid)
  | forkFails {errno : ℤ} (hphase : (s.process i).phase = .fork) :
      CallChange m s i (s.put i ((s.process i).throws errno "fork"))
  | leads (hphase : (s.process i).phase = .setsid) (hlead : s.MayLead i) :
      CallChange m s i (s.lead i ((s.process i).goTo .forkAgain))
  | setsidFails (hphase : (s.process i).phase = .setsid) (hlead : ¬ s.MayLead i) :
      CallChange m s i (s.put i ((s.process i).throws EPERM "setsid"))
  | forkedAgain {pid : ℕ} (hphase : (s.process i).phase = .forkAgain) (hfresh : s.Fresh pid) :
      CallChange m s i (s.forked i pid .exiting .chdir)
  | forkAgainFails {errno : ℤ} (hphase : (s.process i).phase = .forkAgain) :
      CallChange m s i (s.put i ((s.process i).throws errno "fork (2)"))
  | exits (hphase : (s.process i).phase = .exiting) : CallChange m s i (s.exit i)
  | advances {answer : Answer} {p' : Proc} (hadvance : (s.process i).advance m answer = some p') :
      CallChange m s i (s.put i p')
  | opens {answer : Answer} {p' : Proc} (hphase : (s.process i).phase = .freopenStderr)
      (hadvance : (s.process i).advance m answer = some p') :
      CallChange m s i ((s.openTerminal i console).put i p')

/-- The steps of other code. -/
inductive ActChange (s : System) (i : ℕ) : Action → System → Prop where
  | spawned {pid : ℕ} (hfresh : s.Fresh pid) : ActChange s i (.fork pid) (s.spawned i pid)
  | leads (hlead : s.MayLead i) :
      ActChange s i .setsid (s.lead i { s.process i with ledSince := true })
  | opens {tty : ℕ} : ActChange s i (.openTerminal tty) (s.openTerminal i tty)
  | exits : ActChange s i .exit (s.exit i)

end System

section

variable {m : Machine} {s s' : System} {i : ℕ} {p p' : Proc}

theorem Phase.active_of_busy {ph : Phase} (h : ph.busy = true) : ph.active = true :=
  (Bool.and_eq_true_iff.mp h).1

theorem Phase.ended_of_busy {ph : Phase} (h : ph.busy = true) : ph.ended = false := by
  rw [busy, Bool.and_eq_true, Bool.not_eq_true'] at h
  exact h.2

/-- What is on its way through `daemonize` cannot have exited. -/
theorem Proc.alive_of_busy (h : p.phase.busy = true) : p.Alive := by
  constructor
  · intro hphase
    rw [hphase] at h
    cases h
  · intro hended
    rw [Phase.ended_of_busy h] at hended
    cases hended

theorem Proc.Onward.active (h : p.Onward p') : p.phase.active = true :=
  Phase.active_of_busy h.busy

theorem Proc.Onward.secluded (h : p.Onward p') (hsecluded : p'.Secluded) : p.Secluded :=
  ⟨h.detached hsecluded.detached, h.ledSince.symm.trans hsecluded.ledSince, alive_of_busy h.busy⟩

theorem Proc.onward_throws (hbusy : p.phase.busy = true) (errno : ℤ) (what : String) :
    p.Onward (p.throws errno what) :=
  ⟨rfl, rfl, rfl, rfl, rfl, rfl, hbusy, rfl, nofun, nofun, nofun⟩

/-- After the second `fork` every step that keeps the ids is a step onward. -/
theorem Proc.onward_of_detached (h : p.phase.detached = true ∧ p.phase.busy = true)
    (hids : p'.pid = p.pid ∧ p'.group = p.group ∧ p'.session = p.session ∧
      p'.origin = p.origin ∧ p'.ledSince = p.ledSince ∧ p'.gone = p.gone)
    (hphase : p'.phase.active = true ∧ p'.phase ≠ .setsid ∧ p'.phase ≠ .forkAgain) :
    p.Onward p' :=
  ⟨hids.1, hids.2.1, hids.2.2.1, hids.2.2.2.1, hids.2.2.2.2.1, hids.2.2.2.2.2, h.2, hphase.1,
    hphase.2.1, hphase.2.2, fun _ => h.1⟩

/-- `reopen` goes on to one of two phases. -/
theorem Proc.onward_reopen {path mode : String} {stream : Stream} {answer : Answer} {next : Phase}
    {failure : ℤ → Phase} (h : p.phase.detached = true ∧ p.phase.busy = true)
    (hnext : next.active = true ∧ next ≠ .setsid ∧ next ≠ .forkAgain)
    (hfailure : ∀ errno, (failure errno).active = true ∧ failure errno ≠ .setsid ∧
      failure errno ≠ .forkAgain) :
    p.Onward (p.reopen path mode stream answer next failure) := by
  cases answer with
  | done value => exact onward_of_detached h ⟨rfl, rfl, rfl, rfl, rfl, rfl⟩ hnext
  | failed errno => exact onward_of_detached h ⟨rfl, rfl, rfl, rfl, rfl, rfl⟩ (hfailure errno)

theorem Proc.Onward.warns (h : p.Onward p') (answer : Answer) : p.Onward (p'.warns answer) := by
  cases answer with
  | done value => exact h
  | failed errno =>
      exact ⟨h.pid, h.group, h.session, h.origin, h.ledSince, h.gone, h.busy, h.active', h.setsid,
        h.forkAgain, h.detached⟩

theorem Proc.detached_of_advance {answer : Answer} (h : p.advance m answer = some p') :
    p.phase.detached = true ∧ p.phase.busy = true := by
  unfold advance at h
  cases hphase : p.phase <;> first | exact ⟨rfl, rfl⟩ | (rw [hphase] at h; cases h)

/-- The steps that concern no other process are steps onward. -/
theorem Proc.onward_advance {answer : Answer} (h : p.advance m answer = some p') :
    p.Onward p' := by
  have hdetached := detached_of_advance h
  have hthrows := onward_throws hdetached.2
  unfold advance at h
  split at h
  case h_1 =>
    cases answer with
    | done value =>
        obtain rfl := Option.some.inj h
        exact onward_of_detached hdetached ⟨rfl, rfl, rfl, rfl, rfl, rfl⟩ ⟨rfl, nofun, nofun⟩
    | failed errno =>
        obtain rfl := Option.some.inj h
        exact hthrows _ _
  case h_2 =>
    obtain rfl := Option.some.inj h
    exact onward_of_detached hdetached ⟨rfl, rfl, rfl, rfl, rfl, rfl⟩ ⟨rfl, nofun, nofun⟩
  case h_3 =>
    split at h
    · obtain rfl := Option.some.inj h
      exact hthrows _ _
    · obtain rfl := Option.some.inj h
      exact onward_of_detached hdetached ⟨rfl, rfl, rfl, rfl, rfl, rfl⟩ ⟨rfl, nofun, nofun⟩
  case h_4 =>
    split at h
    · obtain rfl := Option.some.inj h
      exact onward_of_detached hdetached ⟨rfl, rfl, rfl, rfl, rfl, rfl⟩ ⟨rfl, nofun, nofun⟩
    · obtain rfl := Option.some.inj h
      exact onward_of_detached hdetached ⟨rfl, rfl, rfl, rfl, rfl, rfl⟩ ⟨rfl, nofun, nofun⟩
  case h_5 =>
    obtain rfl := Option.some.inj h
    exact onward_reopen hdetached ⟨rfl, nofun, nofun⟩ fun _ => ⟨rfl, nofun, nofun⟩
  case h_6 =>
    obtain rfl := Option.some.inj h
    exact onward_reopen hdetached ⟨rfl, nofun, nofun⟩ fun _ => ⟨rfl, nofun, nofun⟩
  case h_7 =>
    obtain rfl := Option.some.inj h
    refine Onward.warns ?_ answer
    exact onward_reopen hdetached ⟨rfl, nofun, nofun⟩ fun _ => ⟨rfl, nofun, nofun⟩
  case h_8 =>
    obtain rfl := Option.some.inj h
    exact onward_reopen hdetached ⟨rfl, nofun, nofun⟩ fun _ => ⟨rfl, nofun, nofun⟩
  case h_9 =>
    split at h
    · obtain rfl := Option.some.inj h
      exact onward_of_detached hdetached ⟨rfl, rfl, rfl, rfl, rfl, rfl⟩ ⟨rfl, nofun, nofun⟩
    · split at h
      · obtain rfl := Option.some.inj h
        exact onward_of_detached hdetached ⟨rfl, rfl, rfl, rfl, rfl, rfl⟩ ⟨rfl, nofun, nofun⟩
      · obtain rfl := Option.some.inj h
        exact onward_of_detached hdetached ⟨rfl, rfl, rfl, rfl, rfl, rfl⟩ ⟨rfl, nofun, nofun⟩
  case h_10 => cases h

namespace System

theorem fork_cases {pid : ℕ} {parent child : Phase} (h : s.fork i pid parent child = some s') :
    s.Fresh pid ∧ s' = s.forked i pid parent child := by
  unfold fork at h
  split at h
  · rename_i hfresh
    exact ⟨hfresh, (Option.some.inj h).symm⟩
  · cases h

theorem call_cases {answer : Answer} (h : s.call m i answer = some s') :
    CallChange m s i s' := by
  unfold call at h
  dsimp only at h
  split at h
  case h_1 hphase =>
    cases answer with
    | done pid =>
        obtain ⟨hfresh, rfl⟩ := fork_cases h
        exact .forked hphase hfresh
    | failed errno =>
        obtain rfl := Option.some.inj h
        exact .forkFails hphase
  case h_2 hphase =>
    obtain rfl := Option.some.inj h
    split
    · rename_i hlead
      exact .leads hphase hlead
    · rename_i hlead
      exact .setsidFails hphase hlead
  case h_3 hphase =>
    cases answer with
    | done pid =>
        obtain ⟨hfresh, rfl⟩ := fork_cases h
        exact .forkedAgain hphase hfresh
    | failed errno =>
        obtain rfl := Option.some.inj h
        exact .forkAgainFails hphase
  case h_4 hphase =>
    obtain rfl := Option.some.inj h
    exact .exits hphase
  case h_5 hphase =>
    obtain ⟨p', hadvance, rfl⟩ := Option.map_eq_some_iff.mp h
    cases answer with
    | done value => exact .opens hphase hadvance
    | failed errno => exact .advances hadvance
  case h_6 =>
    obtain ⟨p', hadvance, rfl⟩ := Option.map_eq_some_iff.mp h
    exact .advances hadvance

theorem act_cases {action : Action} (h : s.act i action = some s') :
    (s.process i).Free ∧ ActChange s i action s' := by
  unfold act at h
  dsimp only at h
  split at h
  · rename_i hfree
    refine ⟨hfree, ?_⟩
    cases action with
    | fork pid =>
        dsimp only at h
        split at h
        · rename_i hfresh
          obtain rfl := Option.some.inj h
          exact .spawned hfresh
        · cases h
    | setsid =>
        dsimp only at h
        split at h
        · rename_i hlead
          obtain rfl := Option.some.inj h
          exact .leads hlead
        · cases h
    | openTerminal tty =>
        obtain rfl := Option.some.inj h
        exact .opens
    | exit =>
        obtain rfl := Option.some.inj h
        exact .exits
  · cases h

theorem step_call {answer : Answer} (h : s.step m (.call i answer) = some s') :
    i < s.count ∧ CallChange m s i s' := by
  by_cases hi : i < s.count
  · exact ⟨hi, call_cases ((if_pos hi).symm.trans h)⟩
  · cases (if_neg hi).symm.trans h

theorem step_act {action : Action} (h : s.step m (.act i action) = some s') :
    i < s.count ∧ (s.process i).Free ∧ ActChange s i action s' := by
  by_cases hi : i < s.count
  · exact ⟨hi, act_cases ((if_pos hi).symm.trans h)⟩
  · cases (if_neg hi).symm.trans h

end System
end

/-! ## Sessions -/

/-- The ids of a process. -/
structure Proc.SameIds (p p' : Proc) : Prop where
  pid : p'.pid = p.pid
  group : p'.group = p.group
  session : p'.session = p.session

namespace System

/-- The process leads a session without a terminal. -/
structure Leads (s : System) (i : ℕ) : Prop where
  group : (s.process i).group = (s.process i).pid
  session : (s.process i).session = (s.process i).pid
  terminal : s.terminal (s.process i).session = none

/-- The process leads nothing, its session has no terminal, and the one process that could
open one for it is about to exit. -/
structure Detached (s : System) (i : ℕ) : Prop where
  group : (s.process i).group ≠ (s.process i).pid
  session : (s.process i).session ≠ (s.process i).pid
  terminal : s.terminal (s.process i).session = none
  leader : ∀ j < s.count, (s.process j).Alive → (s.process j).pid = (s.process i).session →
    (s.process j).phase = .exiting

/-- What is known of the sessions, whichever processes call `daemonize`. -/
structure Inv (s : System) : Prop where
  pids : ∀ i < s.count, ∀ j < s.count, (s.process i).Alive → (s.process j).Alive →
    (s.process i).pid = (s.process j).pid → i = j
  setsid : ∀ i < s.count, (s.process i).phase = .setsid → s.MayLead i
  forkAgain : ∀ i < s.count, (s.process i).phase = .forkAgain → s.Leads i
  detached : ∀ i < s.count, (s.process i).Secluded → s.Detached i

section

variable {s s' : System} {i j pid : ℕ}

@[simp]
theorem put_process (s : System) (i : ℕ) (p : Proc) : (s.put i p).process i = p :=
  Function.update_self ..

theorem put_process_ne {p : Proc} (h : j ≠ i) : (s.put i p).process j = s.process j :=
  Function.update_of_ne h ..

/-- Nothing is claimed of the session that a process leads, unless it is about to fork again
or to exit. -/
theorem Inv.session_ne (h : s.Inv) (hi : i < s.count) (halive : (s.process i).Alive)
    (hlead : (s.process i).pid = (s.process i).session)
    (hfork : (s.process i).phase ≠ .forkAgain) (hexit : (s.process i).phase ≠ .exiting)
    (hj : j < s.count)
    (hphase : (s.process j).phase = .forkAgain ∨ (s.process j).Secluded) :
    (s.process j).session ≠ (s.process i).session := by
  intro heq
  rcases hphase with hphase | hphase
  · have hpid : (s.process i).pid = (s.process j).pid := by
      rw [hlead, ← heq]
      exact (h.forkAgain j hj hphase).session
    have hjalive : (s.process j).Alive := Proc.alive_of_busy (by rw [hphase]; rfl)
    rw [h.pids i hi j hj halive hjalive hpid] at hfork
    exact hfork hphase
  · exact hexit ((h.detached j hj hphase).leader i hi halive (hlead.trans heq.symm))

/-- The ids stay, and so does what is claimed of the sessions. -/
theorem Inv.frame (h : s.Inv) (hcount : s'.count = s.count)
    (hids : ∀ j < s.count, (s.process j).SameIds (s'.process j))
    (halive : ∀ j < s.count, (s'.process j).Alive → (s.process j).Alive)
    (hsetsid : ∀ j < s.count, (s'.process j).phase = .setsid → (s.process j).phase = .setsid)
    (hforkAgain : ∀ j < s.count, (s'.process j).phase = .forkAgain →
      (s.process j).phase = .forkAgain)
    (hsecluded : ∀ j < s.count, (s'.process j).Secluded → (s.process j).Secluded)
    (hexiting : ∀ j < s.count, (s'.process j).Alive → (s.process j).phase = .exiting →
      (s'.process j).phase = .exiting)
    (hterminal : ∀ j < s.count,
      (s.process j).phase = .forkAgain ∨ (s.process j).Secluded →
        s.terminal (s.process j).session = none → s'.terminal (s.process j).session = none) :
    s'.Inv := by
  constructor
  · rw [hcount]
    intro i hi j hj hialive hjalive heq
    rw [(hids i hi).pid, (hids j hj).pid] at heq
    exact h.pids i hi j hj (halive i hi hialive) (halive j hj hjalive) heq
  · rw [hcount]
    intro i hi hphase j hj hjalive
    rw [hcount] at hj
    rw [(hids i hi).pid, (hids j hj).group]
    exact h.setsid i hi (hsetsid i hi hphase) j hj (halive j hj hjalive)
  · rw [hcount]
    intro i hi hphase
    have hleads := h.forkAgain i hi (hforkAgain i hi hphase)
    constructor
    · rw [(hids i hi).pid, (hids i hi).group]
      exact hleads.group
    · rw [(hids i hi).pid, (hids i hi).session]
      exact hleads.session
    · rw [(hids i hi).session]
      exact hterminal i hi (Or.inl (hforkAgain i hi hphase)) hleads.terminal
  · rw [hcount]
    intro i hi hphase
    have hdet := h.detached i hi (hsecluded i hi hphase)
    constructor
    · rw [(hids i hi).pid, (hids i hi).group]
      exact hdet.group
    · rw [(hids i hi).pid, (hids i hi).session]
      exact hdet.session
    · rw [(hids i hi).session]
      exact hterminal i hi (Or.inr (hsecluded i hi hphase)) hdet.terminal
    · intro j hj hjalive heq
      rw [hcount] at hj
      rw [(hids j hj).pid, (hids i hi).session] at heq
      exact hexiting j hj hjalive (hdet.leader j hj (halive j hj hjalive) heq)

/-- A process that is not about to fork again or to exit may open a terminal. -/
theorem Inv.openTerminal (h : s.Inv) (hi : i < s.count) (halive : (s.process i).Alive)
    (hfork : (s.process i).phase ≠ .forkAgain) (hexit : (s.process i).phase ≠ .exiting) (tty : ℕ) :
    (s.openTerminal i tty).Inv := by
  unfold System.openTerminal
  dsimp only
  split
  · rename_i hlead
    refine h.frame rfl (fun _ _ => ⟨rfl, rfl, rfl⟩) (fun _ _ h => h) (fun _ _ h => h)
      (fun _ _ h => h) (fun _ _ h => h) (fun _ _ _ h => h) ?_
    intro j hj hphase hnone
    exact (Function.update_of_ne (h.session_ne hi halive hlead.1 hfork hexit hj hphase) ..).trans
      hnone
  · exact h

theorem openTerminal_frame (s : System) (i tty : ℕ) :
    (s.openTerminal i tty).count = s.count ∧ (s.openTerminal i tty).process = s.process := by
  unfold System.openTerminal
  dsimp only
  split
  · exact ⟨rfl, rfl⟩
  · exact ⟨rfl, rfl⟩

/-- One process changes, and claims nothing of the sessions that is not known. -/
theorem Inv.update {p' : Proc} (h : s.Inv) (hcount : s'.count = s.count)
    (hprocess : s'.process = Function.update s.process i p')
    (hids : (s.process i).SameIds p') (halive : (s.process i).Alive)
    (hphase : p'.phase ≠ .setsid ∧ p'.phase ≠ .forkAgain)
    (hsecluded : p'.Secluded → (s.process i).Secluded)
    (hexiting : p'.Alive → (s.process i).phase ≠ .exiting)
    (hterminal : ∀ session, s.terminal session = none → s'.terminal session = none) : s'.Inv := by
  have hcases : ∀ j, (j = i ∧ s'.process j = p') ∨ s'.process j = s.process j := by
    intro j
    rw [hprocess]
    by_cases hj : j = i
    · rw [hj]
      exact Or.inl ⟨rfl, Function.update_self ..⟩
    · exact Or.inr (Function.update_of_ne hj ..)
  refine h.frame hcount ?_ ?_ ?_ ?_ ?_ ?_ fun _ _ _ h => hterminal _ h
  · intro j _
    rcases hcases j with ⟨rfl, heq⟩ | heq
    · rw [heq]
      exact hids
    · rw [heq]
      exact ⟨rfl, rfl, rfl⟩
  · intro j _ hj
    rcases hcases j with ⟨rfl, heq⟩ | heq
    · exact halive
    · rwa [heq] at hj
  · intro j _ hj
    rcases hcases j with ⟨rfl, heq⟩ | heq
    · rw [heq] at hj
      exact absurd hj hphase.1
    · rwa [heq] at hj
  · intro j _ hj
    rcases hcases j with ⟨rfl, heq⟩ | heq
    · rw [heq] at hj
      exact absurd hj hphase.2
    · rwa [heq] at hj
  · intro j _ hj
    rcases hcases j with ⟨rfl, heq⟩ | heq
    · rw [heq] at hj
      exact hsecluded hj
    · rwa [heq] at hj
  · intro j _ hjalive hj
    rcases hcases j with ⟨rfl, heq⟩ | heq
    · rw [heq] at hjalive
      exact absurd hj (hexiting hjalive)
    · rwa [heq]

theorem Inv.put {p' : Proc} (h : s.Inv) (honward : (s.process i).Onward p') :
    (s.put i p').Inv := by
  refine h.update rfl rfl ⟨honward.pid, honward.group, honward.session⟩
    (Proc.alive_of_busy honward.busy) ⟨honward.setsid, honward.forkAgain⟩ honward.secluded ?_
    fun _ h => h
  intro _ hphase
  have hactive := honward.active
  rw [hphase] at hactive
  cases hactive

theorem exit_frame (s : System) (i : ℕ) : (s.exit i).count = s.count ∧
    (s.exit i).process = Function.update s.process i (s.process i).leave := by
  unfold System.exit
  dsimp only
  split
  · exact ⟨rfl, rfl⟩
  · exact ⟨rfl, rfl⟩

/-- An exit changes no id, and the process is not there any more. -/
theorem leave_spec (p : Proc) : p.SameIds p.leave ∧ ¬ p.leave.Alive ∧
    (p.leave.phase = .exited ∨ p.leave.phase = p.phase ∧ p.phase.ended = true) := by
  unfold Proc.leave
  cases hended : p.phase.ended with
  | true =>
      rw [if_pos rfl]
      refine ⟨⟨rfl, rfl, rfl⟩, fun h => ?_, Or.inr ⟨rfl, rfl⟩⟩
      cases h.2 hended
  | false =>
      rw [if_neg Bool.false_ne_true]
      exact ⟨⟨rfl, rfl, rfl⟩, fun h => h.1 rfl, Or.inl rfl⟩

/-- A terminal that is not there does not come with an exit. -/
theorem exit_terminal {session : ℕ} (h : s.terminal session = none) :
    (s.exit i).terminal session = none := by
  unfold System.exit
  dsimp only
  split
  · show Function.update s.terminal _ none session = none
    by_cases hs : session = (s.process i).session
    · rw [hs]
      exact Function.update_self ..
    · rw [Function.update_of_ne hs]
      exact h
  · exact h

theorem Inv.exit (h : s.Inv) (halive : (s.process i).Alive) : (s.exit i).Inv := by
  obtain ⟨hcount, hprocess⟩ := exit_frame s i
  obtain ⟨hids, hgone, hphase⟩ := leave_spec (s.process i)
  refine h.update hcount hprocess hids halive ?_ (fun hsecluded => absurd hsecluded.alive hgone)
    (fun halive' => absurd halive' hgone) fun _ h => exit_terminal h
  rcases hphase with hphase | ⟨hphase, hended⟩
  · rw [hphase]
    exact ⟨nofun, nofun⟩
  · rw [hphase]
    constructor
    · intro heq
      rw [heq] at hended
      cases hended
    · intro heq
      rw [heq] at hended
      cases hended

theorem forked_eq (parent child : Phase) : s.forked i pid parent child =
    (s.put i ((s.process i).goTo parent)).add { s.process i with pid, phase := child } := rfl

theorem add_process {q : Proc} (hj : j < s.count) : (s.add q).process j = s.process j :=
  Function.update_of_ne (Nat.ne_of_lt hj) ..

theorem add_process_new {q : Proc} : (s.add q).process s.count = q := Function.update_self ..

theorem Inv.add {q : Proc} (h : s.Inv) (hfresh : s.Fresh q.pid) (hgroup : q.group ≠ q.pid)
    (hsetsid : ∀ j < s.count, (s.process j).phase = .setsid → q.group ≠ (s.process j).pid)
    (hforkAgain : q.phase ≠ .forkAgain)
    (hsecluded : q.Secluded → q.session ≠ q.pid ∧ s.terminal q.session = none ∧
      ∀ j < s.count, (s.process j).Alive → (s.process j).pid = q.session →
        (s.process j).phase = .exiting) : (s.add q).Inv := by
  have hcases : ∀ j < (s.add q).count, (j < s.count ∧ (s.add q).process j = s.process j) ∨
      (j = s.count ∧ (s.add q).process j = q) := by
    intro j hj
    rcases Nat.lt_succ_iff_lt_or_eq.mp hj with hj | rfl
    · exact Or.inl ⟨hj, add_process hj⟩
    · exact Or.inr ⟨rfl, add_process_new⟩
  constructor
  · intro i hi j hj hialive hjalive heq
    rcases hcases i hi with ⟨hi, hie⟩ | ⟨rfl, hie⟩
    · rcases hcases j hj with ⟨hj, hje⟩ | ⟨rfl, hje⟩
      · rw [hie, hje] at heq
        rw [hie] at hialive
        rw [hje] at hjalive
        exact h.pids i hi j hj hialive hjalive heq
      · rw [hie, hje] at heq
        rw [hie] at hialive
        exact absurd heq.symm (hfresh.2 i hi hialive).1
    · rcases hcases j hj with ⟨hj, hje⟩ | ⟨rfl, hje⟩
      · rw [hie, hje] at heq
        rw [hje] at hjalive
        exact absurd heq (hfresh.2 j hj hjalive).1
      · rfl
  · intro i hi hphase j hj hjalive
    rcases hcases i hi with ⟨hi, hie⟩ | ⟨rfl, hie⟩
    · rcases hcases j hj with ⟨hj, hje⟩ | ⟨rfl, hje⟩
      · rw [hie] at hphase ⊢
        rw [hje] at hjalive ⊢
        exact h.setsid i hi hphase j hj hjalive
      · rw [hie] at hphase ⊢
        rw [hje]
        exact hsetsid i hi hphase
    · rcases hcases j hj with ⟨hj, hje⟩ | ⟨rfl, hje⟩
      · rw [hie]
        rw [hje] at hjalive ⊢
        exact (hfresh.2 j hj hjalive).2.1.symm
      · rw [hie]
        exact hgroup
  · intro i hi hphase
    rcases hcases i hi with ⟨hi, hie⟩ | ⟨rfl, hie⟩
    · rw [hie] at hphase
      obtain ⟨h₁, h₂, h₃⟩ := h.forkAgain i hi hphase
      exact ⟨by rwa [hie], by rwa [hie], by rwa [hie]⟩
    · rw [hie] at hphase
      exact absurd hphase hforkAgain
  · intro i hi hphase
    rcases hcases i hi with ⟨hi, hie⟩ | ⟨rfl, hie⟩
    · rw [hie] at hphase
      obtain ⟨h₁, h₂, h₃, h₄⟩ := h.detached i hi hphase
      refine ⟨by rwa [hie], by rwa [hie], by rwa [hie], ?_⟩
      intro j hj hjalive heq
      rw [hie] at heq
      rcases hcases j hj with ⟨hj, hje⟩ | ⟨rfl, hje⟩
      · rw [hje] at hjalive heq ⊢
        exact h₄ j hj hjalive heq
      · rw [hje] at heq
        exact absurd heq (hfresh.2 i hi hphase.alive).2.2
    · rw [hie] at hphase
      obtain ⟨h₁, h₂, h₃⟩ := hsecluded hphase
      refine ⟨by rwa [hie], by rwa [hie], by rwa [hie], ?_⟩
      intro j hj hjalive heq
      rw [hie] at heq
      rcases hcases j hj with ⟨hj, hje⟩ | ⟨rfl, hje⟩
      · rw [hje] at hjalive heq ⊢
        exact h₃ j hj hjalive heq
      · rw [hje] at heq
        exact absurd heq.symm h₁

/-- Setting a phase other than the last one makes no id free. -/
theorem Fresh.put {parent : Phase} (hfresh : s.Fresh pid) (halive : (s.process i).Alive) :
    (s.put i ((s.process i).goTo parent)).Fresh pid := by
  refine ⟨hfresh.1, ?_⟩
  intro j hj hjalive
  by_cases hji : j = i
  · rw [hji] at hj ⊢
    rw [put_process]
    exact hfresh.2 i hj halive
  · rw [put_process_ne hji] at hjalive ⊢
    exact hfresh.2 j hj hjalive

/-- A new process knows of its session what is known of it. -/
theorem Inv.forked {parent child : Phase} (h : s.Inv) (hi : i < s.count)
    (hbusy : (s.process i).phase.busy = true) (hfresh : s.Fresh pid)
    (hparent : parent ≠ .setsid ∧ parent ≠ .forkAgain ∧ parent.detached = false)
    (hsetsid : (s.process i).phase ≠ .setsid) (hchild : child ≠ .forkAgain)
    (hsession : child.detached = true → (s.process i).phase = .forkAgain ∧ parent = .exiting) :
    (s.forked i pid parent child).Inv := by
  have halive := Proc.alive_of_busy hbusy
  have hi' := hfresh.2 i hi halive
  have hexiting : (s.process i).phase ≠ .exiting := by
    intro hphase
    rw [hphase] at hbusy
    cases hbusy
  rw [forked_eq]
  have hput : (s.put i ((s.process i).goTo parent)).Inv := by
    refine h.update rfl rfl ⟨rfl, rfl, rfl⟩ halive ⟨hparent.1, hparent.2.1⟩ ?_ (fun _ => hexiting)
      fun _ h => h
    intro hsecluded
    exact absurd hsecluded.detached (Bool.eq_false_iff.mp hparent.2.2)
  refine hput.add (hfresh.put halive) hi'.2.1.symm ?_ hchild ?_
  · intro j hj hphase
    have hne : j ≠ i := by
      rintro rfl
      rw [put_process] at hphase
      exact hparent.1 hphase
    rw [put_process_ne hne] at hphase ⊢
    exact h.setsid j hj hphase i hi halive
  · intro hsecluded
    obtain ⟨hforkAgain, rfl⟩ := hsession hsecluded.detached
    have hleads := h.forkAgain i hi hforkAgain
    refine ⟨hi'.2.2.symm, hleads.terminal, ?_⟩
    intro j hj hjalive heq
    by_cases hji : j = i
    · rw [hji, put_process]
      rfl
    · rw [put_process_ne hji] at hjalive heq
      exact absurd (h.pids j hj i hi hjalive halive (heq.trans hleads.session)) hji

/-- Nothing is claimed of a process that other code makes. -/
theorem Inv.spawned (h : s.Inv) (hi : i < s.count) (halive : (s.process i).Alive)
    (hfresh : s.Fresh pid) : (s.spawned i pid).Inv := by
  have hi' := hfresh.2 i hi halive
  refine h.add hfresh hi'.2.1.symm ?_ nofun ?_
  · intro j hj hphase
    exact h.setsid j hj hphase i hi halive
  · intro hsecluded
    cases hsecluded.detached

theorem lead_process (s : System) (i : ℕ) (p : Proc) :
    (s.lead i p).process i = { p with group := p.pid, session := p.pid } :=
  Function.update_self ..

/-- A process that leads no group comes to lead a session of its own. -/
theorem Inv.lead {p : Proc} (h : s.Inv) (hi : i < s.count) (halive : (s.process i).Alive)
    (hexiting : (s.process i).phase ≠ .exiting) (hpid : p.pid = (s.process i).pid)
    (hsetsid : p.phase ≠ .setsid) (hsecluded : p.phase.detached = true → p.ledSince = true) :
    (s.lead i p).Inv := by
  have hself := lead_process s i p
  have hother : ∀ j ≠ i, (s.lead i p).process j = s.process j :=
    fun j hj => Function.update_of_ne hj ..
  have hpids : ∀ j, ((s.lead i p).process j).pid = (s.process j).pid := by
    intro j
    by_cases hj : j = i
    · rw [hj, hself]
      exact hpid
    · rw [hother j hj]
  have halive' : ∀ j, ((s.lead i p).process j).Alive → (s.process j).Alive := by
    intro j hjalive
    by_cases hj : j = i
    · rwa [hj]
    · rwa [hother j hj] at hjalive
  have hterminal : ∀ session, s.terminal session = none →
      (s.lead i p).terminal session = none := by
    intro session hnone
    show Function.update s.terminal p.pid none session = none
    by_cases hs : session = p.pid
    · rw [hs]
      exact Function.update_self ..
    · rw [Function.update_of_ne hs]
      exact hnone
  constructor
  · intro j hj k hk hjalive hkalive heq
    rw [hpids, hpids] at heq
    exact h.pids j hj k hk (halive' j hjalive) (halive' k hkalive) heq
  · intro j hj hphase k hk hkalive
    by_cases hji : j = i
    · rw [hji, hself] at hphase
      exact absurd hphase hsetsid
    · rw [hother j hji] at hphase ⊢
      by_cases hki : k = i
      · rw [hki, hself]
        intro heq
        have hjalive : (s.process j).Alive := Proc.alive_of_busy (by rw [hphase]; rfl)
        exact hji (h.pids j hj i hi hjalive halive (heq.symm.trans hpid))
      · rw [hother k hki] at hkalive ⊢
        exact h.setsid j hj hphase k hk hkalive
  · intro j hj hphase
    by_cases hji : j = i
    · rw [hji]
      refine ⟨by rw [hself], by rw [hself], ?_⟩
      rw [hself]
      exact Function.update_self ..
    · rw [hother j hji] at hphase
      obtain ⟨h₁, h₂, h₃⟩ := h.forkAgain j hj hphase
      refine ⟨by rwa [hother j hji], by rwa [hother j hji], ?_⟩
      rw [hother j hji]
      exact hterminal _ h₃
  · intro j hj hphase
    by_cases hji : j = i
    · rw [hji, hself] at hphase
      have hled : p.ledSince = false := hphase.ledSince
      rw [hsecluded hphase.detached] at hled
      cases hled
    · rw [hother j hji] at hphase
      obtain ⟨h₁, h₂, h₃, h₄⟩ := h.detached j hj hphase
      refine ⟨by rwa [hother j hji], by rwa [hother j hji], ?_, ?_⟩
      · rw [hother j hji]
        exact hterminal _ h₃
      · intro k hk hkalive heq
        rw [hpids, hother j hji] at heq
        have hexit := h₄ k hk (halive' k hkalive) heq
        by_cases hki : k = i
        · rw [hki] at hexit
          exact absurd hexit hexiting
        · rwa [hother k hki]

/-- Other code is not in the middle of `daemonize`. -/
theorem ne_of_free {phase : Phase} (h : (s.process i).Free) (hbusy : phase.busy = true) :
    (s.process i).phase ≠ phase := by
  rintro rfl
  rcases h.1 with hother | hended
  · rw [hother] at hbusy
    cases hbusy
  · rw [Phase.ended_of_busy hbusy] at hended
    cases hended

theorem ne_exiting_of_free (h : (s.process i).Free) : (s.process i).phase ≠ .exiting := by
  intro hphase
  rcases h.1 with hother | hended
  · rw [hphase] at hother
    cases hother
  · rw [hphase] at hended
    cases hended

/-- **The step lemma** for the sessions. -/
theorem Inv.step {m : Machine} {e : Event} (h : s.Inv) (hstep : s.step m e = some s') : s'.Inv := by
  cases e with
  | call i answer =>
      obtain ⟨hi, hcall⟩ := step_call hstep
      cases hcall with
      | forked hphase hfresh =>
          refine h.forked hi (by rw [hphase]; rfl) hfresh ⟨nofun, nofun, rfl⟩ ?_ nofun nofun
          rw [hphase]
          nofun
      | leads hphase hlead =>
          exact h.lead hi (Proc.alive_of_busy (by rw [hphase]; rfl)) (by rw [hphase]; nofun) rfl
            nofun nofun
      | forkedAgain hphase hfresh =>
          refine h.forked hi (by rw [hphase]; rfl) hfresh ⟨nofun, nofun, rfl⟩ ?_ nofun
            fun _ => ⟨hphase, rfl⟩
          rw [hphase]
          nofun
      | exits hphase =>
          refine h.exit ⟨by rw [hphase]; nofun, fun hended => ?_⟩
          rw [hphase] at hended
          cases hended
      | forkFails hphase => exact h.put (Proc.onward_throws (by rw [hphase]; rfl) _ _)
      | setsidFails hphase _ => exact h.put (Proc.onward_throws (by rw [hphase]; rfl) _ _)
      | forkAgainFails hphase => exact h.put (Proc.onward_throws (by rw [hphase]; rfl) _ _)
      | advances hadvance => exact h.put (Proc.onward_advance hadvance)
      | opens hphase hadvance =>
          have hopen : (s.openTerminal i console).Inv :=
            h.openTerminal hi (Proc.alive_of_busy (by rw [hphase]; rfl)) (by rw [hphase]; nofun)
              (by rw [hphase]; nofun) console
          refine hopen.put ?_
          rw [(openTerminal_frame s i console).2]
          exact Proc.onward_advance hadvance
  | act i action =>
      obtain ⟨hi, hfree, hact⟩ := step_act hstep
      have hexiting := ne_exiting_of_free hfree
      cases hact with
      | spawned hfresh => exact h.spawned hi hfree.2 hfresh
      | leads hlead =>
          exact h.lead hi hfree.2 hexiting rfl (ne_of_free hfree rfl) fun _ => rfl
      | opens => exact h.openTerminal hi hfree.2 (ne_of_free hfree rfl) hexiting _
      | exits => exact h.exit hfree.2

/-! ## What a process does after its call -/

/-- The process is on its way through `daemonize`, or is the one in the slot `i` and has come to
the end of it. -/
def Watched (s : System) (i j : ℕ) : Prop :=
  (s.process j).phase.busy = true ∨ j = i ∧ (s.process j).phase.ended = true

/-- Neither has it called `setsid` in other code, nor exited. -/
def Undisturbed (s : System) (i : ℕ) : Prop :=
  ∀ j < s.count, s.Watched i j → (s.process j).ledSince = false ∧ (s.process j).gone = false

/-- One process changes, and it is known what it has done. -/
theorem Undisturbed.update {k : ℕ} {p' : Proc} (h : s.Undisturbed i) (hcount : s'.count = s.count)
    (hprocess : s'.process = Function.update s.process k p')
    (hself : p'.phase.busy = true ∨ k = i ∧ p'.phase.ended = true →
      p'.ledSince = false ∧ p'.gone = false) : s'.Undisturbed i := by
  intro j hj hwatched
  unfold Watched at hwatched
  by_cases hjk : j = k
  · subst hjk
    rw [hprocess, Function.update_self] at hwatched ⊢
    exact hself hwatched
  · rw [hprocess, Function.update_of_ne hjk] at hwatched ⊢
    exact h j (hcount ▸ hj) hwatched

theorem Undisturbed.add {q : Proc} (h : s.Undisturbed i)
    (hself : q.phase.busy = true ∨ s.count = i ∧ q.phase.ended = true →
      q.ledSince = false ∧ q.gone = false) : (s.add q).Undisturbed i := by
  intro j hj hwatched
  unfold Watched at hwatched
  rcases Nat.lt_succ_iff_lt_or_eq.mp hj with hj | rfl
  · rw [add_process hj] at hwatched ⊢
    exact h j hj hwatched
  · rw [add_process_new] at hwatched ⊢
    exact hself hwatched

/-- The steps that are not of the process itself in other code. -/
theorem Undisturbed.step {m : Machine} {e : Event} (h : s.Undisturbed i)
    (hstep : s.step m e = some s') (hsetsid : e ≠ .act i .setsid) (hexit : e ≠ .act i .exit) :
    s'.Undisturbed i := by
  cases e with
  | call k answer =>
      obtain ⟨hk, hcall⟩ := step_call hstep
      have hput : ∀ {p' : Proc}, (s.process k).Onward p' → (s.put k p').Undisturbed i := by
        intro p' honward
        refine h.update rfl rfl fun _ => ?_
        rw [honward.ledSince, honward.gone]
        exact h k hk (Or.inl honward.busy)
      have hfork : ∀ {pid : ℕ} {child : Phase}, (s.process k).phase.busy = true →
          (s.forked k pid .exiting child).Undisturbed i := by
        intro pid child hbusy
        rw [forked_eq]
        refine Undisturbed.add (h.update rfl rfl ?_) fun _ => h k hk (Or.inl hbusy)
        rintro (hbusy | ⟨-, hended⟩)
        · cases hbusy
        · cases hended
      cases hcall with
      | forked hphase hfresh => exact hfork (by rw [hphase]; rfl)
      | forkFails hphase => exact hput (Proc.onward_throws (by rw [hphase]; rfl) _ _)
      | leads hphase hlead =>
          exact h.update rfl rfl fun _ => h k hk (Or.inl (by rw [hphase]; rfl))
      | setsidFails hphase hlead => exact hput (Proc.onward_throws (by rw [hphase]; rfl) _ _)
      | forkedAgain hphase hfresh => exact hfork (by rw [hphase]; rfl)
      | forkAgainFails hphase => exact hput (Proc.onward_throws (by rw [hphase]; rfl) _ _)
      | exits hphase =>
          obtain ⟨hcount, hprocess⟩ := exit_frame s k
          refine h.update hcount hprocess ?_
          rw [Proc.leave, hphase]
          rintro (hbusy | ⟨-, hended⟩)
          · cases hbusy
          · cases hended
      | advances hadvance => exact hput (Proc.onward_advance hadvance)
      | opens hphase hadvance =>
          obtain ⟨hcount, hprocess⟩ := openTerminal_frame s k console
          have honward := Proc.onward_advance hadvance
          refine h.update hcount (congrArg (Function.update · k _) hprocess) fun _ => ?_
          rw [honward.ledSince, honward.gone]
          exact h k hk (Or.inl honward.busy)
  | act k action =>
      obtain ⟨hk, hfree, hact⟩ := step_act hstep
      have hbusy : (s.process k).phase.busy = false := by
        by_contra hbusy
        exact ne_of_free hfree (Bool.not_eq_false _ ▸ hbusy) rfl
      cases hact with
      | spawned hfresh =>
          refine h.add ?_
          rintro (hbusy | ⟨-, hended⟩)
          · cases hbusy
          · cases hended
      | leads hlead =>
          refine h.update rfl rfl ?_
          rintro (hbusy' | ⟨rfl, -⟩)
          · cases hbusy.symm.trans hbusy'
          · exact absurd rfl hsetsid
      | @opens tty =>
          obtain ⟨hcount, hprocess⟩ := openTerminal_frame s k tty
          unfold Undisturbed Watched
          rw [hcount, hprocess]
          exact h
      | exits =>
          obtain ⟨hcount, hprocess⟩ := exit_frame s k
          refine h.update hcount hprocess ?_
          rintro (hbusy' | ⟨rfl, -⟩)
          · rcases (leave_spec (s.process k)).2.2 with hphase | ⟨hphase, -⟩
            · rw [hphase] at hbusy'
              cases hbusy'
            · rw [hphase] at hbusy'
              cases hbusy.symm.trans hbusy'
          · exact absurd rfl hexit

end
end System
end KssUtil.Process

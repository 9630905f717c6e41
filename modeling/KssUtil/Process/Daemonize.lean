import KssUtil.Foundation.Interleaving
import KssUtil.Process.ChangeUser
import Mathlib.Algebra.Group.Nat.Defs
import Mathlib.Logic.Function.Basic

/-!
# Daemons (daemonize.cpp)

`daemonize` forks twice.  The processes it makes run beside each other and beside all others
of the machine, so it is a step function on the table of processes, one step for each system
call.
-/

namespace KssUtil.Process

/-! ## Open files -/

/-- `socket` leads to the system's logger, and `other` is what a process has been given. -/
inductive File where
  | opened (path mode : String)
  | socket
  | other (id : ℕ)
deriving DecidableEq, Repr

inductive Stream where
  | stdin
  | stdout
  | stderr
deriving DecidableEq, Repr

/-- What the descriptors are open on, and the descriptors of the streams; a stream that is
closed has none. -/
structure Files where
  descriptors : List (Option File)
  fileno : Stream → Option ℕ

namespace Files

def get (f : Files) (fd : ℕ) : Option File := (f.descriptors[fd]?).join

def close (f : Files) (fd : ℕ) : Files := { f with descriptors := f.descriptors.set fd none }

/-- The lowest descriptor that is free. -/
def lowest (f : Files) : ℕ := f.descriptors.findIdx (·.isNone)

def put (f : Files) (fd : ℕ) (file : File) : Files :=
  { f with descriptors := (f.descriptors.rightpad (fd + 1) none).set fd (some file) }

/-- `freopen` when it succeeds: the stream keeps its descriptor. -/
def freopen (f : Files) (file : File) (stream : Stream) : Files :=
  let fd := (f.fileno stream).getD f.lowest
  { f.put fd file with fileno := Function.update f.fileno stream (some fd) }

/-- `freopen` when it fails: the stream is closed all the same. -/
def freopenFails (f : Files) (stream : Stream) : Files :=
  match f.fileno stream with
  | some fd => { f.close fd with fileno := Function.update f.fileno stream none }
  | none => f

end Files

/-! ## Processes -/

/-- The next thing a process does in `daemonize`.  A process in the phase `other` runs some
other code, and so does one that has come back from `daemonize`, by returning or throwing. -/
inductive Phase where
  | other
  | fork
  | setsid
  | forkAgain
  | chdir
  | umask
  | sysconf
  | close (fd : ℕ)
  | freopenStdin
  | freopenStdout
  | freopenStderr
  | freopenStderrNull
  | changeUser
  | returned
  | threw (e : SystemError)
  | exiting
  | exited
deriving DecidableEq, Repr

/-- It has come to the end of `daemonize`. -/
def Phase.ended : Phase → Bool
  | .returned | .threw _ => true
  | _ => false

/-- `log` is what goes to `syslog`, which opens a socket if it `connects` to the system's logger;
`origin` is the slot of the process that this one goes back to.  A process that has come to the
end of `daemonize` stays in its phase: it has called `setsid` since if it `ledSince`, and has
exited if it is `gone`. -/
structure Proc where
  pid : ℕ
  group : ℕ
  session : ℕ
  cwd : String
  umask : ℕ
  files : Files
  credentials : Credentials
  log : List String
  connects : Bool
  phase : Phase
  origin : ℕ
  ledSince : Bool
  gone : Bool

/-- The argument of `daemonize`, and what the machine answers that does not change. -/
structure Machine where
  user : String
  db : UserDatabase
  openMax : ℤ
  openMaxErrno : ℤ

/-- `(int)maxfd` -/
def Machine.maxfd (m : Machine) : ℤ := m.openMax.bmod (2 ^ 32)

/-- What a system call comes to; `value` is the id of a new process. -/
inductive Answer where
  | done (value : ℕ)
  | failed (errno : ℤ)
deriving DecidableEq, Repr

namespace Proc

def Alive (p : Proc) : Prop := p.phase ≠ .exited ∧ (p.phase.ended = true → p.gone = false)

instance (p : Proc) : Decidable p.Alive := inferInstanceAs (Decidable (_ ∧ _))

/-- The process runs other code than `daemonize`. -/
def Free (p : Proc) : Prop := (p.phase = .other ∨ p.phase.ended = true) ∧ p.Alive

instance (p : Proc) : Decidable p.Free := inferInstanceAs (Decidable (_ ∧ _))

def goTo (p : Proc) (phase : Phase) : Proc := { p with phase }

/-- `throw system_error(errno, system_category(), what)` -/
def throws (p : Proc) (errno : ℤ) (what : String) : Proc := p.goTo (.threw ⟨errno, what⟩)

/-- `freopen(path, mode, stream)` and what comes after it. -/
def reopen (p : Proc) (path mode : String) (stream : Stream) (answer : Answer) (next : Phase)
    (failure : ℤ → Phase) : Proc :=
  match answer with
  | .done _ => { p with files := p.files.freopen (.opened path mode) stream, phase := next }
  | .failed errno => { p with files := p.files.freopenFails stream, phase := failure errno }

/-- `syslog`, if `freopen` has failed.  The socket stays open. -/
def warns (p : Proc) (answer : Answer) : Proc :=
  match answer with
  | .done _ => p
  | .failed _ =>
      { p with
        log := p.log ++ ["Could not redirect stderr to /dev/console, using /dev/null instead"]
        files := if p.connects then p.files.put p.files.lowest .socket else p.files }

/-- What is left of the process when it has exited. -/
def leave (p : Proc) : Proc := if p.phase.ended then { p with gone := true } else p.goTo .exited

/-- The steps that concern no other process. -/
def advance (m : Machine) (p : Proc) (answer : Answer) : Option Proc :=
  match p.phase with
  | .chdir =>
      match answer with
      | .done _ => some { p with cwd := "/", phase := .umask }
      | .failed errno => some (p.throws errno "chdir")
  | .umask => some { p with umask := 0, phase := .sysconf }
  | .sysconf =>
      if m.openMax = -1 then some (p.throws m.openMaxErrno "sysconf") else some (p.goTo (.close 3))
  | .close fd =>
      if (fd : ℤ) < m.maxfd then some { p with files := p.files.close fd, phase := .close (fd + 1) }
      else some (p.goTo .freopenStdin)
  | .freopenStdin =>
      some (p.reopen "/dev/null" "r" .stdin answer .freopenStdout (.threw ⟨·, "freopen: stdin"⟩))
  | .freopenStdout =>
      some (p.reopen "/dev/null" "a" .stdout answer .freopenStderr
        (.threw ⟨·, "freopen: stdout"⟩))
  | .freopenStderr =>
      some ((p.reopen "/dev/console" "a" .stderr answer .changeUser
        fun _ => .freopenStderrNull).warns answer)
  | .freopenStderrNull =>
      some (p.reopen "/dev/null" "a" .stderr answer .changeUser
        (.threw ⟨·, "freopen: stderr"⟩))
  | .changeUser =>
      if m.user = "" then some (p.goTo .returned)
      else
        match changeUser m.db m.user p.credentials with
        | .ok _ credentials => some { p with credentials, phase := .returned }
        | .error e credentials => some { p with credentials, phase := .threw e }
  | _ => none

end Proc

/-! ## The table of processes -/

/-- The processes are in the slots up to `count`; `terminal` is the controlling terminal of a
session. -/
structure System where
  count : ℕ
  process : ℕ → Proc
  terminal : ℕ → Option ℕ

/-- The controlling terminal that `/dev/console` can be. -/
def console : ℕ := 0

/-- What code outside of `daemonize` does. -/
inductive Action where
  | fork (pid : ℕ)
  | setsid
  | openTerminal (tty : ℕ)
  | exit
deriving DecidableEq, Repr

inductive Event where
  | call (slot : ℕ) (answer : Answer)
  | act (slot : ℕ) (action : Action)
deriving DecidableEq, Repr

namespace System

variable (s : System)

def put (i : ℕ) (p : Proc) : System := { s with process := Function.update s.process i p }

/-- An id that the system may give to a new process. -/
def Fresh (pid : ℕ) : Prop :=
  pid ≠ 0 ∧ ∀ i < s.count, (s.process i).Alive →
    pid ≠ (s.process i).pid ∧ pid ≠ (s.process i).group ∧ pid ≠ (s.process i).session

instance (pid : ℕ) : Decidable (s.Fresh pid) := inferInstanceAs (Decidable (_ ∧ _))

/-- `fork` when it succeeds: the child goes into a new slot. -/
def forked (i pid : ℕ) (parent child : Phase) : System :=
  let p := s.process i
  { s with
    count := s.count + 1
    process := Function.update (Function.update s.process i (p.goTo parent)) s.count
      { p with pid, phase := child } }

def fork (i pid : ℕ) (parent child : Phase) : Option System :=
  if s.Fresh pid then some (s.forked i pid parent child) else none

/-- A process in the slot behind the others -/
def add (q : Proc) : System :=
  { s with count := s.count + 1, process := Function.update s.process s.count q }

/-- `fork` in other code: the child goes back to itself. -/
def spawned (i pid : ℕ) : System :=
  s.add { s.process i with pid, phase := .other, origin := s.count }

/-- `setsid` fails for an id that is the one of a process group. -/
def MayLead (i : ℕ) : Prop :=
  ∀ j < s.count, (s.process j).Alive → (s.process j).group ≠ (s.process i).pid

instance (i : ℕ) : Decidable (s.MayLead i) := inferInstanceAs (Decidable (∀ _ < _, _))

/-- `setsid` when it succeeds; the process goes on as `p`. -/
def lead (i : ℕ) (p : Proc) : System :=
  { s.put i { p with group := p.pid, session := p.pid } with
    terminal := Function.update s.terminal p.pid none }

/-- The leader of a session without a terminal gets the one that it opens. -/
def openTerminal (i tty : ℕ) : System :=
  let p := s.process i
  if p.pid = p.session ∧ s.terminal p.session = none then
    { s with terminal := Function.update s.terminal p.session (some tty) }
  else s

/-- The terminal goes with the leader of the session. -/
def exit (i : ℕ) : System :=
  let p := s.process i
  if p.pid = p.session then
    { s.put i p.leave with terminal := Function.update s.terminal p.session none }
  else s.put i p.leave

/-- A step of `daemonize`. -/
def call (m : Machine) (i : ℕ) (answer : Answer) : Option System :=
  let p := s.process i
  match p.phase with
  | .fork =>
      match answer with
      | .done pid => s.fork i pid .exiting .setsid
      | .failed errno => some (s.put i (p.throws errno "fork"))
  | .setsid =>
      some (if s.MayLead i then s.lead i (p.goTo .forkAgain)
        else s.put i (p.throws EPERM "setsid"))
  | .forkAgain =>
      match answer with
      | .done pid => s.fork i pid .exiting .chdir
      | .failed errno => some (s.put i (p.throws errno "fork (2)"))
  | .exiting => some (s.exit i)
  | .freopenStderr =>
      let opened := match answer with
        | .done _ => s.openTerminal i console
        | .failed _ => s
      (p.advance m answer).map (opened.put i)
  | _ => (p.advance m answer).map (s.put i)

/-- A step of other code. -/
def act (i : ℕ) (action : Action) : Option System :=
  let p := s.process i
  if p.Free then
    match action with
    | .fork pid => if s.Fresh pid then some (s.spawned i pid) else none
    | .setsid => if s.MayLead i then some (s.lead i { p with ledSince := true }) else none
    | .openTerminal tty => some (s.openTerminal i tty)
    | .exit => some (s.exit i)
  else none

def step (m : Machine) (s : System) : Event → Option System
  | .call i answer => if i < s.count then s.call m i answer else none
  | .act i action => if i < s.count then s.act i action else none

end System
end KssUtil.Process

import KssUtil.Process.DaemonizeRuns
import Mathlib.Data.List.Basic

/-!
# What a daemon is left with

The directory, the mask, the open files and the credentials, from one phase to the next.
-/

namespace KssUtil.Process

open KssUtil.Foundation

/-! ## Descriptors -/

section

variable {f : Files} {fd x : ℕ} {file : File} {stream : Stream}

namespace Files

theorem get_close (f : Files) (fd x : ℕ) :
    (f.close fd).get x = if x = fd then none else f.get x := by
  unfold get close
  dsimp only
  rw [List.getElem?_set]
  by_cases h : x = fd
  · rw [if_pos h.symm, if_pos h]
    split
    · rfl
    · rfl
  · rw [if_neg (Ne.symm h), if_neg h]

theorem join_rightpad (l : List (Option File)) (n x : ℕ) :
    ((l.rightpad n none)[x]?).join = (l[x]?).join := by
  unfold List.rightpad
  rw [List.getElem?_append]
  split
  · rfl
  · rename_i hx
    rw [List.getElem?_eq_none (Nat.le_of_not_lt hx), List.getElem?_replicate]
    split
    · rfl
    · rfl

theorem get_put (f : Files) (fd x : ℕ) (file : File) :
    (f.put fd file).get x = if x = fd then some file else f.get x := by
  unfold get put
  dsimp only
  rw [List.getElem?_set]
  by_cases h : x = fd
  · have hlt : fd < (f.descriptors.rightpad (fd + 1) none).length := by
      rw [List.length_rightpad]
      omega
    rw [if_pos h.symm, if_pos hlt, if_pos h]
    rfl
  · rw [if_neg (Ne.symm h), if_neg h]
    exact join_rightpad f.descriptors (fd + 1) x

theorem lowest_spec (f : Files) : f.get f.lowest = none ∧ ∀ y < f.lowest, (f.get y).isSome := by
  unfold get lowest
  constructor
  · have hle : f.descriptors.findIdx (·.isNone) ≤ f.descriptors.length := List.findIdx_le_length
    rcases Nat.lt_or_eq_of_le hle with hlt | heq
    · rw [List.getElem?_eq_getElem hlt]
      have hnone : f.descriptors[f.descriptors.findIdx (·.isNone)].isNone = true :=
        List.findIdx_getElem (w := hlt)
      exact Option.isNone_iff_eq_none.mp hnone
    · rw [List.getElem?_eq_none (Nat.le_of_eq heq.symm)]
      rfl
  · intro y hy
    have hlt : y < f.descriptors.length := Nat.lt_of_lt_of_le hy List.findIdx_le_length
    rw [List.getElem?_eq_getElem hlt]
    exact Option.isNone_eq_false_iff.mp (List.not_of_lt_findIdx hy)

/-- The lowest descriptor that is free is the one with none below it. -/
theorem lowest_eq (hbelow : ∀ y < fd, (f.get y).isSome) (hfree : f.get fd = none) :
    f.lowest = fd := by
  obtain ⟨hlowest, hfirst⟩ := f.lowest_spec
  rcases Nat.lt_trichotomy f.lowest fd with hlt | heq | hgt
  · have hsome := hbelow _ hlt
    rw [hlowest] at hsome
    cases hsome
  · exact heq
  · have hsome := hfirst _ hgt
    rw [hfree] at hsome
    cases hsome

/-- A stream that has a descriptor keeps it. -/
theorem get_freopen (h : f.fileno stream = some fd) (file : File) (x : ℕ) :
    (f.freopen file stream).get x = if x = fd then some file else f.get x := by
  unfold freopen
  rw [h]
  exact get_put f fd x file

theorem get_freopenFails (h : f.fileno stream = some fd) (x : ℕ) :
    (f.freopenFails stream).get x = if x = fd then none else f.get x := by
  unfold freopenFails
  rw [h]
  exact get_close f fd x

end Files
end

/-! ## Stages -/

/-- The streams are on the descriptors that are meant for them. -/
structure Files.Standard (f : Files) : Prop where
  stdin : f.fileno .stdin = some 0
  stdout : f.fileno .stdout = some 1
  stderr : f.fileno .stderr = some 2

def nullInput : File := .opened "/dev/null" "r"
def nullOutput : File := .opened "/dev/null" "a"
def consoleOutput : File := .opened "/dev/console" "a"

def redirectWarning : String :=
  "Could not redirect stderr to /dev/console, using /dev/null instead"

/-- What the loop leaves open when it has come to `fd`. -/
def keptBelow (fd : ℤ) (f : Files) (x : ℕ) : Option File :=
  if 3 ≤ x ∧ (x : ℤ) < fd then none else f.get x

/-- The descriptors once `stdin` and `stdout` have been redirected. -/
def redirected (m : Machine) (f : Files) (stderr : Option File) : ℕ → Option File :=
  Function.update (Function.update (Function.update (keptBelow m.maxfd f) 0 (some nullInput)) 1
    (some nullOutput)) 2 stderr

/-- What the process has and what its descriptors are open on. -/
structure Stage (p₀ p : Proc) (log : List String) (files : ℕ → Option File)
    (fileno : Stream → Option ℕ) : Prop where
  cwd : p.cwd = "/"
  umask : p.umask = 0
  credentials : p.credentials = p₀.credentials
  connects : p.connects = p₀.connects
  log : p.log = log
  files : p.files.get = files
  fileno : p.files.fileno = fileno

/-- Nothing has been done yet but to fork. -/
structure Inherits (p₀ p : Proc) : Prop where
  credentials : p.credentials = p₀.credentials
  connects : p.connects = p₀.connects
  log : p.log = p₀.log
  files : p.files = p₀.files

/-- Where `stderr` leads: to the console; or, after a warning, to the null device.  If the warning
opens the logger's socket, that takes the descriptor of `stderr`, and `stderr` gets the first one
from 3 on that is free. -/
inductive Redirected (m : Machine) (p₀ p : Proc) : Prop where
  | console (hlog : p.log = p₀.log)
      (hfiles : p.files.get = redirected m p₀.files (some consoleOutput))
      (hfileno : p.files.fileno = p₀.files.fileno)
  | null (hlog : p.log = p₀.log ++ [redirectWarning]) (hconnects : p₀.connects = false)
      (hfiles : p.files.get = redirected m p₀.files (some nullOutput))
      (hfileno : p.files.fileno = p₀.files.fileno)
  | behindSocket {fd : ℕ} (hlog : p.log = p₀.log ++ [redirectWarning])
      (hconnects : p₀.connects = true) (hlo : 3 ≤ fd)
      (hfree : keptBelow m.maxfd p₀.files fd = none)
      (hfirst : ∀ y ≥ 3, y < fd → (keptBelow m.maxfd p₀.files y).isSome)
      (hfiles : p.files.get =
        Function.update (redirected m p₀.files (some .socket)) fd (some nullOutput))
      (hfileno : p.files.fileno = Function.update p₀.files.fileno .stderr (some fd))

/-- What `daemonize` is to leave behind. -/
structure Daemon (m : Machine) (p₀ p : Proc) : Prop where
  cwd : p.cwd = "/"
  umask : p.umask = 0
  files : Redirected m p₀ p
  credentials : m.user = "" ∧ p.credentials = p₀.credentials ∨
    m.user ≠ "" ∧ changeUser m.db m.user p₀.credentials = .ok ⟨⟩ p.credentials

/-- The process `p`, which goes back to `p₀`, in each phase. -/
inductive Prepared (m : Machine) (p₀ p : Proc) : Phase → Prop where
  | fork (h : Inherits p₀ p) : Prepared m p₀ p .fork
  | setsid (h : Inherits p₀ p) : Prepared m p₀ p .setsid
  | forkAgain (h : Inherits p₀ p) : Prepared m p₀ p .forkAgain
  | chdir (h : Inherits p₀ p) : Prepared m p₀ p .chdir
  | umask (h : Inherits p₀ p) (hcwd : p.cwd = "/") : Prepared m p₀ p .umask
  | sysconf (h : Inherits p₀ p) (hcwd : p.cwd = "/") (humask : p.umask = 0) :
      Prepared m p₀ p .sysconf
  | close {fd : ℕ} (hlo : 3 ≤ fd) (hhi : fd = 3 ∨ (fd : ℤ) ≤ m.maxfd)
      (h : Stage p₀ p p₀.log (keptBelow fd p₀.files) p₀.files.fileno) : Prepared m p₀ p (.close fd)
  | freopenStdin (h : Stage p₀ p p₀.log (keptBelow m.maxfd p₀.files) p₀.files.fileno) :
      Prepared m p₀ p .freopenStdin
  | freopenStdout (h : Stage p₀ p p₀.log
      (Function.update (keptBelow m.maxfd p₀.files) 0 (some nullInput)) p₀.files.fileno) :
      Prepared m p₀ p .freopenStdout
  | freopenStderr (h : Stage p₀ p p₀.log
      (Function.update (Function.update (keptBelow m.maxfd p₀.files) 0 (some nullInput)) 1
        (some nullOutput)) p₀.files.fileno) : Prepared m p₀ p .freopenStderr
  | freopenStderrNull (h : Stage p₀ p (p₀.log ++ [redirectWarning])
      (redirected m p₀.files (if p₀.connects then some .socket else none))
      (Function.update p₀.files.fileno .stderr none)) : Prepared m p₀ p .freopenStderrNull
  | changeUser (hcwd : p.cwd = "/") (humask : p.umask = 0)
      (hcredentials : p.credentials = p₀.credentials) (h : Redirected m p₀ p) :
      Prepared m p₀ p .changeUser
  | returned (h : Daemon m p₀ p) : Prepared m p₀ p .returned
  | threw {e : SystemError} : Prepared m p₀ p (.threw e)

section

variable {m : Machine} {p₀ p p' : Proc}

/-- A descriptor outside of the loop's reach is closed by nothing. -/
theorem keptBelow_succ (f : Files) {fd : ℕ} (h : 3 ≤ fd) (x : ℕ) :
    (if x = fd then none else keptBelow fd f x) = keptBelow (fd + 1 : ℕ) f x := by
  unfold keptBelow
  by_cases hx : x = fd
  · rw [if_pos hx, if_pos ⟨by omega, by omega⟩]
  · rw [if_neg hx]
    refine if_congr ?_ rfl rfl
    omega

theorem keptBelow_three (f : Files) : keptBelow 3 f = f.get := by
  funext x
  exact if_neg (by omega)

/-- The files after a `freopen` of a stream with a descriptor. -/
theorem Stage.freopen {log : List String} {files : ℕ → Option File} {fileno : Stream → Option ℕ}
    (h : Stage p₀ p log files fileno) {stream : Stream} {fd : ℕ} (hfd : fileno stream = some fd)
    (file : File) (phase : Phase) :
    Stage p₀ { p with files := p.files.freopen file stream, phase } log
      (Function.update files fd (some file)) fileno := by
  rw [← h.fileno] at hfd
  refine ⟨h.cwd, h.umask, h.credentials, h.connects, h.log, ?_, ?_⟩
  · funext x
    show (p.files.freopen file stream).get x = _
    rw [Files.get_freopen hfd, h.files, Function.update_apply]
  · show Function.update p.files.fileno stream (some ((p.files.fileno stream).getD _)) = _
    rw [hfd, Option.getD_some, ← hfd, Function.update_eq_self]
    exact h.fileno

theorem Inherits.stage (h : Inherits p₀ p) (hcwd : p.cwd = "/") (humask : p.umask = 0)
    (phase : Phase) :
    Stage p₀ (p.goTo phase) p₀.log (keptBelow 3 p₀.files) p₀.files.fileno := by
  refine ⟨hcwd, humask, h.credentials, h.connects, h.log, ?_, ?_⟩
  · rw [keptBelow_three]
    exact congrArg Files.get h.files
  · exact congrArg Files.fileno h.files

/-- The stream is closed, and the warning written. -/
theorem Stage.freopenFails {files : ℕ → Option File} {fileno : Stream → Option ℕ}
    {log : List String} (h : Stage p₀ p log files fileno) {stream : Stream} {fd : ℕ}
    (hfd : fileno stream = some fd) :
    (p.files.freopenFails stream).get = Function.update files fd none ∧
      (p.files.freopenFails stream).fileno = Function.update fileno stream none := by
  rw [← h.fileno] at hfd
  constructor
  · funext x
    rw [Files.get_freopenFails hfd, h.files, Function.update_apply]
  · unfold Files.freopenFails
    rw [hfd]
    show Function.update p.files.fileno stream none = _
    rw [h.fileno]

/-- With `stdin` and `stdout` open and nothing behind them, the next file is opened there. -/
theorem lowest_redirected {f : Files} (h : f.get = redirected m p₀.files none) : f.lowest = 2 := by
  refine Files.lowest_eq ?_ ?_
  · intro y hy
    rw [h]
    rcases (by omega : y = 0 ∨ y = 1) with rfl | rfl
    · rfl
    · rfl
  · rw [h]
    rfl

theorem redirected_update (f : Files) (file file' : Option File) (x : ℕ) :
    (if x = 2 then file' else redirected m f file x) = redirected m f file' x := by
  unfold redirected
  simp only [Function.update_apply]
  split
  · rfl
  · rfl

/-- `stderr` is closed, and the logger's socket may take its descriptor. -/
theorem Stage.warned {phase : Phase} {errno : ℤ}
    (h : Stage p₀ p p₀.log (Function.update (Function.update (keptBelow m.maxfd p₀.files) 0
      (some nullInput)) 1 (some nullOutput)) p₀.files.fileno) (hstd : p₀.files.Standard) :
    Stage p₀ (Proc.warns { p with files := p.files.freopenFails .stderr, phase } (.failed errno))
      (p₀.log ++ [redirectWarning])
      (redirected m p₀.files (if p₀.connects then some .socket else none))
      (Function.update p₀.files.fileno .stderr none) := by
  obtain ⟨hget, hfileno⟩ := h.freopenFails hstd.stderr
  refine ⟨h.cwd, h.umask, h.credentials, h.connects, congrArg (· ++ _) h.log, ?_, ?_⟩
  · show Files.get (if p.connects then _ else _) = _
    rw [h.connects]
    cases p₀.connects with
    | false => exact hget
    | true =>
        funext x
        refine (Files.get_put _ _ x .socket).trans ?_
        dsimp only
        rw [lowest_redirected hget, hget]
        exact redirected_update p₀.files none (some .socket) x
  · show Files.fileno (if p.connects then _ else _) = _
    cases p.connects with
    | false => exact hfileno
    | true => exact hfileno

/-- The null device is opened on the first descriptor that is free. -/
theorem Stage.opened
    (h : Stage p₀ p (p₀.log ++ [redirectWarning])
      (redirected m p₀.files (if p₀.connects then some .socket else none))
      (Function.update p₀.files.fileno .stderr none)) (hstd : p₀.files.Standard) (phase : Phase) :
    Redirected m p₀ { p with files := p.files.freopen nullOutput .stderr, phase } := by
  have hnone : p.files.fileno .stderr = none := by
    rw [h.fileno]
    exact Function.update_self ..
  have hfreopen : p.files.freopen nullOutput .stderr =
      { p.files.put p.files.lowest nullOutput with
        fileno := Function.update p.files.fileno .stderr (some p.files.lowest) } := by
    unfold Files.freopen
    rw [hnone, Option.getD_none]
  have hget : ∀ x, (p.files.freopen nullOutput .stderr).get x =
      if x = p.files.lowest then some nullOutput else p.files.get x := by
    intro x
    rw [hfreopen]
    exact Files.get_put p.files p.files.lowest x nullOutput
  have hfileno : (p.files.freopen nullOutput .stderr).fileno =
      Function.update p₀.files.fileno .stderr (some p.files.lowest) := by
    rw [hfreopen]
    show Function.update p.files.fileno .stderr (some p.files.lowest) = _
    rw [h.fileno, Function.update_idem]
  cases hconnects : p₀.connects with
  | false =>
      have hfiles := h.files
      rw [hconnects, if_neg Bool.false_ne_true] at hfiles
      have hlowest := lowest_redirected hfiles
      refine .null h.log hconnects ?_ ?_
      · funext x
        rw [hget, hlowest, hfiles]
        exact redirected_update p₀.files none (some nullOutput) x
      · rw [hfileno, hlowest, ← hstd.stderr, Function.update_eq_self]
  | true =>
      have hfiles := h.files
      rw [hconnects, if_pos rfl] at hfiles
      obtain ⟨hfree, hfirst⟩ := p.files.lowest_spec
      rw [hfiles] at hfree hfirst
      -- the descriptors up to 2 are open
      have hlo : 3 ≤ p.files.lowest := by
        by_contra hlt
        rcases (by omega : p.files.lowest = 0 ∨ p.files.lowest = 1 ∨ p.files.lowest = 2) with
          hfd | hfd | hfd <;> rw [hfd] at hfree <;> cases hfree
      have hkept : ∀ y ≥ 3, redirected m p₀.files (some .socket) y =
          keptBelow m.maxfd p₀.files y := by
        intro y hy
        unfold redirected
        rw [Function.update_of_ne (by omega), Function.update_of_ne (by omega),
          Function.update_of_ne (by omega)]
      refine .behindSocket h.log hconnects hlo ?_ ?_ ?_ hfileno
      · rw [← hkept _ hlo]
        exact hfree
      · intro y hy hlt
        rw [← hkept y hy]
        exact hfirst y hlt
      · funext x
        rw [hget, hfiles, Function.update_apply]

/-- What leaves the files and the log alone -/
theorem Redirected.congr (h : Redirected m p₀ p) (hlog : p'.log = p.log)
    (hfiles : p'.files = p.files) : Redirected m p₀ p' := by
  have hget := congrArg Files.get hfiles
  have hfileno := congrArg Files.fileno hfiles
  cases h with
  | console hlog' hget' hfileno' =>
      exact .console (hlog.trans hlog') (hget.trans hget') (hfileno.trans hfileno')
  | null hlog' hconnects hget' hfileno' =>
      exact .null (hlog.trans hlog') hconnects (hget.trans hget') (hfileno.trans hfileno')
  | behindSocket hlog' hconnects hlo hfree hfirst hget' hfileno' =>
      exact .behindSocket (hlog.trans hlog') hconnects hlo hfree hfirst (hget.trans hget')
        (hfileno.trans hfileno')

/-- **The step lemma** for a process by itself. -/
theorem Prepared.advance {answer : Answer} (h : Prepared m p₀ p p.phase)
    (hstd : p₀.files.Standard) (hadvance : p.advance m answer = some p') :
    Prepared m p₀ p' p'.phase := by
  generalize hphase : p.phase = phase at h
  unfold Proc.advance at hadvance
  rw [hphase] at hadvance
  cases h with
  | chdir h =>
      cases answer with
      | done value =>
          obtain rfl := Option.some.inj hadvance
          exact .umask ⟨h.credentials, h.connects, h.log, h.files⟩ rfl
      | failed errno =>
          obtain rfl := Option.some.inj hadvance
          exact .threw
  | umask h hcwd =>
      obtain rfl := Option.some.inj hadvance
      exact .sysconf ⟨h.credentials, h.connects, h.log, h.files⟩ hcwd rfl
  | sysconf h hcwd humask =>
      dsimp only at hadvance
      split at hadvance
      · obtain rfl := Option.some.inj hadvance
        exact .threw
      · obtain rfl := Option.some.inj hadvance
        exact .close (Nat.le_refl 3) (Or.inl rfl) (h.stage hcwd humask _)
  | @close fd hlo hhi h =>
      dsimp only at hadvance
      split at hadvance
      · rename_i hlt
        obtain rfl := Option.some.inj hadvance
        refine .close (by omega) (Or.inr (by omega))
          ⟨h.cwd, h.umask, h.credentials, h.connects, h.log, ?_, ?_⟩
        · funext x
          rw [← keptBelow_succ p₀.files hlo]
          refine (Files.get_close p.files fd x).trans ?_
          rw [h.files]
        · exact h.fileno
      · rename_i hge
        obtain rfl := Option.some.inj hadvance
        refine .freopenStdin ⟨h.cwd, h.umask, h.credentials, h.connects, h.log, ?_, h.fileno⟩
        funext x
        refine (congrFun h.files x).trans ?_
        unfold keptBelow
        refine if_congr ?_ rfl rfl
        omega
  | freopenStdin h =>
      obtain rfl := Option.some.inj hadvance
      cases answer with
      | done value => exact .freopenStdout (h.freopen hstd.stdin _ _)
      | failed errno => exact .threw
  | freopenStdout h =>
      obtain rfl := Option.some.inj hadvance
      cases answer with
      | done value => exact .freopenStderr (h.freopen hstd.stdout _ _)
      | failed errno => exact .threw
  | freopenStderr h =>
      obtain rfl := Option.some.inj hadvance
      cases answer with
      | done value =>
          have hopened := h.freopen hstd.stderr consoleOutput .changeUser
          exact .changeUser hopened.cwd hopened.umask hopened.credentials
            (.console hopened.log hopened.files hopened.fileno)
      | failed errno => exact .freopenStderrNull (h.warned hstd)
  | freopenStderrNull h =>
      obtain rfl := Option.some.inj hadvance
      cases answer with
      | done value => exact .changeUser h.cwd h.umask h.credentials (h.opened hstd _)
      | failed errno => exact .threw
  | changeUser hcwd humask hcredentials h =>
      dsimp only at hadvance
      split at hadvance
      · rename_i huser
        obtain rfl := Option.some.inj hadvance
        exact .returned ⟨hcwd, humask, h.congr rfl rfl, Or.inl ⟨huser, hcredentials⟩⟩
      · rename_i huser
        split at hadvance
        · rename_i heq
          obtain rfl := Option.some.inj hadvance
          rw [hcredentials] at heq
          exact .returned ⟨hcwd, humask, h.congr rfl rfl, Or.inr ⟨huser, heq⟩⟩
        · obtain rfl := Option.some.inj hadvance
          exact .threw
  | _ => cases hadvance

end

/-! ## From one state of the machine to the next -/

/-- The phases in which nothing has been done yet but to fork. -/
def Phase.early : Phase → Bool
  | .fork | .setsid | .forkAgain | .chdir => true
  | _ => false

/-- Only the ids are others, and what the process has done since. -/
structure Proc.SameWork (p p' : Proc) : Prop where
  cwd : p'.cwd = p.cwd
  umask : p'.umask = p.umask
  files : p'.files = p.files
  credentials : p'.credentials = p.credentials
  log : p'.log = p.log
  phase : p'.phase = p.phase
  origin : p'.origin = p.origin

/-- What becomes of a process in a step, or of its copy, if it carries on a call. -/
inductive Proc.Turns (m : Machine) (p : Proc) : Proc → Prop where
  | stays : Turns m p p
  | outside {p' : Proc} (hended : p.phase.ended = true) (h : p.SameWork p') : Turns m p p'
  | throws {e : SystemError} : Turns m p (p.goTo (.threw e))
  | forks {pid group session : ℕ} {phase : Phase}
      (hphase : p.phase.early = true ∧ phase.early = true) :
      Turns m p { p with pid, group, session, phase }
  | advances {answer : Answer} {p' : Proc} (hadvance : p.advance m answer = some p') : Turns m p p'

section

variable {m : Machine} {s s₀ s' : System} {p₀ p p' : Proc} {i j pid : ℕ}

theorem Proc.Turns.origin (h : p.Turns m p') : p'.origin = p.origin := by
  cases h with
  | stays => rfl
  | outside _ h => exact h.origin
  | throws => rfl
  | forks => rfl
  | advances hadvance => exact (onward_advance hadvance).origin

theorem Prepared.of_early (hphase : p.phase.early = true) (h : Inherits p₀ p) :
    Prepared m p₀ p p.phase := by
  generalize p.phase = phase at hphase
  cases phase with
  | fork => exact .fork h
  | setsid => exact .setsid h
  | forkAgain => exact .forkAgain h
  | chdir => exact .chdir h
  | _ => cases hphase

theorem Prepared.inherits (h : Prepared m p₀ p p.phase) (hphase : p.phase.early = true) :
    Inherits p₀ p := by
  generalize p.phase = phase at h hphase
  cases h with
  | fork h => exact h
  | setsid h => exact h
  | forkAgain h => exact h
  | chdir h => exact h
  | _ => cases hphase

theorem Prepared.turns (h : Prepared m p₀ p p.phase) (hstd : p₀.files.Standard)
    (hturns : p.Turns m p') : Prepared m p₀ p' p'.phase := by
  cases hturns with
  | stays => exact h
  | outside hended hsame =>
      rw [hsame.phase]
      generalize p.phase = phase at h hended
      cases h with
      | returned h =>
          refine .returned ⟨hsame.cwd.trans h.cwd, hsame.umask.trans h.umask,
            h.files.congr hsame.log hsame.files, ?_⟩
          rw [hsame.credentials]
          exact h.credentials
      | threw => exact .threw
      | _ => cases hended
  | throws => exact .threw
  | forks hphase =>
      have hinherits := h.inherits hphase.1
      exact .of_early hphase.2
        ⟨hinherits.credentials, hinherits.connects, hinherits.log, hinherits.files⟩
  | advances hadvance => exact h.advance hstd hadvance

namespace System

/-- Some process of this state has become `p`, and carries on a call. -/
def Comes (m : Machine) (s : System) (p : Proc) : Prop :=
  ∃ k < s.count, (s.process k).phase.active = true ∧ (s.process k).Turns m p

theorem comes_update (hprocess : s'.process = Function.update s.process i p') (hi : i < s.count)
    (hturns : p'.phase.active = true →
      (s.process i).phase.active = true ∧ (s.process i).Turns m p')
    (hj : j < s.count) (hactive : (s'.process j).phase.active = true) :
    s.Comes m (s'.process j) := by
  rw [hprocess] at hactive ⊢
  by_cases hji : j = i
  · rw [hji, Function.update_self] at hactive ⊢
    exact ⟨i, hi, hturns hactive⟩
  · rw [Function.update_of_ne hji] at hactive ⊢
    exact ⟨j, hj, hactive, .stays⟩

theorem comes_forked {child : Phase} (hi : i < s.count)
    (hphase : (s.process i).phase.active = true ∧ (s.process i).phase.early = true)
    (hchild : child.early = true) (hj : j < s.count + 1)
    (hactive : ((s.forked i pid .exiting child).process j).phase.active = true) :
    s.Comes m ((s.forked i pid .exiting child).process j) := by
  rcases Nat.lt_succ_iff_lt_or_eq.mp hj with hj | rfl
  · have hold : (s.forked i pid .exiting child).process j =
        (s.put i ((s.process i).goTo .exiting)).process j :=
      Function.update_of_ne (Nat.ne_of_lt hj) ..
    rw [hold] at hactive ⊢
    exact comes_update rfl hi nofun hj hactive
  · have hnew : (s.forked i pid .exiting child).process s.count =
        { s.process i with pid, phase := child } := Function.update_self ..
    rw [hnew]
    exact ⟨i, hi, hphase.1, .forks ⟨hphase.2, hchild⟩⟩

/-- **Every process of the next state** that carries on a call comes from one of this state. -/
theorem step_comes {e : Event} (hstep : s.step m e = some s') (hj : j < s'.count)
    (hactive : (s'.process j).phase.active = true) : s.Comes m (s'.process j) := by
  cases e with
  | call i answer =>
      obtain ⟨hi, hcall⟩ := step_call hstep
      cases hcall with
      | forked hphase hfresh =>
          exact comes_forked hi (by rw [hphase]; exact ⟨rfl, rfl⟩) rfl hj hactive
      | forkFails hphase =>
          exact comes_update rfl hi (fun _ => ⟨by rw [hphase]; rfl, .throws⟩) hj hactive
      | leads hphase hlead =>
          refine comes_update rfl hi (fun _ => ⟨by rw [hphase]; rfl, ?_⟩) hj hactive
          exact .forks ⟨by rw [hphase]; rfl, rfl⟩
      | setsidFails hphase hlead =>
          exact comes_update rfl hi (fun _ => ⟨by rw [hphase]; rfl, .throws⟩) hj hactive
      | forkedAgain hphase hfresh =>
          exact comes_forked hi (by rw [hphase]; exact ⟨rfl, rfl⟩) rfl hj hactive
      | forkAgainFails hphase =>
          exact comes_update rfl hi (fun _ => ⟨by rw [hphase]; rfl, .throws⟩) hj hactive
      | exits hphase =>
          obtain ⟨hcount, hprocess⟩ := exit_frame s i
          refine comes_update hprocess hi ?_ (hcount ▸ hj) hactive
          intro hleft
          rw [Proc.leave, hphase] at hleft
          cases hleft
      | advances hadvance =>
          exact comes_update rfl hi (fun _ => ⟨(Proc.onward_advance hadvance).active,
            .advances hadvance⟩) hj hactive
      | opens hphase hadvance =>
          obtain ⟨hcount, hprocess⟩ := openTerminal_frame s i console
          refine comes_update ?_ hi (fun _ => ⟨(Proc.onward_advance hadvance).active,
            .advances hadvance⟩) (hcount ▸ hj) hactive
          show Function.update (s.openTerminal i console).process i _ = _
          rw [hprocess]
  | act i action =>
      obtain ⟨hi, hfree, hact⟩ := step_act hstep
      -- other code that carries on a call has come back from it
      have hended : (s.process i).phase.active = true → (s.process i).phase.ended = true := by
        intro hactive
        refine hfree.1.resolve_left fun hother => ?_
        rw [hother] at hactive
        cases hactive
      cases hact with
      | @spawned pid hfresh =>
          rcases Nat.lt_succ_iff_lt_or_eq.mp hj with hj | rfl
          · have hold : (s.spawned i pid).process j = s.process j := add_process hj
            rw [hold] at hactive ⊢
            exact ⟨j, hj, hactive, .stays⟩
          · rw [spawned, add_process_new] at hactive
            cases hactive
      | leads hlead =>
          refine comes_update rfl hi (fun hactive => ⟨hactive, ?_⟩) hj hactive
          exact .outside (hended hactive) ⟨rfl, rfl, rfl, rfl, rfl, rfl, rfl⟩
      | opens =>
          obtain ⟨hcount, hprocess⟩ := openTerminal_frame s i ‹ℕ›
          rw [hprocess] at hactive ⊢
          exact ⟨j, hcount ▸ hj, hactive, .stays⟩
      | exits =>
          obtain ⟨hcount, hprocess⟩ := exit_frame s i
          refine comes_update hprocess hi ?_ (hcount ▸ hj) hactive
          intro hleft
          unfold Proc.leave at hleft ⊢
          cases h : (s.process i).phase.ended with
          | true =>
              rw [h, if_pos rfl] at hleft
              rw [if_pos rfl]
              exact ⟨hleft, .outside h ⟨rfl, rfl, rfl, rfl, rfl, rfl, rfl⟩⟩
          | false =>
              rw [h, if_neg Bool.false_ne_true] at hleft
              cases hleft

/-- Each process that carries on a call goes back to one of the beginning, and is prepared for
its phase. -/
def Prepares (m : Machine) (s₀ s : System) : Prop :=
  ∀ i < s.count, (s.process i).phase.active = true → (s.process i).origin < s₀.count ∧
    ((s₀.process (s.process i).origin).files.Standard →
      Prepared m (s₀.process (s.process i).origin) (s.process i) (s.process i).phase)

theorem Prepares.step {e : Event} (h : Prepares m s₀ s) (hstep : s.step m e = some s') :
    Prepares m s₀ s' := by
  intro j hj hactive
  obtain ⟨k, hk, hkactive, hturns⟩ := step_comes hstep hj hactive
  obtain ⟨horigin, hprepared⟩ := h k hk hkactive
  rw [hturns.origin]
  exact ⟨horigin, fun hstd => (hprepared hstd).turns hstd hturns⟩

end System
end
end KssUtil.Process

import KssUtil.Foundation.Program
import KssUtil.Libc.Exceptions
import KssUtil.Libc.Time

/-!
# `TZ` after a conversion (timeutil.cpp, raii.hpp)

The old value of `TZ` is kept as the pointer that `getenv` gave, and is read through it
when the new value has long been set.  If the new value was written over the old one,
that is what is read.
-/

namespace KssUtil.Time.ZoneRestore

open KssUtil.Foundation KssUtil.Libc

/-! ## The environment -/

/-- Storage for a value of `TZ`, which may have room for a longer one. -/
structure Buffer where
  text : List Char
  size : ℕ
  fits : text.length ≤ size

/-- The variable `TZ`, what pointers into the environment lead to, and the zone that the
C library has loaded.  Buffers are named by the order of their allocation. -/
structure Environment where
  buffer : ℕ → Buffer
  next : ℕ
  TZ : Option ℕ
  TZ_lt : ∀ b ∈ TZ, b < next
  setenvs : ℕ
  loaded : Option (List Char)

namespace Environment

/-- The value of `TZ`. -/
def value (env : Environment) : Option (List Char) := env.TZ.map fun b => (env.buffer b).text

def getenv (env : Environment) : Option ℕ := env.TZ

/-- The value is written over the old one. -/
def overwrite (env : Environment) (b : ℕ) (v : List Char) (h : v.length ≤ (env.buffer b).size) :
    Environment :=
  { env with
    buffer := Function.update env.buffer b ⟨v, (env.buffer b).size, h⟩
    setenvs := env.setenvs + 1 }

/-- The value is put elsewhere, and the old one stays where it was. -/
def allocate (env : Environment) (v : List Char) : Environment :=
  { env with
    buffer := Function.update env.buffer env.next ⟨v, v.length, Nat.le_refl _⟩
    next := env.next + 1
    TZ := some env.next
    TZ_lt := fun _ h => Option.some.inj h ▸ Nat.lt_succ_self _
    setenvs := env.setenvs + 1 }

/-- `setenv("TZ", v, 1)`; `reuses` says of each call whether it would write over the old
value where the new one fits. -/
def setenv (reuses : ℕ → Bool) (v : List Char) (env : Environment) : Environment :=
  match env.TZ with
  | none => env.allocate v
  | some b =>
      if h : reuses env.setenvs = true ∧ v.length ≤ (env.buffer b).size then
        env.overwrite b v h.2
      else env.allocate v

def unsetenv (env : Environment) : Environment :=
  { env with TZ := none, TZ_lt := fun _ h => nomatch h }

def tzset (env : Environment) : Environment := { env with loaded := env.value }

/-- The clean-up: `setenv` of the old value, or `unsetenv` if there was none. -/
def restore (reuses : ℕ → Bool) (oldtz : Option ℕ) (env : Environment) : Environment :=
  match oldtz with
  | some b => (env.setenv reuses (env.buffer b).text).tzset
  | none => env.unsetenv.tzset

end Environment

/-! ## Conversions -/

/-- What the C library does with the zone it has loaded, whether `tzEnvMutex` can be
locked, and what the functions for `ENVMUTEX` return. -/
structure System where
  timelocal : Option (List Char) → Tm → ℤ
  localtimeR : Option (List Char) → ℤ → Option Tm
  lockable : Bool
  mutexLock : ℤ
  mutexUnlock : ℤ

section

variable (sys : System) (reuses : ℕ → Bool)

/-- `timelocal` loads the zone, too. -/
def timelocal (tm : Tm) : EStateM Exn Environment ℤ := do
  modify Environment.tzset
  let env ← get
  let t := sys.timelocal env.loaded tm
  if t = -1 then throw .systemError else return t

def localtimeR (t : ℤ) : EStateM Exn Environment Tm := do
  let env ← get
  match sys.localtimeR env.loaded t with
  | some result => return result
  | none => throw .systemError

/-- `body` under the lock, with the zone in `TZ`. -/
def inZone {α : Type} (tzone : List Char) (body : EStateM Exn Environment α) :
    EStateM Exn Environment α := do
  if sys.lockable = false then throw .systemError
  else
    let env ← get
    let oldtz := env.getenv
    withCleanup (Environment.restore reuses oldtz) do
      modify (Environment.setenv reuses (cstr tzone))
      modify Environment.tzset
      body

def tmToTime (tm : Tm) (tzone : List Char) : EStateM Exn Environment ℤ :=
  if tzone.isEmpty then timelocal sys tm else inZone sys reuses tzone (timelocal sys tm)

def timeToTm (t : ℤ) (tzone : List Char) : EStateM Exn Environment Tm :=
  if tzone.isEmpty then localtimeR sys t else inZone sys reuses tzone (localtimeR sys t)

/-- `_private::tzTimeR`, which does not ask for the name of the zone; null is `none`. -/
def tzTimeR (timep : ℤ) : Option (List Char) → EStateM Exn Environment (Option Tm)
  | none => return gmtimeR timep
  | some tzone => do
      if sys.mutexLock ≠ 0 then return none
      else
        let env ← get
        let oldtz := env.getenv
        modify (Environment.setenv reuses (cstr tzone))
        modify Environment.tzset
        let env ← get
        let result := sys.localtimeR env.loaded timep
        modify (Environment.restore reuses oldtz)
        if sys.mutexUnlock ≠ 0 then return none else return result

end

/-- A call of one of the three. -/
inductive Call where
  | tmToTime (tm : Tm) (tzone : List Char)
  | timeToTm (t : ℤ) (tzone : List Char)
  | tzTimeR (timep : ℤ) (tzone : Option (List Char))

namespace Call

def run (sys : System) (reuses : ℕ → Bool) : Call → EStateM Exn Environment PUnit
  | tmToTime tm tzone => discard (ZoneRestore.tmToTime sys reuses tm tzone)
  | timeToTm t tzone => discard (ZoneRestore.timeToTm sys reuses t tzone)
  | tzTimeR timep tzone => discard (ZoneRestore.tzTimeR sys reuses timep tzone)

/-- The value that the call sets `TZ` to, if it does. -/
def newValue (sys : System) : Call → Option (List Char)
  | tmToTime _ tzone => if tzone.isEmpty ∨ sys.lockable = false then none else some (cstr tzone)
  | timeToTm _ tzone => if tzone.isEmpty ∨ sys.lockable = false then none else some (cstr tzone)
  | tzTimeR _ none => none
  | tzTimeR _ (some tzone) => if sys.mutexLock ≠ 0 then none else some (cstr tzone)

end Call

/-- `TZ` has the value it had, or none as before, whether the call returns or throws. -/
def Restored (sys : System) (reuses : ℕ → Bool) (call : Call) (env : Environment) : Prop :=
  Runs (call.run sys reuses) env (fun _ env' => env'.value = env.value)
    fun _ env' => env'.value = env.value

/-! ## What is restored -/

namespace Environment

variable {env : Environment} {reuses : ℕ → Bool} {v : List Char} {b : ℕ}

theorem value_setenv : (env.setenv reuses v).value = some v := by
  unfold setenv
  split
  · unfold value allocate
    dsimp only
    rw [Option.map_some, Function.update_self]
  · rename_i b hb
    split
    · unfold value overwrite
      dsimp only
      rw [hb, Option.map_some, Function.update_self]
    · unfold value allocate
      dsimp only
      rw [Option.map_some, Function.update_self]

/-- What the old pointer leads to after the call. -/
theorem buffer_setenv (hb : env.TZ = some b) :
    ((env.setenv reuses v).buffer b).text =
      if reuses env.setenvs = true ∧ v.length ≤ (env.buffer b).size then v
      else (env.buffer b).text := by
  unfold setenv
  split
  · rename_i hnone
    rw [hb] at hnone
    cases hnone
  · rename_i b' hb'
    rw [hb] at hb'
    obtain rfl := Option.some.inj hb'
    split
    · unfold overwrite
      dsimp only
      rw [Function.update_self]
    · have hne : b ≠ env.next := Nat.ne_of_lt (env.TZ_lt b hb)
      unfold allocate
      dsimp only
      rw [Function.update_of_ne hne]

/-- What is restored after `TZ` was set to `v`. -/
def valueAfter (reuses : ℕ → Bool) (v : List Char) (env : Environment) : Option (List Char) :=
  env.TZ.map fun b =>
    if reuses env.setenvs = true ∧ v.length ≤ (env.buffer b).size then v else (env.buffer b).text

/-- Only the old pointer counts, and what it leads to by then. -/
theorem value_restore {env' : Environment} (hsame : env'.buffer = (env.setenv reuses v).buffer) :
    (env'.restore reuses env.getenv).value = env.valueAfter reuses v := by
  unfold getenv valueAfter
  cases hb : env.TZ with
  | none => rfl
  | some b =>
      rw [Option.map_some, ← buffer_setenv hb, ← hsame]
      exact value_setenv

end Environment

section

variable {sys : System} {reuses : ℕ → Bool} {env : Environment} {α : Type}

/-- Conversions write nothing into the environment. -/
def Keeps (m : EStateM Exn Environment α) : Prop :=
  ∀ env, Runs m env (fun _ env' => env'.buffer = env.buffer ∧ env'.TZ = env.TZ)
    fun _ env' => env'.buffer = env.buffer ∧ env'.TZ = env.TZ

theorem keeps_timelocal (tm : Tm) : Keeps (timelocal sys tm) := by
  intro env
  unfold timelocal
  rw [runs_bind, runs_modify, runs_bind, runs_get]
  dsimp only
  split
  · exact ⟨rfl, rfl⟩
  · exact ⟨rfl, rfl⟩

theorem keeps_localtimeR (t : ℤ) : Keeps (localtimeR sys t) := by
  intro env
  unfold localtimeR
  rw [runs_bind, runs_get]
  split
  · exact ⟨rfl, rfl⟩
  · exact ⟨rfl, rfl⟩

theorem value_congr {env' : Environment}
    (h : env'.buffer = env.buffer ∧ env'.TZ = env.TZ) : env'.value = env.value := by
  rw [Environment.value, h.1, h.2]
  rfl

/-- The value of `TZ` after a call, of which `v` is the zone it puts there, if any. -/
def Leaves (m : EStateM Exn Environment α) (reuses : ℕ → Bool) (v : Option (List Char))
    (env : Environment) : Prop :=
  Runs m env (fun _ env' => env'.value = v.elim env.value fun v => env.valueAfter reuses v)
    fun _ env' => env'.value = v.elim env.value fun v => env.valueAfter reuses v

theorem Keeps.leaves {m : EStateM Exn Environment α} (h : Keeps m) : Leaves m reuses none env :=
  (h env).mono (fun _ _ => value_congr) fun _ _ => value_congr

/-- A normal return and a throw take the same clean-up. -/
theorem leaves_inZone {body : EStateM Exn Environment α} (hbody : Keeps body)
    (hlock : sys.lockable = true) (tzone : List Char) :
    Leaves (inZone sys reuses tzone body) reuses (some (cstr tzone)) env := by
  unfold Leaves inZone
  rw [if_neg (by rw [hlock]; exact Bool.noConfusion)]
  rw [runs_bind, runs_get, runs_withCleanup, runs_bind, runs_modify, runs_bind, runs_modify]
  refine (hbody _).mono ?_ ?_
  · intro _ env' h
    exact Environment.value_restore h.1
  · intro _ env' h
    exact Environment.value_restore h.1

theorem leaves_zoned {body : EStateM Exn Environment α} (hbody : Keeps body) (tzone : List Char) :
    Leaves (if tzone.isEmpty then body else inZone sys reuses tzone body) reuses
      (if tzone.isEmpty ∨ sys.lockable = false then none else some (cstr tzone)) env := by
  by_cases hempty : tzone.isEmpty = true
  · rw [if_pos hempty, if_pos (Or.inl hempty)]
    exact hbody.leaves
  · rw [if_neg hempty]
    cases hlock : sys.lockable with
    | false =>
        rw [if_pos (Or.inr rfl)]
        unfold Leaves inZone
        rw [if_pos hlock]
        exact rfl
    | true =>
        rw [if_neg (not_or.mpr ⟨hempty, Bool.noConfusion⟩)]
        exact leaves_inZone hbody hlock tzone

theorem leaves_tzTimeR (timep : ℤ) (tzone : List Char) :
    Leaves (tzTimeR sys reuses timep (some tzone)) reuses
      (if sys.mutexLock ≠ 0 then none else some (cstr tzone)) env := by
  unfold Leaves tzTimeR
  dsimp only
  by_cases hlock : sys.mutexLock ≠ 0
  · rw [if_pos hlock, if_pos hlock]
    exact rfl
  · rw [if_neg hlock, if_neg hlock]
    rw [runs_bind, runs_get, runs_bind, runs_modify, runs_bind, runs_modify, runs_bind, runs_get,
      runs_bind, runs_modify]
    have hrestored : ((env.setenv reuses (cstr tzone)).tzset.restore reuses env.getenv).value =
        env.valueAfter reuses (cstr tzone) :=
      Environment.value_restore rfl
    split
    · exact hrestored
    · exact hrestored

theorem leaves_run (call : Call) : Leaves (call.run sys reuses) reuses (call.newValue sys) env := by
  unfold Leaves
  cases call with
  | tmToTime tm tzone =>
      rw [Call.run, runs_discard]
      exact leaves_zoned (keeps_timelocal tm) tzone
  | timeToTm t tzone =>
      rw [Call.run, runs_discard]
      exact leaves_zoned (keeps_localtimeR t) tzone
  | tzTimeR timep tzone =>
      rw [Call.run, runs_discard]
      cases tzone with
      | none => exact rfl
      | some tzone => exact leaves_tzTimeR timep tzone

/-! ## When `TZ` is restored -/

/-- The values are the same, or the new one has no room where the old one is. -/
theorem valueAfter_eq_iff (v : List Char) :
    (∀ reuses, env.valueAfter reuses v = env.value) ↔
      ∀ b ∈ env.TZ, (env.buffer b).size < v.length ∨ v = (env.buffer b).text := by
  unfold Environment.valueAfter Environment.value
  cases hb : env.TZ with
  | none => exact iff_of_true (fun _ => rfl) fun _ h => nomatch h
  | some b =>
      constructor
      · intro h b' hb'
        obtain rfl := Option.some.inj hb'
        have hafter := Option.some.inj (h fun _ => true)
        by_cases hfits : v.length ≤ (env.buffer b).size
        · dsimp only at hafter
          rw [if_pos ⟨rfl, hfits⟩] at hafter
          exact Or.inr hafter
        · exact Or.inl (not_le.mp hfits)
      · intro h reuses
        rw [Option.map_some, Option.map_some]
        split
        · rename_i hover
          rcases h b rfl with hlong | hsame
          · exact absurd hover.2 (not_le.mpr hlong)
          · rw [hsame]
        · rfl

/-- **When `TZ` is restored.**  Whichever calls of `setenv` write over the old value, `TZ`
is restored exactly if it was not set, or no zone is put into it, or one that does not fit
where the old value is, or that value itself. -/
theorem restored_iff (sys : System) (call : Call) (env : Environment) :
    (∀ reuses, Restored sys reuses call env) ↔
      ∀ v ∈ call.newValue sys, ∀ b ∈ env.TZ,
        (env.buffer b).size < v.length ∨ v = (env.buffer b).text := by
  have hrestored : ∀ reuses, Restored sys reuses call env ↔
      (call.newValue sys).elim env.value (fun v => env.valueAfter reuses v) = env.value :=
    fun reuses => Runs.eq_iff (leaves_run call)
  rw [forall_congr' hrestored]
  cases call.newValue sys with
  | none => exact iff_of_true (fun _ => rfl) fun _ h => nomatch h
  | some v =>
      refine (valueAfter_eq_iff v).trans ⟨fun h v' hv' => ?_, fun h => h v rfl⟩
      exact Option.some.inj hv' ▸ h

/-! ## UTC in New York -/

/-- The zone of the process, with no room for a longer name. -/
def newYork : Environment where
  buffer _ := ⟨"America/New_York".toList, 16, by decide⟩
  next := 1
  TZ := some 0
  TZ_lt b h := Option.some.inj h ▸ Nat.one_pos
  setenvs := 0
  loaded := none

def clocksOfUtc : System where
  timelocal _ tm := timegm tm
  localtimeR _ t := gmtimeR t
  lockable := true
  mutexLock := 0
  mutexUnlock := 0

/-- A short zone takes the place of a long one, and stays there. -/
theorem short_zone_stays :
    Returns (tmToTime clocksOfUtc (fun _ => true) ⟨0, 0, 0, 1, 0, 119, 0⟩ "UTC".toList) newYork
        (fun t env => t = 1546300800 ∧ env.value = some "UTC".toList) ∧
      ¬ ∀ (sys : System) (reuses : ℕ → Bool) (call : Call) (env : Environment),
        Restored sys reuses call env := by
  refine ⟨⟨rfl, rfl⟩, fun h => ?_⟩
  have hrestored := h clocksOfUtc (fun _ => true)
    (.tmToTime ⟨0, 0, 0, 1, 0, 119, 0⟩ "UTC".toList) newYork
  have hvalue := (Runs.eq_iff (leaves_run (.tmToTime ⟨0, 0, 0, 1, 0, 119, 0⟩ _))).mp hrestored
  exact absurd hvalue (by decide)

end
end KssUtil.Time.ZoneRestore

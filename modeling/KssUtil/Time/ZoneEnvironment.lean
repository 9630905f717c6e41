import KssUtil.Foundation.Interleaving
import Mathlib.Logic.Function.Basic

/-!
# `TZ` under concurrent conversions (timeutil.cpp)

`tmToTime`, `timeToTm` and `tzTimeR` put their zone into the environment for the time
of one conversion.  The environment, and the zone that the C library has loaded from it,
belong to the whole process.
-/

namespace KssUtil.Time.ZoneEnvironment

open KssUtil.Foundation

/-! ## Calls -/

/-- What `TZ` can be. -/
abbrev Zone := List Char

inductive Mutex where
  | ENVMUTEX
  | tzEnvMutex
deriving DecidableEq, Repr

/-- A call and its zone.  The zone of `tzTimeR` may be null. -/
inductive Call where
  | tmToTime (tzone : Zone)
  | timeToTm (tzone : Zone)
  | tzTimeR (tzone : Option Zone)
deriving DecidableEq, Repr

namespace Call

/-- The zone that the call puts into `TZ`; without one it takes no lock. -/
def zone : Call → Option Zone
  | tmToTime tzone => if tzone.isEmpty then none else some tzone
  | timeToTm tzone => if tzone.isEmpty then none else some tzone
  | tzTimeR tzone => tzone

def mutex : Call → Mutex
  | tmToTime _ => .tzEnvMutex
  | timeToTm _ => .tzEnvMutex
  | tzTimeR _ => .ENVMUTEX

/-- Whether the call converts by `localtime_r` or `timelocal`, and not by `gmtime_r`. -/
def readsZone : Call → Bool
  | tzTimeR none => false
  | _ => true

/-- `timelocal` loads the zone from `TZ`; `localtime_r` does so only if none has been
loaded yet. -/
def loadsZone : Call → Bool
  | tmToTime _ => true
  | _ => false

end Call

/-! ## States -/

/-- How far a call has come. -/
inductive Phase where
  | start
  | locked
  | saved
  | set
  | loaded
  | converted
  | restored
  | reloaded
  | finished
deriving DecidableEq, Repr

/-- The zone of the process itself, and whether it has been loaded before. -/
structure Process where
  tz : Option Zone
  loaded : Bool

/-- `origin` is the call that has put `TZ` where it is; it goes with the value. -/
structure State (ι : Type) where
  tz : Option Zone
  origin : Option ι
  loaded : Option (Option Zone)
  holder : Mutex → Option ι
  phase : ι → Phase
  oldtz : ι → Option Zone × Option ι
  seen : ι → List (Option Zone)

section

variable {ι : Type} [DecidableEq ι] (calls : ι → Call) (p : Process)

def start : State ι where
  tz := p.tz
  origin := none
  loaded := if p.loaded then some p.tz else none
  holder := fun _ => none
  phase := fun _ => .start
  oldtz := fun _ => (none, none)
  seen := fun _ => []

namespace State

def goTo (s : State ι) (i : ι) (phase : Phase) : State ι :=
  { s with phase := Function.update s.phase i phase }

/-- The zone has an effect on the call. -/
def see (s : State ι) (i : ι) (zone : Option Zone) : State ι :=
  { s with seen := Function.update s.seen i (s.seen i ++ [zone]) }

def lock (s : State ι) (i : ι) (mutex : Mutex) : State ι :=
  { s with holder := Function.update s.holder mutex (some i) }

def unlock (s : State ι) (mutex : Mutex) : State ι :=
  { s with holder := Function.update s.holder mutex none }

def getenv (s : State ι) (i : ι) : State ι :=
  { s with oldtz := Function.update s.oldtz i (s.tz, s.origin) }

def setenv (s : State ι) (i : ι) (zone : Zone) : State ι :=
  { s with tz := some zone, origin := some i }

/-- `setenv` of the old value, or `unsetenv` if there was none. -/
def restore (s : State ι) (i : ι) : State ι :=
  { s with tz := (s.oldtz i).1, origin := (s.oldtz i).2 }

def tzset (s : State ι) (i : ι) : State ι := see { s with loaded := some s.tz } i s.tz

def convert (s : State ι) (i : ι) (call : Call) : State ι :=
  if ¬call.readsZone then s
  else if call.loadsZone then tzset s i
  else
    let zone := s.loaded.getD s.tz
    see { s with loaded := some zone } i zone

end State

/-- The next step of a call.  A conversion that fails throws, and the clean-up takes the
same steps then. -/
def step (s : State ι) (i : ι) : Option (State ι) :=
  match (calls i).zone with
  | none =>
      match s.phase i with
      | .start => some ((s.convert i (calls i)).goTo i .finished)
      | _ => none
  | some zone =>
      match s.phase i with
      | .start =>
          if s.holder (calls i).mutex = none then
            some ((s.lock i (calls i).mutex).goTo i .locked)
          else none
      | .locked => some ((s.getenv i).goTo i .saved)
      | .saved => some ((s.setenv i zone).goTo i .set)
      | .set => some ((s.tzset i).goTo i .loaded)
      | .loaded => some ((s.convert i (calls i)).goTo i .converted)
      | .converted => some ((s.restore i).goTo i .restored)
      | .restored => some ((s.tzset i).goTo i .reloaded)
      | .reloaded => some ((s.unlock (calls i).mutex).goTo i .finished)
      | .finished => none

/-- The next step of the call is `localtime_r` or `timelocal`. -/
def Converting (s : State ι) (i : ι) : Prop :=
  (calls i).readsZone ∧ s.phase i = if (calls i).zone.isSome then .loaded else .start

/-- However the calls are interleaved, no call converts while `TZ` is the zone of another,
and what a call makes of the zones it has seen is what it makes of them when it is run
alone. -/
structure Isolated {R : Type} (answer : ι → List (Option Zone) → R) : Prop where
  own : ∀ s, Interleaves (step calls) (start p) s → ∀ i, Converting calls s i →
    ∀ k, s.origin = some k → k = i
  alone : ∀ s, Interleaves (step calls) (start p) s → ∀ i, s.phase i = .finished →
    ∃ n s', runSchedule (step calls) (List.replicate n i) (start p) = some s' ∧
      s'.phase i = .finished ∧ answer i (s.seen i) = answer i (s'.seen i)

/-- Where a call has a zone, every other one has a zone too, and takes the same mutex, or
does not read any. -/
def Compatible : Prop :=
  ∀ i j, i ≠ j → (calls j).zone.isSome → (calls i).readsZone →
    (calls i).zone.isSome ∧ (calls i).mutex = (calls j).mutex

/-! ## The invariant -/

/-- What a call sees when nothing disturbs it. -/
def whole (i : ι) : List (Option Zone) :=
  match (calls i).zone with
  | some zone => [some zone, some zone, p.tz]
  | none => if (calls i).readsZone then [p.tz] else []

/-- `TZ` is the one of the process. -/
structure AtRest (s : State ι) : Prop where
  tz : s.tz = p.tz
  origin : s.origin = none
  loaded : s.loaded.getD p.tz = p.tz

/-- The call has not begun, or is over. -/
def Outside (s : State ι) (i : ι) : Prop :=
  s.phase i = .start ∧ s.seen i = [] ∨ s.phase i = .finished ∧ s.seen i = whole calls p i

/-- The call holds its mutex. -/
inductive Inside (s : State ι) (i : ι) (zone : Zone) : Phase → Prop where
  | locked (hrest : AtRest p s) (hseen : s.seen i = []) : Inside s i zone .locked
  | saved (hrest : AtRest p s) (hold : s.oldtz i = (p.tz, none)) (hseen : s.seen i = []) :
      Inside s i zone .saved
  | set (htz : s.tz = some zone) (horigin : s.origin = some i) (hold : s.oldtz i = (p.tz, none))
      (hseen : s.seen i = []) : Inside s i zone .set
  | loaded (htz : s.tz = some zone) (horigin : s.origin = some i)
      (hloaded : s.loaded = some (some zone)) (hold : s.oldtz i = (p.tz, none))
      (hseen : s.seen i = [some zone]) : Inside s i zone .loaded
  | converted (hold : s.oldtz i = (p.tz, none)) (hseen : s.seen i = [some zone, some zone]) :
      Inside s i zone .converted
  | restored (htz : s.tz = p.tz) (horigin : s.origin = none)
      (hseen : s.seen i = [some zone, some zone]) : Inside s i zone .restored
  | reloaded (hrest : AtRest p s) (hseen : s.seen i = [some zone, some zone, p.tz]) :
      Inside s i zone .reloaded

/-- At most one call is inside, and with it out of the way `TZ` is at rest. -/
inductive Inv (s : State ι) : Prop where
  | rest (hrest : AtRest p s) (houtside : ∀ k, Outside calls p s k) : Inv s
  | inside (i : ι) (zone : Zone) (hzone : (calls i).zone = some zone)
      (hheld : s.holder (calls i).mutex = some i) (hinside : Inside p s i zone (s.phase i))
      (houtside : ∀ k ≠ i, Outside calls p s k) : Inv s

variable {calls p} {s : State ι} {i : ι}

omit [DecidableEq ι] in
theorem inv_start : Inv calls p (start p) := by
  refine Inv.rest ⟨rfl, rfl, ?_⟩ fun k => Or.inl ⟨rfl, rfl⟩
  unfold start
  cases p.loaded <;> rfl

omit [DecidableEq ι] in
/-- Whether a call is outside shows in its own phase and in what it has seen. -/
theorem Outside.congr {s' : State ι} (hphase : s'.phase i = s.phase i)
    (hseen : s'.seen i = s.seen i) (h : Outside calls p s i) : Outside calls p s' i := by
  unfold Outside
  rw [hphase, hseen]
  exact h

theorem convert_frame (s : State ι) (i : ι) (call : Call) :
    (s.convert i call).phase = s.phase ∧ (s.convert i call).holder = s.holder ∧
      (s.convert i call).oldtz = s.oldtz := by
  unfold State.convert
  split
  · exact ⟨rfl, rfl, rfl⟩
  · split
    · exact ⟨rfl, rfl, rfl⟩
    · exact ⟨rfl, rfl, rfl⟩

theorem convert_seen_of_ne {k : ι} (s : State ι) (call : Call) (hk : k ≠ i) :
    (s.convert i call).seen k = s.seen k := by
  unfold State.convert
  split
  · rfl
  · split
    · exact Function.update_of_ne hk ..
    · exact Function.update_of_ne hk ..

theorem readsZone_of_zone {call : Call} {zone : Zone} (h : call.zone = some zone) :
    call.readsZone = true := by
  cases call with
  | tmToTime tzone => rfl
  | timeToTm tzone => rfl
  | tzTimeR tzone =>
      obtain rfl : tzone = some zone := h
      rfl

/-- Where `TZ` has been loaded, both kinds of conversion see it. -/
theorem convert_seen {call : Call} {zone : Zone} (hreads : call.readsZone = true)
    (htz : s.tz = some zone) (hloaded : s.loaded = some (some zone)) :
    (s.convert i call).seen = Function.update s.seen i (s.seen i ++ [some zone]) := by
  unfold State.convert
  rw [if_neg (not_not.mpr hreads)]
  split
  · rw [State.tzset, htz]
    rfl
  · rw [hloaded]
    rfl

/-- A call without a zone converts in the zone of the process. -/
theorem convert_at_rest (hzone : (calls i).zone = none) (hrest : AtRest p s)
    (hseen : s.seen i = []) :
    AtRest p (s.convert i (calls i)) ∧ (s.convert i (calls i)).seen i = whole calls p i := by
  unfold whole
  rw [hzone]
  unfold State.convert
  dsimp only
  by_cases hreads : (calls i).readsZone = true
  · rw [if_neg (not_not.mpr hreads), if_pos hreads]
    split
    · refine ⟨⟨hrest.tz, hrest.origin, ?_⟩, ?_⟩
      · exact hrest.tz
      · exact (Function.update_self ..).trans (by rw [hseen, hrest.tz]; rfl)
    · have hloaded : s.loaded.getD s.tz = p.tz := by rw [hrest.tz, hrest.loaded]
      rw [hloaded]
      refine ⟨⟨hrest.tz, hrest.origin, rfl⟩, ?_⟩
      exact (Function.update_self ..).trans (by rw [hseen]; rfl)
  · rw [if_pos hreads, if_neg hreads]
    exact ⟨hrest, hseen⟩

omit [DecidableEq ι] in
/-- What is known of the call inside is about the variables. -/
theorem Inside.congr {s' : State ι} {zone : Zone} {phase : Phase} (h : Inside p s i zone phase)
    (htz : s'.tz = s.tz) (horigin : s'.origin = s.origin) (hloaded : s'.loaded = s.loaded)
    (hold : s'.oldtz i = s.oldtz i) (hseen : s'.seen i = s.seen i) : Inside p s' i zone phase := by
  have hrest : AtRest p s → AtRest p s' := by
    rintro ⟨h₁, h₂, h₃⟩
    rw [← htz] at h₁
    rw [← horigin] at h₂
    rw [← hloaded] at h₃
    exact ⟨h₁, h₂, h₃⟩
  cases h with
  | locked h₁ h₂ => exact .locked (hrest h₁) (hseen.trans h₂)
  | saved h₁ h₂ h₃ => exact .saved (hrest h₁) (hold.trans h₂) (hseen.trans h₃)
  | set h₁ h₂ h₃ h₄ =>
      exact .set (htz.trans h₁) (horigin.trans h₂) (hold.trans h₃) (hseen.trans h₄)
  | loaded h₁ h₂ h₃ h₄ h₅ =>
      exact .loaded (htz.trans h₁) (horigin.trans h₂) (hloaded.trans h₃) (hold.trans h₄)
        (hseen.trans h₅)
  | converted h₁ h₂ => exact .converted (hold.trans h₁) (hseen.trans h₂)
  | restored h₁ h₂ h₃ => exact .restored (htz.trans h₁) (horigin.trans h₂) (hseen.trans h₃)
  | reloaded h₁ h₂ => exact .reloaded (hrest h₁) (hseen.trans h₂)

omit [DecidableEq ι] in
/-- The calls that do not step stay outside. -/
theorem outside_of_ne {s' : State ι} (hphase : ∀ k ≠ i, s'.phase k = s.phase k)
    (hseen : ∀ k ≠ i, s'.seen k = s.seen k) (houtside : ∀ k ≠ i, Outside calls p s k) :
    ∀ k ≠ i, Outside calls p s' k := by
  intro k hk
  exact (houtside k hk).congr (hphase k hk) (hseen k hk)

/-- The call inside goes on to its next phase. -/
theorem inv_goTo {zone : Zone} {phase : Phase} (hzone : (calls i).zone = some zone)
    (hheld : s.holder (calls i).mutex = some i) (hinside : Inside p s i zone phase)
    (houtside : ∀ k ≠ i, Outside calls p s k) : Inv calls p (s.goTo i phase) := by
  refine Inv.inside i zone hzone hheld ?_
    (outside_of_ne (fun k hk => Function.update_of_ne hk ..) (fun _ _ => rfl) houtside)
  have hnow : (s.goTo i phase).phase i = phase := Function.update_self ..
  rw [hnow]
  exact hinside.congr rfl rfl rfl rfl rfl

/-- The call that holds its mutex takes a step. -/
theorem inv_step_inside {zone : Zone} {s' : State ι} (hzone : (calls i).zone = some zone)
    (hheld : s.holder (calls i).mutex = some i) (hinside : Inside p s i zone (s.phase i))
    (houtside : ∀ k ≠ i, Outside calls p s k) (h : step calls s i = some s') : Inv calls p s' := by
  have hreads : (calls i).readsZone = true := readsZone_of_zone hzone
  have htzset : ∀ k ≠ i, Outside calls p (s.tzset i) k :=
    outside_of_ne (s := s) (fun _ _ => rfl) (fun k hk => Function.update_of_ne hk ..) houtside
  unfold step at h
  rw [hzone] at h
  dsimp only at h
  generalize hphase : s.phase i = phase at h hinside
  cases hinside with
  | locked hrest hseen =>
      obtain rfl := Option.some.inj h
      refine inv_goTo hzone hheld (Inside.saved ⟨hrest.tz, hrest.origin, hrest.loaded⟩ ?_ hseen)
        houtside
      exact (Function.update_self ..).trans (by rw [hrest.tz, hrest.origin])
  | saved hrest hold hseen =>
      obtain rfl := Option.some.inj h
      exact inv_goTo hzone hheld (Inside.set rfl rfl hold hseen) houtside
  | set htz horigin hold hseen =>
      obtain rfl := Option.some.inj h
      refine inv_goTo hzone hheld (Inside.loaded htz horigin (congrArg some htz) hold ?_) htzset
      exact (Function.update_self ..).trans (by rw [hseen, htz]; rfl)
  | loaded htz horigin hloaded hold hseen =>
      obtain rfl := Option.some.inj h
      obtain ⟨hphase', hholder, holdtz⟩ := convert_frame s i (calls i)
      have hseen' : (s.convert i (calls i)).seen i = [some zone, some zone] := by
        rw [convert_seen hreads htz hloaded, hseen]
        exact Function.update_self ..
      refine inv_goTo hzone (hholder ▸ hheld)
        (Inside.converted ((congrFun holdtz i).trans hold) hseen') ?_
      exact outside_of_ne (fun k _ => congrFun hphase' k)
        (fun k hk => convert_seen_of_ne s (calls i) hk) houtside
  | converted hold hseen =>
      obtain rfl := Option.some.inj h
      exact inv_goTo hzone hheld
        (Inside.restored (congrArg Prod.fst hold) (congrArg Prod.snd hold) hseen) houtside
  | restored htz horigin hseen =>
      obtain rfl := Option.some.inj h
      refine inv_goTo hzone hheld (Inside.reloaded ⟨htz, horigin, htz⟩ ?_) htzset
      exact (Function.update_self ..).trans (by rw [hseen, htz]; rfl)
  | reloaded hrest hseen =>
      obtain rfl := Option.some.inj h
      -- the mutex is free again, so the call is outside like all the others
      refine Inv.rest ⟨hrest.tz, hrest.origin, hrest.loaded⟩ ?_
      intro k
      by_cases hk : k = i
      · subst hk
        refine Or.inr ⟨Function.update_self .., hseen.trans ?_⟩
        rw [whole, hzone]
      · exact (houtside k hk).congr (Function.update_of_ne hk ..) rfl

/-- A call without a zone is over in one step. -/
theorem step_unguarded {s' : State ι} (hzone : (calls i).zone = none)
    (h : step calls s i = some s') :
    s.phase i = .start ∧ s' = (s.convert i (calls i)).goTo i .finished := by
  unfold step at h
  rw [hzone] at h
  dsimp only at h
  split at h
  · rename_i hphase
    exact ⟨hphase, (Option.some.inj h).symm⟩
  · cases h

omit [DecidableEq ι] in
theorem Outside.seen_of_start (h : Outside calls p s i) (hphase : s.phase i = .start) :
    s.seen i = [] := by
  rcases h with ⟨_, hseen⟩ | ⟨hfinished, _⟩
  · exact hseen
  · rw [hphase] at hfinished
    cases hfinished

/-- A call with a zone can only begin from outside. -/
theorem step_outside {zone : Zone} {s' : State ι} (hzone : (calls i).zone = some zone)
    (houtside : Outside calls p s i) (h : step calls s i = some s') :
    s.phase i = .start ∧ s.holder (calls i).mutex = none ∧
      s' = (s.lock i (calls i).mutex).goTo i .locked := by
  unfold step at h
  rw [hzone] at h
  dsimp only at h
  rcases houtside with ⟨hphase, _⟩ | ⟨hphase, _⟩
  · rw [hphase] at h
    dsimp only at h
    split at h
    · rename_i hfree
      exact ⟨hphase, hfree, (Option.some.inj h).symm⟩
    · cases h
  · rw [hphase] at h
    cases h

/-- While no call is inside, one without a zone is over at once, and one with a zone takes
its mutex. -/
theorem inv_step_at_rest {s' : State ι} (hrest : AtRest p s) (houtside : ∀ k, Outside calls p s k)
    (h : step calls s i = some s') : Inv calls p s' := by
  cases hzone : (calls i).zone with
  | none =>
      obtain ⟨hphase, rfl⟩ := step_unguarded hzone h
      obtain ⟨hphase', _, _⟩ := convert_frame s i (calls i)
      obtain ⟨⟨htz, horigin, hloaded⟩, hseen⟩ := convert_at_rest hzone hrest
        ((houtside i).seen_of_start hphase)
      refine Inv.rest ⟨htz, horigin, hloaded⟩ ?_
      intro k
      by_cases hk : k = i
      · subst hk
        exact Or.inr ⟨Function.update_self .., hseen⟩
      · refine (houtside k).congr ?_ (convert_seen_of_ne s (calls i) hk)
        exact (Function.update_of_ne hk ..).trans (congrFun hphase' k)
  | some zone =>
      obtain ⟨hphase, _, rfl⟩ := step_outside hzone (houtside i) h
      exact inv_goTo hzone (Function.update_self ..)
        (Inside.locked ⟨hrest.tz, hrest.origin, hrest.loaded⟩
          ((houtside i).seen_of_start hphase)) fun k _ => houtside k

/-- While `j` is inside, only a call that reads no zone can take a step beside it. -/
theorem inv_step_beside (hcompatible : Compatible calls) {j : ι} {zone : Zone} {s' : State ι}
    (hzone : (calls j).zone = some zone) (hheld : s.holder (calls j).mutex = some j)
    (hinside : Inside p s j zone (s.phase j)) (houtside : ∀ k ≠ j, Outside calls p s k)
    (hij : i ≠ j) (h : step calls s i = some s') : Inv calls p s' := by
  have hother : ∀ k ≠ i, (s.goTo i .finished).phase k = s.phase k :=
    fun k hk => Function.update_of_ne hk ..
  have hsome : (calls j).zone.isSome = true := by
    rw [hzone]
    rfl
  cases hzone' : (calls i).zone with
  | none =>
      have hreads : ¬(calls i).readsZone = true := by
        intro hreads
        have hnone := (hcompatible i j hij hsome hreads).1
        rw [hzone'] at hnone
        cases hnone
      obtain ⟨hphase, rfl⟩ := step_unguarded hzone' h
      have hnothing : s.convert i (calls i) = s := if_pos hreads
      rw [hnothing]
      refine Inv.inside j zone hzone hheld ?_ ?_
      · rw [hother j hij.symm]
        exact hinside.congr rfl rfl rfl rfl rfl
      · intro k hk
        by_cases hki : k = i
        · subst hki
          refine Or.inr ⟨Function.update_self .., ?_⟩
          have hnil : s.seen k = [] := (houtside k hk).seen_of_start hphase
          rw [whole, hzone', if_neg hreads]
          exact hnil
        · exact (houtside k hk).congr (hother k hki) rfl
  | some zone' =>
      have hreads : (calls i).readsZone = true := readsZone_of_zone hzone'
      have hmutex := (hcompatible i j hij hsome hreads).2
      obtain ⟨_, hfree, _⟩ := step_outside hzone' (houtside i hij) h
      rw [hmutex, hheld] at hfree
      cases hfree

/-! ## Runs -/

/-- Where the calls are compatible, every step keeps the invariant. -/
theorem inv_step (hcompatible : Compatible calls) (s : State ι) (i : ι) (s' : State ι)
    (hinv : Inv calls p s) (h : step calls s i = some s') : Inv calls p s' := by
  cases hinv with
  | rest hrest houtside => exact inv_step_at_rest hrest houtside h
  | inside j zone hzone hheld hinside houtside =>
      by_cases hij : i = j
      · subst hij
        exact inv_step_inside hzone hheld hinside houtside h
      · exact inv_step_beside hcompatible hzone hheld hinside houtside hij h

/-- A call with a zone comes as far as `setenv` if its mutex is free. -/
theorem run_to_set {zone : Zone} (hzone : (calls i).zone = some zone) (hphase : s.phase i = .start)
    (hfree : s.holder (calls i).mutex = none) :
    ∃ s', runSchedule (step calls) [i, i, i] s = some s' ∧ s'.phase i = .set ∧
      s'.origin = some i ∧ (∀ k ≠ i, s'.phase k = s.phase k) ∧
        ∀ mutex ≠ (calls i).mutex, s'.holder mutex = s.holder mutex := by
  let s₁ := (s.lock i (calls i).mutex).goTo i .locked
  let s₂ := (s₁.getenv i).goTo i .saved
  let s₃ := (s₂.setenv i zone).goTo i .set
  have hphase₁ : s₁.phase i = .locked := Function.update_self ..
  have hphase₂ : s₂.phase i = .saved := Function.update_self ..
  have h₁ : step calls s i = some s₁ := by
    simp only [step, hzone, hphase, hfree, if_true]
    rfl
  have h₂ : step calls s₁ i = some s₂ := by
    simp only [step, hzone, hphase₁]
    rfl
  have h₃ : step calls s₂ i = some s₃ := by
    simp only [step, hzone, hphase₂]
    rfl
  refine ⟨s₃, ?_, Function.update_self .., rfl, ?_, ?_⟩
  · rw [runSchedule_cons h₁, runSchedule_cons h₂, runSchedule_cons h₃]
    rfl
  · intro k hk
    dsimp only [s₃, s₂, s₁, State.goTo, State.setenv, State.getenv, State.lock]
    rw [Function.update_of_ne hk, Function.update_of_ne hk, Function.update_of_ne hk]
  · intro mutex hmutex
    exact Function.update_of_ne hmutex ..

theorem step_set {zone : Zone} (hzone : (calls i).zone = some zone) (hphase : s.phase i = .set) :
    step calls s i = some ((s.tzset i).goTo i .loaded) := by
  simp only [step, hzone, hphase]

/-- From `setenv` on nothing can stop a call. -/
theorem run_from_set {zone : Zone} (hzone : (calls i).zone = some zone)
    (hphase : s.phase i = .set) :
    ∃ s', runSchedule (step calls) [i, i, i, i, i] s = some s' ∧ s'.phase i = .finished := by
  let s₁ := (s.tzset i).goTo i .loaded
  let s₂ := (s₁.convert i (calls i)).goTo i .converted
  let s₃ := (s₂.restore i).goTo i .restored
  let s₄ := (s₃.tzset i).goTo i .reloaded
  let s₅ := (s₄.unlock (calls i).mutex).goTo i .finished
  have hphase₁ : s₁.phase i = .loaded := Function.update_self ..
  have hphase₂ : s₂.phase i = .converted := Function.update_self ..
  have hphase₃ : s₃.phase i = .restored := Function.update_self ..
  have hphase₄ : s₄.phase i = .reloaded := Function.update_self ..
  have h₁ : step calls s i = some s₁ := step_set hzone hphase
  have h₂ : step calls s₁ i = some s₂ := by
    simp only [step, hzone, hphase₁]
    rfl
  have h₃ : step calls s₂ i = some s₃ := by
    simp only [step, hzone, hphase₂]
    rfl
  have h₄ : step calls s₃ i = some s₄ := by
    simp only [step, hzone, hphase₃]
    rfl
  have h₅ : step calls s₄ i = some s₅ := by
    simp only [step, hzone, hphase₄]
    rfl
  refine ⟨s₅, ?_, Function.update_self ..⟩
  rw [runSchedule_cons h₁, runSchedule_cons h₂, runSchedule_cons h₃, runSchedule_cons h₄,
    runSchedule_cons h₅]
  rfl

/-- A call that is run alone comes to its end. -/
theorem run_alone (calls : ι → Call) (p : Process) (i : ι) :
    ∃ n s', runSchedule (step calls) (List.replicate n i) (start p) = some s' ∧
      s'.phase i = .finished := by
  cases hzone : (calls i).zone with
  | none =>
      have hstep : step calls (start p) i =
          some (((start p).convert i (calls i)).goTo i .finished) := by
        unfold step
        rw [hzone]
        rfl
      exact ⟨1, ((start p).convert i (calls i)).goTo i .finished, runSchedule_cons hstep,
        Function.update_self ..⟩
  | some zone =>
      obtain ⟨s₁, hrun₁, hphase₁, _⟩ := run_to_set (s := start p) hzone rfl rfl
      obtain ⟨s₂, hrun₂, hphase₂⟩ := run_from_set hzone hphase₁
      refine ⟨8, s₂, ?_, hphase₂⟩
      have hsplit : List.replicate 8 i = [i, i, i] ++ [i, i, i, i, i] := rfl
      rw [hsplit, runSchedule_append hrun₁]
      exact hrun₂

/-- A call that is over has seen all it should. -/
theorem Inv.seen_of_finished (h : Inv calls p s) (hphase : s.phase i = .finished) :
    s.seen i = whole calls p i := by
  have houtside : Outside calls p s i → s.seen i = whole calls p i := by
    rintro (⟨hstart, _⟩ | ⟨_, hseen⟩)
    · rw [hphase] at hstart
      cases hstart
    · exact hseen
  cases h with
  | rest hrest hout => exact houtside (hout i)
  | inside j zone hzone hheld hinside hout =>
      by_cases hij : i = j
      · subst hij
        rw [hphase] at hinside
        cases hinside
      · exact houtside (hout i hij)

/-- A call that is about to convert has set `TZ` itself, or no call has. -/
theorem Inv.origin_of_converting (hcompatible : Compatible calls) (h : Inv calls p s)
    (hconverting : Converting calls s i) {k : ι} (hk : s.origin = some k) : k = i := by
  obtain ⟨hreads, hphase⟩ := hconverting
  cases h with
  | rest hrest _ =>
      rw [hrest.origin] at hk
      cases hk
  | inside j zone hzone hheld hinside hout =>
      have hsome : (calls j).zone.isSome = true := by
        rw [hzone]
        rfl
      by_cases hij : i = j
      · subst hij
        rw [hphase, if_pos hsome] at hinside
        cases hinside with
        | loaded htz horigin _ _ _ =>
            rw [horigin] at hk
            exact (Option.some.inj hk).symm
      · -- a call with a zone is outside, so it is not about to convert
        have hguarded := (hcompatible i j hij hsome hreads).1
        rw [if_pos hguarded] at hphase
        rcases hout i hij with ⟨hstart, _⟩ | ⟨hfinished, _⟩
        · rw [hphase] at hstart
          cases hstart
        · rw [hphase] at hfinished
          cases hfinished

/-- **Conversions under a named zone.**  They are isolated from each other, whatever the
interleaving, if and only if the calls are compatible. -/
theorem isolated_iff_compatible {R : Type} (calls : ι → Call) (p : Process)
    (answer : ι → List (Option Zone) → R) : Isolated calls p answer ↔ Compatible calls := by
  constructor
  · intro h i j hij hsome hreads
    obtain ⟨zone', hzone'⟩ := Option.isSome_iff_exists.mp hsome
    by_contra hnot
    cases hzone : (calls i).zone with
    | none =>
        -- the call without a zone converts right after the other has set its own
        obtain ⟨s, hrun, _, horigin, hothers, _⟩ := run_to_set (s := start p) hzone' rfl rfl
        have hconverting : Converting calls s i := by
          refine ⟨hreads, ?_⟩
          rw [hothers i hij, hzone]
          rfl
        exact hij (h.own s ⟨_, hrun⟩ i hconverting j horigin).symm
    | some zone =>
        -- both hold a mutex, and the second to set its zone is the one that is seen
        have hsome' : (calls i).zone.isSome = true := by
          rw [hzone]
          rfl
        have hmutex : (calls j).mutex ≠ (calls i).mutex :=
          fun heq => hnot ⟨hsome', heq.symm⟩
        have hji : j ≠ i := fun heq => hij heq.symm
        obtain ⟨s₁, hrun₁, hphase₁, _, hothers₁, hfree₁⟩ :=
          run_to_set (s := start p) hzone rfl rfl
        have hstep := step_set hzone hphase₁
        have hstart : ((s₁.tzset i).goTo i .loaded).phase j = .start :=
          (Function.update_of_ne hji ..).trans (hothers₁ j hji)
        obtain ⟨s₂, hrun₂, _, horigin, hothers₂, _⟩ := run_to_set hzone' hstart (hfree₁ _ hmutex)
        have hrun : runSchedule (step calls) ([i, i, i] ++ i :: [j, j, j]) (start p) = some s₂ := by
          rw [runSchedule_append hrun₁, runSchedule_cons hstep, hrun₂]
        have hconverting : Converting calls s₂ i := by
          refine ⟨hreads, ?_⟩
          rw [hothers₂ i hij, if_pos hsome']
          exact Function.update_self ..
        exact hij (h.own s₂ ⟨_, hrun⟩ i hconverting j horigin).symm
  · intro hcompatible
    have hinv : ∀ s, Interleaves (step calls) (start p) s → Inv calls p s := by
      intro s hs
      exact hs.invariant inv_start (inv_step hcompatible)
    constructor
    · intro s hs i hconverting k hk
      exact (hinv s hs).origin_of_converting hcompatible hconverting hk
    · intro s hs i hphase
      obtain ⟨n, s', hrun, hphase'⟩ := run_alone calls p i
      refine ⟨n, s', hrun, hphase', ?_⟩
      rw [(hinv s hs).seen_of_finished hphase, (hinv s' ⟨_, hrun⟩).seen_of_finished hphase']

end

/-- `timeToTm` in New York, and in the zone of the process. -/
def newYorkAndOwn : Bool → Call
  | true => .timeToTm "America/New_York".toList
  | false => .timeToTm []

/-- The one in the zone of the process converts while `TZ` is New York, and has another
zone than alone. -/
theorem own_zone_sees_another :
    (∃ s, runSchedule (step newYorkAndOwn) [true, true, true, true] (start ⟨none, false⟩) = some s ∧
      Converting newYorkAndOwn s false ∧ s.origin = some true ∧
      ∃ s', step newYorkAndOwn s false = some s' ∧ s'.phase false = .finished ∧
        s'.seen false = [some "America/New_York".toList]) ∧
    ∃ s', runSchedule (step newYorkAndOwn) [false] (start ⟨none, false⟩) = some s' ∧
      s'.phase false = .finished ∧ s'.seen false = [none] :=
  ⟨⟨_, rfl, ⟨rfl, rfl⟩, rfl, _, rfl, rfl, rfl⟩, _, rfl, rfl, rfl⟩

end KssUtil.Time.ZoneEnvironment

import KssUtil.Options.ArgumentVectorRuns
import KssUtil.Options.WrittenLines

/-!
# Argument vectors that are parsed (argumentvector.cpp, programoptions.cpp)

A process with any number of argument vectors and of objects with options.  Vectors are changed,
and objects parse them, in any order; `getopt` keeps its variables all the time, with a pointer
into the string that it has read last.
-/

namespace KssUtil.Options

open KssUtil.Libc

/-- What C reads through `argc()` and `argv()`: nothing if that is null.  A pointer to none of
the strings cannot be read. -/
def ArgumentVector.words (av : ArgumentVector) : Option (List (List Char)) :=
  match av.argc, av.argv with
  | .ok _, .ok none => some []
  | .ok argc, .ok (some ps) => (ps.take argc.toNat).mapM fun p => (av.readAt p).map cstr
  | _, _ => none

structure Session (ι κ : Type) where
  objects : ArgumentObjects ι
  options : κ → Impl
  vars : Getopt

/-- What an object with options should answer. -/
abbrev Answers := List Char → Option (List Char)

namespace Session

variable {ι κ : Type} [DecidableEq ι] [DecidableEq κ]

/-- A call on a vector; an exception is caught. -/
def call (s : Session ι κ) (c : ArgumentCall ι) (place : List ℕ) : Session ι κ :=
  match s.objects.step c place with
  | .ok w => { s with objects := w }
  | .error _ => s

/-- `options.parse(av.argc(), av.argv(), ignoreUnknownOptions)`, and its outcome. -/
def parse (env : Env) (fuel : ℕ) (s : Session ι κ) (k : κ) (i : ι) (ignoreUnknownOptions : Bool) :
    Option (Session ι κ × Option (Except Exn Unit)) :=
  (s.objects i).words.map fun argv =>
    let r := Options.parse env fuel s.vars (s.options k) argv ignoreUnknownOptions
    ({ s with options := Function.update s.options k r.impl, vars := r.vars }, r.outcome)

/-- The strings are a command line for the options, with these items. -/
structure Writes (poptions : List ProgramOption) (items : List Item)
    (texts : List (List Char)) : Prop where
  words : ∃ programName tail, texts.map cstr = commandLine programName items tail ∧ Ends tail
  fits : ∀ i ∈ items, i.Fits poptions
  length : texts.length < 2 ^ 31

/-- `getopt` is in the middle of no string: its pointer is null, or behind it there is nothing. -/
def AtEnd (vars : Getopt) : Prop := vars.initialized = true → vars.nextchar = []

/-- What can happen in a process: with the strings that the vectors should have, and the answers
of the objects whose last parse was of a command line for their options, begun in the middle of
no string.  The other parses are of any vector and end in any way.  The memory that `getopt`
points to may be written over at any time. -/
inductive Reaches (env : Env) (tables : κ → List ProgramOption) :
    Session ι κ → (ι → List (List Char)) → (κ → Option Answers) → Prop where
  | start : Reaches env tables ⟨fun _ => .empty, fun k => ⟨tables k, fun _ => none, []⟩, {}⟩
      (fun _ => []) (fun _ => none)
  | call {s : Session ι κ} {texts : ι → List (List Char)} {answers : κ → Option Answers}
      (h : Reaches env tables s texts answers) (c : ArgumentCall ι) (place : List ℕ)
      (hplace : ArgumentObjects.CanPlace s.objects place c) :
      Reaches env tables (s.call c place) (ArgumentObjects.intended texts c) answers
  | overwritten {s : Session ι κ} {texts : ι → List (List Char)} {answers : κ → Option Answers}
      (h : Reaches env tables s texts answers) (nextchar : List Char)
      (hinit : s.vars.initialized = true) :
      Reaches env tables { s with vars := { s.vars with nextchar } } texts answers
  | parse {s s' : Session ι κ} {texts : ι → List (List Char)} {answers : κ → Option Answers}
      (h : Reaches env tables s texts answers) {k : κ} {i : ι} {items : List Item}
      (hwrites : Writes (tables k) items (texts i)) (hend : AtEnd s.vars) {fuel : ℕ}
      (hfuel : items.length < fuel) {ignoreUnknownOptions : Bool}
      {outcome : Option (Except Exn Unit)}
      (hparse : s.parse env fuel k i ignoreUnknownOptions = some (s', outcome)) :
      Reaches env tables s' texts (Function.update answers k
        (some (valueOf (tables k) (given env.posixlyCorrect items))))
  | parseAny {s s' : Session ι κ} {texts : ι → List (List Char)} {answers : κ → Option Answers}
      (h : Reaches env tables s texts answers) {k : κ} {i : ι} {fuel : ℕ}
      {ignoreUnknownOptions : Bool} {outcome : Except Exn Unit}
      (hparse : s.parse env fuel k i ignoreUnknownOptions = some (s', some outcome)) :
      Reaches env tables s' texts (Function.update answers k none)

/-! ## What is read through the pointers -/

section

variable {s : Session ι κ} {i : ι}

omit [DecidableEq ι] in
theorem words_eq {w : ArgumentObjects ι} (h : w.Sound) (hlt : (w i).texts.length < 2 ^ 31) :
    (w i).words = some ((w i).texts.map cstr) := by
  have hargc := ArgumentVector.argc_eq (h.mirrors i) hlt
  have hargv := ArgumentVector.argv_eq (h.mirrors i)
  unfold ArgumentVector.words
  rw [hargc, hargv]
  rcases Decidable.em ((w i).texts = []) with hnil | hne
  · rw [if_pos hnil, hnil]
    rfl
  · rw [if_neg hne]
    have hlen : (w i).addrs.length = (w i).texts.length := by
      rw [ArgumentVector.addrs, ArgumentVector.texts, List.length_map, List.length_map]
    have hall : ∀ strings : List StringAt, (∀ t ∈ strings, t ∈ (w i).argumentStrings) →
        ((strings.map StringAt.addr).mapM fun p => ((w i).readAt p).map cstr) =
          some ((strings.map StringAt.chars).map cstr) := by
      intro strings
      induction strings with
      | nil =>
          intro _
          rfl
      | cons t strings ih =>
          intro hmem
          obtain ⟨ht, hrest⟩ := List.forall_mem_cons.mp hmem
          rw [List.map_cons, List.mapM_cons, ArgumentVector.readAt_of_mem (h.nodup i) ht,
            ih hrest]
          rfl
    dsimp only
    rw [Int.toNat_natCast, ← hlen, List.take_length]
    exact hall _ fun _ ht => ht

end

/-! ## The variables of `getopt` -/

/-- The order is the one that the environment asks for. -/
def Orderly (posixlyCorrect : Bool) (vars : Getopt) : Prop :=
  vars.initialized = true → vars.order = if posixlyCorrect then .requireOrder else .permute

section

variable {env : Env} {vars : Getopt} {poptions : List ProgramOption}

theorem Orderly.settled (h : Orderly env.posixlyCorrect vars) (hend : AtEnd vars)
    (hplain : Plain poptions) : Settled env poptions vars := by
  refine ⟨hend, fun hinit => ?_⟩
  rw [hplain.order]
  exact h hinit

/-- A scan keeps the order. -/
theorem parseLoop_order (hplain : Plain poptions) (ignoreUnknownOptions : Bool) (fuel : ℕ)
    (scan : Scan) (h : Orderly env.posixlyCorrect scan.vars) :
    Orderly env.posixlyCorrect
      (parseLoop env poptions ignoreUnknownOptions fuel scan).1.vars := by
  induction fuel generalizing scan with
  | zero => exact h
  | succ fuel ih =>
      have hcalled : (callGetopt env poptions scan).2.vars.order =
          if env.posixlyCorrect then .requireOrder else .permute := by
        refine (getoptLongOnly_order env.posixlyCorrect).trans ?_
        unfold beginCall
        split
        · exact hplain.order env.posixlyCorrect
        · rename_i hkept
          have hinit : scan.vars.initialized = true := by
            by_contra hcontra
            exact hkept (Or.inr hcontra)
          exact h hinit
      have hhandled := handleOption_vars env poptions ignoreUnknownOptions
        (callGetopt env poptions scan).1 (callGetopt env poptions scan).2
      rw [parseLoop]
      dsimp only
      split
      · exact fun _ => hcalled
      · split
        · apply ih
          rw [hhandled]
          exact fun _ => hcalled
        · rw [hhandled]
          exact fun _ => hcalled

/-- So does a parse. -/
theorem Orderly.parse (h : Orderly env.posixlyCorrect vars) {impl : Impl}
    (hplain : Plain impl.poptions) (fuel : ℕ) (argv : List (List Char))
    (ignoreUnknownOptions : Bool) :
    Orderly env.posixlyCorrect
      (Options.parse env fuel vars impl argv ignoreUnknownOptions).vars := by
  cases argv with
  | nil => exact h
  | cons programName args => exact parseLoop_order hplain ignoreUnknownOptions fuel _ h

end

/-! ## The invariant -/

theorem poptions_parse (env : Env) (fuel : ℕ) (vars : Getopt) (impl : Impl)
    (argv : List (List Char)) (ignoreUnknownOptions : Bool) :
    (Options.parse env fuel vars impl argv ignoreUnknownOptions).impl.poptions =
      impl.poptions := by
  cases argv <;> rfl

/-- The process is as it should be: each vector has its strings and points to them, `getopt` has
kept the order of the elements, and each object answers by the last command line that it has
parsed. -/
structure Coherent (env : Env) (tables : κ → List ProgramOption) (s : Session ι κ)
    (texts : ι → List (List Char)) (answers : κ → Option Answers) : Prop where
  objects : s.objects.Sound
  contents : ArgumentObjects.contents s.objects = texts
  options : ∀ k, (s.options k).poptions = tables k
  reached : Reached s.vars
  orderly : Orderly env.posixlyCorrect s.vars
  holds : ∀ k a, answers k = some a → Holds (s.options k) a

section

variable {env : Env} {tables : κ → List ProgramOption} {s s' : Session ι κ}
  {texts : ι → List (List Char)} {answers : κ → Option Answers}

omit [DecidableEq ι] [DecidableEq κ] in
theorem coherent_start : Coherent env tables
    (⟨fun _ => .empty, fun k => ⟨tables k, fun _ => none, []⟩, {}⟩ : Session ι κ)
    (fun _ => []) (fun _ => none) where
  objects := ArgumentObjects.sound_empty
  contents := ArgumentObjects.contents_empty
  options _ := rfl
  reached := .start
  orderly hinit := absurd hinit Bool.false_ne_true
  holds _ _ h := absurd h (Option.some_ne_none _).symm

omit [DecidableEq κ] in
theorem Coherent.call (h : Coherent env tables s texts answers) (c : ArgumentCall ι)
    {place : List ℕ} (hplace : ArgumentObjects.CanPlace s.objects place c) :
    Coherent env tables (s.call c place) (ArgumentObjects.intended texts c) answers := by
  unfold Session.call
  rcases h.objects.step c hplace with ⟨w', hstep, hsound, hcontents⟩ | ⟨hstep, hsame⟩
  · rw [hstep]
    refine ⟨hsound, ?_, h.options, h.reached, h.orderly, h.holds⟩
    rw [← h.contents]
    exact hcontents
  · rw [hstep]
    refine ⟨h.objects, ?_, h.options, h.reached, h.orderly, h.holds⟩
    rw [← h.contents]
    exact hsame.symm

omit [DecidableEq ι] [DecidableEq κ] in
theorem Coherent.overwritten (h : Coherent env tables s texts answers) (nextchar : List Char)
    (hinit : s.vars.initialized = true) :
    Coherent env tables { s with vars := { s.vars with nextchar } } texts answers where
  objects := h.objects
  contents := h.contents
  options := h.options
  reached := h.reached.overwritten nextchar hinit
  orderly := h.orderly
  holds := h.holds

omit [DecidableEq ι] in
/-- A parse that has ended is one of the words of the vector, and changes only the object. -/
theorem Coherent.parseAny (h : Coherent env tables s texts answers)
    (htables : ∀ k, Accepted (tables k) ∧ Plain (tables k)) {k : κ} {i : ι} {fuel : ℕ}
    {ignoreUnknownOptions : Bool} {outcome : Except Exn Unit}
    (hparse : s.parse env fuel k i ignoreUnknownOptions = some (s', some outcome)) :
    Coherent env tables s' texts (Function.update answers k none) ∧
      (outcome = .ok () → s'.vars.nextchar = []) := by
  obtain ⟨argv, -, hparsed⟩ := Option.map_eq_some_iff.mp hparse
  obtain ⟨rfl, houtcome⟩ := Prod.mk.inj hparsed
  have hended : (Options.parse env fuel s.vars (s.options k) argv
      ignoreUnknownOptions).outcome ≠ none := by
    rw [houtcome]
    exact Option.some_ne_none _
  have hplain := (htables k).2
  rw [← h.options k] at hplain
  refine ⟨⟨h.objects, h.contents, ?_, h.reached.parse env fuel _ _ ignoreUnknownOptions hended,
    h.orderly.parse hplain fuel argv ignoreUnknownOptions, ?_⟩, ?_⟩
  · intro k'
    dsimp only
    rcases Decidable.em (k' = k) with rfl | hne
    · rw [Function.update_self, poptions_parse]
      exact h.options k'
    · rw [Function.update_of_ne hne]
      exact h.options k'
  · intro k' a ha
    dsimp only
    rcases Decidable.em (k' = k) with rfl | hne
    · rw [Function.update_self] at ha
      cases ha
    · rw [Function.update_of_ne hne] at ha ⊢
      exact h.holds k' a ha
  · rintro rfl
    exact nextchar_of_parse_ok h.reached fuel _ argv houtcome

omit [DecidableEq ι] in
/-- A command line is read through the pointers, and parsed. -/
theorem Coherent.parse (h : Coherent env tables s texts answers)
    (htables : ∀ k, Accepted (tables k) ∧ Plain (tables k)) (k : κ) (i : ι) {items : List Item}
    (hwrites : Writes (tables k) items (texts i)) (hend : AtEnd s.vars) {fuel : ℕ}
    (hfuel : items.length < fuel) (ignoreUnknownOptions : Bool) :
    ∃ s', s.parse env fuel k i ignoreUnknownOptions = some (s', some (.ok ())) ∧
      Coherent env tables s' texts (Function.update answers k
        (some (valueOf (tables k) (given env.posixlyCorrect items)))) := by
  obtain ⟨⟨programName, tail, hwords, htail⟩, hfits, hlength⟩ := hwrites
  have htexts : (s.objects i).texts = texts i := congrFun h.contents i
  rw [← htexts] at hwords hlength
  have hread := words_eq h.objects hlength
  rw [hwords] at hread
  rw [← h.options k] at hfits
  obtain ⟨haccepted, hplain⟩ := htables k
  rw [← h.options k] at haccepted hplain
  obtain ⟨houtcome, hresults⟩ := parse_items haccepted hplain h.reached
    (h.orderly.settled hend hplain) hfits htail programName ignoreUnknownOptions hfuel
  let r := Options.parse env fuel s.vars (s.options k) (commandLine programName items tail)
    ignoreUnknownOptions
  have hparse : s.parse env fuel k i ignoreUnknownOptions =
      some (⟨s.objects, Function.update s.options k r.impl, r.vars⟩, some (.ok ())) := by
    rw [Session.parse, hread, ← houtcome]
    rfl
  obtain ⟨hafter, -⟩ := h.parseAny htables hparse
  refine ⟨_, hparse, hafter.objects, hafter.contents, hafter.options, hafter.reached,
    hafter.orderly, ?_⟩
  intro k' a ha
  rcases Decidable.em (k' = k) with rfl | hne
  · rw [Function.update_self] at ha
    dsimp only
    rw [Function.update_self, ← Option.some.inj ha, ← h.options k', ← hresults]
    exact holds_results _
  · rw [Function.update_of_ne hne] at ha
    refine hafter.holds k' a ?_
    rw [Function.update_of_ne hne]
    exact ha

/-- **Every process.**  The induction is on what has happened. -/
theorem Reaches.coherent (htables : ∀ k, Accepted (tables k) ∧ Plain (tables k))
    (h : Reaches env tables s texts answers) : Coherent env tables s texts answers := by
  induction h with
  | start => exact coherent_start
  | call h c place hplace ih => exact ih.call c hplace
  | overwritten h nextchar hinit ih => exact ih.overwritten nextchar hinit
  | parse h hwrites hend hfuel hparse ih =>
      obtain ⟨s', hparse', hcoherent⟩ := ih.parse htables _ _ hwrites hend hfuel _
      rw [hparse] at hparse'
      obtain rfl := (Prod.mk.inj (Option.some.inj hparse')).1
      exact hcoherent
  | parseAny h hparse ih => exact (ih.parseAny htables hparse).1

end

/-- **Argument vectors and options.**  Whatever vectors are made, changed and parsed in a
process, by whatever objects and in whatever order: each vector gives its own strings through its
pointers; each object keeps the answers of the last command line that it has parsed; a command
line for its options, in a vector, is parsed whenever `getopt` is in the middle of no string; and
so it is after every parse that has not thrown. -/
theorem session_answers {env : Env} {tables : κ → List ProgramOption}
    (htables : ∀ k, Accepted (tables k) ∧ Plain (tables k)) {s : Session ι κ}
    {texts : ι → List (List Char)} {answers : κ → Option Answers}
    (h : Reaches env tables s texts answers) :
    (∀ i, ArgumentObjects.Mirrored s.objects i (texts i)) ∧
      (∀ k a, answers k = some a → Holds (s.options k) a) ∧
      (∀ k i items, Writes (tables k) items (texts i) → AtEnd s.vars → ∀ fuel > items.length,
        ∀ ignoreUnknownOptions, ∃ s',
          s.parse env fuel k i ignoreUnknownOptions = some (s', some (.ok ()))) ∧
      ∀ fuel k i ignoreUnknownOptions s',
        s.parse env fuel k i ignoreUnknownOptions = some (s', some (.ok ())) → AtEnd s'.vars := by
  have hcoherent := h.coherent htables
  refine ⟨fun i => ?_, hcoherent.holds, ?_, ?_⟩
  · rw [← hcoherent.contents]
    exact hcoherent.objects.mirrored i
  · intro k i items hwrites hend fuel hfuel ignoreUnknownOptions
    obtain ⟨s', hparse, -⟩ := hcoherent.parse htables k i hwrites hend hfuel ignoreUnknownOptions
    exact ⟨s', hparse⟩
  · intro fuel k i ignoreUnknownOptions s' hparse _
    exact (hcoherent.parseAny htables hparse).2 rfl

/-- `prog -v in` in a vector, and a copy of it with `--out=a` behind it. -/
def verboseCalls : List (ArgumentCall Bool × List ℕ) :=
  [(.construct false ["prog".toList, "-v".toList, "in".toList], [16, 48, 80]),
   (.copy true false, [112, 144, 176]),
   (.add true "--out=a".toList, [208, 240, 272, 304])]

def verboseSession : Session Bool Unit :=
  verboseCalls.foldl (fun s c => s.call c.1 c.2)
    ⟨fun _ => .empty, fun _ => ⟨fourOptions.poptions, fun _ => none, []⟩, {}⟩

/-- `-v in --out=a` -/
def verboseItems : List Item :=
  [.option (verbose, []) .short, .operand "in".toList,
   .option (output, "a".toList) (.long true "out".toList)]

theorem reaches_verboseSession :
    Reaches ⟨false, false, false⟩ (fun _ : Unit => fourOptions.poptions) verboseSession
      (ArgumentObjects.intendedAfter verboseCalls fun _ => []) (fun _ => none) := by
  have hstart : Reaches ⟨false, false, false⟩ (fun _ : Unit => fourOptions.poptions)
      (⟨fun _ => .empty, fun _ => ⟨fourOptions.poptions, fun _ => none, []⟩, {}⟩ :
        Session Bool Unit) (fun _ => []) (fun _ => none) := .start
  have hconstruct := hstart.call (.construct false ["prog".toList, "-v".toList, "in".toList])
    [16, 48, 80] ⟨rfl, by decide, by decide, fun _ _ _ hp => absurd hp List.not_mem_nil⟩
  have hcopy := hconstruct.call (.copy true false) [112, 144, 176]
    ⟨rfl, by decide, by decide, by decide⟩
  exact hcopy.call (.add true "--out=a".toList) [208, 240, 272, 304]
    ⟨rfl, by decide, by decide, by decide⟩

theorem writes_verboseItems : Writes fourOptions.poptions verboseItems
    (ArgumentObjects.intendedAfter verboseCalls (fun _ => []) true) := by
  have hend : Ends [] := by
    intro w hw
    cases hw
  refine ⟨⟨"prog".toList, [], by decide, hend⟩, ?_, by decide⟩
  intro i hi
  simp only [verboseItems, List.mem_cons, List.not_mem_nil, or_false] at hi
  rcases hi with rfl | rfl | rfl
  · exact ⟨⟨by decide, by decide, by decide⟩, ⟨by decide, by decide⟩, by decide⟩
  · exact (by decide : isNonoption "in".toList = true)
  · refine ⟨⟨by decide, by decide, by decide⟩,
      ⟨by decide, by decide, by decide, Or.inr (by decide)⟩, ?_⟩
    intro hsingle
    cases hsingle

/-- The copy is parsed, and the object knows what is in it. -/
theorem session_answers_verbose :
    ∃ s', verboseSession.parse ⟨false, false, false⟩ 4 () true false = some (s', some (.ok ())) ∧
      Holds (s'.options ()) (valueOf fourOptions.poptions (given false verboseItems)) := by
  have htables : ∀ _ : Unit, Accepted fourOptions.poptions ∧ Plain fourOptions.poptions :=
    fun _ => ⟨accepted_fourOptions, plain_fourOptions⟩
  have hend : AtEnd verboseSession.vars := fun hinit => absurd hinit (by decide)
  obtain ⟨s', hparse⟩ := (session_answers htables reaches_verboseSession).2.2.1 () true
    verboseItems writes_verboseItems hend 4 (by decide) false
  have hreaches := reaches_verboseSession.parse (k := ()) writes_verboseItems hend (by decide)
    hparse
  exact ⟨s', hparse, (session_answers htables hreaches).2.1 () _ rfl⟩

end Session
end KssUtil.Options

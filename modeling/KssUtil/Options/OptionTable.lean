import KssUtil.Foundation.Program
import KssUtil.Options.ProgramOptions
import Mathlib.Data.List.Pairwise

/-!
# The option table (programoptions.hpp, programoptions.cpp)

Whatever is added, and whatever of it is refused, the names of the options are
different words, and their short options are different, too.
-/

namespace KssUtil.Options

open KssUtil.Foundation KssUtil.Libc

/-! ## Calls of `add` -/

/-- The option with its short option chosen. -/
def resolved (o : ProgramOption) : ProgramOption :=
  { o with
    shortOption := if o.shortOption = autoShortOption then o.name.headD nul else o.shortOption }

/-- A contract condition -/
def contract {σ : Type} (cond : Bool) : EStateM Exn σ PUnit :=
  if cond then pure ⟨⟩ else throw .aborted

/-- What is done with `_impl->poptions.back()` -/
def resolveBack (poptions : List ProgramOption) : List ProgramOption :=
  poptions.dropLast ++ (poptions.getLast?.map resolved).toList

/-- `add(Option&&)`, step by step -/
def addOption (o : ProgramOption) : EStateM Exn (List ProgramOption) PUnit := do
  let numOptions := (← get).length
  ofExcept (verifyOption (← get) o)
  modify (· ++ [o])
  modify resolveBack
  contract ((← get).length = numOptions + 1)

def addEach : List ProgramOption → EStateM Exn (List ProgramOption) PUnit
  | [] => pure ⟨⟩
  | o :: rest => do
      addOption o
      addEach rest

/-- `add(first, last)` -/
def addIterators (options : List ProgramOption) : EStateM Exn (List ProgramOption) PUnit := do
  ofExcept (parameters (!options.isEmpty))
  addEach options

/-- `add(initializer_list<Option>)` -/
def addList (options : List ProgramOption) : EStateM Exn (List ProgramOption) PUnit := do
  ofExcept (parameters (options.length > 0))
  addIterators options

inductive AddCall where
  | single (o : ProgramOption)
  | list (options : List ProgramOption)
  | range (options : List ProgramOption)

def AddCall.run : AddCall → EStateM Exn (List ProgramOption) PUnit
  | .single o => addOption o
  | .list options => addList options
  | .range options => addIterators options

/-- The table after the calls.  Exceptions are caught; a contract that fails ends the
program. -/
def afterCalls : List AddCall → List ProgramOption → List ProgramOption
  | [], poptions => poptions
  | call :: calls, poptions =>
      match call.run poptions with
      | .ok _ poptions' => afterCalls calls poptions'
      | .error e poptions' => if e = .aborted then poptions' else afterCalls calls poptions'

/-- The search of `getOptionFromCharacter` -/
def findShortOption (poptions : List ProgramOption) (ch : ℤ) : Option ProgramOption :=
  poptions.find? fun popt => (popt.shortOption.toNat : ℤ) = ch

/-! ## The invariant -/

/-- What `add` promises about a table. -/
structure OptionTable (poptions : List ProgramOption) : Prop extends WellNamed poptions where
  shorts : poptions.Pairwise fun o o' =>
    o.shortOption = o'.shortOption → o.shortOption = noShortOption
  chosen : ∀ o ∈ poptions, o.shortOption ≠ autoShortOption

section

variable {poptions : List ProgramOption} {o : ProgramOption}

theorem resolveBack_append (poptions : List ProgramOption) (o : ProgramOption) :
    resolveBack (poptions ++ [o]) = poptions ++ [resolved o] := by
  rw [resolveBack, List.dropLast_concat, List.getLast?_concat]
  rfl

/-- The steps of `add` make it all or nothing. -/
theorem addOption_eq (o : ProgramOption) (poptions : List ProgramOption) :
    addOption o poptions = match add poptions o with
      | .ok poptions' => .ok ⟨⟩ poptions'
      | .error e => .error e poptions := by
  unfold add
  cases hverify : verifyOption poptions o with
  | error e =>
      apply eq_error_of_runs
      simp [addOption, hverify]
  | ok _ =>
      apply eq_ok_of_returns
      simp [addOption, hverify, resolveBack_append, contract, resolved]

/-- The name is a word, and is new. -/
theorem verifyOption_shorts (h : verifyOption poptions o = .ok ⟨⟩) :
    ∀ opt ∈ poptions, sameShortOption o opt = false := by
  intro opt hopt
  rw [← Bool.not_eq_true]
  intro hsame
  unfold verifyOption at h
  split at h
  · cases h
  · rw [if_pos] at h
    · cases h
    · rw [List.any_eq_true]
      exact ⟨opt, hopt, by rw [hsame, Bool.or_true]⟩

theorem head_of_valid {name : List Char} (h : isValidArgumentName name = true) :
    isprint (name.headD nul) = true := by
  cases name with
  | nil => exact absurd h (by decide)
  | cons c cs =>
      rw [isValidArgumentName, Bool.and_eq_true, List.all_eq_true] at h
      have hc := h.2 c List.mem_cons_self
      rw [Bool.and_eq_true] at hc
      exact hc.2

/-- The option that is stored differs from the others, as the check of the unresolved option
has it. -/
theorem resolved_fresh (hverify : verifyOption poptions o = .ok ⟨⟩) {opt : ProgramOption}
    (hopt : opt ∈ poptions) (hshort : (resolved o).shortOption ≠ noShortOption) :
    opt.shortOption ≠ (resolved o).shortOption := by
  intro heq
  have hdiffers := verifyOption_shorts hverify opt hopt
  rw [sameShortOption, decide_eq_false_iff_not] at hdiffers
  apply hdiffers
  refine ⟨?_, heq.symm⟩
  rintro hno
  apply hshort
  rw [resolved]
  dsimp only
  rw [hno, if_neg (by decide)]

theorem resolved_chosen (hvalid : isValidArgumentName o.name = true) :
    (resolved o).shortOption ≠ autoShortOption := by
  rw [resolved]
  dsimp only
  split
  · intro heq
    have hprint := head_of_valid hvalid
    rw [heq] at hprint
    exact absurd hprint (by decide)
  · rename_i hne
    exact hne

/-- **One option.** -/
theorem OptionTable.add (h : OptionTable poptions) (hverify : verifyOption poptions o = .ok ⟨⟩) :
    OptionTable (poptions ++ [resolved o]) := by
  obtain ⟨hvalid, hfresh⟩ := verifyOption_ok hverify
  constructor
  · constructor
    · intro opt hopt
      rcases List.mem_append.mp hopt with hopt | hopt
      · exact h.valid opt hopt
      · rw [List.mem_singleton.mp hopt]
        exact hvalid
    · rw [List.map_append, List.map_singleton, List.nodup_append]
      refine ⟨h.nodup, List.nodup_singleton _, ?_⟩
      rintro n hn n' hn' rfl
      obtain ⟨opt, hopt, rfl⟩ := List.mem_map.mp hn
      exact hfresh opt hopt (List.mem_singleton.mp hn')
  · rw [List.pairwise_append]
    refine ⟨h.shorts, List.pairwise_singleton _ _, ?_⟩
    intro opt hopt opt' hopt' heq
    rw [List.mem_singleton.mp hopt'] at heq
    by_contra hno
    rw [heq] at hno
    exact resolved_fresh hverify hopt hno heq
  · intro opt hopt
    rcases List.mem_append.mp hopt with hopt | hopt
    · exact h.chosen opt hopt
    · rw [List.mem_singleton.mp hopt]
      exact resolved_chosen hvalid

theorem optionTable_nil : OptionTable [] :=
  ⟨⟨fun _ h => absurd h List.not_mem_nil, List.nodup_nil⟩, List.Pairwise.nil,
    fun _ h => absurd h List.not_mem_nil⟩

/-- The tables that calls of `add` build keep the invariant. -/
theorem Accepted.optionTable (h : Accepted poptions) : OptionTable poptions := by
  induction h with
  | nil => exact optionTable_nil
  | add h hadd ih =>
      rename_i poptions poptions' o
      unfold Options.add at hadd
      cases hverify : verifyOption poptions o with
      | error e =>
          rw [hverify] at hadd
          cases hadd
      | ok _ =>
          rw [hverify] at hadd
          rw [← Except.ok.inj hadd]
          exact ih.add hverify

theorem OptionTable.addOption (h : OptionTable poptions) (o : ProgramOption) :
    Runs (addOption o) poptions (fun _ poptions' => OptionTable poptions')
      fun _ poptions' => poptions' = poptions := by
  rw [Runs, addOption_eq]
  unfold Options.add
  cases hverify : verifyOption poptions o with
  | error e => exact rfl
  | ok _ => exact h.add hverify

theorem runs_parameters {σ : Type} {cond : Bool} {s : σ} {Q : PUnit → σ → Prop}
    {E : Exn → σ → Prop} (hQ : Q ⟨⟩ s) (hE : E .invalidArgument s) :
    Runs (ofExcept (parameters cond)) s Q E := by
  cases cond with
  | false => exact hE
  | true => exact hQ

theorem OptionTable.addEach (options : List ProgramOption) :
    ∀ {poptions : List ProgramOption}, OptionTable poptions →
      Runs (addEach options) poptions (fun _ poptions' => OptionTable poptions')
        fun _ poptions' => OptionTable poptions' := by
  induction options with
  | nil =>
      intro poptions h
      exact h
  | cons o options ih =>
      intro poptions h
      rw [Options.addEach]
      refine Runs.bind ((h.addOption o).mono (fun _ _ h => h) ?_) fun _ _ h => ih h
      rintro _ poptions' rfl
      exact h

/-- **One call.** -/
theorem OptionTable.call (h : OptionTable poptions) (call : AddCall) :
    Runs call.run poptions (fun _ poptions' => OptionTable poptions')
      fun _ poptions' => OptionTable poptions' := by
  have hiterators : ∀ options, Runs (addIterators options) poptions
      (fun _ poptions' => OptionTable poptions') fun _ poptions' => OptionTable poptions' := by
    intro options
    rw [addIterators, runs_bind]
    exact runs_parameters (OptionTable.addEach options h) h
  cases call with
  | single o =>
      refine (h.addOption o).mono (fun _ _ h => h) ?_
      rintro _ poptions' rfl
      exact h
  | list options =>
      rw [AddCall.run, addList, runs_bind]
      exact runs_parameters (hiterators options) h
  | range options => exact hiterators options

/-- **All calls.** -/
theorem OptionTable.afterCalls (calls : List AddCall) :
    ∀ {poptions : List ProgramOption}, OptionTable poptions →
      OptionTable (afterCalls calls poptions) := by
  induction calls with
  | nil =>
      intro poptions h
      exact h
  | cons call calls ih =>
      intro poptions h
      have hcall := h.call call
      rw [Runs] at hcall
      rw [Options.afterCalls]
      cases hrun : call.run poptions with
      | ok _ poptions' =>
          rw [hrun] at hcall
          exact ih hcall
      | error e poptions' =>
          rw [hrun] at hcall
          dsimp only
          split
          · exact hcall
          · exact ih hcall

/-! ## The search -/

/-- A short option belongs to one option. -/
theorem OptionTable.short_inj (h : OptionTable poptions) {o o' : ProgramOption}
    (ho : o ∈ poptions) (ho' : o' ∈ poptions) (heq : o.shortOption = o'.shortOption)
    (hshort : o.shortOption ≠ noShortOption) : o = o' := by
  have : Std.Symm fun o o' : ProgramOption =>
      o.shortOption = o'.shortOption → o.shortOption = noShortOption :=
    ⟨fun _ _ h heq => heq.trans (h heq.symm)⟩
  by_contra hne
  exact hshort (h.shorts.forall ho ho' hne heq)

/-- The search finds the option whose short option it is. -/
theorem OptionTable.findShortOption (h : OptionTable poptions) {o : ProgramOption}
    (ho : o ∈ poptions) (hshort : o.shortOption ≠ noShortOption) :
    findShortOption poptions o.shortOption.toNat = some o := by
  rw [Options.findShortOption]
  cases hfind : poptions.find? fun popt =>
      decide ((popt.shortOption.toNat : ℤ) = o.shortOption.toNat) with
  | none => exact absurd (decide_eq_true rfl) (List.find?_eq_none.mp hfind o ho)
  | some o' =>
      have hfound := List.find?_some (p := fun popt : ProgramOption =>
        decide ((popt.shortOption.toNat : ℤ) = o.shortOption.toNat)) hfind
      rw [decide_eq_true_eq, Nat.cast_inj] at hfound
      rw [h.short_inj ho (List.mem_of_find?_eq_some hfind) (Char.toNat_inj.mp hfound).symm hshort]

/-- Other characters than '?' and ':' get to the search. -/
theorem getOptionFromCharacter_short (env : Env) (idx : ℤ) (ignoreUnknownOptions : Bool) {c : Char}
    (hno : c ≠ noShortOption) (hunknown : c ≠ '?') (hmissing : c ≠ ':')
    (hfind : findShortOption poptions c.toNat = some o) :
    getOptionFromCharacter env c.toNat idx poptions ignoreUnknownOptions = .ok (some o) := by
  have hne : ∀ {d : Char}, c ≠ d → (c.toNat : ℤ) ≠ d.toNat := by
    intro d hcd heq
    exact hcd (Char.toNat_inj.mp (Nat.cast_inj.mp heq))
  have hzero : (c.toNat : ℤ) ≠ 0 := hne hno
  rw [getOptionFromCharacter, if_neg (hne hunknown), if_neg (hne hmissing), if_neg hzero]
  rw [findShortOption] at hfind
  rw [hfind]
  exact assertion_bind env.ndebug _

/-- **The invariant of the option table.**  After any calls of `add`, some of which may have
thrown, the names are different words and the short options are different and chosen; an
option that is refused leaves the table as it was; and a character is the short option of one
option at most, which the search finds. -/
theorem option_table_invariant (calls : List AddCall) :
    let poptions := afterCalls calls []
    (∀ o ∈ poptions, o.name ≠ [] ∧ ∀ c ∈ o.name, isprint c = true ∧ isspace c = false) ∧
    (poptions.map ProgramOption.name).Nodup ∧
    (poptions.Pairwise fun o o' =>
      o.shortOption ≠ noShortOption → o.shortOption ≠ o'.shortOption) ∧
    (∀ o ∈ poptions, o.shortOption ≠ autoShortOption) ∧
    (∀ o e poptions', (AddCall.single o).run poptions = .error e poptions' →
      poptions' = poptions) ∧
    ∀ c ≠ noShortOption, ∀ o ∈ poptions, o.shortOption = c →
      (∀ o' ∈ poptions, o'.shortOption = c → o' = o) ∧
      findShortOption poptions c.toNat = some o ∧
      ∀ env idx ignoreUnknownOptions, c ≠ '?' → c ≠ ':' →
        getOptionFromCharacter env c.toNat idx poptions ignoreUnknownOptions = .ok (some o) := by
  intro poptions
  have h : OptionTable poptions := OptionTable.afterCalls calls optionTable_nil
  refine ⟨?_, h.nodup, ?_, h.chosen, ?_, ?_⟩
  · intro o ho
    have hvalid := h.valid o ho
    rw [isValidArgumentName, Bool.and_eq_true, List.all_eq_true] at hvalid
    refine ⟨?_, ?_⟩
    · intro hnil
      rw [hnil] at hvalid
      exact absurd hvalid.1 (by decide)
    · intro c hc
      have hchar := hvalid.2 c hc
      rw [Bool.and_eq_true, Bool.not_eq_true'] at hchar
      exact ⟨hchar.2, hchar.1⟩
  · refine h.shorts.imp ?_
    intro o o' hshares hshort heq
    exact hshort (hshares heq)
  · intro o e poptions' hrun
    have hadd := h.addOption o
    rw [Runs, show addOption o poptions = .error e poptions' from hrun] at hadd
    exact hadd
  · rintro c hno o ho rfl
    have hfind := h.findShortOption ho hno
    refine ⟨?_, hfind, ?_⟩
    · intro o' ho' heq
      exact (h.short_inj ho ho' heq.symm hno).symm
    · intro env idx ignoreUnknownOptions hunknown hmissing
      exact getOptionFromCharacter_short env idx ignoreUnknownOptions hno hunknown hmissing hfind

end
end KssUtil.Options

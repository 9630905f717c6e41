import KssUtil.Options.OptionTable

/-!
# The two tables of options (programoptions.cpp)

`getopt` is given the options twice: a table of the long options, and a string of the
short ones, which it reads by position.
-/

namespace KssUtil.Options

open KssUtil.Libc

/-! ## Reading an option string -/

/-- A ':' in front of the option characters -/
def dropColon : List Char → List Char
  | ':' :: s => s
  | s => s

/-- Option characters, each with no mark or with ':' or '::' behind it. -/
def readOptions : List Char → List (Char × HasArg)
  | [] => []
  | c :: ':' :: ':' :: s => (c, .optionalArgument) :: readOptions s
  | c :: ':' :: s => (c, .requiredArgument) :: readOptions s
  | c :: s => (c, .noArgument) :: readOptions s

/-- An option string as `getopt` reads it: flags, and then options. -/
def readOptString (s : List Char) : List (Char × HasArg) := readOptions (dropColon (optionChars s))

/-- The printable short options of a list, each with what the long option of the same
option requires. -/
def printableShortOptions (poptions : List ProgramOption) : List (Char × HasArg) :=
  ((poptions.zip (createGetOptLongStructOptions poptions)).filter
    fun x => isprint x.1.shortOption).map fun x => (x.1.shortOption, x.2.hasArg)

/-- The string has the printable short options with the requirements of the table, and none
of them is a character that `getopt` returns for a failure. -/
def TablesAgree (poptions : List ProgramOption) : Prop :=
  (∀ x, x ∈ readOptString (createGetOptLongOptString poptions) ↔
    x ∈ printableShortOptions poptions) ∧
  ∀ x ∈ printableShortOptions poptions, x.1 ≠ '?' ∧ x.1 ≠ ':'

/-- The printable short options of a list -/
def printables (poptions : List ProgramOption) : List ProgramOption :=
  poptions.filter fun o => isprint o.shortOption

/-- No option with a printable short option has an optional argument, or one of the short
options ' ', ':' and '?'; and the first of the short options is not '+' or '-'. -/
structure Readable (poptions : List ProgramOption) : Prop where
  plain : ∀ o ∈ printables poptions, o.hasArg ≠ .optional ∧
    o.shortOption ≠ ' ' ∧ o.shortOption ≠ ':' ∧ o.shortOption ≠ '?'
  first : ∀ o ∈ (printables poptions).head?, o.shortOption ≠ '+' ∧ o.shortOption ≠ '-'

/-! ## What is written -/

section

variable {poptions : List ProgramOption} {o : ProgramOption}

/-- An option of the string -/
def written (o : ProgramOption) : List Char :=
  o.shortOption :: if o.hasArg = .none then [] else [':']

theorem isspace_iff {c : Char} (h : isprint c = true) : isspace c = true ↔ c = ' ' := by
  rw [isprint, decide_eq_true_eq] at h
  rw [isspace, decide_eq_true_eq, ← Char.toNat_inj]
  have hspace : ' '.toNat = 32 := rfl
  rw [hspace]
  omega

/-- The string has the printable options that are not spaces. -/
theorem createGetOptLongOptString_eq (poptions : List ProgramOption) :
    createGetOptLongOptString poptions =
      ((printables poptions).filter fun o => o.shortOption ≠ ' ').flatMap written := by
  rw [createGetOptLongOptString, printables, List.filter_filter]
  induction poptions with
  | nil => rfl
  | cons o poptions ih =>
      rw [List.flatMap_cons, ih, List.filter_cons]
      by_cases hprint : isprint o.shortOption = true
      · by_cases hspace : o.shortOption = ' '
        · simp [hspace, show isspace ' ' = true from rfl]
        · have hnospace : ¬ isspace o.shortOption = true := by
            rw [isspace_iff hprint]
            exact hspace
          cases hasArg : o.hasArg <;> simp [hprint, hspace, hnospace, written, hasArg]
      · simp [hprint]

theorem createGetOptLongOptString_of_ne_space
    (h : ∀ o ∈ printables poptions, o.shortOption ≠ ' ') :
    createGetOptLongOptString poptions = (printables poptions).flatMap written := by
  rw [createGetOptLongOptString_eq, List.filter_eq_self.mpr]
  intro o ho
  exact decide_eq_true (h o ho)

theorem printableShortOptions_eq (poptions : List ProgramOption) :
    printableShortOptions poptions =
      (printables poptions).map fun o => (o.shortOption, toHasArg o.hasArg) := by
  rw [printableShortOptions, printables, createGetOptLongStructOptions]
  induction poptions with
  | nil => rfl
  | cons o poptions ih =>
      rw [List.map_cons, List.zip_cons_cons, List.filter_cons, List.filter_cons]
      dsimp only
      split
      · rw [List.map_cons, List.map_cons, ih]
      · exact ih

/-- What a string of options is read as, if no short option is a ':'. -/
theorem readOptions_written : ∀ {os : List ProgramOption}, (∀ o ∈ os, o.shortOption ≠ ':') →
    readOptions (os.flatMap written) = os.map fun o =>
      (o.shortOption, if o.hasArg = .none then .noArgument else .requiredArgument) := by
  intro os
  induction os with
  | nil =>
      intro _
      rfl
  | cons o os ih =>
      intro h
      obtain ⟨ho, hos⟩ := List.forall_mem_cons.mp h
      -- the string of the others does not begin with a colon
      have hnext : ∀ s, os.flatMap written ≠ ':' :: s := by
        intro s heq
        cases os with
        | nil => cases heq
        | cons o' os =>
            rw [List.flatMap_cons, written, List.cons_append] at heq
            exact hos o' List.mem_cons_self (List.cons.inj heq).1
      rw [List.flatMap_cons, List.map_cons, ← ih hos, written]
      split
      · rw [List.cons_append, List.nil_append, readOptions]
        · intro s heq
          exact hnext _ heq
        · intro s heq
          exact hnext _ heq
      · rw [List.cons_append, List.cons_append, List.nil_append, readOptions]
        intro s heq
        exact hnext _ heq

/-- Nothing is read that is not in the string. -/
theorem mem_of_mem_readOptions {x : Char × HasArg} : ∀ {s : List Char}, x ∈ readOptions s →
    x.1 ∈ s := by
  intro s
  induction s using readOptions.induct with
  | case1 => exact fun h => absurd h List.not_mem_nil
  | case2 c s ih =>
      intro h
      rw [readOptions] at h
      rcases List.mem_cons.mp h with rfl | h
      · exact List.mem_cons_self
      · simp [ih h]
  | case3 c s hnext ih =>
      intro h
      rw [readOptions] at h
      · rcases List.mem_cons.mp h with rfl | h
        · exact List.mem_cons_self
        · simp [ih h]
      · exact hnext
  | case4 c s hnext hnext' ih =>
      intro h
      rw [readOptions] at h
      · rcases List.mem_cons.mp h with rfl | h
        · exact List.mem_cons_self
        · simp [ih h]
      · exact hnext
      · exact hnext'

theorem mem_printables : o ∈ printables poptions ↔
    o ∈ poptions ∧ isprint o.shortOption = true :=
  List.mem_filter

/-- What stands in a string of options. -/
theorem mem_flatMap_written {c : Char} {os : List ProgramOption} (h : c ∈ os.flatMap written) :
    c = ':' ∨ ∃ o ∈ os, o.shortOption = c := by
  obtain ⟨o, ho, hc⟩ := List.mem_flatMap.mp h
  rcases List.mem_cons.mp hc with rfl | hc
  · exact Or.inr ⟨o, ho, rfl⟩
  · split at hc
    · exact absurd hc List.not_mem_nil
    · exact Or.inl (List.mem_singleton.mp hc)

/-! ## When the tables agree -/

theorem mem_of_mem_dropColon {c : Char} {s : List Char} (h : c ∈ dropColon s) : c ∈ s := by
  unfold dropColon at h
  split at h
  · exact List.mem_cons_of_mem _ h
  · exact h

theorem mem_of_mem_optionChars {c : Char} {s : List Char} (h : c ∈ optionChars s) : c ∈ s := by
  unfold optionChars at h
  split at h
  · exact List.mem_cons_of_mem _ h
  · exact List.mem_cons_of_mem _ h
  · exact h

/-- A string without flags is read from its beginning. -/
theorem readOptString_of_head {s : List Char}
    (h : ∀ c ∈ s.head?, c ≠ '+' ∧ c ≠ '-' ∧ c ≠ ':') : readOptString s = readOptions s := by
  cases s with
  | nil => rfl
  | cons c s =>
      obtain ⟨hplus, hminus, hcolon⟩ := h c rfl
      have hchars : optionChars (c :: s) = c :: s := by
        unfold optionChars
        split
        · rename_i heq
          exact absurd (List.cons.inj heq).1 hminus
        · rename_i heq
          exact absurd (List.cons.inj heq).1 hplus
        · rfl
      have hcolons : dropColon (c :: s) = c :: s := by
        unfold dropColon
        split
        · rename_i heq
          exact absurd (List.cons.inj heq).1 hcolon
        · rfl
      rw [readOptString, hchars, hcolons]

/-- The string of a list without spaces, flags and colons. -/
theorem readOptString_createGetOptLongOptString
    (hplain : ∀ o ∈ printables poptions, o.shortOption ≠ ' ' ∧ o.shortOption ≠ ':')
    (hfirst : ∀ o ∈ (printables poptions).head?, o.shortOption ≠ '+' ∧ o.shortOption ≠ '-') :
    readOptString (createGetOptLongOptString poptions) = (printables poptions).map fun o =>
      (o.shortOption, if o.hasArg = .none then .noArgument else .requiredArgument) := by
  rw [createGetOptLongOptString_of_ne_space fun o ho => (hplain o ho).1, readOptString_of_head,
    readOptions_written fun o ho => (hplain o ho).2]
  intro c hc
  cases hos : printables poptions with
  | nil =>
      rw [hos] at hc
      cases hc
  | cons o os =>
      rw [hos] at hc hfirst hplain
      obtain rfl : o.shortOption = c := Option.some.inj hc
      exact ⟨(hfirst o rfl).1, (hfirst o rfl).2, (hplain o List.mem_cons_self).2⟩

theorem Readable.agree (h : Readable poptions) : TablesAgree poptions := by
  have hread := readOptString_createGetOptLongOptString
    (fun o ho => ⟨(h.plain o ho).2.1, (h.plain o ho).2.2.1⟩) h.first
  have hsame : readOptString (createGetOptLongOptString poptions) =
      printableShortOptions poptions := by
    rw [hread, printableShortOptions_eq]
    apply List.map_congr_left
    intro o ho
    have hopt := (h.plain o ho).1
    cases hasArg : o.hasArg with
    | none => rfl
    | required => rfl
    | optional => exact absurd hasArg hopt
  constructor
  · intro x
    rw [hsame]
  · intro x hx
    rw [printableShortOptions_eq] at hx
    obtain ⟨o, ho, rfl⟩ := List.mem_map.mp hx
    exact ⟨(h.plain o ho).2.2.2, (h.plain o ho).2.2.1⟩

/-- The short option of an option of the list is in the string, behind the flags. -/
theorem TablesAgree.mem_chars (h : TablesAgree poptions) (ho : o ∈ printables poptions) :
    o.shortOption ∈ optionChars (createGetOptLongOptString poptions) := by
  have hmem : (o.shortOption, toHasArg o.hasArg) ∈ printableShortOptions poptions := by
    rw [printableShortOptions_eq]
    exact List.mem_map.mpr ⟨o, ho, rfl⟩
  exact mem_of_mem_dropColon (mem_of_mem_readOptions ((h.1 _).mpr hmem))

theorem TablesAgree.not_reserved (h : TablesAgree poptions) (ho : o ∈ printables poptions) :
    o.shortOption ≠ '?' ∧ o.shortOption ≠ ':' := by
  refine h.2 (o.shortOption, toHasArg o.hasArg) ?_
  rw [printableShortOptions_eq]
  exact List.mem_map.mpr ⟨o, ho, rfl⟩

/-- A space is left out of the string. -/
theorem TablesAgree.ne_space (h : TablesAgree poptions) (ho : o ∈ printables poptions) :
    o.shortOption ≠ ' ' := by
  intro heq
  have hmem := mem_of_mem_optionChars (h.mem_chars ho)
  rw [createGetOptLongOptString_eq, heq] at hmem
  rcases mem_flatMap_written hmem with hcolon | ⟨o', ho', hblank⟩
  · exact absurd hcolon (by decide)
  · exact of_decide_eq_true (List.mem_filter.mp ho').2 hblank

/-- Behind the first option there is no other of its character. -/
theorem not_mem_rest (htable : OptionTable poptions) {os : List ProgramOption}
    (hos : printables poptions = o :: os) (hcolon : o.shortOption ≠ ':') :
    o.shortOption ∉ (written o).tail ++ os.flatMap written := by
  intro hmem
  rcases List.mem_append.mp hmem with hmem | hmem
  · rw [written, List.tail_cons] at hmem
    split at hmem
    · exact absurd hmem List.not_mem_nil
    · exact hcolon (List.mem_singleton.mp hmem)
  · rcases mem_flatMap_written hmem with heq | ⟨o', ho', hshort⟩
    · exact hcolon heq
    · have hpairs : (printables poptions).Pairwise fun o o' =>
          o.shortOption = o'.shortOption → o.shortOption = noShortOption :=
        htable.shorts.sublist List.filter_sublist
      have hprint : isprint o.shortOption = true := by
        have hmem : o ∈ printables poptions := by
          rw [hos]
          exact List.mem_cons_self
        exact (mem_printables.mp hmem).2
      rw [hos, List.pairwise_cons] at hpairs
      rw [hpairs.1 o' ho' hshort.symm] at hprint
      exact absurd hprint (by decide)

/-- A flag in front is no option. -/
theorem TablesAgree.first (h : TablesAgree poptions) (htable : OptionTable poptions)
    (ho : o ∈ (printables poptions).head?) : o.shortOption ≠ '+' ∧ o.shortOption ≠ '-' := by
  obtain ⟨os, hos⟩ : ∃ os, printables poptions = o :: os := List.head?_eq_some_iff.mp ho
  have hmem : o ∈ printables poptions := by
    rw [hos]
    exact List.mem_cons_self
  have hchars := h.mem_chars hmem
  rw [createGetOptLongOptString_of_ne_space fun o' ho' => h.ne_space ho', hos,
    List.flatMap_cons] at hchars
  have hrest := not_mem_rest htable hos (h.not_reserved hmem).2
  constructor
  · intro hplus
    apply hrest
    rw [written, hplus] at hchars ⊢
    exact hchars
  · intro hminus
    apply hrest
    rw [written, hminus] at hchars ⊢
    exact hchars

theorem TablesAgree.readable (h : TablesAgree poptions) (htable : OptionTable poptions) :
    Readable poptions := by
  refine ⟨?_, fun o ho => h.first htable ho⟩
  intro o ho
  refine ⟨?_, h.ne_space ho, (h.not_reserved ho).2, (h.not_reserved ho).1⟩
  intro hasArg
  have hread := readOptString_createGetOptLongOptString
    (fun o ho => ⟨h.ne_space ho, (h.not_reserved ho).2⟩) fun o ho => h.first htable ho
  have hmem : (o.shortOption, HasArg.optionalArgument) ∈ printableShortOptions poptions := by
    rw [printableShortOptions_eq]
    exact List.mem_map.mpr ⟨o, ho, by rw [hasArg]; rfl⟩
  rw [← h.1, hread] at hmem
  obtain ⟨o', -, heq⟩ := List.mem_map.mp hmem
  have hkind := (Prod.mk.inj heq).2
  split at hkind
  · cases hkind
  · cases hkind

/-- **When the two tables agree.**  They do just when no printable short option is that of an
option with an optional argument, or a space, ':' or '?', and the first is not '+' or '-'. -/
theorem tables_agree_iff (h : Accepted poptions) : TablesAgree poptions ↔ Readable poptions :=
  ⟨fun hagree => hagree.readable h.optionTable, Readable.agree⟩

end

/-! ## Two lists -/

/-- `--verbose` -/
def verbose : ProgramOption := { name := "verbose".toList, shortOption := 'v' }

/-- `--output=<value>` -/
def output : ProgramOption :=
  { name := "output".toList, shortOption := 'o', hasArg := .required }

/-- `--level[=<value>]` -/
def level : ProgramOption := { name := "level".toList, shortOption := 'l', hasArg := .optional }

theorem tables_agree_required : TablesAgree [verbose, output] := by
  have haccepted : Accepted [verbose, output] :=
    (Accepted.nil.add (o := verbose) rfl).add (o := output) rfl
  refine (tables_agree_iff haccepted).mpr ⟨?_, ?_⟩
  · decide
  · decide

/-- In the string the argument of `-l` is required. -/
theorem tables_disagree_optional : Accepted [level] ∧ ¬ TablesAgree [level] := by
  have haccepted : Accepted [level] := Accepted.nil.add (o := level) rfl
  refine ⟨haccepted, ?_⟩
  intro h
  have hplain := (h.readable haccepted.optionTable).plain level (by decide)
  exact hplain.1 rfl
end KssUtil.Options

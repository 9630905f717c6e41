import KssUtil.Libc.GetoptElements
import KssUtil.Libc.GetoptFindings
import KssUtil.Options.History
import KssUtil.Options.OptionString

/-!
# Command lines in any spelling

`getopt_long_only` takes an option by its name or the beginning of it, behind two dashes or
one, and by its short option, and the argument in the same word or in the next.
-/

namespace KssUtil.Options

open KssUtil.Foundation KssUtil.Libc

/-! ## Writing an option -/

/-- An option by its name, behind two dashes or one, or by its short option; with its argument
in the same word or in the next. -/
inductive Spelling where
  | long (double : Bool) (name : List Char)
  | longApart (double : Bool) (name : List Char)
  | short
  | shortJoined

def dashes (double : Bool) : List Char := if double then ['-', '-'] else ['-']

/-- What stands behind the name in its word. -/
def attached (value : List Char) : List Char := if value = [] then [] else '=' :: value

def Spelling.words (x : ProgramOption × List Char) : Spelling → List (List Char)
  | long double name => [dashes double ++ (name ++ attached x.2)]
  | longApart double name => [dashes double ++ name, x.2]
  | short => ['-', x.1.shortOption] :: if x.1.hasArg = .none then [] else [x.2]
  | shortJoined => ['-' :: x.1.shortOption :: x.2]

/-- The name, or a beginning of it that no other name has. -/
structure Abbreviates (poptions : List ProgramOption) (o : ProgramOption) (name : List Char) :
    Prop where
  ne_nil : name ≠ []
  clean : '=' ∉ name
  isPrefix : name <+: o.name
  unique : name = o.name ∨ ∀ o' ∈ poptions, name <+: o'.name → o' = o

/-- A name that is not taken for anything else behind its dashes. -/
def Dashed (double : Bool) (name : List Char) : Prop :=
  double = false → name.head? ≠ some '-' ∧ 2 ≤ name.length

/-- The short option is one that `getopt` is told of. -/
def HasShort (o : ProgramOption) : Prop := isprint o.shortOption = true ∧ o.shortOption ≠ ' '

/-- The spelling is one of the option. -/
def Spelling.Fits (poptions : List ProgramOption) (x : ProgramOption × List Char) :
    Spelling → Prop
  | long double name => Abbreviates poptions x.1 name ∧ Dashed double name
  | longApart double name =>
      Abbreviates poptions x.1 name ∧ Dashed double name ∧ x.1.hasArg = .required
  | short => HasShort x.1 ∧ (x.1.hasArg ≠ .none → x.2 ≠ [])
  | shortJoined => HasShort x.1 ∧ x.1.hasArg ≠ .none ∧ x.2 ≠ [] ∧
      ∀ o ∈ poptions, ¬ (x.1.shortOption :: x.2).takeWhile (· ≠ '=') <+: o.name

/-- The value is one that the option can have. -/
structure Given (poptions : List ProgramOption) (x : ProgramOption × List Char) : Prop where
  mem : x.1 ∈ poptions
  noValue : x.1.hasArg = .none → x.2 = []
  value : x.1.hasArg = .required → x.2 ≠ []

/-- No short option is a mark of the option string, or what `getopt` returns for a failure. -/
def Plain (poptions : List ProgramOption) : Prop :=
  ∀ o ∈ poptions, o.shortOption ∉ ['+', '-', ':', ';', '?']

/-! ## The string of the short options -/

section

variable {poptions : List ProgramOption} {o : ProgramOption}

theorem Plain.ne {c : Char} (h : Plain poptions) (ho : o ∈ poptions)
    (hc : c ∈ ['+', '-', ':', ';', '?']) : o.shortOption ≠ c := by
  rintro rfl
  exact h o ho hc

theorem HasShort.ne_noShortOption (h : HasShort o) : o.shortOption ≠ noShortOption := by
  intro heq
  have hprint := h.1
  rw [heq] at hprint
  exact absurd hprint (by decide)

/-- The options of the string -/
def inString (poptions : List ProgramOption) : List ProgramOption :=
  (printables poptions).filter fun o => o.shortOption ≠ ' '

theorem mem_inString : o ∈ inString poptions ↔ o ∈ poptions ∧ HasShort o := by
  rw [inString, List.mem_filter, mem_printables, decide_eq_true_eq, and_assoc]
  rfl

theorem nodup_inString (h : OptionTable poptions) : (inString poptions).Nodup :=
  (List.Nodup.of_map _ h.nodup).sublist (List.filter_sublist.trans List.filter_sublist)

/-- The string of some options begins with the short option of the first. -/
theorem head?_flatMap_written {os : List ProgramOption} {c : Char}
    (h : c ∈ (os.flatMap written).head?) : ∃ o ∈ os, o.shortOption = c := by
  cases os with
  | nil => cases h
  | cons o os => exact ⟨o, List.mem_cons_self, Option.some.inj h⟩

/-- There is no flag in front of the string. -/
theorem Plain.optionChars (h : Plain poptions) :
    optionChars (createGetOptLongOptString poptions) = createGetOptLongOptString poptions := by
  have hhead : ∀ c ∈ (createGetOptLongOptString poptions).head?, c ≠ '-' ∧ c ≠ '+' := by
    intro c hc
    rw [createGetOptLongOptString_eq] at hc
    obtain ⟨o, ho, rfl⟩ := head?_flatMap_written hc
    have hmem := (mem_inString.mp ho).1
    exact ⟨h.ne hmem (by decide), h.ne hmem (by decide)⟩
  unfold Libc.optionChars
  split
  · rename_i heq
    exact absurd rfl (hhead '-' (by rw [heq]; rfl)).1
  · rename_i heq
    exact absurd rfl (hhead '+' (by rw [heq]; rfl)).2
  · rfl

theorem Plain.order (h : Plain poptions) (posixlyCorrect : Bool) :
    (beginCall posixlyCorrect (createGetOptLongOptString poptions) {}).order =
      if posixlyCorrect then .requireOrder else .permute := by
  have hhead : ∀ c ∈ ['-', '+'], (createGetOptLongOptString poptions).head? ≠ some c := by
    intro c hc heq
    rw [createGetOptLongOptString_eq] at heq
    obtain ⟨o, ho, rfl⟩ := head?_flatMap_written heq
    refine h o (mem_inString.mp ho).1 ?_
    rcases List.mem_cons.mp hc with hc | hc
    · rw [hc]
      decide
    · rw [List.mem_singleton.mp hc]
      decide
  have hfirst : (beginCall posixlyCorrect (createGetOptLongOptString poptions) {}).order =
      if (createGetOptLongOptString poptions).head? = some '-' then .returnInOrder
      else if (createGetOptLongOptString poptions).head? = some '+' ∨ posixlyCorrect then
        .requireOrder
      else .permute := rfl
  rw [hfirst, if_neg (hhead '-' (by decide))]
  simp only [hhead '+' (by decide), false_or]

/-- What the string says about a short option: whether it has an argument. -/
theorem dropWhile_optString (htable : OptionTable poptions) (hplain : Plain poptions)
    (ho : o ∈ poptions) (hshort : HasShort o) : ∃ tail,
      (optionChars (createGetOptLongOptString poptions)).dropWhile (· ≠ o.shortOption) =
        o.shortOption :: tail ∧
      (tail.getD 0 nul = ':' ↔ o.hasArg ≠ .none) ∧ tail.getD 0 nul ≠ ';' ∧
      (o.hasArg ≠ .none → tail.getD 1 nul ≠ ':') := by
  obtain ⟨pre, post, hos⟩ := List.append_of_mem (mem_inString.mpr ⟨ho, hshort⟩)
  have hmem : ∀ o' ∈ pre ++ post, o' ∈ poptions := by
    intro o' ho'
    refine (mem_inString.mp ?_).1
    rw [hos]
    exact (List.Sublist.append_left (List.sublist_cons_self _ _) _).subset ho'
  have hpre : o.shortOption ∉ pre.flatMap written := by
    intro hmem'
    rcases mem_flatMap_written hmem' with heq | ⟨o', ho', heq⟩
    · exact hplain.ne ho (by decide) heq
    · have hsame := htable.short_inj ho (hmem o' (List.mem_append_left _ ho')) heq.symm
        hshort.ne_noShortOption
      have hnodup := nodup_inString htable
      rw [hos, List.nodup_append] at hnodup
      exact hnodup.2.2 o' ho' o List.mem_cons_self hsame.symm
  -- behind it there is the short option of another, or nothing
  have hpost : ∀ c ∈ [':', ';'], (post.flatMap written).getD 0 nul ≠ c := by
    intro c hc heq
    have hne : nul ≠ c := by
      rintro rfl
      exact absurd hc (by decide)
    cases hchars : post.flatMap written with
    | nil =>
        rw [hchars] at heq
        exact hne heq
    | cons d ds =>
        rw [hchars] at heq
        have hmemHead : d ∈ (post.flatMap written).head? := by
          rw [hchars]
          rfl
        obtain ⟨o', ho', hd⟩ := head?_flatMap_written hmemHead
        refine hplain.ne (hmem o' (List.mem_append_right _ ho')) ?_ (hd.trans heq)
        rcases List.mem_cons.mp hc with hc | hc
        · rw [hc]
          decide
        · rw [List.mem_singleton.mp hc]
          decide
  have hdrop : (optionChars (createGetOptLongOptString poptions)).dropWhile (· ≠ o.shortOption) =
      written o ++ post.flatMap written := by
    have hstring : optionChars (createGetOptLongOptString poptions) =
        pre.flatMap written ++ (written o ++ post.flatMap written) := by
      rw [hplain.optionChars, createGetOptLongOptString_eq]
      show (inString poptions).flatMap written = _
      rw [hos, List.flatMap_append, List.flatMap_cons]
    rw [hstring]
    refine dropWhile_append_stops ?_ (stops_cons.mpr ?_)
    · intro c hc
      rw [decide_eq_true_eq]
      rintro rfl
      exact hpre hc
    · rw [decide_eq_false_iff_not]
      exact fun hne => hne rfl
  rw [hdrop, written, List.cons_append]
  refine ⟨_, rfl, ?_⟩
  by_cases hasArg : o.hasArg = .none
  · rw [if_pos hasArg, List.nil_append]
    exact ⟨⟨fun heq => absurd heq (hpost ':' (by decide)), fun hne => absurd hasArg hne⟩,
      hpost ';' (by decide), fun hne => absurd hasArg hne⟩
  · rw [if_neg hasArg, List.singleton_append]
    refine ⟨iff_of_true rfl hasArg, ?_, fun _ => ?_⟩
    · rw [List.getD_cons_zero]
      decide
    · rw [List.getD_cons_succ]
      exact hpost ':' (by decide)

/-! ## The table of the long options -/

/-- An option of the table is there once. -/
theorem WellNamed.getElem?_inj (h : WellNamed poptions) {i j : ℕ} (hi : poptions[i]? = some o)
    (hj : poptions[j]? = some o) : j = i := by
  obtain ⟨hi, hoi⟩ := List.getElem?_eq_some_iff.mp hi
  obtain ⟨hj, hoj⟩ := List.getElem?_eq_some_iff.mp hj
  exact (List.Nodup.getElem_inj_iff (List.Nodup.of_map _ h.nodup)).mp (hoj.trans hoi.symm)

/-- An option is found by the beginning of its name. -/
theorem matchLong_of_abbreviates (h : WellNamed poptions) {i : ℕ} (ho : poptions[i]? = some o)
    {name : List Char} (hname : Abbreviates poptions o name) :
    matchLong true (createGetOptLongStructOptions poptions) name =
      .found { name := o.name, hasArg := toHasArg o.hasArg, val := 0 } i := by
  have hmem := List.mem_of_getElem? ho
  have hcstr : ∀ {o' : ProgramOption}, o' ∈ poptions → cstr o'.name = o'.name :=
    fun ho' => cstr_of_ne (ne_nul_of_valid (h.valid _ ho')).2
  have hlong := getElem?_createGetOptLongStructOptions.mpr ⟨o, ho, rfl⟩
  rw [hcstr hmem] at hlong
  by_cases hfull : name = o.name
  · have hnodup : ((createGetOptLongStructOptions poptions).map LongOption.name).Nodup := by
      rw [h.names]
      exact h.nodup
    rw [hfull]
    exact matchLong_of_name true hnodup hlong
  · have hunique := hname.unique.resolve_left hfull
    -- what begins so is the option and no other
    have honly : ∀ x ∈ (createGetOptLongStructOptions poptions).zipIdx,
        name.isPrefixOf x.1.name = true →
          x = ({ name := o.name, hasArg := toHasArg o.hasArg, val := 0 }, i) := by
      rintro ⟨p, j⟩ hp hprefix
      have hj := List.mk_mem_zipIdx_iff_getElem?.mp hp
      obtain ⟨o', ho', rfl⟩ := getElem?_createGetOptLongStructOptions.mp hj
      have hmem' := List.mem_of_getElem? ho'
      rw [List.isPrefixOf_iff_prefix] at hprefix
      dsimp only at hprefix ⊢
      rw [hcstr hmem'] at hprefix ⊢
      obtain rfl := hunique o' hmem' hprefix
      rw [h.getElem?_inj ho ho']
    have hfind : (createGetOptLongStructOptions poptions).zipIdx.find?
        (fun x => x.1.name = name) = none := by
      rw [List.find?_eq_none]
      intro x hx heq
      rw [decide_eq_true_eq] at heq
      have hsame := honly x hx (List.isPrefixOf_iff_prefix.mpr (heq ▸ List.prefix_refl _))
      rw [hsame] at heq
      exact hfull heq.symm
    have hfilter : (createGetOptLongStructOptions poptions).zipIdx.filter
        (fun x => name.isPrefixOf x.1.name) =
          [({ name := o.name, hasArg := toHasArg o.hasArg, val := 0 }, i)] := by
      have hnodup : (createGetOptLongStructOptions poptions).zipIdx.Nodup := by
        apply List.Nodup.of_map Prod.snd
        rw [List.zipIdx_map_snd]
        exact List.nodup_range'
      rw [← List.perm_singleton, List.perm_ext_iff_of_nodup (hnodup.filter _)
        (List.nodup_singleton _)]
      intro x
      rw [List.mem_filter, List.mem_singleton]
      constructor
      · rintro ⟨hx, hprefix⟩
        exact honly x hx hprefix
      · rintro rfl
        exact ⟨List.mk_mem_zipIdx_iff_getElem?.mpr hlong,
          List.isPrefixOf_iff_prefix.mpr hname.isPrefix⟩
    rw [matchLong, hfind]
    dsimp only
    rw [hfilter]
    rfl

/-- What no name begins with is not found. -/
theorem matchLong_of_unknown (h : WellNamed poptions) {name : List Char}
    (hname : ∀ o ∈ poptions, ¬ name <+: o.name) :
    matchLong true (createGetOptLongStructOptions poptions) name = .unknown := by
  have hnone : ∀ x ∈ (createGetOptLongStructOptions poptions).zipIdx, ¬ name <+: x.1.name := by
    rintro ⟨p, j⟩ hp
    have hj := List.mk_mem_zipIdx_iff_getElem?.mp hp
    obtain ⟨o, ho, rfl⟩ := getElem?_createGetOptLongStructOptions.mp hj
    have hmem := List.mem_of_getElem? ho
    dsimp only
    rw [cstr_of_ne (ne_nul_of_valid (h.valid _ hmem)).2]
    exact hname o hmem
  have hfind : (createGetOptLongStructOptions poptions).zipIdx.find?
      (fun x => x.1.name = name) = none := by
    rw [List.find?_eq_none]
    intro x hx heq
    rw [decide_eq_true_eq] at heq
    exact hnone x hx (heq ▸ List.prefix_refl _)
  have hfilter : (createGetOptLongStructOptions poptions).zipIdx.filter
      (fun x => name.isPrefixOf x.1.name) = [] := by
    rw [List.filter_eq_nil_iff]
    intro x hx hprefix
    exact hnone x hx (List.isPrefixOf_iff_prefix.mp hprefix)
  rw [matchLong, hfind]
  dsimp only
  rw [hfilter]

/-! ## The words of an option -/

theorem stops_attached (value : List Char) :
    Stops (fun c : Char => decide (c ≠ '=')) (attached value) := by
  unfold attached
  split
  · exact stops_nil
  · exact stops_cons.mpr (by decide)

/-- A word of a name is an option, and not the mark of the end. -/
theorem dashes_option {double : Bool} {name : List Char} (tail : List Char) (hne : name ≠ [])
    (hdashed : Dashed double name) : isNonoption (dashes double ++ (name ++ tail)) = false ∧
      dashes double ++ (name ++ tail) ≠ ['-', '-'] := by
  obtain ⟨c, cs, rfl⟩ := List.exists_cons_of_ne_nil hne
  cases double with
  | true => exact ⟨rfl, fun heq => by cases heq⟩
  | false =>
      refine ⟨?_, ?_⟩
      · rw [isNonoption, decide_eq_false_iff_not]
        rintro (hhead | hlength)
        · exact hhead rfl
        · cases hlength
      · rintro heq
        exact (hdashed rfl).1 (congrArg some (List.cons.inj (List.cons.inj heq).2).1)

theorem short_option {c : Char} (value : List Char) (hc : c ≠ '-') :
    isNonoption ('-' :: c :: value) = false ∧ '-' :: c :: value ≠ ['-', '-'] := by
  refine ⟨?_, ?_⟩
  · rw [isNonoption, decide_eq_false_iff_not]
    rintro (hhead | hlength)
    · exact hhead rfl
    · cases hlength
  · rintro heq
    exact hc (List.cons.inj (List.cons.inj heq).2).1

section

variable {argv rest : List (List Char)} {g : Getopt}

/-- A word that has a name is read as a long option. -/
theorem optionElement_long (hnamed : WellNamed poptions) {i : ℕ} (ho : poptions[i]? = some o)
    {double : Bool} {name tail : List Char} (hname : Abbreviates poptions o name)
    (hdashed : Dashed double name) (htail : Stops (fun c : Char => decide (c ≠ '=')) tail)
    (optstring : List Char)
    (h : g.Between argv ((dashes double ++ (name ++ tail)) :: rest)) :
    optionElement argv optstring (createGetOptLongStructOptions poptions) g =
      foundLong argv optstring { name := o.name, hasArg := toHasArg o.hasArg, val := 0 } i tail
        { g with nextchar := name ++ tail } := by
  have hmatch := matchLong_of_abbreviates hnamed ho hname
  have hletters := letters_of_not_mem hname.clean
  rw [← takeWhile_append_stops hletters htail] at hmatch
  have hfound := processLongOption_of_found (g := { g with nextchar := name ++ tail }) argv
    optstring hmatch
  rw [dropWhile_append_stops hletters htail] at hfound
  rw [optionElement, h.getD]
  obtain ⟨c, cs, hcs⟩ := List.exists_cons_of_ne_nil hname.ne_nil
  cases double with
  | true =>
      have hdash : (dashes true ++ (name ++ tail)).getD 1 nul = '-' := rfl
      dsimp only
      rw [if_pos hdash]
      show (processLongOption argv optstring _ true { g with nextchar := name ++ tail }).getD _ = _
      rw [hfound]
      rfl
  | false =>
      obtain ⟨hhead, hlength⟩ := hdashed rfl
      have hdash : ¬(dashes false ++ (name ++ tail)).getD 1 nul = '-' := by
        rw [hcs] at hhead ⊢
        exact fun heq => hhead (congrArg some heq)
      have hlong : (dashes false ++ (name ++ tail)).length > 2 := by
        rw [List.length_append, List.length_append]
        show 1 + _ > 2
        omega
      dsimp only
      rw [if_neg hdash, if_pos (Or.inl hlong)]
      show (processLongOption argv optstring _ true { g with nextchar := name ++ tail }).getD _ = _
      rw [hfound]
      rfl

/-- A word that has a short option is read as one, if no name begins with its letters. -/
theorem optionElement_short (htable : OptionTable poptions) (hplain : Plain poptions)
    (ho : o ∈ poptions) (hshort : HasShort o) {value : List Char}
    (hvalue : value = [] ∨
      ∀ o' ∈ poptions, ¬ (o.shortOption :: value).takeWhile (· ≠ '=') <+: o'.name)
    (h : g.Between argv (('-' :: o.shortOption :: value) :: rest)) :
    optionElement argv (optionChars (createGetOptLongOptString poptions))
        (createGetOptLongStructOptions poptions) g =
      processShortOption argv (optionChars (createGetOptLongOptString poptions))
        (createGetOptLongStructOptions poptions)
        { g with nextchar := o.shortOption :: value } := by
  have hdash : ¬('-' :: o.shortOption :: value).getD 1 nul = '-' := hplain.ne ho (by decide)
  obtain ⟨tail, htemp, -⟩ := dropWhile_optString htable hplain ho hshort
  have hstrchr : strchr (optionChars (createGetOptLongOptString poptions)) o.shortOption =
      true := by
    rw [strchr, List.contains_iff_mem]
    apply List.mem_append_left
    apply Finding.mem_of_dropWhile_ne_nil
    rw [htemp]
    exact List.cons_ne_nil _ _
  rw [optionElement, h.getD]
  dsimp only
  rw [if_neg hdash]
  cases value with
  | nil =>
      rw [if_neg]
      · rfl
      · rintro (hlength | hnone)
        · exact absurd hlength (Nat.lt_irrefl 2)
        · exact hnone hstrchr
  | cons v vs =>
      have hunknown := matchLong_of_unknown htable.toWellNamed
        (hvalue.resolve_left (List.cons_ne_nil v vs))
      have hlong : ('-' :: o.shortOption :: v :: vs).length > 2 := by
        simp only [List.length_cons]
        omega
      rw [if_pos (Or.inl hlong)]
      have hnone : processLongOption argv (optionChars (createGetOptLongOptString poptions))
          (createGetOptLongStructOptions poptions) true
          { g with nextchar := o.shortOption :: v :: vs } = none := by
        rw [processLongOption]
        dsimp only
        rw [hunknown]
        dsimp only
        rw [if_neg]
        rintro (hlong | hdash' | hchr)
        · exact hlong rfl
        · rw [h.getD] at hdash'
          exact hdash hdash'
        · exact hchr hstrchr
      show (processLongOption argv _ _ true
        { g with nextchar := o.shortOption :: v :: vs }).getD _ = _
      rw [hnone]
      rfl

end

end
end KssUtil.Options

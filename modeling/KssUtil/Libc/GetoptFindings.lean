import KssUtil.Libc.GetoptVariables

/-!
# What `getopt_long_only` finds

The codes that `getopt_long_only` returns do not tell a missing argument from an option
that is unknown.  What a call comes to is therefore followed beside the call itself.
-/

namespace KssUtil.Libc

/-- What a call finds. The number of a long option is its index; `unwanted` is one that has
an argument it may not have. -/
inductive Finding where
  | long (i : ℕ)
  | short (c : Char)
  | missingLong (i : ℕ)
  | missingShort (c : Char)
  | unwanted (i : ℕ)
  | unknown
  | operand
  | finished
deriving DecidableEq

namespace Finding

/-- What is returned for it, if the long options have the value 0. -/
def code (optstring : List Char) : Finding → ℤ
  | .long _ => 0
  | .short c => c.toNat
  | .missingLong _ => missingCode optstring
  | .missingShort _ => missingCode optstring
  | .unwanted _ => unknownCode
  | .unknown => unknownCode
  | .operand => 1
  | .finished => -1

/-- What is put into `longind`. -/
def longind : Finding → Option ℕ
  | .long i => some i
  | _ => none

/-- The long option it is about -/
def index : Finding → Option ℕ
  | .long i => some i
  | .missingLong i => some i
  | .unwanted i => some i
  | _ => none

/-- The short option it is about -/
def char : Finding → Option Char
  | .short c => some c
  | .missingShort c => some c
  | _ => none

/-- Something is returned for whatever is found. -/
theorem code_ne_neg_one {f : Finding} (optstring : List Char) (hf : f ≠ .finished) :
    f.code optstring ≠ -1 := by
  have hne : ∀ {n : ℤ}, 0 ≤ n → n ≠ -1 := by
    intro n hn
    omega
  cases f with
  | long i => exact hne (Int.le_refl 0)
  | short c => exact hne (code_nonneg c)
  | missingLong i => exact hne (missingCode_nonneg optstring)
  | missingShort c => exact hne (missingCode_nonneg optstring)
  | unwanted i => exact hne unknownCode_nonneg
  | unknown => exact hne unknownCode_nonneg
  | operand => exact hne Int.one_nonneg
  | finished => exact absurd rfl hf

/-! ## Following a call -/

/-- `foundLong` -/
def foundLong (argv : List (List Char)) (p : LongOption) (i : ℕ) (nameend : List Char)
    (g : Getopt) : Finding :=
  match nameend with
  | _ :: _ => if p.hasArg = .noArgument then .unwanted i else .long i
  | [] =>
      if p.hasArg = .requiredArgument then
        if g.optind + 1 < argv.length then .long i else .missingLong i
      else .long i

/-- `processLongOption` -/
def processLongOption (argv : List (List Char)) (optstring : List Char)
    (longopts : List LongOption) (longOnly : Bool) (g : Getopt) : Option Finding :=
  match matchLong longOnly longopts (g.nextchar.takeWhile (· ≠ '=')) with
  | .found p i => some (foundLong argv p i (g.nextchar.dropWhile (· ≠ '=')) g)
  | .ambiguous => some .unknown
  | .unknown =>
      if ¬longOnly ∨ (argv.getD g.optind []).getD 1 nul = '-' ∨
          ¬strchr optstring (g.nextchar.headD nul) then some .unknown
      else none

/-- `shortArgument` -/
def shortArgument (argv : List (List Char)) (c : Char) (optional : Bool) (g : Getopt) : Finding :=
  if g.nextchar ≠ [] then .short c
  else if optional then .short c
  else if g.optind = argv.length then .missingShort c
  else .short c

/-- `dashW` -/
def dashW (argv : List (List Char)) (optstring : List Char) (longopts : List LongOption)
    (g : Getopt) : Finding :=
  if g.nextchar = [] ∧ g.optind = argv.length then .missingShort 'W'
  else
    let nextchar := if g.nextchar = [] then argv.getD g.optind [] else g.nextchar
    (processLongOption argv optstring longopts false { g with nextchar, optarg := none }).getD
      .finished

/-- `processShortOption` -/
def processShortOption (argv : List (List Char)) (optstring : List Char)
    (longopts : List LongOption) (g : Getopt) : Finding :=
  let c := g.nextchar.headD nul
  let rest := g.nextchar.tail
  let g := { g with nextchar := rest, optind := if rest = [] then g.optind + 1 else g.optind }
  let temp := optstring.dropWhile (· ≠ c)
  if temp = [] ∨ c = ':' ∨ c = ';' then .unknown
  else if c = 'W' ∧ temp.getD 1 nul = ';' then dashW argv optstring longopts g
  else if temp.getD 1 nul = ':' then shortArgument argv c (temp.getD 2 nul = ':') g
  else .short c

/-- `optionElement` -/
def optionElement (argv : List (List Char)) (optstring : List Char) (longopts : List LongOption)
    (g : Getopt) : Finding :=
  let arg := argv.getD g.optind []
  if arg.getD 1 nul = '-' then
    (processLongOption argv optstring longopts true { g with nextchar := arg.drop 2 }).getD
      .finished
  else
    let g := { g with nextchar := arg.drop 1 }
    if arg.length > 2 ∨ ¬strchr optstring (arg.getD 1 nul) then
      (processLongOption argv optstring longopts true g).getD
        (processShortOption argv optstring longopts g)
    else processShortOption argv optstring longopts g

/-- `nextElement` -/
def nextElement (argv : List (List Char)) (optstring : List Char) (longopts : List LongOption)
    (g : Getopt) : Finding :=
  let settled := settle argv g
  let r := endMarker settled.1 settled.2
  if r.2.optind = argv.length then .finished
  else if isNonoption (r.1.getD r.2.optind []) then
    if r.2.order = .requireOrder then .finished else .operand
  else optionElement r.1 optstring longopts r.2

end Finding

/-- What a call of `getopt_long_only` finds -/
def getoptFinding (posixlyCorrect : Bool) (argv : List (List Char)) (optstring : List Char)
    (longopts : List LongOption) (g : Getopt) : Finding :=
  let g := beginCall posixlyCorrect optstring g
  if g.nextchar = [] then Finding.nextElement argv (optionChars optstring) longopts g
  else Finding.processShortOption argv (optionChars optstring) longopts g

/-! ## What is found is what is returned -/

/-- The answer `a` is that for the finding `f`, which is about an option that is there. -/
structure Finding.Answers (optstring : List Char) (longopts : List LongOption) (f : Finding)
    (a : Answer) : Prop where
  code : a.code = f.code optstring
  longind : a.longind = f.longind
  index : ∀ i ∈ f.index, i < longopts.length
  char : ∀ c ∈ f.char, c ∈ optstring ∧ c ≠ ':'

namespace Finding

section

variable {argv : List (List Char)} {optstring : List Char} {longopts : List LongOption} {g : Getopt}

/-- A finding that is about no option -/
theorem answers_of_none {f : Finding} {a : Answer} (hcode : a.code = f.code optstring)
    (hlongind : a.longind = f.longind) (hindex : f.index = none) (hchar : f.char = none) :
    f.Answers optstring longopts a := by
  refine ⟨hcode, hlongind, ?_, ?_⟩
  · rw [hindex]
    intro i hi
    cases hi
  · rw [hchar]
    intro c hc
    cases hc

theorem unknown_answers (optstring : List Char) (longopts : List LongOption) (g : Getopt) :
    Finding.unknown.Answers optstring longopts { code := unknownCode, vars := g } :=
  answers_of_none rfl rfl rfl rfl

/-- A finding that is about a long option -/
theorem answers_of_index {f : Finding} {a : Answer} {i : ℕ} (hcode : a.code = f.code optstring)
    (hlongind : a.longind = f.longind) (hindex : f.index = some i) (hchar : f.char = none)
    (hi : i < longopts.length) : f.Answers optstring longopts a := by
  refine ⟨hcode, hlongind, ?_, ?_⟩
  · rw [hindex]
    intro j hj
    rwa [← Option.some.inj hj]
  · rw [hchar]
    intro c hc
    cases hc

/-- A finding that is about a short option -/
theorem answers_of_char {f : Finding} {a : Answer} {c : Char} (hcode : a.code = f.code optstring)
    (hlongind : a.longind = f.longind) (hindex : f.index = none) (hchar : f.char = some c)
    (hc : c ∈ optstring) (hcolon : c ≠ ':') : f.Answers optstring longopts a := by
  refine ⟨hcode, hlongind, ?_, ?_⟩
  · rw [hindex]
    intro i hi
    cases hi
  · rw [hchar]
    intro d hd
    rw [← Option.some.inj hd]
    exact ⟨hc, hcolon⟩

theorem short_answers (longopts : List LongOption) {c : Char} (hc : c ∈ optstring)
    (hcolon : c ≠ ':') (g : Getopt) :
    (Finding.short c).Answers optstring longopts { code := c.toNat, vars := g } :=
  answers_of_char rfl rfl rfl rfl hc hcolon

theorem missingShort_answers (longopts : List LongOption) {c : Char} (hc : c ∈ optstring)
    (hcolon : c ≠ ':') (g : Getopt) :
    (Finding.missingShort c).Answers optstring longopts
      { code := missingCode optstring, vars := g } :=
  answers_of_char rfl rfl rfl rfl hc hcolon

theorem foundLong_answers {p : LongOption} {i : ℕ} (hp : longopts[i]? = some p) (hval : p.val = 0)
    (nameend : List Char) :
    (foundLong argv p i nameend g).Answers optstring longopts
      (Libc.foundLong argv optstring p i nameend g) := by
  have hi : i < longopts.length := (List.getElem?_eq_some_iff.mp hp).1
  unfold foundLong Libc.foundLong
  cases nameend with
  | cons c value =>
      dsimp only
      split
      · exact answers_of_index rfl rfl rfl rfl hi
      · exact answers_of_index hval rfl rfl rfl hi
  | nil =>
      dsimp only
      split
      · split
        · exact answers_of_index hval rfl rfl rfl hi
        · exact answers_of_index rfl rfl rfl rfl hi
      · exact answers_of_index hval rfl rfl rfl hi

/-- Both are there, or neither. -/
theorem processLongOption_answers (argv : List (List Char)) (optstring : List Char)
    (longOnly : Bool) (g : Getopt) (hval : ∀ p ∈ longopts, p.val = 0) :
    (∃ f a, processLongOption argv optstring longopts longOnly g = some f ∧
      Libc.processLongOption argv optstring longopts longOnly g = some a ∧
        f.Answers optstring longopts a) ∨
      processLongOption argv optstring longopts longOnly g = none ∧
        Libc.processLongOption argv optstring longopts longOnly g = none := by
  unfold processLongOption Libc.processLongOption
  dsimp only
  cases hmatch : matchLong longOnly longopts (g.nextchar.takeWhile (· ≠ '=')) with
  | found p i =>
      have hp := matchLong_found hmatch
      exact Or.inl ⟨_, _, rfl, rfl, foundLong_answers hp (hval p (List.mem_of_getElem? hp)) _⟩
  | ambiguous => exact Or.inl ⟨_, _, rfl, rfl, unknown_answers _ _ _⟩
  | unknown =>
      dsimp only
      split
      · exact Or.inl ⟨_, _, rfl, rfl, unknown_answers _ _ _⟩
      · exact Or.inr ⟨rfl, rfl⟩

theorem shortArgument_answers (longopts : List LongOption) {c : Char} (hc : c ∈ optstring)
    (hcolon : c ≠ ':') (optional : Bool) :
    (shortArgument argv c optional g).Answers optstring longopts
      (Libc.shortArgument argv optstring c optional g) := by
  unfold shortArgument Libc.shortArgument
  split
  · exact short_answers longopts hc hcolon _
  · split
    · exact short_answers longopts hc hcolon _
    · split
      · exact missingShort_answers longopts hc hcolon _
      · exact short_answers longopts hc hcolon _

theorem dashW_answers (hval : ∀ p ∈ longopts, p.val = 0) (hW : 'W' ∈ optstring) :
    (dashW argv optstring longopts g).Answers optstring longopts
      (Libc.dashW argv optstring longopts g) := by
  unfold dashW Libc.dashW
  split
  · exact missingShort_answers longopts hW (by decide) _
  · dsimp only
    obtain ⟨a, ha⟩ := processLongOption_some argv optstring longopts false
      { g with nextchar := if g.nextchar = [] then argv.getD g.optind [] else g.nextchar,
               optarg := none } (Or.inl rfl)
    rcases processLongOption_answers argv optstring false
      { g with nextchar := if g.nextchar = [] then argv.getD g.optind [] else g.nextchar,
               optarg := none } hval with ⟨f, a', hf, ha', hanswers⟩ | ⟨-, hnone⟩
    · rw [hf, ha']
      exact hanswers
    · rw [ha] at hnone
      cases hnone

/-- What is left from a character on begins with it. -/
theorem mem_of_dropWhile_ne_nil {c : Char} (h : optstring.dropWhile (· ≠ c) ≠ []) :
    c ∈ optstring := by
  by_contra hmem
  apply h
  rw [List.dropWhile_eq_nil_iff]
  rintro d hd
  rw [decide_eq_true_eq]
  rintro rfl
  exact hmem hd

theorem processShortOption_answers (argv : List (List Char)) (optstring : List Char) (g : Getopt)
    (hval : ∀ p ∈ longopts, p.val = 0) :
    (processShortOption argv optstring longopts g).Answers optstring longopts
      (Libc.processShortOption argv optstring longopts g) := by
  unfold processShortOption Libc.processShortOption
  dsimp only
  split
  · exact unknown_answers _ _ _
  · rename_i hknown
    obtain ⟨hne, hother⟩ := not_or.mp hknown
    have hmem := mem_of_dropWhile_ne_nil hne
    have hcolon := (not_or.mp hother).1
    split
    · rename_i hW
      rw [hW.1] at hmem
      exact dashW_answers hval hmem
    · split
      · exact shortArgument_answers longopts hmem hcolon _
      · exact short_answers longopts hmem hcolon _

theorem optionElement_answers (argv : List (List Char)) (optstring : List Char) (g : Getopt)
    (hval : ∀ p ∈ longopts, p.val = 0) :
    (optionElement argv optstring longopts g).Answers optstring longopts
      (Libc.optionElement argv optstring longopts g) := by
  unfold optionElement Libc.optionElement
  dsimp only
  split
  · rename_i hdash
    obtain ⟨a, ha⟩ := processLongOption_some argv optstring longopts true
      { g with nextchar := (argv.getD g.optind []).drop 2 } (Or.inr hdash)
    rcases processLongOption_answers argv optstring true
      { g with nextchar := (argv.getD g.optind []).drop 2 } hval with
      ⟨f, a', hf, ha', hanswers⟩ | ⟨-, hnone⟩
    · rw [hf, ha']
      exact hanswers
    · rw [ha] at hnone
      cases hnone
  · have hshort := processShortOption_answers argv optstring
      { g with nextchar := (argv.getD g.optind []).drop 1 } hval
    split
    · rcases processLongOption_answers argv optstring true
        { g with nextchar := (argv.getD g.optind []).drop 1 } hval with
        ⟨f, a, hf, ha, hanswers⟩ | ⟨hf, ha⟩
      · rw [hf, ha]
        exact hanswers
      · rw [hf, ha]
        exact hshort
    · exact hshort

theorem nextElement_answers (argv : List (List Char)) (optstring : List Char) (g : Getopt)
    (hval : ∀ p ∈ longopts, p.val = 0) :
    (nextElement argv optstring longopts g).Answers optstring longopts
      (Libc.nextElement argv optstring longopts g).2 := by
  unfold nextElement Libc.nextElement
  dsimp only
  split
  · exact answers_of_none rfl rfl rfl rfl
  · split
    · split
      · exact answers_of_none rfl rfl rfl rfl
      · exact answers_of_none rfl rfl rfl rfl
    · exact optionElement_answers _ _ _ hval

end

end Finding

/-- **A call returns what is due for what it finds.** -/
theorem getoptLongOnly_answers (posixlyCorrect : Bool) (argv : List (List Char))
    (optstring : List Char) {longopts : List LongOption} (hval : ∀ p ∈ longopts, p.val = 0)
    (g : Getopt) :
    (getoptFinding posixlyCorrect argv optstring longopts g).Answers (optionChars optstring)
      longopts (getoptLongOnly posixlyCorrect argv optstring longopts g).2 := by
  unfold getoptFinding getoptLongOnly
  dsimp only
  split
  · exact Finding.nextElement_answers argv _ _ hval
  · exact Finding.processShortOption_answers argv _ _ hval

end KssUtil.Libc

import KssUtil.Libc.Numbers
import Mathlib.Data.List.Nodup

/-!
# `getopt_long_only`

The GNU C library's reader of command lines, with the variables it keeps from one
call to the next.  The elements of `argv` are C strings; one past the end is read
as an empty string.  Error messages are off (`opterr` is 0), and `flag` is null in
every long option.
-/

namespace KssUtil.Libc

open KssUtil.Foundation

/-- `has_arg` of a long option -/
inductive HasArg where
  | noArgument
  | requiredArgument
  | optionalArgument
deriving DecidableEq, Repr

/-- `struct option` -/
structure LongOption where
  name : List Char
  hasArg : HasArg
  val : ℤ
deriving DecidableEq, Repr

inductive ArgOrder where
  | permute
  | requireOrder
  | returnInOrder
deriving DecidableEq, Repr

/-- The static variables.  `nextchar` is what is read behind the pointer into the element
that is being read, and empty if that is null. -/
structure Getopt where
  optind : ℕ := 1
  optarg : Option (List Char) := none
  initialized : Bool := false
  nextchar : List Char := []
  order : ArgOrder := .permute
  firstNonopt : ℕ := 0
  lastNonopt : ℕ := 0
deriving DecidableEq, Repr

/-- What a call returns, and the index of the long option if it found one. -/
structure Answer where
  code : ℤ
  longind : Option ℕ := none
  vars : Getopt
deriving DecidableEq, Repr

/-- '?', for an option that is unknown, ambiguous or has an argument it may not have. -/
def unknownCode : ℤ := '?'.toNat

/-- For a missing argument. -/
def missingCode (optstring : List Char) : ℤ :=
  if optstring.head? = some ':' then ':'.toNat else '?'.toNat

/-- `strchr(s, c) != NULL` -/
def strchr (s : List Char) (c : Char) : Bool := (s ++ [nul]).contains c

/-- `NONOPTION_P` -/
def isNonoption (arg : List Char) : Bool := arg.head? ≠ some '-' ∨ arg.length = 1

/-! ## Long options -/

inductive LongMatch where
  | found (p : LongOption) (i : ℕ)
  | ambiguous
  | unknown

/-- The option of that name, or else the only one whose name begins so. -/
def matchLong (longOnly : Bool) (longopts : List LongOption) (name : List Char) : LongMatch :=
  match longopts.zipIdx.find? (fun x => x.1.name = name) with
  | some x => .found x.1 x.2
  | none =>
      match longopts.zipIdx.filter (fun x => name.isPrefixOf x.1.name) with
      | [] => .unknown
      | x :: xs =>
          if xs.any (fun y => longOnly || y.1.hasArg ≠ x.1.hasArg || y.1.val ≠ x.1.val) then
            .ambiguous
          else .found x.1 x.2

/-- The argument of a long option, after `=` or in the next element. -/
def foundLong (argv : List (List Char)) (optstring : List Char) (p : LongOption) (i : ℕ)
    (nameend : List Char) (g : Getopt) : Answer :=
  let g := { g with optind := g.optind + 1, nextchar := [] }
  match nameend with
  | _ :: value =>
      if p.hasArg = .noArgument then { code := unknownCode, vars := g }
      else { code := p.val, longind := some i, vars := { g with optarg := some value } }
  | [] =>
      if p.hasArg = .requiredArgument then
        if g.optind < argv.length then
          { code := p.val, longind := some i,
            vars := { g with optarg := some (argv.getD g.optind []), optind := g.optind + 1 } }
        else { code := missingCode optstring, vars := g }
      else { code := p.val, longind := some i, vars := g }

/-- `none` if the element is to be read as short options. -/
def processLongOption (argv : List (List Char)) (optstring : List Char)
    (longopts : List LongOption) (longOnly : Bool) (g : Getopt) : Option Answer :=
  let failed : Answer :=
    { code := unknownCode, vars := { g with optind := g.optind + 1, nextchar := [] } }
  match matchLong longOnly longopts (g.nextchar.takeWhile (· ≠ '=')) with
  | .found p i => some (foundLong argv optstring p i (g.nextchar.dropWhile (· ≠ '=')) g)
  | .ambiguous => some failed
  | .unknown =>
      if ¬longOnly ∨ (argv.getD g.optind []).getD 1 nul = '-' ∨
          ¬strchr optstring (g.nextchar.headD nul) then some failed
      else none

/-! ## Short options -/

/-- The argument of the short option `c`, in the rest of its element or in the next
one. -/
def shortArgument (argv : List (List Char)) (optstring : List Char) (c : Char) (optional : Bool)
    (g : Getopt) : Answer :=
  if g.nextchar ≠ [] then
    { code := c.toNat,
      vars := { g with optarg := some g.nextchar, optind := g.optind + 1, nextchar := [] } }
  else if optional then { code := c.toNat, vars := { g with optarg := none } }
  else if g.optind = argv.length then { code := missingCode optstring, vars := g }
  else
    { code := c.toNat,
      vars := { g with optarg := some (argv.getD g.optind []), optind := g.optind + 1 } }

/-- `-W foo` for `--foo` -/
def dashW (argv : List (List Char)) (optstring : List Char) (longopts : List LongOption)
    (g : Getopt) : Answer :=
  if g.nextchar = [] ∧ g.optind = argv.length then
    { code := missingCode optstring, vars := g }
  else
    let nextchar := if g.nextchar = [] then argv.getD g.optind [] else g.nextchar
    (processLongOption argv optstring longopts false { g with nextchar, optarg := none }).getD
      { code := -1, vars := g }

def processShortOption (argv : List (List Char)) (optstring : List Char)
    (longopts : List LongOption) (g : Getopt) : Answer :=
  let c := g.nextchar.headD nul
  let rest := g.nextchar.tail
  let g := { g with nextchar := rest, optind := if rest = [] then g.optind + 1 else g.optind }
  let temp := optstring.dropWhile (· ≠ c)
  if temp = [] ∨ c = ':' ∨ c = ';' then { code := unknownCode, vars := g }
  else if c = 'W' ∧ temp.getD 1 nul = ';' then dashW argv optstring longopts g
  else if temp.getD 1 nul = ':' then
    shortArgument argv optstring c (temp.getD 2 nul = ':') g
  else { code := c.toNat, vars := g }

/-! ## Elements -/

/-- The options from `lastNonopt` on come before the other elements. -/
def exchange (argv : List (List Char)) (g : Getopt) : List (List Char) × Getopt :=
  (argv.take g.firstNonopt ++ (argv.take g.optind).drop g.lastNonopt ++
      (argv.take g.lastNonopt).drop g.firstNonopt ++ argv.drop g.optind,
    { g with firstNonopt := g.firstNonopt + (g.optind - g.lastNonopt), lastNonopt := g.optind })

/-- To the next option: the elements that are none are skipped and, in the order
that permutes, moved behind the options. -/
def settle (argv : List (List Char)) (g : Getopt) : List (List Char) × Getopt :=
  let g := { g with lastNonopt := min g.lastNonopt g.optind,
                    firstNonopt := min g.firstNonopt g.optind }
  if g.order = .permute then
    let r :=
      if g.firstNonopt ≠ g.lastNonopt ∧ g.lastNonopt ≠ g.optind then exchange argv g
      else if g.lastNonopt ≠ g.optind then (argv, { g with firstNonopt := g.optind })
      else (argv, g)
    let optind := r.2.optind + ((r.1.drop r.2.optind).takeWhile isNonoption).length
    (r.1, { r.2 with optind, lastNonopt := optind })
  else (argv, g)

/-- `--` ends the options. -/
def endMarker (argv : List (List Char)) (g : Getopt) : List (List Char) × Getopt :=
  if argv[g.optind]? = some ['-', '-'] then
    let g := { g with optind := g.optind + 1 }
    let r :=
      if g.firstNonopt ≠ g.lastNonopt ∧ g.lastNonopt ≠ g.optind then exchange argv g
      else if g.firstNonopt = g.lastNonopt then (argv, { g with firstNonopt := g.optind })
      else (argv, g)
    (r.1, { r.2 with lastNonopt := argv.length, optind := argv.length })
  else (argv, g)

/-- An element that is an option: long after `--`, and after `-` if it is not a
short option alone. -/
def optionElement (argv : List (List Char)) (optstring : List Char) (longopts : List LongOption)
    (g : Getopt) : Answer :=
  let arg := argv.getD g.optind []
  if arg.getD 1 nul = '-' then
    (processLongOption argv optstring longopts true { g with nextchar := arg.drop 2 }).getD
      { code := -1, vars := g }
  else
    let g := { g with nextchar := arg.drop 1 }
    if arg.length > 2 ∨ ¬strchr optstring (arg.getD 1 nul) then
      (processLongOption argv optstring longopts true g).getD
        (processShortOption argv optstring longopts g)
    else processShortOption argv optstring longopts g

def nextElement (argv : List (List Char)) (optstring : List Char) (longopts : List LongOption)
    (g : Getopt) : List (List Char) × Answer :=
  let settled := settle argv g
  let r := endMarker settled.1 settled.2
  if r.2.optind = argv.length then
    (r.1, { code := -1,
            vars := { r.2 with optind := if r.2.firstNonopt ≠ r.2.lastNonopt then r.2.firstNonopt
                                         else r.2.optind } })
  else if isNonoption (r.1.getD r.2.optind []) then
    if r.2.order = .requireOrder then (r.1, { code := -1, vars := r.2 })
    else
      (r.1, { code := 1,
              vars := { r.2 with optarg := some (r.1.getD r.2.optind []),
                                 optind := r.2.optind + 1 } })
  else (r.1, optionElement r.1 optstring longopts r.2)

/-! ## Calls -/

/-- `_getopt_initialize`, on the first call and whenever `optind` is 0. -/
def beginCall (posixlyCorrect : Bool) (optstring : List Char) (g : Getopt) : Getopt :=
  if g.optind = 0 ∨ ¬g.initialized then
    let optind := if g.optind = 0 then 1 else g.optind
    { optind, initialized := true, firstNonopt := optind, lastNonopt := optind,
      order :=
        if optstring.head? = some '-' then .returnInOrder
        else if optstring.head? = some '+' ∨ posixlyCorrect then .requireOrder
        else .permute }
  else { g with optarg := none }

/-- The option characters, without a flag before them. -/
def optionChars : List Char → List Char
  | '-' :: cs => cs
  | '+' :: cs => cs
  | cs => cs

/-- The vector after the call, and what it returns. -/
def getoptLongOnly (posixlyCorrect : Bool) (argv : List (List Char)) (optstring : List Char)
    (longopts : List LongOption) (g : Getopt) : List (List Char) × Answer :=
  let g := beginCall posixlyCorrect optstring g
  if g.nextchar = [] then nextElement argv (optionChars optstring) longopts g
  else (argv, processShortOption argv (optionChars optstring) longopts g)

/-! ## Command lines of long options -/

namespace Getopt

/-- No element is half read, and none is waiting to be moved behind the options. -/
def Ready (g : Getopt) : Prop :=
  1 ≤ g.optind ∧ (g.initialized = true → g.nextchar = [] ∧
    min g.firstNonopt g.optind = min g.lastNonopt g.optind)

/-- Between two command lines: no element is left half read. -/
def Idle (g : Getopt) : Prop :=
  g.initialized = true → g.nextchar = [] ∧ 1 ≤ g.firstNonopt ∧ 1 ≤ g.lastNonopt

theorem Idle.ready {g : Getopt} (h : g.Idle) : Ready { g with optind := 1 } := by
  constructor
  · exact Nat.le_refl 1
  · intro hinit
    obtain ⟨hnext, hfirst, hlast⟩ := h hinit
    exact ⟨hnext, (Nat.min_eq_right hfirst).trans (Nat.min_eq_right hlast).symm⟩

/-- The variables as the elements from `optind` on are looked at. -/
structure Looking (g g' : Getopt) : Prop where
  optind : g'.optind = g.optind
  initialized : g'.initialized = true
  nextchar : g'.nextchar = []
  nonopts : g'.firstNonopt = g'.lastNonopt

end Getopt

section

variable {argv : List (List Char)} {longopts : List LongOption} {g : Getopt}

/-- `settle` stays at an option, and at the end. -/
theorem settle_of_option (hmin : min g.firstNonopt g.optind = min g.lastNonopt g.optind)
    (hstop : Stops isNonoption (argv.drop g.optind)) :
    ∃ g', settle argv g = (argv, g') ∧ g'.optind = g.optind ∧ g'.initialized = g.initialized ∧
      g'.nextchar = g.nextchar ∧ g'.firstNonopt = g'.lastNonopt := by
  unfold settle
  dsimp only
  rw [hmin]
  split
  · rw [if_neg fun h => h.1 rfl]
    split
    · dsimp only
      rw [takeWhile_of_stops hstop]
      exact ⟨_, rfl, rfl, rfl, rfl, rfl⟩
    · rename_i hlast
      dsimp only
      rw [takeWhile_of_stops hstop]
      refine ⟨_, rfl, rfl, rfl, rfl, ?_⟩
      exact not_not.mp hlast
  · exact ⟨_, rfl, rfl, rfl, rfl, rfl⟩

theorem beginCall_ready (posixlyCorrect : Bool) (optstring : List Char) (h : g.Ready) :
    ∃ g', beginCall posixlyCorrect optstring g = g' ∧ g'.optind = g.optind ∧
      g'.initialized = true ∧ g'.nextchar = [] ∧
      min g'.firstNonopt g'.optind = min g'.lastNonopt g'.optind := by
  obtain ⟨hpos, hready⟩ := h
  have hne : g.optind ≠ 0 := Nat.one_le_iff_ne_zero.mp hpos
  refine ⟨_, rfl, ?_⟩
  unfold beginCall
  split
  · exact ⟨rfl, rfl, rfl, rfl⟩
  · rename_i hinit
    have hinit : g.initialized = true := by
      by_contra hcontra
      exact hinit (Or.inr hcontra)
    exact ⟨rfl, hinit, hready hinit⟩

/-- A call comes to the next element with nothing moved. -/
theorem getoptLongOnly_ready (posixlyCorrect : Bool) (optstring : List Char)
    (longopts : List LongOption) (h : g.Ready) (hstop : Stops isNonoption (argv.drop g.optind)) :
    ∃ g', g.Looking g' ∧ getoptLongOnly posixlyCorrect argv optstring longopts g =
      (let r := endMarker argv g'
       if r.2.optind = argv.length then
         (r.1, { code := -1,
                 vars := { r.2 with optind := if r.2.firstNonopt ≠ r.2.lastNonopt then
                                                r.2.firstNonopt else r.2.optind } })
       else if isNonoption (r.1.getD r.2.optind []) then
         if r.2.order = .requireOrder then (r.1, { code := -1, vars := r.2 })
         else
           (r.1, { code := 1,
                   vars := { r.2 with optarg := some (r.1.getD r.2.optind []),
                                      optind := r.2.optind + 1 } })
       else (r.1, optionElement r.1 (optionChars optstring) longopts r.2)) := by
  obtain ⟨g₁, hbegin, hoptind, hinit, hnext, hmin⟩ := beginCall_ready posixlyCorrect optstring h
  rw [← hoptind] at hstop
  obtain ⟨g₂, hsettle, hoptind', hinit', hnext', hnonopts⟩ := settle_of_option hmin hstop
  refine ⟨g₂, ⟨hoptind'.trans hoptind, hinit'.trans hinit, hnext'.trans hnext, hnonopts⟩, ?_⟩
  rw [getoptLongOnly, hbegin]
  dsimp only
  rw [if_pos hnext, nextElement, hsettle]

/-- The call at the end of the command line. -/
theorem getoptLongOnly_end (posixlyCorrect : Bool) (optstring : List Char)
    (longopts : List LongOption) (h : g.Ready) (hend : g.optind = argv.length) :
    (getoptLongOnly posixlyCorrect argv optstring longopts g).2.code = -1 := by
  have hdrop : argv.drop g.optind = [] := by
    rw [hend]
    exact List.drop_length
  have hstop : Stops isNonoption (argv.drop g.optind) := by
    rw [hdrop]
    exact stops_nil
  obtain ⟨g', hlook, hcall⟩ := getoptLongOnly_ready posixlyCorrect optstring longopts h hstop
  have hmarker : endMarker argv g' = (argv, g') := by
    rw [endMarker, if_neg]
    rw [hlook.optind, hend, List.getElem?_eq_none (Nat.le_refl _)]
    exact (Option.some_ne_none _).symm
  rw [hcall, hmarker]
  dsimp only
  rw [if_pos (hlook.optind.trans hend)]

/-- The call at a long option. -/
theorem getoptLongOnly_long (posixlyCorrect : Bool) (optstring : List Char)
    (longopts : List LongOption) {body : List Char} (h : g.Ready)
    (harg : argv[g.optind]? = some ('-' :: '-' :: body)) (hbody : body ≠ []) :
    ∃ g', g.Looking g' ∧ getoptLongOnly posixlyCorrect argv optstring longopts g =
      (argv, (processLongOption argv (optionChars optstring) longopts true
        { g' with nextchar := body }).getD { code := -1, vars := g' }) := by
  have hlt : g.optind < argv.length := (List.getElem?_eq_some_iff.mp harg).1
  have hoption : isNonoption ('-' :: '-' :: body) = false := rfl
  have hstop : Stops isNonoption (argv.drop g.optind) := by
    intro arg hhead
    rw [List.head?_drop, harg] at hhead
    rw [← Option.some.inj hhead]
    exact hoption
  obtain ⟨g', hlook, hcall⟩ := getoptLongOnly_ready posixlyCorrect optstring longopts h hstop
  rw [← hlook.optind] at harg hlt
  have hmarker : endMarker argv g' = (argv, g') := by
    rw [endMarker, if_neg]
    rw [harg]
    intro heq
    exact hbody (List.cons.inj (List.cons.inj (Option.some.inj heq)).2).2
  have hget : argv.getD g'.optind [] = '-' :: '-' :: body := by
    rw [List.getD_eq_getElem?_getD, harg]
    rfl
  refine ⟨g', hlook, ?_⟩
  rw [hcall, hmarker]
  dsimp only
  rw [if_neg (Nat.ne_of_lt hlt), hget, hoption, if_neg Bool.false_ne_true, optionElement, hget]
  rfl

/-- An option is found by its whole name, if no other option has it. -/
theorem matchLong_of_name (longOnly : Bool) (hnodup : (longopts.map LongOption.name).Nodup)
    {p : LongOption} {i : ℕ} (hp : longopts[i]? = some p) :
    matchLong longOnly longopts p.name = .found p i := by
  rw [matchLong]
  cases hfind : longopts.zipIdx.find? (fun x => x.1.name = p.name) with
  | none =>
      have hmem : (p, i) ∈ longopts.zipIdx := List.mk_mem_zipIdx_iff_getElem?.mpr hp
      exact absurd (decide_eq_true rfl) (List.find?_eq_none.mp hfind (p, i) hmem)
  | some x =>
      obtain ⟨q, j⟩ := x
      have hname : q.name = p.name := by
        have hfound := List.find?_some (p := fun x : LongOption × ℕ => x.1.name = p.name) hfind
        exact of_decide_eq_true hfound
      have hq : longopts[j]? = some q :=
        List.mk_mem_zipIdx_iff_getElem?.mp (List.mem_of_find?_eq_some hfind)
      have hsame : j = i := by
        obtain ⟨hj, hq⟩ := List.getElem?_eq_some_iff.mp hq
        obtain ⟨hi, hp⟩ := List.getElem?_eq_some_iff.mp hp
        have hj' : j < (longopts.map LongOption.name).length := by rwa [List.length_map]
        have hi' : i < (longopts.map LongOption.name).length := by rwa [List.length_map]
        have hnames : (longopts.map LongOption.name)[j] = (longopts.map LongOption.name)[i] := by
          rw [List.getElem_map, List.getElem_map, hq, hp, hname]
        exact (List.Nodup.getElem_inj_iff hnodup).mp hnames
      rw [hsame, hp] at hq
      rw [← Option.some.inj hq, hsame]

theorem matchLong_found {longOnly : Bool} {name : List Char} {p : LongOption} {i : ℕ}
    (h : matchLong longOnly longopts name = .found p i) : longopts[i]? = some p := by
  unfold matchLong at h
  split at h
  · rename_i x hfind
    obtain ⟨rfl, rfl⟩ := LongMatch.found.inj h
    exact List.mk_mem_zipIdx_iff_getElem?.mp (List.mem_of_find?_eq_some hfind)
  · split at h
    · cases h
    · rename_i x xs hfilter
      split at h
      · cases h
      · obtain ⟨rfl, rfl⟩ := LongMatch.found.inj h
        have hmem : x ∈ longopts.zipIdx.filter fun x => name.isPrefixOf x.1.name := by
          rw [hfilter]
          exact List.mem_cons_self
        exact List.mk_mem_zipIdx_iff_getElem?.mp (List.mem_filter.mp hmem).1

theorem processLongOption_of_found {longOnly : Bool} (argv : List (List Char))
    (optstring : List Char) {p : LongOption} {i : ℕ}
    (h : matchLong longOnly longopts (g.nextchar.takeWhile (· ≠ '=')) = .found p i) :
    processLongOption argv optstring longopts longOnly g =
      some (foundLong argv optstring p i (g.nextchar.dropWhile (· ≠ '=')) g) := by
  rw [processLongOption, h]

/-- After two dashes an option that is not found is not read in another way. -/
theorem processLongOption_of_not_found {longOnly : Bool} (optstring : List Char)
    (hdash : (argv.getD g.optind []).getD 1 nul = '-')
    (h : ∀ p i, matchLong longOnly longopts (g.nextchar.takeWhile (· ≠ '=')) ≠ .found p i) :
    processLongOption argv optstring longopts longOnly g =
      some { code := unknownCode, vars := { g with optind := g.optind + 1, nextchar := [] } } := by
  rw [processLongOption]
  cases hmatch : matchLong longOnly longopts (g.nextchar.takeWhile (· ≠ '=')) with
  | found p i => exact absurd hmatch (h p i)
  | ambiguous => rfl
  | unknown => exact if_pos (Or.inr (Or.inl hdash))

section

variable {p : LongOption} (argv : List (List Char)) (optstring : List Char) (i : ℕ) (g : Getopt)

theorem foundLong_plain (h : p.hasArg = .noArgument) : foundLong argv optstring p i [] g =
    { code := p.val, longind := some i,
      vars := { g with optind := g.optind + 1, nextchar := [] } } := by
  rw [foundLong]
  exact if_neg (by rw [h]; decide)

theorem foundLong_value (h : p.hasArg ≠ .noArgument) (c : Char) (value : List Char) :
    foundLong argv optstring p i (c :: value) g =
      { code := p.val, longind := some i,
        vars := { g with optind := g.optind + 1, nextchar := [], optarg := some value } } :=
  if_neg h

theorem foundLong_unwanted (h : p.hasArg = .noArgument) (c : Char) (value : List Char) :
    foundLong argv optstring p i (c :: value) g =
      { code := unknownCode, vars := { g with optind := g.optind + 1, nextchar := [] } } :=
  if_pos h

end

end
end KssUtil.Libc

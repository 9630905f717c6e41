import KssUtil.Libc.Exceptions
import KssUtil.Libc.Numbers
import Mathlib.Data.List.Nodup

/-!
# Argument vectors (argumentvector.hpp, argumentvector.cpp)

A vector of strings, and beside it a vector with the addresses of their characters.  Where the
characters stand after a call is up to the implementation: a string may be moved whenever the
vector grows or is assigned.  The functions take these places as an argument.
-/

namespace KssUtil.Options

open KssUtil.Libc

/-- A string in a vector: its characters, and where they stand. -/
structure StringAt where
  addr : ℕ
  chars : List Char
deriving DecidableEq, Repr

/-- `argumentPointers` are of the type `char*`; 0 is null. -/
structure ArgumentVector where
  argumentStrings : List StringAt
  argumentPointers : List ℕ
deriving DecidableEq, Repr

/-- A vector of strings, with the characters at `place`. -/
def placed (place : List ℕ) (texts : List (List Char)) : List StringAt :=
  (place.zip texts).map fun s => ⟨s.1, s.2⟩

namespace ArgumentVector

def empty : ArgumentVector := ⟨[], []⟩

/-- The contents of the strings -/
def texts (av : ArgumentVector) : List (List Char) := av.argumentStrings.map StringAt.chars

/-- Where the strings stand. -/
def addrs (av : ArgumentVector) : List ℕ := av.argumentStrings.map StringAt.addr

/-- What is read at `p`. -/
def readAt (av : ArgumentVector) (p : ℕ) : Option (List Char) :=
  (av.argumentStrings.find? fun s => s.addr = p).map StringAt.chars

/-- `rebuild()` -/
def rebuild (av : ArgumentVector) : ArgumentVector :=
  { av with argumentPointers := av.argumentStrings.foldl (fun ps s => ps ++ [s.addr]) [] }

/-- `argumentPointers.size() == argumentStrings.size()` -/
def sameSize (av : ArgumentVector) : Bool :=
  av.argumentPointers.length = av.argumentStrings.length

/-- `strcmp(argumentStrings.back().c_str(), argumentPointers.back()) == 0` -/
def lastMatches (av : ArgumentVector) : Bool :=
  match av.argumentStrings.getLast?, av.argumentPointers.getLast? with
  | some s, some p => (readAt av p).map cstr = some (cstr s.chars)
  | _, _ => false

/-- `add(string&&)` -/
def add (av : ArgumentVector) (arg : List Char) (place : List ℕ) : Except Exn ArgumentVector := do
  conditions av.sameSize
  let av' := rebuild { av with argumentStrings := placed place (av.texts ++ [arg]) }
  conditions (av'.argumentStrings.length = av.argumentStrings.length + 1 ∧ av'.sameSize ∧
    av'.lastMatches)
  return av'

/-- `add(first, last)`; the strings may move with each of them.  The iterators of the caller do not
throw, and neither do the allocations. -/
def addRange (av : ArgumentVector) (args : List (List Char)) (place : List ℕ) :
    Except Exn ArgumentVector :=
  if args.isEmpty then throw .invalidArgument
  else return rebuild { av with argumentStrings := placed place (av.texts ++ args) }

/-- `add(initializer_list<string>)` -/
def addList (av : ArgumentVector) (args : List (List Char)) (place : List ℕ) :
    Except Exn ArgumentVector := do
  parameters (args.length > 0)
  addRange av args place

/-- `ArgumentVector(initializer_list<string>)` -/
def construct (args : List (List Char)) (place : List ℕ) : Except Exn ArgumentVector := do
  let av ← if args.length > 0 then addList empty args place else pure empty
  conditions (av.argumentStrings.length = args.length ∧ av.sameSize)
  return av

/-- `ArgumentVector(const ArgumentVector&)` -/
def copy (av : ArgumentVector) (place : List ℕ) : Except Exn ArgumentVector := do
  let av' := rebuild ⟨placed place av.texts, []⟩
  conditions (av'.texts = av.texts ∧ av'.sameSize)
  return av'

/-- `operator=(const ArgumentVector&)` -/
def assign (self av : ArgumentVector) (same : Bool) (place : List ℕ) :
    Except Exn ArgumentVector := do
  let self' :=
    if same then self else rebuild { self with argumentStrings := placed place av.texts }
  conditions (self'.texts = av.texts ∧ self'.sameSize)
  return self'

/-- `argc()`, with the cast to `int` -/
def argc (av : ArgumentVector) : Except Exn ℤ := do
  conditions av.sameSize
  return (av.argumentPointers.length : ℤ).bmod (2 ^ 32)

/-- `argv()`: null, or the pointers that can be read there. -/
def argv (av : ArgumentVector) : Except Exn (Option (List ℕ)) := do
  conditions av.sameSize
  return if av.argumentPointers.length = 0 then none else some av.argumentPointers

/-- The pointers are those to the strings. -/
def Mirrors (av : ArgumentVector) : Prop := av.argumentPointers = av.addrs

/-- The vector that has `texts` at `place`. -/
def made (place : List ℕ) (texts : List (List Char)) : ArgumentVector :=
  ⟨placed place texts, place⟩

/-! ## What the methods make -/

section

variable {av : ArgumentVector} {place : List ℕ} {strs : List (List Char)}

theorem placed_addrs (h : place.length = strs.length) :
    (placed place strs).map StringAt.addr = place := by
  rw [placed, List.map_map]
  exact List.map_fst_zip h.le

theorem placed_chars (h : place.length = strs.length) :
    (placed place strs).map StringAt.chars = strs := by
  rw [placed, List.map_map]
  exact List.map_snd_zip h.ge

theorem length_placed (h : place.length = strs.length) :
    (placed place strs).length = strs.length := by
  have hlen := congrArg List.length (placed_chars h)
  rwa [List.length_map] at hlen

theorem length_texts (av : ArgumentVector) : av.texts.length = av.argumentStrings.length :=
  List.length_map _

/-- The loop of `rebuild` collects the addresses, behind those it has. -/
theorem foldl_addr (strings : List StringAt) : ∀ ps : List ℕ,
    strings.foldl (fun ps s => ps ++ [s.addr]) ps = ps ++ strings.map StringAt.addr := by
  induction strings with
  | nil =>
      intro ps
      exact (List.append_nil ps).symm
  | cons s strings ih =>
      intro ps
      rw [List.foldl_cons, ih, List.append_assoc, List.map_cons, List.singleton_append]

theorem rebuild_eq (av : ArgumentVector) : rebuild av = ⟨av.argumentStrings, av.addrs⟩ := by
  rw [rebuild, foldl_addr, List.nil_append, addrs]

theorem rebuild_placed (h : place.length = strs.length) (ps : List ℕ) :
    rebuild ⟨placed place strs, ps⟩ = made place strs := by
  rw [rebuild_eq, made, addrs, placed_addrs h]

theorem Mirrors.sameSize (h : Mirrors av) : av.sameSize = true := by
  rw [Mirrors] at h
  rw [ArgumentVector.sameSize, decide_eq_true_eq, h, addrs, List.length_map]

theorem made_mirrors (h : place.length = strs.length) : Mirrors (made place strs) := by
  rw [Mirrors, made, addrs, placed_addrs h]

theorem texts_made (h : place.length = strs.length) : (made place strs).texts = strs :=
  placed_chars h

theorem addrs_made (h : place.length = strs.length) : (made place strs).addrs = place :=
  placed_addrs h

theorem empty_mirrors : Mirrors empty := rfl

/-- At the place of a string there is no other one. -/
theorem readAt_of_mem (hnodup : av.addrs.Nodup) {s : StringAt} (hs : s ∈ av.argumentStrings) :
    readAt av s.addr = some s.chars := by
  rw [readAt]
  cases hfind : av.argumentStrings.find? fun t => decide (t.addr = s.addr) with
  | none => exact absurd (decide_eq_true rfl) (List.find?_eq_none.mp hfind s hs)
  | some t =>
      have haddr := List.find?_some (p := fun t : StringAt => decide (t.addr = s.addr)) hfind
      rw [decide_eq_true_eq] at haddr
      rw [List.inj_on_of_nodup_map hnodup (List.mem_of_find?_eq_some hfind) hs haddr]
      rfl

theorem lastMatches_made (h : place.length = strs.length) (hne : strs ≠ [])
    (hnodup : place.Nodup) : (made place strs).lastMatches = true := by
  have hmade := addrs_made h
  have hlast : (made place strs).argumentStrings ≠ [] := by
    intro hnil
    have hlen := length_placed h
    rw [show placed place strs = [] from hnil] at hlen
    exact hne (List.length_eq_zero_iff.mp hlen.symm)
  have hpointer : (made place strs).argumentPointers.getLast? =
      some ((made place strs).argumentStrings.getLast hlast).addr := by
    have hmap : (made place strs).argumentPointers =
        (made place strs).argumentStrings.map StringAt.addr := hmade.symm
    rw [hmap, List.getLast?_map, List.getLast?_eq_some_getLast hlast]
    rfl
  rw [lastMatches, hpointer, List.getLast?_eq_some_getLast hlast]
  dsimp only
  have hread : readAt (made place strs) ((made place strs).argumentStrings.getLast hlast).addr =
      some ((made place strs).argumentStrings.getLast hlast).chars := by
    apply readAt_of_mem _ (List.getLast_mem hlast)
    rw [hmade]
    exact hnodup
  rw [hread]
  exact decide_eq_true rfl

theorem add_eq (hmirrors : Mirrors av) {arg : List Char}
    (h : place.length = (av.texts ++ [arg]).length) (hnodup : place.Nodup) :
    add av arg place = .ok (made place (av.texts ++ [arg])) := by
  have hpost : decide ((made place (av.texts ++ [arg])).argumentStrings.length =
      av.argumentStrings.length + 1 ∧ (made place (av.texts ++ [arg])).sameSize = true ∧
      (made place (av.texts ++ [arg])).lastMatches = true) = true := by
    refine decide_eq_true ⟨?_, (made_mirrors h).sameSize,
      lastMatches_made h (List.append_ne_nil_of_right_ne_nil _ (List.cons_ne_nil _ _)) hnodup⟩
    rw [made, length_placed h, List.length_append, length_texts, List.length_singleton]
  rw [add, conditions_bind hmirrors.sameSize]
  dsimp only
  rw [rebuild_placed h, conditions_bind hpost]
  rfl

theorem addRange_eq {args : List (List Char)} (hne : args ≠ [])
    (h : place.length = (av.texts ++ args).length) :
    addRange av args place = .ok (made place (av.texts ++ args)) := by
  rw [addRange, if_neg (mt List.isEmpty_iff.mp hne), rebuild_placed h]
  rfl

theorem addRange_nil (av : ArgumentVector) (place : List ℕ) :
    addRange av [] place = .error .invalidArgument := rfl

theorem addList_eq {args : List (List Char)} (hne : args ≠ [])
    (h : place.length = (av.texts ++ args).length) :
    addList av args place = .ok (made place (av.texts ++ args)) := by
  rw [addList, parameters_bind (decide_eq_true (List.length_pos_iff.mpr hne))]
  exact addRange_eq hne h

theorem addList_nil (av : ArgumentVector) (place : List ℕ) :
    addList av [] place = .error .invalidArgument := rfl

theorem construct_eq {args : List (List Char)} (h : place.length = args.length) :
    construct args place = .ok (made place args) := by
  have hpost : decide ((made place args).argumentStrings.length = args.length ∧
      (made place args).sameSize = true) = true :=
    decide_eq_true ⟨length_placed h, (made_mirrors h).sameSize⟩
  rw [construct]
  split
  · rename_i hpos
    have hlist : addList empty args place = .ok (made place args) :=
      addList_eq (List.length_pos_iff.mp hpos) h
    rw [hlist, ok_bind]
    dsimp only
    rw [conditions_bind hpost]
    rfl
  · rename_i hzero
    obtain rfl : args = [] := List.length_eq_zero_iff.mp (Nat.eq_zero_of_not_pos hzero)
    obtain rfl : place = [] := List.length_eq_zero_iff.mp h
    rfl

/-- What the copies check at their end. -/
theorem made_copies (h : place.length = strs.length) :
    decide ((made place strs).texts = strs ∧ (made place strs).sameSize = true) = true :=
  decide_eq_true ⟨texts_made h, (made_mirrors h).sameSize⟩

theorem copy_eq (h : place.length = av.texts.length) :
    copy av place = .ok (made place av.texts) := by
  rw [copy]
  rw [rebuild_placed h, conditions_bind (made_copies h)]
  rfl

theorem assign_eq {self : ArgumentVector} (h : place.length = av.texts.length) :
    assign self av false place = .ok (made place av.texts) := by
  rw [assign]
  rw [if_neg Bool.false_ne_true, rebuild_placed h, conditions_bind (made_copies h)]
  rfl

theorem assign_self (h : Mirrors av) (place : List ℕ) : assign av av true place = .ok av := by
  rw [assign]
  rw [if_pos rfl, conditions_bind (decide_eq_true ⟨rfl, h.sameSize⟩)]
  rfl

theorem argc_eq (h : Mirrors av) (hlt : av.texts.length < 2 ^ 31) :
    argc av = .ok av.texts.length := by
  have hlen : av.argumentPointers.length = av.texts.length := by
    rw [show av.argumentPointers = av.addrs from h, addrs, List.length_map, length_texts]
  rw [argc, conditions_bind h.sameSize, hlen, Int.bmod_eq_of_le (by omega) (by omega)]
  rfl

theorem argv_eq (h : Mirrors av) :
    argv av = .ok (if av.texts = [] then none else some av.addrs) := by
  have hpointers : av.argumentPointers = av.addrs := h
  have hempty : av.addrs.length = 0 ↔ av.texts = [] := by
    rw [← List.length_eq_zero_iff, addrs, List.length_map, length_texts]
  rw [argv, conditions_bind h.sameSize, hpointers]
  simp only [hempty]
  rfl

end

end ArgumentVector
end KssUtil.Options

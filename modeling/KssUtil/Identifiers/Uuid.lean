import KssUtil.Identifiers.CanonicalText
import KssUtil.Libc.Exceptions

/-!
# UUIDs (uuid.cpp)

The class `UUID` around the `uuid_t` of `libuuid`.  The empty value is null: its text is
empty, and a text that is parsed may not denote it.
-/

namespace KssUtil.Identifiers

open KssUtil.Libc

/-- The calls of `libuuid`; `parse` is `none` where `uuid_parse` returns -1. -/
structure UuidLibrary where
  unparseLower : Uuid → List Char
  parse : List Char → Option Uuid
  compare : Uuid → Uuid → ℤ

/-- What the library promises. -/
structure UuidLibrary.Lawful (lib : UuidLibrary) : Prop where
  unparse_ne_nul : ∀ u, ∀ c ∈ lib.unparseLower u, c ≠ nul
  parse_unparse : ∀ u, lib.parse (lib.unparseLower u) = some u
  parse_length : ∀ s u, lib.parse s = some u → s.length = 36
  compare_eq_zero : ∀ u v, lib.compare u v = 0 ↔ u = v

/-- `uuid_clear` -/
def uuidClear : Uuid := ⟨List.replicate 16 0, List.length_replicate⟩

def uuidIsNull (u : Uuid) : Bool := u.bytes.all (· == 0)

/-- `operator bool` -/
def operatorBool (u : Uuid) : Bool := !uuidIsNull u

variable (lib : UuidLibrary)

def operatorEq (u uid : Uuid) : Bool := lib.compare u uid = 0

/-- `UUID()` -/
def construct : Except Exn Uuid := do
  conditions (operatorBool uuidClear == false)
  return uuidClear

/-- `UUID(const UUID&)` -/
def constructCopy (uid : Uuid) : Except Exn Uuid := do
  conditions (operatorEq lib uid uid)
  return uid

/-- `UUID(uuid_t)` -/
def constructFrom (uid : Uuid) : Except Exn Uuid := do
  conditions (lib.compare uid uid = 0)
  return uid

/-- `UUID(const string&)` -/
def constructParse (suid : List Char) : Except Exn Uuid :=
  match lib.parse (cstr suid) with
  | none => throw .invalidArgument
  | some uid => do
      conditions (operatorBool uid == true)
      return uid

/-- `operator string` -/
def operatorString (u : Uuid) : List Char :=
  if operatorBool u == false then [] else cstr (lib.unparseLower u)

/-- What is copied to `uid`, which may be null. -/
def copyInto (u : Uuid) (uid : Option Uuid) : Except Exn Uuid := do
  parameters uid.isSome
  conditions (lib.compare u u = 0)
  return u

/-- `operator=(const UUID&)`; an assignment to itself copies nothing. -/
def assign (u uid : Uuid) (same : Bool) : Except Exn Uuid := do
  let u' := if same then u else uid
  conditions (operatorEq lib u' uid)
  return u'

/-- `operator=(uuid_t)` -/
def assignFrom (uid : Uuid) : Except Exn Uuid := do
  conditions (lib.compare uid uid = 0)
  return uid

def clear : Except Exn Uuid := do
  conditions (operatorBool uuidClear == false)
  return uuidClear

/-- `UUID::null()` -/
def null : Except Exn Uuid := do
  let uid ← construct
  conditions (operatorBool uid == false)
  return uid

/-! ## The null value -/

section

variable {lib} {u v : Uuid}

theorem uuidIsNull_iff : uuidIsNull u = true ↔ u = uuidClear := by
  have hclear : u = uuidClear ↔ u.bytes = List.replicate 16 0 := by
    cases u
    rw [uuidClear, Uuid.mk.injEq]
  rw [hclear, List.eq_replicate_iff, and_iff_right u.length_eq, uuidIsNull, List.all_eq_true]
  simp only [beq_iff_eq]

theorem operatorBool_iff : operatorBool u = true ↔ u ≠ uuidClear := by
  rw [operatorBool, Bool.not_eq_true', ← Bool.not_eq_true, uuidIsNull_iff]

theorem operatorBool_clear : operatorBool uuidClear = false := by
  rw [← Bool.not_eq_true, operatorBool_iff]
  exact not_not.mpr rfl

theorem operatorString_clear : operatorString lib uuidClear = [] := by
  rw [operatorString, operatorBool_clear]
  rfl

/-- The text of another value is the one of the library. -/
theorem operatorString_of_ne (hlib : lib.Lawful) (h : u ≠ uuidClear) :
    operatorString lib u = lib.unparseLower u := by
  rw [operatorString, operatorBool_iff.mpr h, cstr_of_ne (hlib.unparse_ne_nul u)]
  rfl

theorem operatorEq_iff (hlib : lib.Lawful) : operatorEq lib u v = true ↔ u = v := by
  rw [operatorEq, decide_eq_true_eq, hlib.compare_eq_zero]

/-! ## Contracts -/

theorem constructParse_of_ne {s : List Char} (hparse : lib.parse (cstr s) = some u)
    (h : u ≠ uuidClear) : constructParse lib s = .ok u := by
  rw [constructParse, hparse]
  dsimp only
  rw [operatorBool_iff.mpr h]
  rfl

theorem constructParse_of_none {s : List Char} (hparse : lib.parse (cstr s) = none) :
    constructParse lib s = .error .invalidArgument := by
  rw [constructParse, hparse]
  rfl

/-- A text of the null value ends the program. -/
theorem constructParse_of_clear {s : List Char} (hparse : lib.parse (cstr s) = some uuidClear) :
    constructParse lib s = .error .aborted := by
  rw [constructParse, hparse]
  dsimp only
  rw [operatorBool_clear]
  rfl

/-- The empty string is too short. -/
theorem constructParse_nil (hlib : lib.Lawful) :
    constructParse lib [] = .error .invalidArgument := by
  apply constructParse_of_none
  cases hparse : lib.parse (cstr []) with
  | none => rfl
  | some u => exact absurd (hlib.parse_length _ u hparse) (by decide)

/-- The other contracts hold, for any value. -/
theorem contracts_hold (hlib : lib.Lawful) (u uid : Uuid) :
    construct = .ok uuidClear ∧ constructCopy lib uid = .ok uid ∧
      constructFrom lib uid = .ok uid ∧ copyInto lib u (some uid) = .ok u ∧
      (∀ same, (same = true → u = uid) → assign lib u uid same = .ok uid) ∧
      assignFrom lib uid = .ok uid ∧ clear = .ok uuidClear ∧ null = .ok uuidClear := by
  have hcompare : ∀ v, decide (lib.compare v v = 0) = true := fun v =>
    decide_eq_true ((hlib.compare_eq_zero v v).mpr rfl)
  have heq : ∀ v, operatorEq lib v v = true := fun v => (operatorEq_iff hlib).mpr rfl
  refine ⟨rfl, ?_, ?_, ?_, ?_, ?_, rfl, rfl⟩
  · rw [constructCopy, conditions_bind (heq uid)]
    rfl
  · rw [constructFrom, conditions_bind (hcompare uid)]
    rfl
  · rw [copyInto, parameters_bind Option.isSome_some, conditions_bind (hcompare u)]
    rfl
  · intro same hsame
    have hassigned : (if same = true then u else uid) = uid := by
      split
      · rename_i h
        exact hsame h
      · rfl
    rw [assign, hassigned, conditions_bind (heq uid)]
    rfl
  · rw [assignFrom, conditions_bind (hcompare uid)]
    rfl

end

/-! ## Text -/

/-- **The text of a UUID.**  A value that is not null is read back from its text, and from any
text of it.  The text of null is empty, and is refused. -/
theorem uuid_text {lib : UuidLibrary} (hlib : lib.Lawful) :
    (∀ u, u ≠ uuidClear → ∃ v, constructParse lib (operatorString lib u) = .ok v ∧
      operatorEq lib v u = true) ∧
    operatorString lib uuidClear = [] ∧
    constructParse lib [] = .error .invalidArgument ∧
    ∀ s u, lib.parse (cstr s) = some u → u ≠ uuidClear → constructParse lib s = .ok u := by
  refine ⟨?_, operatorString_clear, constructParse_nil hlib, fun s u => constructParse_of_ne⟩
  intro u hu
  have hparse : lib.parse (cstr (operatorString lib u)) = some u := by
    rw [operatorString_of_ne hlib hu, cstr_of_ne (hlib.unparse_ne_nul u), hlib.parse_unparse]
  exact ⟨u, constructParse_of_ne hparse hu, (operatorEq_iff hlib).mpr rfl⟩

/-- The library with its canonical text, and the values in the order of their bytes. -/
def canonicalLibrary : UuidLibrary where
  unparseLower := canonicalText
  parse := parseCanonical
  compare u v := if u = v then 0 else if u.bytes < v.bytes then -1 else 1

theorem canonicalLibrary_lawful : canonicalLibrary.Lawful where
  unparse_ne_nul := ne_nul_of_mem_canonicalText
  parse_unparse := parseCanonical_canonicalText
  parse_length _ _ := length_of_parseCanonical
  compare_eq_zero u v := by
    show (if u = v then (0 : ℤ) else if u.bytes < v.bytes then -1 else 1) = 0 ↔ u = v
    split
    · rename_i h
      exact iff_of_true rfl h
    · rename_i h
      refine iff_of_false ?_ h
      split <;> decide

/-- The value with 1 in every byte -/
def onesUuid : Uuid := ⟨List.replicate 16 1, List.length_replicate⟩

theorem uuid_text_ones :
    ∃ v, constructParse canonicalLibrary (operatorString canonicalLibrary onesUuid) = .ok v ∧
      operatorEq canonicalLibrary v onesUuid = true :=
  (uuid_text canonicalLibrary_lawful).1 onesUuid (by decide)

/-- The null value is not read back. -/
theorem uuid_null_not_read :
    ¬ ∃ v, constructParse canonicalLibrary (operatorString canonicalLibrary uuidClear) =
      .ok v := by
  rw [operatorString_clear, constructParse_nil canonicalLibrary_lawful]
  rintro ⟨v, h⟩
  cases h

end KssUtil.Identifiers

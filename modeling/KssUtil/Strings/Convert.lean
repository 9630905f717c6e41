import KssUtil.Time.DurationStreams

/-!
# Conversions of strings (convert.cpp, stringutil.cpp)

The conversions to integers and to durations.
-/

namespace KssUtil.Strings

open KssUtil.Foundation KssUtil.Libc KssUtil.Time

/-- `kss_ends_with`, of C strings -/
def kssEndsWith (str suffix : List Char) : Bool :=
  if suffix.length = 0 then true
  else if str.length < suffix.length then false
  else str.drop (str.length - suffix.length) = suffix

def endsWith (str suffix : List Char) : Bool := kssEndsWith (cstr str) (cstr suffix)

/-! ## Integers -/

namespace Integer

inductive Errno where
  | EINVAL
  | ERANGE
deriving DecidableEq, Repr

/-- `invalid_argument` is of the contract, `system_error` of `throwException`. -/
inductive Error where
  | invalidArgument
  | systemError (error : Errno)
deriving DecidableEq, Repr

/-- What is thrown, without the code. -/
def Error.exn : Error → Exn
  | invalidArgument => .invalidArgument
  | systemError _ => .systemError

def throwException {α : Type} (error : Errno) : Except Error α := throw (.systemError error)

/-- `fn` sets `errno` to `ERANGE` or leaves it alone. -/
def doConvert (s : List Char) (fn : List Char → Strtol) : Except Error ℤ :=
  if s.isEmpty then throw .invalidArgument
  else
    let t := fn (cstr s)
    let errno := if t.erange then some Errno.ERANGE else none
    if errno = none ∧ cstr s = t.endptr then throwException .EINVAL
    else
      match errno with
      | some errno => throwException errno
      | none => return t.value

def doConvertInt (s : List Char) (fn : List Char → ℕ → Strtol) : Except Error ℤ :=
  doConvert s fun sptr => fn sptr 0

/-- `convert<long>`; the counts of the standard durations are of this type. -/
def convertLong (s : List Char) : Except Error ℤ := doConvertInt s strtol

end Integer

/-! ## Durations -/

def doConvertKnownDuration (source target : DurationType) (s : List Char) : Except Exn ℤ := do
  let count ← (Integer.convertLong s).mapError Integer.Error.exn
  checkedDurationCast target source count

def doConvertDuration (D : DurationType) (s : List Char) : Except Exn ℤ :=
  if s.isEmpty then throw .invalidArgument
  else if endsWith s ['n', 's'] then doConvertKnownDuration .nanoseconds D s
  else if endsWith s ['u', 's'] then doConvertKnownDuration .microseconds D s
  else if endsWith s ['m', 's'] then doConvertKnownDuration .milliseconds D s
  else if endsWith s ['s'] then doConvertKnownDuration .seconds D s
  else if endsWith s ['m', 'i', 'n'] then doConvertKnownDuration .minutes D s
  else if endsWith s ['h'] then doConvertKnownDuration .hours D s
  else throw .systemError

/-- The specialization of `convert` for a standard duration. -/
def convert (target : DurationUnit) (s : List Char) : Except Exn ℤ :=
  doConvertDuration target.duration s

section

theorem kssEndsWith_iff {str suffix : List Char} :
    kssEndsWith str suffix = true ↔ suffix <:+ str := by
  unfold kssEndsWith
  split
  · rename_i hlen
    rw [List.length_eq_zero_iff.mp hlen]
    exact iff_of_true rfl List.nil_suffix
  · split
    · rename_i hlen
      refine iff_of_false Bool.false_ne_true ?_
      intro h
      exact absurd h.length_le (Nat.not_le_of_lt hlen)
    · rw [decide_eq_true_eq]
      constructor
      · intro h
        rw [← h]
        exact List.drop_suffix _ _
      · intro h
        exact (List.suffix_iff_eq_drop.mp h).symm

end

namespace Integer

/-! ## The C functions -/

section

variable {s rest : List Char} {v : ℤ} {fn : List Char → ℕ → Strtol} {endptr : List Char}

theorem doConvertInt_of_ok (hs : s ≠ []) (hfn : fn (cstr s) 0 = ⟨v, endptr, false⟩)
    (hend : cstr s ≠ endptr) : doConvertInt s fn = .ok v := by
  rw [doConvertInt, doConvert, if_neg fun h => hs (List.isEmpty_iff.mp h), hfn]
  dsimp only
  rw [if_neg fun h => hend h.2]
  rfl

theorem doConvertInt_of_erange (hs : s ≠ []) (hfn : fn (cstr s) 0 = ⟨v, endptr, true⟩) :
    doConvertInt s fn = .error (.systemError .ERANGE) := by
  rw [doConvertInt, doConvert, if_neg fun h => hs (List.isEmpty_iff.mp h), hfn]
  rfl

/-- Nothing is read. -/
theorem doConvertInt_of_none (hs : s ≠ []) (hfn : fn (cstr s) 0 = ⟨0, cstr s, false⟩) :
    doConvertInt s fn = .error (.systemError .EINVAL) := by
  rw [doConvertInt, doConvert, if_neg fun h => hs (List.isEmpty_iff.mp h), hfn]
  dsimp only
  rw [if_pos ⟨rfl, rfl⟩]
  rfl

theorem endptr_ne (h : scanInteger 0 (cstr s) = some (v, rest)) : cstr s ≠ rest := by
  intro heq
  have hlt := length_rest_lt h
  rw [heq] at hlt
  exact Nat.lt_irrefl _ hlt

theorem ne_nil_of_scan (h : scanInteger 0 (cstr s) = some (v, rest)) : s ≠ [] := by
  rintro rfl
  exact Nat.not_lt_zero _ (length_rest_lt h)

/-! ## `long` -/

theorem convertLong_of_scan (h : scanInteger 0 (cstr s) = some (v, rest)) : convertLong s =
    if longMin ≤ v ∧ v ≤ longMax then .ok v else .error (.systemError .ERANGE) := by
  have hs := ne_nil_of_scan h
  have hfn := strtol_of_some h
  by_cases hin : longMin ≤ v ∧ v ≤ longMax
  · have hout : ¬(v < longMin ∨ v > longMax) :=
      not_or.mpr ⟨not_lt.mpr hin.1, not_lt.mpr hin.2⟩
    rw [decide_eq_false hout, clampLong_of_mem hin] at hfn
    rw [if_pos hin]
    exact doConvertInt_of_ok hs hfn (endptr_ne h)
  · have hout : v < longMin ∨ v > longMax := by
      by_contra h
      rw [not_or] at h
      exact hin ⟨not_lt.mp h.1, not_lt.mp h.2⟩
    rw [decide_eq_true hout] at hfn
    rw [if_neg hin]
    exact doConvertInt_of_erange hs hfn

theorem convertLong_of_scan_none (hs : s ≠ []) (h : scanInteger 0 (cstr s) = none) :
    convertLong s = .error (.systemError .EINVAL) :=
  doConvertInt_of_none hs (strtol_of_none h)

theorem convertLong_of_reads (h : ReadsLiteral (cstr s) v) : convertLong s =
    if longMin ≤ v ∧ v ≤ longMax then .ok v else .error (.systemError .ERANGE) := by
  obtain ⟨rest, hscan⟩ := scanInteger_zero.mpr h
  exact convertLong_of_scan hscan

theorem convertLong_of_not_reads (hs : s ≠ []) (h : ¬ ∃ v, ReadsLiteral (cstr s) v) :
    convertLong s = .error (.systemError .EINVAL) := by
  refine convertLong_of_scan_none hs ?_
  cases hscan : scanInteger 0 (cstr s) with
  | none => rfl
  | some r => exact absurd ⟨r.1, scanInteger_zero.mp ⟨r.2, hscan⟩⟩ h

end

end Integer
end KssUtil.Strings

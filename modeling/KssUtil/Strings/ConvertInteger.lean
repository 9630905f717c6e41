import KssUtil.Libc.Literals
import KssUtil.Strings.Convert

/-!
# Conversions to integers (convert.cpp)

The specializations of `convert` for `int`, `long` and their unsigned types, with the
error codes they throw.  An `int` has 32 bits and a `long` has 64.
-/

namespace KssUtil.Strings.Integer

open KssUtil.Foundation KssUtil.Libc

/-- "\t\n\v\f\r " -/
def spaces : List Char := ['\t', '\n', '\x0b', '\x0c', '\r', ' ']

/-- The character at `s.find_first_not_of(chars)`, if there is one. -/
def firstNotOf (s chars : List Char) : Option Char := s.find? fun c => !chars.contains c

def doConvertUnsigned (s : List Char) (fn : List Char → ℕ → Strtol) : Except Error ℤ :=
  if firstNotOf s spaces = some '-' then throwException .EINVAL else doConvertInt s fn

def intMin : ℤ := -2147483648
def intMax : ℤ := 2147483647
def uintMax : ℤ := 4294967295

def convertInt (s : List Char) : Except Error ℤ := do
  let val ← convertLong s
  if val < intMin ∨ val > intMax then throwException .ERANGE else return val

def convertUnsignedLong (s : List Char) : Except Error ℤ := doConvertUnsigned s strtoul

def convertUnsigned (s : List Char) : Except Error ℤ := do
  let val ← convertUnsignedLong s
  if val > uintMax then throwException .ERANGE else return val

/-- `std::to_string`, which writes as a stream does. -/
def toString (n : ℤ) : List Char := insertInteger n

/-! ## The four types -/

inductive Target where
  | int
  | long
  | unsigned
  | unsignedLong
deriving DecidableEq, Repr

namespace Target

def min : Target → ℤ
  | int => intMin
  | long => longMin
  | _ => 0

def max : Target → ℤ
  | int => intMax
  | long => longMax
  | unsigned => uintMax
  | unsignedLong => ulongMax

def isUnsigned : Target → Bool
  | unsigned | unsignedLong => true
  | _ => false

def convert : Target → List Char → Except Error ℤ
  | int => convertInt
  | long => convertLong
  | unsigned => convertUnsigned
  | unsignedLong => convertUnsignedLong

end Target

/-- The first character that is no white space is a minus. -/
def StartsWithMinus (s : List Char) : Prop := (s.find? fun c => !isspace c) = some '-'

/-- The conversion gives the integer that the text denotes, or throws the code for what
is wrong with it. -/
structure Exact (target : Target) (s : List Char) : Prop where
  denoted : ∀ v, Denotes s v → ¬(target.isUnsigned = true ∧ StartsWithMinus s) →
    target.convert s = if target.min ≤ v ∧ v ≤ target.max then .ok v
      else .error (.systemError .ERANGE)
  nothing : (¬ ∃ v, Denotes s v) → target.convert s = .error (.systemError .EINVAL)
  minus : target.isUnsigned = true → StartsWithMinus s →
    target.convert s = .error (.systemError .EINVAL)

/-! ## `long` and `int` -/

section

variable {s rest : List Char} {v : ℤ}

theorem ne_nil_of_denotes (h : Denotes s v) : s ≠ [] := by
  obtain ⟨rest, hscan⟩ := scan_of_denotes h
  exact ne_nil_of_scan hscan

theorem convertLong_of_denotes (h : Denotes s v) : convertLong s =
    if longMin ≤ v ∧ v ≤ longMax then .ok v else .error (.systemError .ERANGE) := by
  obtain ⟨rest, hscan⟩ := scan_of_denotes h
  exact convertLong_of_scan hscan

theorem convertLong_of_nothing (hs : s ≠ []) (h : ¬ ∃ v, Denotes s v) :
    convertLong s = .error (.systemError .EINVAL) :=
  convertLong_of_scan_none hs (scan_none_iff.mpr h)

theorem exact_long (hs : s ≠ []) : Exact .long s where
  denoted _ h _ := convertLong_of_denotes h
  nothing := convertLong_of_nothing hs
  minus h := absurd h Bool.false_ne_true

/-- A second check of a smaller type. -/
theorem narrowed {lo hi lo' hi' : ℤ} {out : ℤ → Prop} [DecidablePred out] (hlo : lo ≤ lo')
    (hhi : hi' ≤ hi) (hout : lo ≤ v → (out v ↔ ¬(lo' ≤ v ∧ v ≤ hi'))) :
    ((if lo ≤ v ∧ v ≤ hi then (.ok v : Except Error ℤ) else .error (.systemError .ERANGE)) >>=
      fun val => if out val then throwException .ERANGE else return val) =
    if lo' ≤ v ∧ v ≤ hi' then .ok v else .error (.systemError .ERANGE) := by
  by_cases hwide : lo ≤ v ∧ v ≤ hi
  · rw [if_pos hwide]
    show (if out v then _ else _) = _
    by_cases hnarrow : lo' ≤ v ∧ v ≤ hi'
    · rw [if_neg fun h => (hout hwide.1).mp h hnarrow, if_pos hnarrow]
      rfl
    · rw [if_pos ((hout hwide.1).mpr hnarrow), if_neg hnarrow]
      rfl
  · have hnarrow : ¬(lo' ≤ v ∧ v ≤ hi') := fun h => hwide ⟨hlo.trans h.1, h.2.trans hhi⟩
    rw [if_neg hwide, if_neg hnarrow]
    rfl

theorem exact_int (hs : s ≠ []) : Exact .int s where
  denoted v h _ := by
    show convertInt s = if intMin ≤ v ∧ v ≤ intMax then _ else _
    rw [convertInt, convertLong_of_denotes h]
    apply narrowed (by decide) (by decide)
    intro _
    rw [not_and_or, not_le, not_le]
  nothing h := by
    show convertInt s = _
    rw [convertInt, convertLong_of_nothing hs h]
    rfl
  minus h := absurd h Bool.false_ne_true

/-! ## The unsigned types -/

/-- The characters that are looked for are the white space of the C functions. -/
theorem contains_spaces (c : Char) : spaces.contains c = isspace c := by
  have hcodes : spaces.map Char.toNat = [9, 10, 11, 12, 13, 32] := by decide
  have hmem : spaces.contains c = true ↔ c.toNat ∈ spaces.map Char.toNat := by
    rw [List.contains_iff_mem, List.mem_map]
    constructor
    · intro h
      exact ⟨c, h, rfl⟩
    · rintro ⟨d, hd, heq⟩
      obtain rfl : d = c := Char.ext (UInt32.toNat_inj.mp heq)
      exact hd
  rw [Bool.eq_iff_iff, hmem, hcodes, isspace, decide_eq_true_eq]
  simp only [List.mem_cons, List.not_mem_nil, or_false]
  omega

theorem firstNotOf_spaces : firstNotOf s spaces = some '-' ↔ StartsWithMinus s := by
  have hsame : (fun c => !spaces.contains c) = fun c => !isspace c := by
    ext1 c
    rw [contains_spaces]
  rw [firstNotOf, hsame, StartsWithMinus]

/-- A negative literal begins with a minus. -/
theorem nonneg_of_denotes (h : Denotes s v) (hminus : ¬ StartsWithMinus s) : 0 ≤ v := by
  obtain ⟨pre, ⟨t, rfl⟩, ⟨ws, sg, negative, body, m, rfl, hws, hsg, -, rfl⟩, -⟩ := h
  rcases hsg with ⟨-, rfl⟩ | ⟨-, rfl⟩ | ⟨rfl, rfl⟩
  · exact Int.natCast_nonneg m
  · exact Int.natCast_nonneg m
  · refine absurd ?_ hminus
    have hnone : ws.find? (fun c => !isspace c) = none := by
      rw [List.find?_eq_none]
      intro c hc
      rw [hws c hc]
      exact Bool.false_ne_true
    rw [StartsWithMinus, List.append_assoc, List.find?_append, hnone]
    rfl

theorem convertUnsignedLong_of_denotes (h : Denotes s v) (hminus : ¬ StartsWithMinus s) :
    convertUnsignedLong s =
      if 0 ≤ v ∧ v ≤ ulongMax then .ok v else .error (.systemError .ERANGE) := by
  have hs := ne_nil_of_denotes h
  have hv := nonneg_of_denotes h hminus
  obtain ⟨rest, hscan⟩ := scan_of_denotes h
  have hfn := strtoul_of_nonneg hscan hv
  rw [convertUnsignedLong, doConvertUnsigned, if_neg fun h => hminus (firstNotOf_spaces.mp h)]
  by_cases hmax : v ≤ ulongMax
  · rw [if_pos hmax] at hfn
    rw [if_pos ⟨hv, hmax⟩]
    exact doConvertInt_of_ok hs hfn (endptr_ne hscan)
  · rw [if_neg hmax] at hfn
    rw [if_neg fun h => hmax h.2]
    exact doConvertInt_of_erange hs hfn

theorem convertUnsignedLong_of_minus (hminus : StartsWithMinus s) :
    convertUnsignedLong s = .error (.systemError .EINVAL) := by
  rw [convertUnsignedLong, doConvertUnsigned, if_pos (firstNotOf_spaces.mpr hminus)]
  rfl

theorem convertUnsignedLong_of_nothing (hs : s ≠ []) (h : ¬ ∃ v, Denotes s v) :
    convertUnsignedLong s = .error (.systemError .EINVAL) := by
  by_cases hminus : StartsWithMinus s
  · exact convertUnsignedLong_of_minus hminus
  · rw [convertUnsignedLong, doConvertUnsigned, if_neg fun h => hminus (firstNotOf_spaces.mp h)]
    exact doConvertInt_of_none hs (strtoul_of_none (scan_none_iff.mpr h))

theorem exact_unsignedLong (hs : s ≠ []) : Exact .unsignedLong s where
  denoted _ h hminus := convertUnsignedLong_of_denotes h fun hm => hminus ⟨rfl, hm⟩
  nothing := convertUnsignedLong_of_nothing hs
  minus _ := convertUnsignedLong_of_minus

theorem exact_unsigned (hs : s ≠ []) : Exact .unsigned s where
  denoted _ h hminus := by
    show convertUnsigned s = if 0 ≤ _ ∧ _ ≤ uintMax then _ else _
    rw [convertUnsigned, convertUnsignedLong_of_denotes h fun hm => hminus ⟨rfl, hm⟩]
    apply narrowed (Int.le_refl 0) (by decide)
    intro hv
    rw [not_and_or, not_le, not_le, or_iff_right (not_lt.mpr hv)]
  nothing h := by
    show convertUnsigned s = _
    rw [convertUnsigned, convertUnsignedLong_of_nothing hs h]
    rfl
  minus _ hminus := by
    show convertUnsigned s = _
    rw [convertUnsigned, convertUnsignedLong_of_minus hminus]
    rfl

theorem exact_convert (target : Target) (hs : s ≠ []) : Exact target s := by
  cases target with
  | int => exact exact_int hs
  | long => exact exact_long hs
  | unsigned => exact exact_unsigned hs
  | unsignedLong => exact exact_unsignedLong hs

/-! ## Round trips -/

/-- A numeral has no leading zero, so it is in decimal. -/
theorem magnitude_padded_one (n : ℕ) : Magnitude (padded 1 n) n := by
  have hds := digits_padded 1 n
  have hvalue := value_padded 1 n
  have hhead := eq_zero_of_head_padded_one (n := n)
  obtain ⟨d, ds, heq⟩ := List.exists_cons_of_ne_nil (padded_one_ne_nil n)
  by_cases hd : d = '0'
  · obtain rfl := hhead (by rw [heq, hd]; rfl)
    have hnone : ∀ c ∈ ([] : List Char), isDigitIn 8 c = true :=
      fun c hc => absurd hc List.not_mem_nil
    exact Magnitude.octal hnone
  · rw [heq] at hds hvalue ⊢
    have := Magnitude.decimal hd hds
    rw [hvalue] at this
    exact this

theorem isLiteral_toString (n : ℤ) : IsLiteral (toString n) n := by
  obtain ⟨sg, hsg, htext, hvalue⟩ := insertInteger_eq n
  exact ⟨[], sg, _, _, _, htext, fun c hc => absurd hc List.not_mem_nil, hsg,
    magnitude_padded_one n.natAbs, hvalue.symm⟩

theorem denotes_toString (n : ℤ) : Denotes (toString n) n :=
  ⟨toString n, List.prefix_rfl, isLiteral_toString n, fun _ _ h _ => h.length_le⟩

theorem not_startsWithMinus_toString {n : ℤ} (hn : 0 ≤ n) : ¬ StartsWithMinus (toString n) := by
  rw [StartsWithMinus, toString, insertInteger, if_neg (not_lt.mpr hn)]
  obtain ⟨d, ds, heq⟩ := List.exists_cons_of_ne_nil (padded_one_ne_nil n.natAbs)
  have hd : d.isDigit = true := digits_padded 1 n.natAbs d (by rw [heq]; exact List.mem_cons_self)
  rw [heq, List.find?_cons_of_pos (by rw [isspace_of_isDigit hd]; rfl)]
  intro h
  rw [Option.some.inj h] at hd
  exact absurd hd (by decide)

theorem convert_toString (target : Target) {n : ℤ} (hn : target.min ≤ n ∧ n ≤ target.max) :
    target.convert (toString n) = .ok n := by
  have hexact := exact_convert target (ne_nil_of_denotes (denotes_toString n))
  rw [hexact.denoted n (denotes_toString n), if_pos hn]
  rintro ⟨hunsigned, hminus⟩
  have hmin : target.min = 0 := by
    cases target <;> first | rfl | cases hunsigned
  rw [hmin] at hn
  exact not_startsWithMinus_toString hn.1 hminus

/-- **No conversion truncates.**  Of every text that is not empty the integer it denotes
is what is returned, or the code for what is wrong with it is thrown, and every integer of
the type comes back from its text. -/
theorem conversions_are_exact (target : Target) :
    (∀ s, s ≠ [] → Exact target s) ∧
      ∀ n, target.min ≤ n ∧ n ≤ target.max → target.convert (toString n) = .ok n :=
  ⟨fun _ hs => exact_convert target hs, fun _ hn => convert_toString target hn⟩

theorem conversions_are_exact_unsigned : Exact .unsigned " 017;".toList ∧
    Target.unsigned.convert (toString 4294967295) = .ok 4294967295 :=
  ⟨(conversions_are_exact .unsigned).1 _ (by decide),
    (conversions_are_exact .unsigned).2 _ (by decide)⟩

example : convertInt " -0x1Fx".toList = .ok (-31) := by decide +kernel

example : convertInt "2147483648".toList = .error (.systemError .ERANGE) := by decide +kernel

example : convertUnsigned "\x0b-1".toList = .error (.systemError .EINVAL) := by decide +kernel

end
end KssUtil.Strings.Integer

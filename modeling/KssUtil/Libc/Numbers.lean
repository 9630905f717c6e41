import KssUtil.Foundation.Numeral
import Mathlib.Data.Int.Notation

/-!
# Number conversions of the C library

`strtol`, `strtold` and the `printf` conversions the sources use, in the "C"
locale.  A C string is the text before the first null character.  A `long` has 64
bits.  Of `strtold` only the decimal form is here: no text given to it begins
like a hexadecimal number, an infinity or a NaN.
-/

namespace KssUtil.Libc

open KssUtil.Foundation

def nul : Char := Char.ofNat 0

/-- `s.c_str()` -/
def cstr (s : List Char) : List Char := s.takeWhile (· ≠ nul)

def isspace (c : Char) : Bool := c.toNat = 32 ∨ (9 ≤ c.toNat ∧ c.toNat ≤ 13)

def isprint (c : Char) : Bool := 32 ≤ c.toNat ∧ c.toNat ≤ 126

/-- An optional sign: whether it is a minus, and the text after it. -/
def scanSign : List Char → Bool × List Char
  | '-' :: cs => (true, cs)
  | '+' :: cs => (false, cs)
  | cs => (false, cs)

def negateIf (negative : Bool) (n : ℤ) : ℤ := if negative then -n else n

/-! ## `strtol` -/

def longMin : ℤ := -9223372036854775808
def longMax : ℤ := 9223372036854775807

/-- The value of a digit of any base up to 36. -/
def digitOf (c : Char) : ℕ :=
  if c.isDigit then c.toNat - '0'.toNat
  else if c.isLower then c.toNat - 'a'.toNat + 10
  else if c.isUpper then c.toNat - 'A'.toNat + 10
  else 36

def isDigitIn (base : ℕ) (c : Char) : Bool := digitOf c < base

def valueIn (base : ℕ) (cs : List Char) : ℕ := cs.foldl (fun n c => n * base + digitOf c) 0

/-- The base the digits are in, and the text after a `0x`, which counts only
before a hexadecimal digit. -/
def scanBase (base : ℕ) (cs : List Char) : ℕ × List Char :=
  let plain := if base = 0 then (if cs.head? = some '0' then 8 else 10) else base
  match cs with
  | '0' :: x :: d :: ds =>
      if (base = 0 ∨ base = 16) ∧ (x = 'x' ∨ x = 'X') ∧ isDigitIn 16 d then (16, d :: ds)
      else (plain, cs)
  | _ => (plain, cs)

/-- The integer a text begins with, after white space, and the rest of it;
`none` if there is no digit. -/
def scanInteger (base : ℕ) (cs : List Char) : Option (ℤ × List Char) :=
  let sign := scanSign (cs.dropWhile isspace)
  let b := scanBase base sign.2
  let digits := b.2.takeWhile (isDigitIn b.1)
  if digits = [] then none
  else some (negateIf sign.1 (valueIn b.1 digits), b.2.dropWhile (isDigitIn b.1))

/-- What `strtol` returns, where it leaves `endptr`, and whether it sets
`ERANGE`. -/
structure Strtol where
  value : ℤ
  endptr : List Char
  erange : Bool

/-- The base is 0 or between 2 and 36. -/
def strtol (cs : List Char) (base : ℕ) : Strtol :=
  match scanInteger base cs with
  | none => ⟨0, cs, false⟩
  | some (v, rest) =>
      if v < longMin then ⟨longMin, rest, true⟩
      else if v > longMax then ⟨longMax, rest, true⟩
      else ⟨v, rest, false⟩

/-- The `long` nearest to a number. -/
def clampLong (v : ℤ) : ℤ := if v < longMin then longMin else if v > longMax then longMax else v

theorem strtol_of_none {cs : List Char} {base : ℕ} (h : scanInteger base cs = none) :
    strtol cs base = ⟨0, cs, false⟩ := by
  rw [strtol, h]

theorem strtol_of_some {cs rest : List Char} {base : ℕ} {v : ℤ}
    (h : scanInteger base cs = some (v, rest)) :
    strtol cs base = ⟨clampLong v, rest, decide (v < longMin ∨ v > longMax)⟩ := by
  rw [strtol, h, clampLong]
  dsimp only
  by_cases hlo : v < longMin
  · rw [if_pos hlo, if_pos hlo, decide_eq_true (Or.inl hlo)]
  · rw [if_neg hlo, if_neg hlo]
    by_cases hhi : v > longMax
    · rw [if_pos hhi, if_pos hhi, decide_eq_true (Or.inr hhi)]
    · rw [if_neg hhi, if_neg hhi, decide_eq_false (not_or.mpr ⟨hlo, hhi⟩)]

theorem clampLong_of_mem {v : ℤ} (h : longMin ≤ v ∧ v ≤ longMax) : clampLong v = v := by
  rw [clampLong, if_neg (not_lt.mpr h.1), if_neg (not_lt.mpr h.2)]

/-! ## `strtold` -/

/-- An exponent, if there is one with a digit. -/
def scanExponent : List Char → ℤ × List Char
  | e :: cs =>
      let sign := scanSign cs
      let digits := sign.2.takeWhile Char.isDigit
      if (e = 'e' ∨ e = 'E') ∧ digits ≠ [] then
        (negateIf sign.1 (value digits), sign.2.dropWhile Char.isDigit)
      else (0, e :: cs)
  | [] => (0, [])

/-- The digits after a decimal point. -/
def scanFraction : List Char → List Char × List Char
  | '.' :: cs => (cs.takeWhile Char.isDigit, cs.dropWhile Char.isDigit)
  | cs => ([], cs)

def scale (m : ℚ) : ℤ → ℚ
  | .ofNat n => m * (10 ^ n : ℕ)
  | .negSucc n => m / (10 ^ (n + 1) : ℕ)

/-- The value, and the text at `endptr`. -/
def strtold (cs : List Char) : ℚ × List Char :=
  let sign := scanSign (cs.dropWhile isspace)
  let whole := sign.2.takeWhile Char.isDigit
  let fraction := scanFraction (sign.2.dropWhile Char.isDigit)
  if whole = [] ∧ fraction.1 = [] then (0, cs)
  else
    let exponent := scanExponent fraction.2
    let m : ℚ := value (whole ++ fraction.1) / (10 ^ fraction.1.length : ℕ)
    (scale (if sign.1 then -m else m) exponent.1, exponent.2)

/-! ## `printf` -/

/-- `%0{w}ld` -/
def printfZero (w : ℕ) (n : ℤ) : List Char :=
  if n < 0 then '-' :: padded (w - 1) n.natAbs else padded w n.natAbs

/-- `%+0{w}d` -/
def printfSignZero (w : ℕ) (n : ℤ) : List Char :=
  (if n < 0 then '-' else '+') :: padded (w - 1) n.natAbs

theorem printfZero_of_nonneg {w : ℕ} {n : ℤ} (hn : 0 ≤ n) :
    printfZero w n = padded w n.toNat := by
  have habs : n.natAbs = n.toNat := by omega
  rw [printfZero, if_neg (not_lt.mpr hn), habs]

/-! ## What the readers take -/

section

variable {cs ds rest : List Char} {c : Char}

theorem digit_bounds (h : c.isDigit = true) : 48 ≤ c.toNat ∧ c.toNat ≤ 57 := by
  rw [Char.isDigit, Bool.and_eq_true, decide_eq_true_eq, decide_eq_true_eq] at h
  exact h

theorem isspace_of_isDigit (h : c.isDigit = true) : isspace c = false := by
  have := digit_bounds h
  rw [isspace, decide_eq_false_iff_not]
  omega

theorem cstr_append {a b : List Char} (h : ∀ c ∈ a, c ≠ nul) : cstr (a ++ b) = a ++ cstr b := by
  have h : ∀ c ∈ a, decide (c ≠ nul) = true := fun c hc => decide_eq_true (h c hc)
  exact List.takeWhile_append_of_pos h

theorem cstr_of_ne {a : List Char} (h : ∀ c ∈ a, c ≠ nul) : cstr a = a := by
  have := cstr_append (b := []) h
  rw [List.append_nil] at this
  rw [this]
  exact List.append_nil a

theorem ne_nul_of_isDigit {c : Char} (h : c.isDigit = true) : c ≠ nul := by
  rintro rfl
  exact absurd h (by decide)

theorem ne_nul_of_digits {cs : List Char} (h : Digits cs) : ∀ c ∈ cs, c ≠ nul :=
  fun c hc => ne_nul_of_isDigit (h c hc)

/-- The text of an optional sign. -/
def IsSign (sg : List Char) (negative : Bool) : Prop :=
  sg = [] ∧ negative = false ∨ sg = ['+'] ∧ negative = false ∨ sg = ['-'] ∧ negative = true

theorem scanSign_sound (cs : List Char) :
    ∃ sg, IsSign sg (scanSign cs).1 ∧ cs = sg ++ (scanSign cs).2 := by
  unfold scanSign
  split
  · exact ⟨['-'], Or.inr (Or.inr ⟨rfl, rfl⟩), rfl⟩
  · exact ⟨['+'], Or.inr (Or.inl ⟨rfl, rfl⟩), rfl⟩
  · exact ⟨[], Or.inl ⟨rfl, rfl⟩, rfl⟩

theorem scanSign_of_isDigit (hc : c.isDigit = true) (rest : List Char) :
    scanSign (c :: rest) = (false, c :: rest) := by
  have hbounds := digit_bounds hc
  unfold scanSign
  split
  · rename_i heq
    obtain ⟨rfl, -⟩ := List.cons.inj heq
    exact absurd hbounds.1 (by decide)
  · rename_i heq
    obtain ⟨rfl, -⟩ := List.cons.inj heq
    exact absurd hbounds.1 (by decide)
  · rfl

theorem scanSign_complete {sg : List Char} {negative : Bool} (hsg : IsSign sg negative)
    (hc : c.isDigit = true) (rest : List Char) :
    scanSign (sg ++ c :: rest) = (negative, c :: rest) := by
  rcases hsg with ⟨rfl, rfl⟩ | ⟨rfl, rfl⟩ | ⟨rfl, rfl⟩
  · exact scanSign_of_isDigit hc rest
  · rfl
  · rfl

theorem isDigitIn_ten : isDigitIn 10 = Char.isDigit := by
  ext1 c
  rw [isDigitIn, digitOf, Bool.eq_iff_iff, decide_eq_true_eq]
  split
  · rename_i hc
    have := digit_bounds hc
    rw [iff_true_right hc]
    show c.toNat - 48 < 10
    omega
  · rename_i hc
    rw [iff_false_right hc]
    split
    · omega
    · split <;> omega

theorem scanBase_of_ne {base : ℕ} (h0 : base ≠ 0) (h16 : base ≠ 16) (cs : List Char) :
    scanBase base cs = (base, cs) := by
  unfold scanBase
  dsimp only
  rw [if_neg h0]
  split
  · rw [if_neg]
    rintro ⟨h | h, -⟩
    · exact h0 h
    · exact h16 h
  · rfl

theorem valueIn_ten (h : Digits ds) : valueIn 10 ds = value ds := by
  have hfrom : ∀ n, ds.foldl (fun n c => n * 10 + digitOf c) n = valueFrom n ds := by
    induction ds with
    | nil => intro n; rfl
    | cons c ds ih =>
        intro n
        obtain ⟨hc, hds⟩ := digits_cons.mp h
        have hdigit : digitOf c = digitValue c := if_pos hc
        rw [List.foldl_cons, valueFrom_cons, ih hds, hdigit]
  exact hfrom 0

/-- An integer literal in base 10 at the front of `cs`, after white space. -/
def ReadsInteger (cs : List Char) (v : ℤ) (rest : List Char) : Prop :=
  ∃ ws sg negative ds, cs = ws ++ (sg ++ (ds ++ rest)) ∧ (∀ c ∈ ws, isspace c = true) ∧
    IsSign sg negative ∧ Digits ds ∧ ds ≠ [] ∧ Stops Char.isDigit rest ∧
      v = negateIf negative (value ds)

theorem isspace_of_sign {sg : List Char} {negative : Bool} (hsg : IsSign sg negative)
    (hc : c.isDigit = true) (rest : List Char) : Stops isspace (sg ++ c :: rest) := by
  rcases hsg with ⟨rfl, -⟩ | ⟨rfl, -⟩ | ⟨rfl, -⟩
  · exact stops_cons.mpr (isspace_of_isDigit hc)
  · exact stops_cons.mpr (by decide)
  · exact stops_cons.mpr (by decide)

theorem scanInteger_ten {v : ℤ} :
    scanInteger 10 cs = some (v, rest) ↔ ReadsInteger cs v rest := by
  unfold scanInteger
  dsimp only
  rw [scanBase_of_ne (by decide) (by decide)]
  dsimp only
  rw [isDigitIn_ten]
  constructor
  · intro h
    split at h
    · exact absurd h.symm (Option.some_ne_none _)
    · rename_i hne
      obtain ⟨hv, hrest⟩ := Prod.mk.inj (Option.some.inj h)
      obtain ⟨sg, hsg, htext⟩ := scanSign_sound (cs.dropWhile isspace)
      have hds : Digits ((scanSign (cs.dropWhile isspace)).2.takeWhile Char.isDigit) :=
        fun c hc => List.mem_takeWhile_imp hc
      refine ⟨cs.takeWhile isspace, sg, _, _, ?_, fun c hc => List.mem_takeWhile_imp hc, hsg, hds,
        hne, ?_, ?_⟩
      · rw [← hrest, List.takeWhile_append_dropWhile, ← htext, List.takeWhile_append_dropWhile]
      · rw [← hrest]
        exact stops_dropWhile _ _
      · rw [← hv, valueIn_ten hds]
  · rintro ⟨ws, sg, negative, ds, rfl, hws, hsg, hds, hne, hstop, rfl⟩
    obtain ⟨c, ds, rfl⟩ := List.exists_cons_of_ne_nil hne
    have hc := (digits_cons.mp hds).1
    have hskip : (ws ++ (sg ++ (c :: ds ++ rest))).dropWhile isspace = sg ++ (c :: ds ++ rest) :=
      dropWhile_append_stops hws (isspace_of_sign hsg hc _)
    have hsign : scanSign (sg ++ (c :: ds ++ rest)) = (negative, c :: ds ++ rest) :=
      scanSign_complete hsg hc _
    rw [hskip, hsign]
    dsimp only
    rw [takeWhile_append_stops hds hstop, dropWhile_append_stops hds hstop, if_neg hne,
      valueIn_ten hds]

/-! ### Literals

In base 0 a literal is in hexadecimal after `0x`, in octal after another `0`, and
in decimal otherwise. -/

/-- The value of the literal a text begins with. -/
def literalValue (cs : List Char) : ℕ :=
  let b := scanBase 0 cs
  valueIn b.1 (b.2.takeWhile (isDigitIn b.1))

/-- A literal at the front of `cs`, after white space. -/
def ReadsLiteral (cs : List Char) (v : ℤ) : Prop :=
  ∃ ws sg negative d body, cs = ws ++ (sg ++ d :: body) ∧ (∀ c ∈ ws, isspace c = true) ∧
    IsSign sg negative ∧ d.isDigit = true ∧ v = negateIf negative (literalValue (d :: body))

theorem scanBase_zero_cases (cs : List Char) :
    scanBase 0 cs = (if cs.head? = some '0' then 8 else 10, cs) ∨
      ∃ x d ds, cs = '0' :: x :: d :: ds ∧ (x = 'x' ∨ x = 'X') ∧ isDigitIn 16 d = true ∧
        scanBase 0 cs = (16, d :: ds) := by
  unfold scanBase
  dsimp only
  split
  · rename_i x d ds
    split
    · rename_i h
      exact Or.inr ⟨x, d, ds, rfl, h.2.1, h.2.2, rfl⟩
    · exact Or.inl rfl
  · exact Or.inl rfl

/-- There is a digit of the literal's base exactly if there is a digit. -/
theorem takeWhile_scanBase_iff (cs : List Char) :
    (scanBase 0 cs).2.takeWhile (isDigitIn (scanBase 0 cs).1) ≠ [] ↔
      ∃ d body, cs = d :: body ∧ d.isDigit = true := by
  rcases scanBase_zero_cases cs with hbase | ⟨x, d, ds, rfl, -, hd, hbase⟩
  · rw [hbase]
    dsimp only
    cases cs with
    | nil =>
        refine iff_of_false (not_not.mpr rfl) ?_
        rintro ⟨d, body, h, -⟩
        exact List.cons_ne_nil _ _ h.symm
    | cons c cs =>
        have hdigit : isDigitIn (if (c :: cs).head? = some '0' then 8 else 10) c = c.isDigit := by
          by_cases hc : c = '0'
          · rw [hc]
            rfl
          · have hhead : ¬ (c :: cs).head? = some '0' := fun h => hc (Option.some.inj h)
            rw [if_neg hhead, isDigitIn_ten]
        -- so the first character is a digit of the base if it is one at all
        constructor
        · intro h
          refine ⟨c, cs, rfl, ?_⟩
          by_contra hc
          rw [← hdigit] at hc
          exact h (List.takeWhile_cons_of_neg hc)
        · rintro ⟨d, body, heq, hd⟩
          obtain ⟨rfl, rfl⟩ := List.cons.inj heq
          rw [← hdigit] at hd
          rw [List.takeWhile_cons_of_pos hd]
          exact List.cons_ne_nil _ _
  · -- after `0x` the base has been chosen because a digit follows
    rw [hbase]
    dsimp only
    rw [List.takeWhile_cons_of_pos hd]
    exact iff_of_true (List.cons_ne_nil _ _) ⟨'0', _, rfl, rfl⟩

theorem scanInteger_zero {v : ℤ} : (∃ rest, scanInteger 0 cs = some (v, rest)) ↔
    ReadsLiteral cs v := by
  unfold scanInteger
  dsimp only
  constructor
  · rintro ⟨rest, h⟩
    split at h
    · exact absurd h.symm (Option.some_ne_none _)
    · rename_i hne
      obtain ⟨d, body, hbody, hd⟩ := (takeWhile_scanBase_iff _).mp hne
      obtain ⟨sg, hsg, htext⟩ := scanSign_sound (cs.dropWhile isspace)
      refine ⟨cs.takeWhile isspace, sg, _, d, body, ?_, fun c hc => List.mem_takeWhile_imp hc, hsg,
        hd, ?_⟩
      · rw [← hbody, ← htext, List.takeWhile_append_dropWhile]
      · rw [← hbody, ← (Prod.mk.inj (Option.some.inj h)).1]
        rfl
  · rintro ⟨ws, sg, negative, d, body, rfl, hws, hsg, hd, rfl⟩
    have hskip : (ws ++ (sg ++ d :: body)).dropWhile isspace = sg ++ d :: body :=
      dropWhile_append_stops hws (isspace_of_sign hsg hd _)
    have hdigits := (takeWhile_scanBase_iff (d :: body)).mpr ⟨d, body, rfl, hd⟩
    rw [hskip, scanSign_complete hsg hd]
    dsimp only
    rw [if_neg hdigits]
    exact ⟨_, rfl⟩

theorem length_dropWhile_lt {α : Type} {q : α → Bool} {xs : List α} (h : xs.takeWhile q ≠ []) :
    (xs.dropWhile q).length < xs.length := by
  have hsplit := congrArg List.length (List.takeWhile_append_dropWhile (p := q) (l := xs))
  rw [List.length_append] at hsplit
  have := List.length_pos_iff.mpr h
  omega

/-- Something is read if there is a literal. -/
theorem length_rest_lt {v : ℤ} (h : scanInteger 0 cs = some (v, rest)) :
    rest.length < cs.length := by
  unfold scanInteger at h
  dsimp only at h
  split at h
  · exact absurd h.symm (Option.some_ne_none _)
  · rename_i hne
    have hlt := length_dropWhile_lt hne
    rw [(Prod.mk.inj (Option.some.inj h)).2] at hlt
    obtain ⟨sg, -, htext⟩ := scanSign_sound (cs.dropWhile isspace)
    -- white space, a sign and `0x` only make the text shorter
    have hsign := congrArg List.length htext
    have hspace := List.length_dropWhile_le isspace cs
    rw [List.length_append] at hsign
    rcases scanBase_zero_cases (scanSign (cs.dropWhile isspace)).2 with
      hbase | ⟨x, d, ds, hcs, -, -, hbase⟩
    · rw [hbase] at hlt
      dsimp only at hlt
      omega
    · rw [hbase] at hlt
      have hlen := congrArg List.length hcs
      rw [List.length_cons, List.length_cons] at hlen
      dsimp only at hlt
      omega

/-- The value of decimal digits as a literal: in octal after a zero, up to the first
that is not octal. -/
def octalOrDecimal (ds : List Char) : ℕ :=
  if ds.head? = some '0' then valueIn 8 (ds.takeWhile (isDigitIn 8)) else value ds

/-- Digits that another character follows. -/
theorem literalValue_append (hds : Digits ds) (hne : ds ≠ [])
    (hrest : ∀ c ∈ rest.head?, 10 ≤ digitOf c ∧ ¬(c = 'x' ∨ c = 'X')) :
    literalValue (ds ++ rest) = octalOrDecimal ds := by
  have hstop : ∀ base ≤ 10, Stops (isDigitIn base) rest := by
    intro base hbase c hc
    rw [isDigitIn, decide_eq_false_iff_not]
    have := (hrest c hc).1
    omega
  obtain ⟨c, cs, rfl⟩ := List.exists_cons_of_ne_nil hne
  rw [literalValue, octalOrDecimal]
  rcases scanBase_zero_cases (c :: cs ++ rest) with hbase | ⟨x, d, ds, htext, hx, -, -⟩
  · rw [hbase]
    dsimp only
    by_cases hc : (c :: cs).head? = some '0'
    · have hc' : (c :: cs ++ rest).head? = some '0' := hc
      rw [if_pos hc, if_pos hc', takeWhile_append_of_stops _ (hstop 8 (by decide))]
    · have hc' : ¬ (c :: cs ++ rest).head? = some '0' := hc
      have hten := hstop 10 (Nat.le_refl 10)
      rw [isDigitIn_ten] at hten
      rw [if_neg hc, if_neg hc', isDigitIn_ten, takeWhile_append_stops hds hten, valueIn_ten hds]
  · -- an `x` would be among the digits or follow them
    exfalso
    obtain ⟨-, htail⟩ := List.cons.inj htext
    cases cs with
    | nil =>
        have htail : rest = x :: d :: ds := htail
        rw [htail] at hrest
        exact (hrest x rfl).2 hx
    | cons c' cs =>
        obtain ⟨rfl, -⟩ := List.cons.inj htail
        have hdigit := (digits_cons.mp (digits_cons.mp hds).2).1
        rcases hx with rfl | rfl <;> exact absurd hdigit (by decide)

/-! ### Fractions -/

/-- An exponent of a decimal number, sign and all. -/
def IsExponent (cs : List Char) : Prop :=
  ∃ e sg negative ds, cs = e :: (sg ++ ds) ∧ (e = 'e' ∨ e = 'E') ∧ IsSign sg negative ∧
    Digits ds ∧ ds ≠ []

theorem scanExponent_nil_iff : (scanExponent cs).2 = [] ↔ cs = [] ∨ IsExponent cs := by
  cases cs with
  | nil => exact iff_of_true rfl (Or.inl rfl)
  | cons e cs =>
      rw [scanExponent]
      constructor
      · intro h
        right
        split at h
        · rename_i he
          have h : (scanSign cs).2.dropWhile Char.isDigit = [] := h
          obtain ⟨sg, hsg, htext⟩ := scanSign_sound cs
          refine ⟨e, sg, _, (scanSign cs).2, by rw [← htext], he.1, hsg, ?_, ?_⟩
          · rw [← List.takeWhile_append_dropWhile (p := Char.isDigit) (l := (scanSign cs).2), h,
              List.append_nil]
            exact fun c hc => List.mem_takeWhile_imp hc
          · intro hnil
            rw [hnil] at he
            exact he.2 rfl
        · -- an `e` without digits is no exponent
          exact absurd h (List.cons_ne_nil e cs)
      · rintro (h | ⟨e', sg, negative, ds, h, he, hsg, hds, hne⟩)
        · exact absurd h (List.cons_ne_nil e cs)
        · obtain ⟨rfl, rfl⟩ := List.cons.inj h
          obtain ⟨c, ds, rfl⟩ := List.exists_cons_of_ne_nil hne
          have hsign := scanSign_complete hsg (digits_cons.mp hds).1 ds
          have htake := takeWhile_append_stops hds stops_nil
          have hdrop := dropWhile_append_stops hds stops_nil
          rw [List.append_nil] at htake hdrop
          rw [hsign]
          dsimp only
          rw [htake, hdrop, if_pos ⟨he, List.cons_ne_nil c ds⟩]

theorem strtold_point (hds : Digits ds) (hne : ds ≠ []) (hrest : Stops Char.isDigit rest) :
    strtold ('.' :: (ds ++ rest)) =
      (scale (value ds / (10 ^ ds.length : ℕ)) (scanExponent rest).1, (scanExponent rest).2) := by
  have hskip : ('.' :: (ds ++ rest)).dropWhile isspace = '.' :: (ds ++ rest) :=
    dropWhile_of_stops (stops_cons.mpr (by decide))
  have hsign : scanSign ('.' :: (ds ++ rest)) = (false, '.' :: (ds ++ rest)) := rfl
  have hpoint : Stops Char.isDigit ('.' :: (ds ++ rest)) := stops_cons.mpr (by decide)
  unfold strtold
  dsimp only
  rw [hskip, hsign]
  dsimp only
  rw [takeWhile_of_stops hpoint, dropWhile_of_stops hpoint]
  have hfraction : scanFraction ('.' :: (ds ++ rest)) = (ds, rest) := by
    rw [scanFraction, takeWhile_append_stops hds hrest, dropWhile_append_stops hds hrest]
  rw [hfraction, if_neg fun h => hne h.2]
  rfl

/-- `strtold` reads all of a text after a point when that is digits and perhaps an
exponent. -/
theorem strtold_point_nil_iff : (strtold ('.' :: cs)).2 = [] ↔
    ∃ ds rest, cs = ds ++ rest ∧ Digits ds ∧ ds ≠ [] ∧ (rest = [] ∨ IsExponent rest) := by
  have hsplit := List.takeWhile_append_dropWhile (p := Char.isDigit) (l := cs)
  have hds : Digits (cs.takeWhile Char.isDigit) := fun c hc => List.mem_takeWhile_imp hc
  constructor
  · intro h
    -- a point alone is no number, and is left unread
    have hne : cs.takeWhile Char.isDigit ≠ [] := by
      intro hnil
      have hskip : ('.' :: cs).dropWhile isspace = '.' :: cs :=
        dropWhile_of_stops (stops_cons.mpr (by decide))
      have hpoint : Stops Char.isDigit ('.' :: cs) := stops_cons.mpr (by decide)
      have hnone : strtold ('.' :: cs) = (0, '.' :: cs) := by
        unfold strtold
        dsimp only
        rw [hskip]
        show (if ('.' :: cs).takeWhile Char.isDigit = [] ∧
          (scanFraction (('.' :: cs).dropWhile Char.isDigit)).1 = [] then _ else _) = _
        rw [takeWhile_of_stops hpoint, dropWhile_of_stops hpoint]
        exact if_pos ⟨rfl, hnil⟩
      rw [hnone] at h
      exact List.cons_ne_nil _ _ h
    rw [← hsplit, strtold_point hds hne (stops_dropWhile _ _)] at h
    exact ⟨_, _, hsplit.symm, hds, hne, scanExponent_nil_iff.mp h⟩
  · rintro ⟨ds, rest, rfl, hds, hne, hrest⟩
    have hstop : Stops Char.isDigit rest := by
      rcases hrest with rfl | ⟨e, sg, negative, es, rfl, he, -⟩
      · exact stops_nil
      · rcases he with rfl | rfl <;> exact stops_cons.mpr (by decide)
    rw [strtold_point hds hne hstop]
    exact scanExponent_nil_iff.mpr hrest

end

end KssUtil.Libc

import KssUtil.Libc.Numbers

/-!
# Formatted input of the C++ library

An `istream` on a text, in the "C" locale and with its default flags: integers of
a signed type in decimal, and characters.  `badbit` is never set.

Unformatted input of a stream in any state.
-/

namespace KssUtil.Libc

open KssUtil.Foundation

structure IStream where
  rest : List Char
  eofbit : Bool := false
  failbit : Bool := false
deriving DecidableEq, Repr

namespace IStream

def good (strm : IStream) : Bool := !strm.eofbit && !strm.failbit

/-- `setstate(failbit)` -/
def setFail (strm : IStream) : IStream := { strm with failbit := true }

/-- The sentry of a formatted input: the stream after white space, if there is
something to read. -/
def sentry (strm : IStream) : Bool × IStream :=
  if strm.good then
    let rest := strm.rest.dropWhile isspace
    if rest = [] then (false, { rest, eofbit := true, failbit := true })
    else (true, { rest })
  else (false, strm.setFail)

/-- The integer at the front of a text.  Without a digit it is 0, and outside the
type it is the nearest value of it; both fail. -/
def numGet (lo hi : ℤ) (cs : List Char) : ℤ × IStream :=
  let sign := scanSign cs
  let digits := sign.2.takeWhile Char.isDigit
  let rest := sign.2.dropWhile Char.isDigit
  let strm : IStream := { rest, eofbit := rest.isEmpty }
  if digits = [] then (0, strm.setFail)
  else
    let v := negateIf sign.1 (value digits)
    if v < lo then (lo, strm.setFail)
    else if v > hi then (hi, strm.setFail)
    else (v, strm)

/-- `strm >> n`, for an integer type with values from `lo` to `hi`. -/
def extractInteger (lo hi : ℤ) (strm : IStream) (n : ℤ) : ℤ × IStream :=
  let r := strm.sentry
  if r.1 then numGet lo hi r.2.rest else (n, r.2)

/-- `strm >> ch` -/
def extractChar (strm : IStream) (ch : Char) : Char × IStream :=
  let r := strm.sentry
  match r.1, r.2.rest with
  | true, c :: rest => (c, { rest })
  | _, _ => (ch, r.2)

/-! ## Texts without white space -/

theorem sentry_of_stops {cs : List Char} (hne : cs ≠ []) (hcs : Stops isspace cs) :
    sentry { rest := cs } = (true, { rest := cs }) := by
  have hgood : good { rest := cs } = true := rfl
  rw [sentry, if_pos hgood]
  dsimp only
  rw [dropWhile_of_stops hcs, if_neg hne]

/-- A number with something after it is read, and nothing else. -/
theorem extractInteger_append {lo hi : ℤ} {sg ds rest : List Char} {negative : Bool}
    (hsg : IsSign sg negative) (hds : Digits ds) (hne : ds ≠ []) (hrest : rest ≠ [])
    (hstop : Stops Char.isDigit rest) (n : ℤ)
    (hlo : lo ≤ negateIf negative (value ds)) (hhi : negateIf negative (value ds) ≤ hi) :
    extractInteger lo hi { rest := sg ++ (ds ++ rest) } n =
      (negateIf negative (value ds), { rest }) := by
  obtain ⟨c, ds, rfl⟩ := List.exists_cons_of_ne_nil hne
  have hc := (digits_cons.mp hds).1
  have hsentry : sentry { rest := sg ++ (c :: ds ++ rest) } =
      (true, { rest := sg ++ (c :: ds ++ rest) }) :=
    sentry_of_stops (List.append_ne_nil_of_right_ne_nil sg (List.cons_ne_nil _ _))
      (isspace_of_sign hsg hc _)
  have hsign : scanSign (sg ++ (c :: ds ++ rest)) = (negative, c :: ds ++ rest) :=
    scanSign_complete hsg hc _
  rw [extractInteger, hsentry]
  dsimp only
  rw [if_pos rfl, numGet, hsign]
  dsimp only
  rw [takeWhile_append_stops hds hstop, dropWhile_append_stops hds hstop, if_neg hne,
    if_neg (not_lt.mpr hlo), if_neg (not_lt.mpr hhi), List.isEmpty_eq_false_iff.mpr hrest]

theorem extractChar_cons {c : Char} (hc : isspace c = false) (rest : List Char) (ch : Char) :
    extractChar { rest := c :: rest } ch = (c, { rest }) := by
  rw [extractChar, sentry_of_stops (List.cons_ne_nil c rest) (stops_cons.mpr hc)]

end IStream

/-- `strm << n`, for an integer. -/
def insertInteger (n : ℤ) : List Char :=
  if n < 0 then '-' :: padded 1 n.natAbs else padded 1 n.natAbs

/-- A number is written as a sign and its digits. -/
theorem insertInteger_eq (n : ℤ) : ∃ sg, IsSign sg (decide (n < 0)) ∧
    insertInteger n = sg ++ padded 1 n.natAbs ∧ negateIf (decide (n < 0)) n.natAbs = n := by
  unfold insertInteger negateIf
  rcases lt_or_ge n 0 with hn | hn
  · rw [if_pos hn, decide_eq_true hn]
    refine ⟨['-'], Or.inr (Or.inr ⟨rfl, rfl⟩), rfl, ?_⟩
    rw [if_pos rfl]
    omega
  · rw [if_neg (not_lt.mpr hn), decide_eq_false (not_lt.mpr hn)]
    refine ⟨[], Or.inl ⟨rfl, rfl⟩, rfl, ?_⟩
    rw [if_neg Bool.false_ne_true]
    omega

/-! ## Unformatted input -/

/-- What has not been read yet, the error state and the flag `skipws`. -/
structure InputStream where
  rest : List Char
  eofbit : Bool := false
  failbit : Bool := false
  badbit : Bool := false
  skipws : Bool := true
deriving DecidableEq, Repr

namespace InputStream

def good (strm : InputStream) : Bool := !strm.eofbit && !strm.failbit && !strm.badbit

def fail (strm : InputStream) : Bool := strm.failbit || strm.badbit

/-- `strm.peek()`: nothing at the end.  The sentry fails if the stream is not good. -/
def peek (strm : InputStream) : Option Char × InputStream :=
  if strm.good then
    match strm.rest with
    | [] => (none, { strm with eofbit := true })
    | c :: _ => (some c, strm)
  else (none, { strm with failbit := true })

/-- `strm.get()` -/
def get (strm : InputStream) : Option Char × InputStream :=
  if strm.good then
    match strm.rest with
    | [] => (none, { strm with eofbit := true, failbit := true })
    | c :: rest => (some c, { strm with rest })
  else (none, { strm with failbit := true })

/-- `while (isspace(strm.peek()) && !strm.eof()) { strm.get(); }`, of so many rounds at
most. -/
def skipRounds : ℕ → InputStream → InputStream
  | 0, strm => strm.peek.2
  | rounds + 1, strm =>
      let r := strm.peek
      if r.1.any isspace && !r.2.eofbit then skipRounds rounds r.2.get.2 else r.2

/-- Each round takes a character. -/
def skipSpace (strm : InputStream) : InputStream := skipRounds strm.rest.length strm

/-- `if (strm.flags() & ios::skipws)` -/
def skipFlagged (strm : InputStream) : InputStream :=
  if strm.skipws then strm.skipSpace else strm

/-- What a reader is given: white space is skipped where it can be. -/
def nextText (strm : InputStream) : List Char :=
  if strm.skipws && strm.good then strm.rest.dropWhile isspace else strm.rest

variable {strm : InputStream}

theorem good_eq : strm.good = !(strm.fail || strm.eofbit) := by
  rw [good, fail]
  cases strm.eofbit <;> cases strm.failbit <;> cases strm.badbit <;> rfl

theorem good_iff : strm.good = true ↔
    strm.eofbit = false ∧ strm.failbit = false ∧ strm.badbit = false := by
  rw [good_eq, Bool.not_eq_true', Bool.or_eq_false_iff, fail, Bool.or_eq_false_iff, and_comm]

theorem skipSpace_of_not_good (h : strm.good = false) :
    strm.skipSpace = { strm with failbit := true } := by
  have hpeek : strm.peek = (none, { strm with failbit := true }) :=
    if_neg (by rw [h]; exact Bool.false_ne_true)
  rw [skipSpace]
  cases strm.rest.length with
  | zero => rw [skipRounds, hpeek]
  | succ rounds =>
      rw [skipRounds, hpeek]
      rfl

theorem skipRounds_of_good {rounds : ℕ} (h : strm.good = true)
    (hrounds : strm.rest.length ≤ rounds) :
    skipRounds rounds strm = { strm with
      rest := strm.rest.dropWhile isspace, eofbit := (strm.rest.dropWhile isspace).isEmpty } := by
  obtain ⟨rest, eofbit, failbit, badbit, skipws⟩ := strm
  obtain ⟨rfl, rfl, rfl⟩ := good_iff.mp h
  clear h
  induction rest generalizing rounds with
  | nil => cases rounds <;> rfl
  | cons c rest ih =>
      obtain ⟨rounds, rfl⟩ : ∃ n, rounds = n + 1 := Nat.exists_eq_succ_of_ne_zero (by
        rw [List.length_cons] at hrounds
        omega)
      have hpeek : (⟨c :: rest, false, false, false, skipws⟩ : InputStream).peek =
          (some c, ⟨c :: rest, false, false, false, skipws⟩) := rfl
      rw [skipRounds, hpeek]
      dsimp only
      cases hc : isspace c with
      | true =>
          rw [List.dropWhile_cons_of_pos hc, if_pos (by rw [Option.any_some, hc]; rfl)]
          exact ih (Nat.le_of_succ_le_succ hrounds)
      | false =>
          rw [List.dropWhile_cons_of_neg (by rw [hc]; exact Bool.false_ne_true),
            if_neg (by rw [Option.any_some, hc]; exact Bool.false_ne_true)]
          rfl

/-- White space is skipped, and a look at the end is not a failure. -/
theorem skipSpace_of_good (h : strm.good = true) : strm.skipSpace = { strm with
    rest := strm.rest.dropWhile isspace, eofbit := (strm.rest.dropWhile isspace).isEmpty } :=
  skipRounds_of_good h (Nat.le_refl _)

theorem rest_skipFlagged : strm.skipFlagged.rest = strm.nextText := by
  rw [skipFlagged, nextText]
  cases strm.skipws with
  | false => rfl
  | true =>
      cases h : strm.good with
      | false =>
          rw [if_pos rfl, skipSpace_of_not_good h]
          rfl
      | true =>
          rw [if_pos rfl, skipSpace_of_good h]
          rfl

/-- To look at a stream that is at its end is a failure, and to come there is not. -/
theorem fail_skipFlagged :
    strm.skipFlagged.fail = (strm.fail || strm.skipws && strm.eofbit) := by
  rw [skipFlagged]
  cases hskip : strm.skipws with
  | false =>
      rw [if_neg Bool.false_ne_true, Bool.false_and, Bool.or_false]
  | true =>
      rw [if_pos rfl, Bool.true_and]
      cases h : strm.good with
      | false =>
          rw [good_eq, Bool.not_eq_false'] at h
          rw [skipSpace_of_not_good (by rw [good_eq, h]; rfl), h]
          rfl
      | true =>
          rw [skipSpace_of_good h, (good_iff.mp h).1, Bool.or_false]
          rfl

end InputStream
end KssUtil.Libc

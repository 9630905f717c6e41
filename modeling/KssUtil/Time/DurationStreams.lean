import KssUtil.Libc.Streams
import KssUtil.Time.Duration

/-!
# Durations on streams (timeutil.hpp)
-/

namespace KssUtil.Time

open KssUtil.Foundation KssUtil.Libc

/-- The standard periods. -/
inductive DurationUnit where
  | h
  | min
  | s
  | ms
  | us
  | ns
deriving DecidableEq, Repr

namespace DurationUnit

def duration : DurationUnit → DurationType
  | h => .hours
  | min => .minutes
  | s => .seconds
  | ms => .milliseconds
  | us => .microseconds
  | ns => .nanoseconds

def suffix : DurationUnit → List Char
  | h => ['h']
  | min => ['m', 'i', 'n']
  | s => ['s']
  | ms => ['m', 's']
  | us => ['u', 's']
  | ns => ['n', 's']

end DurationUnit

/-- `ratio_equal` of the periods -/
def ratioEqual (D E : DurationType) : Bool := D.num * E.den = E.num * D.den

/-- Empty if the period is not a standard one. -/
def getDurationSuffix (D : DurationType) : List Char :=
  if ratioEqual D .hours then DurationUnit.h.suffix
  else if ratioEqual D .minutes then DurationUnit.min.suffix
  else if ratioEqual D .seconds then DurationUnit.s.suffix
  else if ratioEqual D .milliseconds then DurationUnit.ms.suffix
  else if ratioEqual D .microseconds then DurationUnit.us.suffix
  else if ratioEqual D .nanoseconds then DurationUnit.ns.suffix
  else []

/-- `operator<<`; `approx` is how the stream writes a `long double`. -/
def writeDuration (approx : ℚ → List Char) (D : DurationType) (dtn : ℤ) : List Char :=
  let suffix := getDurationSuffix D
  if suffix = [] then approx (dtn * (D.num / D.den)) ++ "s(approx)".toList
  else insertInteger dtn ++ suffix

/-- The characters of the suffix are read one by one; `ch` is left as it is if
there is none. -/
def readSuffix : List Char → Char → IStream → IStream
  | [], _, strm => strm
  | sch :: suffix, ch, strm =>
      let r := strm.extractChar ch
      readSuffix suffix r.1 (if sch ≠ r.1 then r.2.setFail else r.2)

/-- `operator>>`; `ch` is what the variable of that name holds before it is set. -/
def readDuration (ch : Char) (D : DurationType) (strm : IStream) (dtn : ℤ) : ℤ × IStream :=
  let suffix := getDurationSuffix D
  if suffix = [] then (dtn, strm.setFail)
  else
    let count := strm.extractInteger D.rep.min D.rep.max 0
    (count.1, readSuffix suffix ch count.2)

/-! ## Standard periods -/

namespace DurationUnit

variable (u : DurationUnit)

theorem getDurationSuffix_duration : getDurationSuffix u.duration = u.suffix := by
  cases u <;> decide

theorem suffix_ne_nil : u.suffix ≠ [] := by
  cases u <;> exact List.cons_ne_nil _ _

/-- No character of a unit can be taken for a part of a number. -/
theorem suffix_letters {c : Char} (hc : c ∈ u.suffix) : isspace c = false ∧ c.isDigit = false ∧
    c ≠ nul ∧ 10 ≤ digitOf c ∧ ¬(c = 'x' ∨ c = 'X') := by
  have hall : u.suffix.all (fun c => decide (isspace c = false ∧ c.isDigit = false ∧ c ≠ nul ∧
      10 ≤ digitOf c ∧ ¬(c = 'x' ∨ c = 'X'))) = true := by
    cases u <;> decide
  exact of_decide_eq_true (List.all_eq_true.mp hall c hc)

theorem suffix_stops (tail : List Char) : Stops Char.isDigit (u.suffix ++ tail) := by
  cases u <;> exact stops_cons.mpr (by decide)

theorem readSuffix_append : ∀ {suffix : List Char}, (∀ c ∈ suffix, isspace c = false) →
    ∀ (ch : Char) (tail : List Char), readSuffix suffix ch { rest := suffix ++ tail } =
      { rest := tail } := by
  intro suffix
  induction suffix with
  | nil =>
      intro _ ch tail
      rfl
  | cons c suffix ih =>
      intro hspace ch tail
      obtain ⟨hc, hrest⟩ := List.forall_mem_cons.mp hspace
      rw [readSuffix, List.cons_append, IStream.extractChar_cons hc]
      dsimp only
      rw [if_neg (not_not.mpr rfl)]
      exact ih hrest c tail

theorem writeDuration_duration (approx : ℚ → List Char) (dtn : ℤ) :
    writeDuration approx u.duration dtn = insertInteger dtn ++ u.suffix := by
  rw [writeDuration, getDurationSuffix_duration]
  exact if_neg u.suffix_ne_nil

/-- What is written is read back, and nothing beyond it. -/
theorem readDuration_writeDuration (approx : ℚ → List Char) (ch : Char) {dtn : ℤ}
    (hin : u.duration.InRange dtn) (tail : List Char) (dtn₀ : ℤ) :
    readDuration ch u.duration { rest := writeDuration approx u.duration dtn ++ tail } dtn₀ =
      (dtn, { rest := tail }) := by
  obtain ⟨sg, hsg, htext, hvalue⟩ := insertInteger_eq dtn
  have hin' : u.duration.InRange (negateIf (decide (dtn < 0)) (value (padded 1 dtn.natAbs))) := by
    rw [value_padded, hvalue]
    exact hin
  have hcount := IStream.extractInteger_append hsg (digits_padded 1 dtn.natAbs)
    (padded_one_ne_nil _) (List.append_ne_nil_of_left_ne_nil u.suffix_ne_nil tail)
    (u.suffix_stops tail) 0 hin'.1 hin'.2
  rw [value_padded, hvalue] at hcount
  rw [u.writeDuration_duration, htext, List.append_assoc, List.append_assoc, readDuration,
    getDurationSuffix_duration, if_neg u.suffix_ne_nil, hcount]
  dsimp only
  rw [readSuffix_append fun c hc => (u.suffix_letters hc).1]

end DurationUnit
end KssUtil.Time

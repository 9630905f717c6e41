import KssUtil.Libc.Time
import KssUtil.Time.Duration
import Mathlib.Data.List.DropRight

/-!
# ISO 8601 text (timeutil.cpp, timeutil.hpp)

The reader and the writer of broken-down time, and the conversions of time points
built on them.  A time point of a duration type is its count since the epoch.
-/

namespace KssUtil.Time

open KssUtil.Foundation KssUtil.Libc

/-- What the language leaves open: whether `assert` is compiled in, what an
uninitialised `tm` holds, what a `strftime` that failed leaves in its buffer, and
what becomes of a number too large for the integer type it is converted to. -/
structure Platform where
  ndebug : Bool
  uninitialised : Tm
  unspecified : List Char
  castOutOfRange : ℚ → ℤ

/-- Assertions compiled out, and zero wherever there is a choice. -/
def Platform.zeroed : Platform := ⟨true, ⟨0, 0, 0, 0, 0, 0, 0⟩, [], fun _ => 0⟩

/-! ## Formats -/

/-- "%Y" -/
def yearFormat : Format := [.field .Y]

/-- "%Y-%m" -/
def monthFormat : Format := yearFormat ++ [.lit '-', .field .m]

/-- "%Y-%m-%d" -/
def dayFormat : Format := monthFormat ++ [.lit '-', .field .d]

/-- "%Y-%m-%dT%H" -/
def hourFormat : Format := dayFormat ++ [.lit 'T', .field .H]

/-- "%Y-%m-%dT%H:%M" -/
def minuteFormat : Format := hourFormat ++ [.lit ':', .field .M]

/-- "%Y-%m-%dT%H:%M:%S" -/
def secondFormat : Format := minuteFormat ++ [.lit ':', .field .S]

/-- "%Y-%m-%dT%H:%M:%SZ" -/
def zuluFormat : Format := secondFormat ++ [.lit 'Z']

/-! ## Reading -/

def throwInvalid {α : Type} : Except Exn α := throw .systemError

def toInteger (s : List Char) : Except Exn ℤ :=
  let r := strtol (cstr s) 10
  if r.endptr ≠ [] then throwInvalid else return r.value

def toLdouble (s : List Char) : Except Exn ℚ :=
  let r := strtold (cstr s)
  if r.2 ≠ [] then throwInvalid else return r.1

def parse (p : Platform) (timestr : List Char) (format : Format) (tm : Tm) : Except Exn Tm := do
  assertion p.ndebug (!timestr.isEmpty)
  assertion p.ndebug (!format.isEmpty)
  match strptime (cstr timestr) format tm with
  | none => throwInvalid
  | some r => return r.2

/-- The format for a text, and what is to be parsed after it. -/
structure Selection where
  format : Format
  needToParseNanoseconds : Bool := false
  needToParseTimeZone : Bool := false
  timeZoneStart : ℕ := 0

/-- One of `-+Z`, with which a time zone begins. -/
def isZoneChar (c : Char) : Bool := c = '-' ∨ c = '+' ∨ c = 'Z'

def selectFormat (timestr : List Char) : Option Selection :=
  let len := timestr.length
  if len = 4 then some { format := yearFormat }
  else if len = 7 then some { format := monthFormat }
  else if len = 10 then some { format := dayFormat }
  else if len = 13 then some { format := hourFormat }
  else if len = 16 then some { format := minuteFormat }
  else if len = 19 then some { format := secondFormat }
  else if len = 20 then some { format := zuluFormat }
  else if len > 20 then
    let afterFormatPos := 19
    let c := timestr.getD afterFormatPos nul
    if c = '.' then some { format := secondFormat, needToParseNanoseconds := true }
    else if isZoneChar c then
      some { format := secondFormat, needToParseTimeZone := true, timeZoneStart := afterFormatPos }
    else none
  else none

def parseMainPortion (p : Platform) (timestr : List Char) : Except Exn (Tm × Selection) := do
  assertion p.ndebug (!timestr.isEmpty)
  let tm : Tm := ⟨0, 0, 0, 1, 0, 0, 0⟩
  match selectFormat timestr with
  | none => throwInvalid
  | some selection => return (← parse p timestr selection.format tm, selection)

/-- `s.find_first_of("-+Z", pos)` -/
def findZone (s : List Char) (pos : ℕ) : Option ℕ :=
  ((s.drop pos).findIdx? isZoneChar).map (· + pos)

/-- A conversion to `nanoseconds::rep`. -/
def castToRep (p : Platform) (q : ℚ) : ℤ :=
  if DurationType.nanoseconds.InRange (truncate q) then truncate q else p.castOutOfRange q

/-- `timestr.substr(19, timeZoneStart - 19)` -/
def nsstr (timestr : List Char) : Option ℕ → List Char
  | some timeZoneStart => (timestr.drop 19).take (timeZoneStart - 19)
  | none => timestr.drop 19

/-- The sub-seconds, and where the time zone starts if there is one. -/
def parseNanoseconds (p : Platform) (timestr : List Char) : Except Exn (ℤ × Option ℕ) := do
  assertion p.ndebug (!timestr.isEmpty)
  let timeZoneStart := findZone timestr 19
  let d ← toLdouble (nsstr timestr timeZoneStart)
  return (castToRep p (roundHalfAway (d * 1000000000)), timeZoneStart)

def maxHourOffset : ℤ := 24
def maximumMinuteOffset : ℤ := 59

def parseHourOffset (tzstr : List Char) : Except Exn ℤ := do
  let hourOffset ← toInteger (tzstr.take 3)
  if hourOffset > maxHourOffset ∨ hourOffset < -maxHourOffset then throwInvalid
  else return hourOffset

def minuteOffsetStr (tzstr : List Char) : Except Exn (List Char) :=
  if tzstr.length = 5 then return (tzstr.drop 3).take 2
  else if tzstr.length = 6 then
    if tzstr.getD 3 nul ≠ ':' then throwInvalid else return (tzstr.drop 4).take 2
  else return []

def parseMinuteOffset (tzstr : List Char) : Except Exn ℤ := do
  let minuteOffset ← toInteger (← minuteOffsetStr tzstr)
  if minuteOffset < 0 ∨ minuteOffset > maximumMinuteOffset then throwInvalid
  else return minuteOffset

def shiftTimeZone (tm : Tm) (hourOffset minuteOffset : ℤ) : Tm :=
  let shift := |hourOffset| * 60 * 60 + minuteOffset * 60
  let timeZoneShift := if hourOffset > 0 then -shift else shift
  if timeZoneShift ≠ 0 then (gmtimeR (timegm tm + timeZoneShift)).getD tm else tm

def parseTimeZone (p : Platform) (timestr : List Char) (tm : Tm) (timeZoneStart : ℕ) :
    Except Exn Tm := do
  assertion p.ndebug (!timestr.isEmpty)
  let tzstr := timestr.drop timeZoneStart
  if tzstr.length = 1 then
    assertion p.ndebug (tzstr.head? = some 'Z')
    return tm
  else
    let hourOffset ← parseHourOffset tzstr
    let minuteOffset ← parseMinuteOffset tzstr
    return shiftTimeZone tm hourOffset minuteOffset

/-- `if (needToParseNanoseconds)`: the sub-seconds, and where the time zone starts
if it is needed. -/
def parseSubseconds (p : Platform) (timestr : List Char) (selection : Selection) :
    Except Exn (ℤ × Option ℕ) :=
  if selection.needToParseNanoseconds then parseNanoseconds p timestr
  else return (0, if selection.needToParseTimeZone then some selection.timeZoneStart else none)

/-- `if (needToParseTimeZone)` -/
def parseZone (p : Platform) (timestr : List Char) (tm : Tm) : Option ℕ → Except Exn Tm
  | some timeZoneStart => parseTimeZone p timestr tm timeZoneStart
  | none => return tm

/-- `_private::parseIso8601` -/
def parseIso8601 (p : Platform) (timestr : List Char) : Except Exn (Tm × ℤ) := do
  if timestr.isEmpty then throw .invalidArgument
  else
    let main ← parseMainPortion p timestr
    let subseconds ← parseSubseconds p timestr main.2
    let tm ← parseZone p timestr main.1 subseconds.2
    return (tm, subseconds.1)

/-! ## Writing -/

/-- `kss_rtrim_char` -/
def rtrimChar (s : List Char) (c : Char) : List Char := s.rdropWhile (· = c)

/-- The shortest of milliseconds, microseconds and nanoseconds that is exact. -/
def fractionText (ns : ℤ) : List Char :=
  let ms := durationCast .milliseconds .nanoseconds ns
  let us := durationCast .microseconds .nanoseconds ns
  if ns = ms * 1000000 then '.' :: printfZero 3 ms
  else if ns = us * 1000 then '.' :: printfZero 6 us
  else '.' :: printfZero 9 ns

def zoneText (gmtoff : ℤ) : List Char :=
  if gmtoff = 0 then ['Z']
  else
    let tzhour := gmtoff.tdiv (60 * 60)
    let tzminute := (gmtoff.tmod (60 * 60)).tdiv 60
    printfSignZero 3 tzhour ++ ':' :: printfZero 2 (if tzminute < 0 then -tzminute else tzminute)

/-- `_private::toIso8601` -/
def toIso8601 (p : Platform) (tm : Tm) (ns : ℤ) : List Char :=
  let buffer := (strftime 20 secondFormat tm).getD p.unspecified
  let fraction := if ns ≠ 0 then rtrimChar (fractionText ns) '0' else []
  buffer ++ fraction ++ zoneText tm.gmtoff

/-! ## Time points -/

def toTimeT (D : DurationType) (tp : ℤ) : Except Exn ℤ := checkedDurationCast .seconds D tp

/-- `tzTimeR`, without a time zone. -/
def tzTimeR (t : ℤ) (tm : Tm) : Tm := (gmtimeR t).getD tm

def toTm (D : DurationType) (tp : ℤ) (tm : Tm) : Except Exn Tm :=
  return tzTimeR (← toTimeT D tp) tm

/-- The difference is of the common type of the two durations: its period is one
over the denominator of `D`. -/
def toIso8601String (p : Platform) (D : DurationType) (tp : ℤ) : Except Exn (List Char) := do
  let tm ← toTm D tp p.uninitialised
  let secs ← checkedDurationCast .seconds D tp
  let subsecs := tp * D.num - secs * D.den
  if subsecs > 0 then
    let subSecsAsSeconds : ℚ := subsecs * D.num / D.den
    if subSecsAsSeconds ≤ 1 then
      return toIso8601 p tm (castToRep p (roundHalfAway (subSecsAsSeconds * 1000000000)))
    else throw .aborted
  else return toIso8601 p tm 0

def tmToTimeT (tm : Tm) : ℤ :=
  let t := timegm tm
  if tm.gmtoff ≠ 0 then t - tm.gmtoff else t

def fromTimeT (D : DurationType) (t : ℤ) : Except Exn ℤ := checkedDurationCast D .seconds t

def fromTm (D : DurationType) (tm : Tm) : Except Exn ℤ := fromTimeT D (tmToTimeT tm)

def fromIso8601String (p : Platform) (D : DurationType) (s : List Char) : Except Exn ℤ := do
  let r ← parseIso8601 p s
  let ns ← checkedDurationCast .nanoseconds .nanoseconds r.2
  let t ← fromTm D r.1
  if ns ≠ 0 then return D.rep.wrap (t + durationCast D .nanoseconds ns) else return t

end KssUtil.Time

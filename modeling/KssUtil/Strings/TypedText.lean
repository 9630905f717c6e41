import KssUtil.Strings.ConvertInteger
import KssUtil.Strings.DurationText
import KssUtil.Time.Iso8601RoundTrip

/-!
# Values and their texts (convert.hpp, convert.cpp)

`convert` as the one template that it is, over the types with an exact text.
-/

namespace KssUtil.Strings

open KssUtil.Foundation KssUtil.Libc KssUtil.Time

/-- `doConvertTimePoint`, for the durations of a system clock -/
def doConvertTimePoint (p : Platform) (D : DurationType) (s : List Char) : Except Exn ℤ := do
  parameters (!s.isEmpty)
  fromIso8601String p D s

/-- The type that a text is converted to. -/
inductive ValueType where
  | string
  | integer (target : Integer.Target)
  | duration (unit : DurationUnit)
  | timePoint (precision : Precision)
deriving DecidableEq

namespace ValueType

/-- A count is taken for the duration, and for the time point, that it counts. -/
def Carrier : ValueType → Type
  | string => List Char
  | _ => ℤ

/-- `convert<T>` -/
def convert (p : Platform) : (t : ValueType) → List Char → Except Exn t.Carrier
  | string, s => return s
  | integer target, s => (target.convert s).mapError Integer.Error.exn
  | duration unit, s => Strings.convert unit s
  | timePoint precision, s => doConvertTimePoint p (precision.duration .int64) s

/-- The text that `to_string`, `operator<<` and `toIso8601String` make of a value. -/
def write (p : Platform) : (t : ValueType) → t.Carrier → Except Exn (List Char)
  | string, s => return s
  | integer _, n => return Integer.toString n
  | duration unit, count => return writeDuration (fun _ => []) unit.duration count
  | timePoint precision, tp => toIso8601String p (precision.duration .int64) tp

/-- The value is one of its type; the year of a time point has four digits, and before the
epoch it is a whole second. -/
def Valid : (t : ValueType) → t.Carrier → Prop
  | string, _ => True
  | integer target, (n : ℤ) => target.min ≤ n ∧ n ≤ target.max
  | duration unit, (count : ℤ) => unit.duration.InRange count
  | timePoint precision, (tp : ℤ) => (precision.duration .int64).InRange tp ∧
      FourDigitYear (precision.duration .int64) tp ∧ (0 ≤ tp ∨ (precision.perSecond : ℤ) ∣ tp)

end ValueType

/-! ## Reading back -/

theorem convert_writeDuration {unit : DurationUnit} {count : ℤ}
    (h : unit.duration.InRange count) :
    convert unit (writeDuration (fun _ => []) unit.duration count) = .ok count := by
  have hlong : longMin ≤ count ∧ count ≤ longMax := by
    obtain ⟨hlo, hhi⟩ := h
    cases unit <;> exact ⟨hlo, hhi⟩
  rw [convert, writeDuration_eq_text, doConvertDuration_text, readCount_writtenQuantity, meaning,
    if_pos hlong]
  have hsame : checkedDurationCast unit.duration unit.duration count = .ok count := by
    rw [checkedDurationCast_self, if_pos h]
  rw [checkedDurationCast_eq] at hsame
  exact hsame

/-- A text of a time point is not empty, so `convert` reads what `fromIso8601String` does. -/
theorem doConvertTimePoint_of_ok {p : Platform} {D : DurationType} {s : List Char} {tp : ℤ}
    (h : fromIso8601String p D s = .ok tp) : doConvertTimePoint p D s = .ok tp := by
  have hs : s.isEmpty = false := by
    cases s with
    | nil => cases h
    | cons c s => rfl
  rw [doConvertTimePoint, hs]
  exact h

theorem doConvertTimePoint_toIso8601String (p : Platform) {u : Precision} {tp : ℤ}
    (hin : (u.duration .int64).InRange tp) (hyear : FourDigitYear (u.duration .int64) tp)
    (hwhole : 0 ≤ tp ∨ (u.perSecond : ℤ) ∣ tp) : ∃ s,
    toIso8601String p (u.duration .int64) tp = .ok s ∧
      doConvertTimePoint p (u.duration .int64) s = .ok tp := by
  have htrip := roundTrip_eq p hin hyear
  cases htext : toIso8601String p (u.duration .int64) tp with
  | error e =>
      rw [htext] at htrip
      cases htrip
  | ok s =>
      rw [htext, ok_bind] at htrip
      refine ⟨s, rfl, doConvertTimePoint_of_ok (htrip.trans ?_)⟩
      congr 1
      split
      · rfl
      · rename_i hneg
        exact Int.tdiv_mul_cancel (hwhole.resolve_left hneg)

namespace ValueType

variable {t : ValueType} {v : t.Carrier}

/-- **Every value is read back from its text.** -/
theorem convert_write (p : Platform) (h : t.Valid v) : ∃ s, t.write p v = .ok s ∧
    t.convert p s = .ok v := by
  cases t with
  | string => exact ⟨v, rfl, rfl⟩
  | integer target =>
      refine ⟨_, rfl, ?_⟩
      show (target.convert (Integer.toString v)).mapError Integer.Error.exn = .ok v
      rw [Integer.convert_toString target h]
      rfl
  | duration unit => exact ⟨_, rfl, convert_writeDuration h⟩
  | timePoint precision => exact doConvertTimePoint_toIso8601String p h.1 h.2.1 h.2.2

end ValueType
end KssUtil.Strings

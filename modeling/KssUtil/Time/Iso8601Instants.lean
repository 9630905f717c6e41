import KssUtil.Time.Iso8601Text

/-!
# The instants that date-time texts denote

A stamp denotes its local time less its offset, plus its fraction.  The text of a
stamp determines it, so a text denotes one instant.
-/

namespace KssUtil.Time

open KssUtil.Foundation KssUtil.Libc

/-- Seconds to the east. -/
def Zone.seconds : Zone → ℤ
  | offset o => o.seconds
  | _ => 0

namespace Stamp

/-- The seconds after the last whole one. -/
def fractionValue (w : Stamp) : ℚ := value w.fraction / (10 ^ w.fraction.length : ℕ)

/-- In seconds since the epoch. -/
def instant (w : Stamp) : ℚ := timegm w.tm - w.zone.seconds + w.fractionValue

variable {v w : Stamp}

/-! ## A text denotes one instant -/

theorem not_isZoneChar_fractionText : ∀ c ∈ w.fractionText, (!isZoneChar c) = true := by
  intro c hc
  unfold fractionText at hc
  split at hc
  · exact absurd hc List.not_mem_nil
  · rcases List.mem_cons.mp hc with rfl | hc
    · decide
    · rw [not_isZoneChar_of_isDigit (w.digits c hc)]
      rfl

theorem stops_zoneText (z : Zone) : Stops (fun c => !isZoneChar c) z.text := by
  cases z with
  | absent => exact stops_nil
  | zulu => exact stops_cons.mpr (by decide)
  | offset o =>
      apply stops_cons.mpr
      unfold Offset.sign
      split <;> decide

theorem fraction_eq_of_text (h : v.fractionText = w.fractionText) : v.fraction = w.fraction := by
  unfold fractionText at h
  split at h
  · rename_i hv
    split at h
    · rename_i hw
      rw [hv, hw]
    · exact absurd h.symm (List.cons_ne_nil _ _)
  · split at h
    · exact absurd h (List.cons_ne_nil _ _)
    · exact (List.cons.inj h).2

theorem negateIf_inj {negative : Bool} {m n : ℤ} (h : negateIf negative m = negateIf negative n) :
    m = n := by
  unfold negateIf at h
  split at h <;> omega

/-- An offset is what the reader takes from its text. -/
theorem offset_seconds_eq {o o' : Offset} (h : o.text = o'.text) : o.seconds = o'.seconds := by
  have hsign : o.negative = o'.negative := by
    have hhead : o.sign = o'.sign := (List.cons.inj h).1
    unfold Offset.sign at hhead
    cases ho : o.negative <;> cases ho' : o'.negative <;> rw [ho, ho'] at hhead
    · exact absurd hhead (by decide)
    · exact absurd hhead (by decide)
  have hhours := o.parseHourOffset_text
  rw [h, o'.parseHourOffset_text, hsign] at hhours
  have hminutes := o.parseMinuteOffset_text
  rw [h, o'.parseMinuteOffset_text] at hminutes
  have hhours := negateIf_inj (Except.ok.inj hhours)
  have hminutes := Except.ok.inj hminutes
  rw [Offset.seconds, Offset.seconds, hsign, hhours, hminutes]

theorem sign_ne_zulu (o : Offset) : o.sign ≠ 'Z' := by
  unfold Offset.sign
  split <;> decide

theorem zone_seconds_eq {z z' : Zone} (h : z.text = z'.text) : z.seconds = z'.seconds := by
  cases z with
  | absent =>
      cases z' with
      | absent => rfl
      | zulu => rfl
      | offset o => exact absurd h.symm (List.cons_ne_nil _ _)
  | zulu =>
      cases z' with
      | absent => rfl
      | zulu => rfl
      | offset o => exact absurd (List.cons.inj h).1.symm (sign_ne_zulu o)
  | offset o =>
      cases z' with
      | absent => exact absurd h (List.cons_ne_nil _ _)
      | zulu => exact absurd (List.cons.inj h).1 (sign_ne_zulu o)
      | offset o' => exact offset_seconds_eq h

/-- **Equal texts, equal stamps** but for how their offset is laid out. -/
theorem eq_of_text (h : v.text = w.text) :
    v.tm = w.tm ∧ v.fraction = w.fraction ∧ v.zone.seconds = w.zone.seconds := by
  obtain ⟨hmain, htail⟩ := List.append_inj h (length_mainText.trans length_mainText.symm)
  refine ⟨?_, fraction_eq_of_text ?_, zone_seconds_eq ?_⟩
  · have hv := strptime_mainText (w := v) []
    rw [hmain, strptime_mainText] at hv
    exact (Prod.mk.inj (Option.some.inj hv)).2.symm
  · have htake := congrArg (List.takeWhile fun c => !isZoneChar c) htail
    rw [takeWhile_append_stops not_isZoneChar_fractionText (stops_zoneText _),
      takeWhile_append_stops not_isZoneChar_fractionText (stops_zoneText _)] at htake
    exact htake
  · have hdrop := congrArg (List.dropWhile fun c => !isZoneChar c) htail
    rw [dropWhile_append_stops not_isZoneChar_fractionText (stops_zoneText _),
      dropWhile_append_stops not_isZoneChar_fractionText (stops_zoneText _)] at hdrop
    exact hdrop

theorem instant_eq_of_text (h : v.text = w.text) : v.instant = w.instant := by
  obtain ⟨htm, hfraction, hzone⟩ := eq_of_text h
  rw [instant, instant, fractionValue, fractionValue, htm, hfraction, hzone]

end Stamp
end KssUtil.Time

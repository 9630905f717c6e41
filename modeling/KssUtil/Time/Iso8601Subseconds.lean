import KssUtil.Time.Iso8601Assertions
import KssUtil.Time.Iso8601Instants
import KssUtil.Time.Iso8601Offsets

/-!
# The sub-seconds that are read

The fraction is given to a reader of floating-point numbers, so it may have an
exponent, and it is rounded to nanoseconds, which may make a second of it.  Neither is
looked at afterwards.
-/

namespace KssUtil.Time

open KssUtil.Foundation KssUtil.Libc

/-- `parseIso8601`, with the sub-seconds as a duration of type `D`. -/
def parseIso8601Into (p : Platform) (D : DurationType) (timestr : List Char) :
    Except Exn (Tm × ℤ) := do
  let r ← parseIso8601 p timestr
  let subseconds ← checkedDurationCast D .nanoseconds r.2
  return (r.1, subseconds)

/-! ## What a text says -/

/-- The digits of an exponent, which has no sign: that would begin the zone. -/
def ExponentValue (cs : List Char) (k : ℕ) : Prop :=
  cs = [] ∧ k = 0 ∨
    ∃ e es, cs = e :: es ∧ (e = 'e' ∨ e = 'E') ∧ Digits es ∧ es ≠ [] ∧ value es = k

/-- A point, digits and perhaps an exponent, up to a null character, of the value `d`
in seconds. -/
def FractionValue (t : List Char) (d : ℚ) : Prop :=
  ∃ ds rest k, cstr t = '.' :: (ds ++ rest) ∧ Digits ds ∧ ds ≠ [] ∧ ExponentValue rest k ∧
    d = value ds / (10 ^ ds.length : ℕ) * (10 ^ k : ℕ)

/-- A zone says how many seconds it is to the east: the sign goes with the hours and
the minutes. -/
def ZoneSays (tz : List Char) (z : ℤ) : Prop :=
  (tz = [] ∨ tz = ['Z']) ∧ z = 0 ∨
    1 < tz.length ∧ ∃ h m, TakesInteger (tz.take 3) h ∧ TakesInteger (minutePart tz) m ∧
      z = negateIf (tz.head? = some '-') (|h| * 3600 + m * 60)

/-- The instant that is written in a text with a point and decimal digits after its
seconds. -/
def WrittenInstant (s : List Char) (q : ℚ) : Prop :=
  ∃ rest tm ds z, strptime (cstr s) secondFormat ⟨0, 0, 0, 1, 0, 0, 0⟩ = some (rest, tm) ∧
    fractionPart s = '.' :: ds ∧ Digits ds ∧ ds ≠ [] ∧ ZoneSays (zonePart s) z ∧
      q = timegm tm - z + value ds / (10 ^ ds.length : ℕ)

/-- The sub-seconds are a proper fraction, and with the time they are the instant that
is written, to the nearest nanosecond. -/
structure ProperSubseconds (p : Platform) (s : List Char) : Prop where
  range : ∀ tm ns, parseIso8601Into p .nanoseconds s = .ok (tm, ns) → 0 ≤ ns ∧ ns < 1000000000
  nearest : ∀ tm ns, parseIso8601Into p .nanoseconds s = .ok (tm, ns) →
    ∀ q, WrittenInstant s q → |(timegm tm + ns / 1000000000 : ℚ) - q| ≤ 1 / 2000000000

/-- A plus, no hours and some minutes. -/
def ShortEast (tz : List Char) : Prop :=
  tz.head? = some '+' ∧ TakesInteger (tz.take 3) 0 ∧ ∃ m, TakesInteger (minutePart tz) m ∧ m ≠ 0

/-! ## Fractions -/

section

variable {p : Platform} {s t : List Char} {d : ℚ}

theorem scanExponent_value {cs : List Char} {k : ℕ} (h : ExponentValue cs k) :
    scanExponent cs = ((k : ℤ), []) := by
  rcases h with ⟨rfl, rfl⟩ | ⟨e, es, rfl, he, hes, hne, rfl⟩
  · rfl
  · obtain ⟨c, cs, rfl⟩ := List.exists_cons_of_ne_nil hne
    have hsign := scanSign_of_isDigit (digits_cons.mp hes).1 cs
    have htake := takeWhile_append_stops hes stops_nil
    have hdrop := dropWhile_append_stops hes stops_nil
    rw [List.append_nil] at htake hdrop
    rw [scanExponent, hsign]
    dsimp only
    rw [htake, hdrop, if_pos ⟨he, hne⟩]
    rfl

theorem ExponentValue.stops {cs : List Char} {k : ℕ} (h : ExponentValue cs k) :
    Stops Char.isDigit cs := by
  rcases h with ⟨rfl, -⟩ | ⟨e, es, rfl, he, -⟩
  · exact stops_nil
  · rcases he with rfl | rfl <;> exact stops_cons.mpr (by decide)

theorem FractionValue.toLdouble (h : FractionValue t d) : toLdouble t = .ok d := by
  obtain ⟨ds, rest, k, htext, hds, hne, hexp, rfl⟩ := h
  rw [Time.toLdouble, htext, strtold_point hds hne hexp.stops, scanExponent_value hexp]
  rfl

theorem FractionValue.nonneg (h : FractionValue t d) : 0 ≤ d := by
  obtain ⟨ds, rest, k, -, -, -, -, rfl⟩ := h
  positivity

/-- An exponent without a character of a zone has no sign. -/
theorem exists_exponentValue {cs : List Char} (h : cs = [] ∨ IsExponent cs)
    (hzone : ∀ c ∈ cs, isZoneChar c = false) : ∃ k, ExponentValue cs k := by
  rcases h with rfl | ⟨e, sg, negative, es, rfl, he, hsg, hes, hne⟩
  · exact ⟨0, Or.inl ⟨rfl, rfl⟩⟩
  · have hnone : sg = [] := by
      rcases hsg with ⟨rfl, -⟩ | ⟨rfl, -⟩ | ⟨rfl, -⟩
      · rfl
      · exact absurd (hzone '+' (by simp)) (by decide)
      · exact absurd (hzone '-' (by simp)) (by decide)
    rw [hnone, List.nil_append]
    exact ⟨value es, Or.inr ⟨e, es, rfl, he, hes, hne, rfl⟩⟩

theorem isZoneChar_fractionPart : ∀ c ∈ fractionPart s, isZoneChar c = false := by
  intro c hc
  have := List.mem_takeWhile_imp hc
  rw [Bool.not_eq_true'] at this
  exact this

theorem TakesFraction.exists_value (h : TakesFraction (fractionPart s)) :
    ∃ d, FractionValue (fractionPart s) d := by
  obtain ⟨ds, rest, htext, hds, hne, hrest⟩ := h
  have hzone : ∀ c ∈ rest, isZoneChar c = false := by
    intro c hc
    have hmem : c ∈ cstr (fractionPart s) := by
      rw [htext]
      exact List.mem_cons_of_mem _ (List.mem_append_right _ hc)
    exact isZoneChar_fractionPart c ((List.takeWhile_prefix _).subset hmem)
  obtain ⟨k, hk⟩ := exists_exponentValue hrest hzone
  exact ⟨_, ds, rest, k, htext, hds, hne, hk, rfl⟩

theorem fractionValue_of_digits {ds : List Char} (h : t = '.' :: ds) (hds : Digits ds)
    (hne : ds ≠ []) : FractionValue t (value ds / (10 ^ ds.length : ℕ)) := by
  have hnul : ∀ c ∈ '.' :: ds, c ≠ nul := by
    intro c hc
    rcases List.mem_cons.mp hc with rfl | hc
    · decide
    · exact ne_nul_of_digits hds c hc
  refine ⟨ds, [], 0, ?_, hds, hne, Or.inl ⟨rfl, rfl⟩, ?_⟩
  · rw [h, cstr_of_ne hnul, List.append_nil]
  · rw [pow_zero, Nat.cast_one, mul_one]

/-- A text with the value of a fraction has a point behind its seconds. -/
theorem FractionValue.point (h : FractionValue (fractionPart s) d) :
    20 < s.length ∧ (s.drop 19).head? = some '.' := by
  obtain ⟨ds, rest, k, htext, hds, hne, -⟩ := h
  obtain ⟨c, cs, rfl⟩ := List.exists_cons_of_ne_nil hne
  have hprefix : (cstr (fractionPart s)).IsPrefix (s.drop 19) :=
    (List.takeWhile_prefix _).trans (List.takeWhile_prefix _)
  rw [htext] at hprefix
  obtain ⟨tail, htail⟩ := hprefix
  constructor
  · have hlen := congrArg List.length htail
    rw [List.length_drop] at hlen
    simp only [List.length_append, List.length_cons] at hlen
    omega
  · rw [← htail]
    rfl

end

/-! ## Zones -/

section

variable {p : Platform} {tm tm' : Tm} {t tz : List Char} {h m v w z : ℤ}

theorem takesInteger_unique (hv : TakesInteger t v) (hw : TakesInteger t w) : v = w := by
  rcases hv with ⟨hnil, rfl⟩ | hv
  · rcases hw with ⟨-, rfl⟩ | hw
    · rfl
    · rw [hnil] at hw
      have hread := scanInteger_ten.mpr hw
      exact absurd hread.symm (Option.some_ne_none _)
  · rcases hw with ⟨hnil, rfl⟩ | hw
    · rw [hnil] at hv
      have hread := scanInteger_ten.mpr hv
      exact absurd hread.symm (Option.some_ne_none _)
    · have hread := scanInteger_ten.mpr hv
      rw [scanInteger_ten.mpr hw] at hread
      exact (Prod.mk.inj (Option.some.inj hread)).1.symm

/-- The number of a zone's hours has the sign the zone begins with. -/
theorem takesInteger_sign {c : Char} {cs : List Char} (hc : isZoneChar c = true)
    (hh : TakesInteger ((c :: cs).take 3) h) : c = '-' ∧ h ≤ 0 ∨ c = '+' ∧ 0 ≤ h := by
  have hcstr : cstr ((c :: cs).take 3) = c :: cstr (cs.take 2) := by
    have hnul : c ≠ nul := by
      rintro rfl
      exact absurd hc (by decide)
    rw [List.take_succ_cons, cstr, List.takeWhile_cons, if_pos (decide_eq_true hnul)]
    rfl
  rw [TakesInteger, hcstr] at hh
  rcases hh with ⟨hnil, -⟩ | ⟨ws, sg, negative, ds, htext, hws, hsg, hds, hne, -, rfl⟩
  · exact absurd hnil (List.cons_ne_nil _ _)
  · have hnone : ws = [] := by
      cases ws with
      | nil => rfl
      | cons x xs =>
          obtain ⟨rfl, -⟩ := List.cons.inj htext
          have hspace := hws c List.mem_cons_self
          rw [isZoneChar, decide_eq_true_eq] at hc
          rcases hc with rfl | rfl | rfl <;> exact absurd hspace (by decide)
    rw [hnone, List.nil_append] at htext
    rcases hsg with ⟨rfl, rfl⟩ | ⟨rfl, rfl⟩ | ⟨rfl, rfl⟩
    · obtain ⟨d, ds, rfl⟩ := List.exists_cons_of_ne_nil hne
      obtain ⟨rfl, -⟩ := List.cons.inj htext
      rw [not_isZoneChar_of_isDigit (digits_cons.mp hds).1] at hc
      exact absurd hc Bool.false_ne_true
    · obtain ⟨rfl, -⟩ := List.cons.inj htext
      exact Or.inr ⟨rfl, Int.natCast_nonneg _⟩
    · obtain ⟨rfl, -⟩ := List.cons.inj htext
      refine Or.inl ⟨rfl, ?_⟩
      show -(value ds : ℤ) ≤ 0
      omega

theorem clampLong_eq_self (hlo : -24 ≤ v) (hhi : v ≤ 59) : clampLong v = v := by
  apply clampLong_of_mem
  unfold longMin longMax
  omega

theorem parseHourOffset_of_takes (hh : TakesInteger (tz.take 3) h) (hr : -24 ≤ h ∧ h ≤ 24) :
    parseHourOffset tz = .ok h := by
  rw [parseHourOffset, toInteger_of_takes hh, ok_bind, clampLong_eq_self hr.1 (by omega),
    if_neg (by unfold maxHourOffset; omega)]
  rfl

theorem parseMinuteOffset_of_takes (hcolon : tz.length = 6 → tz.getD 3 nul = ':')
    (hm : TakesInteger (minutePart tz) m) (hr : 0 ≤ m ∧ m ≤ 59) :
    parseMinuteOffset tz = .ok m := by
  have hnocolon : ¬(tz.length = 6 ∧ tz.getD 3 nul ≠ ':') := fun hne => hne.2 (hcolon hne.1)
  rw [parseMinuteOffset, minuteOffsetStr_eq, if_neg hnocolon, ok_bind, toInteger_of_takes hm,
    ok_bind, clampLong_eq_self (by omega) hr.2, if_neg (by unfold maximumMinuteOffset; omega)]
  rfl

theorem zoneResult_offset (hlen : 1 < tz.length) (hoff : TakesOffset tz)
    (hh : TakesInteger (tz.take 3) h) (hm : TakesInteger (minutePart tz) m) :
    zoneResult p tm tz = .ok (shiftTimeZone tm h m) ∧ (-24 ≤ h ∧ h ≤ 24) ∧ 0 ≤ m ∧ m ≤ 59 := by
  obtain ⟨⟨h', hh', hhr⟩, hcolon, m', hm', hmr⟩ := hoff
  obtain rfl := takesInteger_unique hh hh'
  obtain rfl := takesInteger_unique hm hm'
  have hne : tz ≠ [] := List.ne_nil_of_length_pos (by omega)
  rw [zoneResult, if_neg hne, if_neg (by omega), parseHourOffset_of_takes hh hhr, ok_bind,
    parseMinuteOffset_of_takes hcolon hm hmr, ok_bind]
  exact ⟨rfl, hhr, hmr⟩

/-- The zone of a stamp says its offset. -/
theorem zoneSays_text (zone : Zone) : ZoneSays zone.text zone.seconds := by
  cases zone with
  | absent => exact Or.inl ⟨Or.inl rfl, rfl⟩
  | zulu => exact Or.inl ⟨Or.inr rfl, rfl⟩
  | offset o =>
      have hhours := o.parseHourOffset_text
      have hminutes := o.parseMinuteOffset_text
      have hpass : Passes (parseHourOffset o.text) := by
        rw [hhours]
        exact passes_ok _
      have hpass' : Passes (parseMinuteOffset o.text) := by
        rw [hminutes]
        exact passes_ok _
      obtain ⟨h, hh, hhr⟩ := passes_parseHourOffset.mp hpass
      obtain ⟨hcolon, m, hm, hmr⟩ := passes_parseMinuteOffset.mp hpass'
      rw [parseHourOffset_of_takes hh hhr] at hhours
      rw [parseMinuteOffset_of_takes hcolon hm hmr] at hminutes
      have hlen : 1 < o.text.length := by
        have hne := o.length_text_ne_one
        have hpos : 0 < o.text.length := List.length_pos_iff.mpr (List.cons_ne_nil _ _)
        omega
      have hminus : decide (o.text.head? = some '-') = o.negative := by
        have hhead : o.text.head? = some o.sign := rfl
        rw [hhead, Offset.sign]
        cases o.negative <;> rfl
      have habs : |h| = o.hours := by
        rw [Except.ok.inj hhours, negateIf]
        split
        · rw [abs_neg, Nat.abs_cast]
        · exact Nat.abs_cast _
      refine Or.inr ⟨hlen, h, m, hh, hm, ?_⟩
      show o.seconds = negateIf (decide (o.text.head? = some '-')) (|h| * 3600 + m * 60)
      rw [hminus, habs, Except.ok.inj hminutes, Offset.seconds]

/-- The instant written in the text of a stamp is the one it denotes. -/
theorem writtenInstant_text (w : Stamp) (hne : w.fraction ≠ []) :
    WrittenInstant w.text w.instant := by
  have hfraction : w.fractionText = '.' :: w.fraction := if_neg hne
  have hpart : fractionPart w.text = '.' :: w.fraction := by
    rw [fractionPart, Stamp.text, Stamp.drop_mainText,
      takeWhile_append_stops Stamp.not_isZoneChar_fractionText (Stamp.stops_zoneText _), hfraction]
  have hzone : zonePart w.text = w.zone.text := by
    rw [zonePart, Stamp.text, Stamp.drop_mainText,
      dropWhile_append_stops Stamp.not_isZoneChar_fractionText (Stamp.stops_zoneText _)]
  refine ⟨_, w.tm, w.fraction, w.zone.seconds, Stamp.strptime_mainText _, hpart, w.digits, hne, ?_,
    rfl⟩
  rw [hzone]
  exact zoneSays_text w.zone

/-- The time of a text that was read lies in the years 0 to 9999. -/
theorem timegm_bounds_of_strptime {s rest : List Char}
    (hread : strptime s secondFormat ⟨0, 0, 0, 1, 0, 0, 0⟩ = some (rest, tm)) :
    -100000000000 ≤ timegm tm ∧ timegm tm ≤ 300000000000 := by
  have hstart : ∀ f : Field, f.InRange ⟨0, 0, 0, 1, 0, 0, 0⟩ := by
    intro f
    cases f <;> exact ⟨by decide, by decide⟩
  obtain ⟨hrange, hoff⟩ := strptime_inRange hstart hread
  exact Stamp.timegm_bounds ⟨tm, [], .absent, hrange, hoff, digits_nil⟩

theorem timegm_shiftTimeZone (hbounds : -100000000000 ≤ timegm tm ∧ timegm tm ≤ 300000000000)
    (hh : -24 ≤ h ∧ h ≤ 24) (hm : 0 ≤ m ∧ m ≤ 59) :
    timegm (shiftTimeZone tm h m) =
      timegm tm + if h > 0 then -(|h| * 3600 + m * 60) else |h| * 3600 + m * 60 := by
  have habs : |h| ≤ 24 := abs_le.mpr hh
  have hnonneg := abs_nonneg h
  unfold shiftTimeZone
  dsimp only
  generalize |h| = a at habs hnonneg
  have hshift : (if h > 0 then -(a * 60 * 60 + m * 60) else a * 60 * 60 + m * 60) =
      if h > 0 then -(a * 3600 + m * 60) else a * 3600 + m * 60 := by
    split <;> omega
  rw [hshift]
  generalize hk : (if h > 0 then -(a * 3600 + m * 60) else a * 3600 + m * 60) = k
  have hk' : -100000 ≤ k ∧ k ≤ 100000 := by
    rw [← hk]
    split <;> omega
  by_cases hzero : k = 0
  · rw [if_neg (not_not.mpr hzero), hzero, Int.add_zero]
  · obtain ⟨tm', htm'⟩ := exists_gmtimeR (t := timegm tm + k) (by omega) (by omega)
    rw [if_pos hzero, htm', Option.getD_some]
    exact (gmtimeR_spec htm').2

theorem zoneResult_plain (hplain : tz = [] ∨ tz = ['Z']) :
    zoneResult p tm tz = .ok tm ∧ ¬ ShortEast tz := by
  rcases hplain with rfl | rfl
  · refine ⟨rfl, ?_⟩
    rintro ⟨hhead, -⟩
    exact absurd hhead.symm (Option.some_ne_none _)
  · constructor
    · rw [zoneResult, if_neg (by decide), if_pos (by decide)]
      exact assertion_bind _ _
    · rintro ⟨hhead, -⟩
      exact absurd hhead (by decide)

/-- What is added of an offset that is read as `h` and `m`, and what its text says. -/
theorem shift_eq {c : Char} {cs : List Char} (hzone : isZoneChar c = true) (hm0 : 0 ≤ m)
    (hh : TakesInteger ((c :: cs).take 3) h) (hm : TakesInteger (minutePart (c :: cs)) m) :
    (¬ ShortEast (c :: cs) → (if 0 < h then -(|h| * 3600 + m * 60) else |h| * 3600 + m * 60) =
        -negateIf ((c :: cs).head? = some '-') (|h| * 3600 + m * 60)) ∧
      (ShortEast (c :: cs) → 120 ≤ (if 0 < h then -(|h| * 3600 + m * 60)
        else |h| * 3600 + m * 60) +
          negateIf ((c :: cs).head? = some '-') (|h| * 3600 + m * 60)) := by
  have hshort : ShortEast (c :: cs) ↔ c = '+' ∧ h = 0 ∧ m ≠ 0 := by
    constructor
    · rintro ⟨hhead, hzero, m', hm', hne⟩
      rw [takesInteger_unique hm hm']
      exact ⟨Option.some.inj hhead, takesInteger_unique hh hzero, hne⟩
    · rintro ⟨rfl, rfl, hne⟩
      exact ⟨rfl, hh, m, hm, hne⟩
  have hsign := takesInteger_sign hzone hh
  rw [hshort]
  generalize hk : |h| * 3600 + m * 60 = k
  rcases hsign with ⟨rfl, hle⟩ | ⟨rfl, hge⟩
  · have hminus : decide (('-' :: cs).head? = some '-') = true := rfl
    rw [hminus, negateIf, if_pos rfl, if_neg (not_lt.mpr hle)]
    exact ⟨fun _ => (neg_neg k).symm, fun h => absurd h.1 (by decide)⟩
  · have hplus : decide (('+' :: cs).head? = some '-') = false := by
      rw [decide_eq_false_iff_not]
      exact fun h => absurd (Option.some.inj h) (by decide)
    rw [hplus, negateIf, if_neg Bool.false_ne_true]
    rcases hge.lt_or_eq with hpos | rfl
    · rw [if_pos hpos]
      exact ⟨fun _ => rfl, fun h => absurd h.2.1 hpos.ne'⟩
    · rw [abs_zero] at hk
      rw [if_neg (lt_irrefl _)]
      refine ⟨fun h => ?_, fun h => ?_⟩
      · have hnone : m = 0 := by
          by_contra hne
          exact h ⟨rfl, rfl, hne⟩
        omega
      · have := h.2.2
        omega

/-- The sign goes with the hours that are read, so without hours a plus is lost. -/
theorem timegm_zoneResult (hzone : ∀ c ∈ tz.head?, isZoneChar c = true)
    (hbounds : -100000000000 ≤ timegm tm ∧ timegm tm ≤ 300000000000)
    (hpass : tz = [] ∨ tz.length = 1 ∨ TakesOffset tz) (hsaid : ZoneSays tz z)
    (hread : zoneResult p tm tz = .ok tm') :
    (¬ ShortEast tz → timegm tm' = timegm tm - z) ∧
      (ShortEast tz → timegm tm - z + 120 ≤ timegm tm') := by
  rcases hsaid with ⟨hplain, rfl⟩ | ⟨hlen, h, m, hh, hm, rfl⟩
  · obtain ⟨hsame, hno⟩ : zoneResult p tm tz = .ok tm ∧ ¬ ShortEast tz := zoneResult_plain hplain
    rw [hsame] at hread
    rw [Except.ok.inj hread, Int.sub_zero]
    exact ⟨fun _ => rfl, fun h => absurd h hno⟩
  · have hne : tz ≠ [] := List.ne_nil_of_length_pos (by omega)
    have hoff : TakesOffset tz := (hpass.resolve_left hne).resolve_left (by omega)
    obtain ⟨hresult, hhr, hmr⟩ : zoneResult p tm tz = .ok (shiftTimeZone tm h m) ∧ _ :=
      zoneResult_offset hlen hoff hh hm
    rw [hresult] at hread
    rw [← Except.ok.inj hread, timegm_shiftTimeZone hbounds hhr hmr]
    obtain ⟨c, cs, rfl⟩ := List.exists_cons_of_ne_nil hne
    obtain ⟨hhonoured, hlost⟩ := shift_eq (hzone c rfl) hmr.1 hh hm
    constructor
    · intro hshort
      rw [hhonoured hshort]
      rfl
    · intro hshort
      have := hlost hshort
      omega

end

/-! ## What is read of a text with a fraction -/

section

variable {p : Platform} {s : List Char} {tm : Tm} {ns : ℤ} {d : ℚ}

/-- Only what was read without sub-seconds or rounded has been stored. -/
theorem parseIso8601Into_ok (h : parseIso8601Into p .nanoseconds s = .ok (tm, ns)) :
    parseIso8601 p s = .ok (tm, ns) := by
  rw [parseIso8601Into] at h
  cases hread : parseIso8601 p s with
  | error e =>
      rw [hread] at h
      cases h
  | ok r =>
      rw [hread, ok_bind, checkedDurationCast_self] at h
      split at h
      · exact congrArg Except.ok (Except.ok.inj h)
      · cases h

theorem parseIso8601Into_of_ok (h : parseIso8601 p s = .ok (tm, ns))
    (hin : DurationType.nanoseconds.InRange ns) :
    parseIso8601Into p .nanoseconds s = .ok (tm, ns) := by
  rw [parseIso8601Into, h, ok_bind, checkedDurationCast_self, if_pos hin]
  rfl

/-- The parts of a text that is read and has a fraction. -/
theorem parts_of_read (hpoint : 20 < s.length ∧ (s.drop 19).head? = some '.')
    (h : parseIso8601 p s = .ok (tm, ns)) :
    ∃ rest tm₀ d, strptime (cstr s) secondFormat ⟨0, 0, 0, 1, 0, 0, 0⟩ = some (rest, tm₀) ∧
      FractionValue (fractionPart s) d ∧ zoneResult p tm₀ (zonePart s) = .ok tm ∧
        ns = castToRep p (roundHalfAway (d * 1000000000)) := by
  obtain ⟨hlen, hhead⟩ := hpoint
  rw [parseIso8601_point p hlen hhead] at h
  cases hread : strptime (cstr s) secondFormat ⟨0, 0, 0, 1, 0, 0, 0⟩ with
  | none =>
      rw [hread] at h
      cases h
  | some r =>
      rw [hread] at h
      dsimp only at h
      have hpass : Passes (toLdouble (fractionPart s)) := by
        intro hrefused
        rw [hrefused] at h
        cases h
      obtain ⟨d, hd⟩ := ((passes_toLdouble (head?_fractionPart hhead)).mp hpass).exists_value
      rw [hd.toLdouble, ok_bind] at h
      cases hzone : zoneResult p r.2 (zonePart s) with
      | error e =>
          rw [hzone] at h
          cases h
      | ok tm' =>
          rw [hzone, ok_bind] at h
          obtain ⟨rfl, rfl⟩ := Prod.mk.inj (Except.ok.inj h)
          exact ⟨r.1, r.2, d, rfl, hd, hzone, rfl⟩

/-- A text with a fraction and a zone that are not refused is read. -/
theorem read_of_parts {rest : List Char} {tm₀ : Tm} (hd : FractionValue (fractionPart s) d)
    (hmain : strptime (cstr s) secondFormat ⟨0, 0, 0, 1, 0, 0, 0⟩ = some (rest, tm₀))
    (hzone : zoneResult p tm₀ (zonePart s) = .ok tm) :
    parseIso8601 p s = .ok (tm, castToRep p (roundHalfAway (d * 1000000000))) := by
  obtain ⟨hlen, hhead⟩ := hd.point
  rw [parseIso8601_point p hlen hhead, hmain]
  dsimp only
  rw [hd.toLdouble, ok_bind, hzone]
  rfl

theorem tolerated_of_read (h : parseIso8601 p s = .ok (tm, ns)) : s ≠ [] ∧ Tolerated s := by
  have hs : s ≠ [] := by
    rintro rfl
    cases h
  refine ⟨hs, (passes_parseIso8601 (p := p) hs).mp ?_⟩
  rw [h]
  exact passes_ok _

theorem isZoneChar_head_zonePart : ∀ c ∈ (zonePart s).head?, isZoneChar c = true := by
  intro c hc
  obtain ⟨cs, hcs⟩ := List.head?_eq_some_iff.mp hc
  exact isZoneChar_zonePart hcs

/-- A fraction that does not round to a second is stored as it was rounded. -/
theorem castToRep_fraction (hd : 0 ≤ d) (hlt : d * 1000000000 < 1000000000 - 1 / 2) :
    castToRep p (roundHalfAway (d * 1000000000)) = roundHalfAway (d * 1000000000) ∧
      0 ≤ roundHalfAway (d * 1000000000) ∧ roundHalfAway (d * 1000000000) < 1000000000 := by
  have hnonneg : 0 ≤ roundHalfAway (d * 1000000000) := by
    rw [roundHalfAway_of_nonneg (by linarith)]
    exact Int.floor_nonneg.mpr (by linarith)
  have hlt' : roundHalfAway (d * 1000000000) < 1000000000 := by
    rw [roundHalfAway_of_nonneg (by linarith)]
    apply Int.floor_lt.mpr
    push_cast
    linarith
  exact ⟨castToRep_of_inRange p (inRange_subsecond hnonneg hlt'.le), hnonneg, hlt'⟩

/-- A conversion out of range may give anything the type has: here a second. -/
def Platform.carrying : Platform := { Platform.zeroed with castOutOfRange := fun _ => 1000000000 }

/-- A fraction that rounds to a second or more is stored as such. -/
theorem castToRep_carrying (hd : 1000000000 - 1 / 2 ≤ d * 1000000000) :
    1000000000 ≤ castToRep .carrying (roundHalfAway (d * 1000000000)) ∧
      DurationType.nanoseconds.InRange
        (castToRep .carrying (roundHalfAway (d * 1000000000))) := by
  have hround : 1000000000 ≤ roundHalfAway (d * 1000000000) := by
    rw [roundHalfAway_of_nonneg (by linarith)]
    apply Int.le_floor.mpr
    push_cast
    linarith
  rw [castToRep, truncate_intCast]
  split
  · rename_i hin
    exact ⟨hround, hin⟩
  · have hsecond : Platform.carrying.castOutOfRange (roundHalfAway (d * 1000000000)) =
        1000000000 := rfl
    rw [hsecond]
    exact ⟨Int.le_refl _, inRange_subsecond (by decide) (Int.le_refl _)⟩

theorem exists_zoneResult (hndebug : p.ndebug = true) (tm₀ : Tm) {tz : List Char}
    (hpass : tz = [] ∨ tz.length = 1 ∨ TakesOffset tz) : ∃ tm, zoneResult p tm₀ tz = .ok tm := by
  by_cases hnil : tz = []
  · rw [zoneResult, if_pos hnil]
    exact ⟨tm₀, rfl⟩
  · by_cases hone : tz.length = 1
    · rw [zoneResult, if_neg hnil, if_pos hone, hndebug]
      exact ⟨tm₀, rfl⟩
    · have hoff := (hpass.resolve_left hnil).resolve_left hone
      have hlen := List.length_pos_iff.mpr hnil
      obtain ⟨h, hh, -⟩ := hoff.hours
      obtain ⟨m, hm, -⟩ := hoff.minutes
      exact ⟨_, (zoneResult_offset (by omega) hoff hh hm).1⟩

theorem ShortEast.length {tz : List Char} (h : ShortEast tz) : 1 < tz.length := by
  obtain ⟨hhead, hzero, -⟩ := h
  obtain ⟨cs, rfl⟩ := List.head?_eq_some_iff.mp hhead
  cases cs with
  | cons c cs => exact Nat.succ_lt_succ (Nat.succ_pos _)
  | nil =>
      rcases hzero with ⟨hnil, -⟩ | hread
      · exact absurd hnil (by decide)
      · have hnone : scanInteger 10 (cstr (['+'].take 3)) = none := by decide
        rw [scanInteger_ten.mpr hread] at hnone
        exact absurd hnone (Option.some_ne_none _)

/-! ## When the sub-seconds are proper -/

/-- The fraction, if there is one, rounds to less than a second. -/
def RoundsBelowSecond (s : List Char) : Prop :=
  ∀ d, FractionValue (fractionPart s) d → d * 1000000000 < 1000000000 - 1 / 2

/-- A point and decimal digits. -/
def PlainFraction (s : List Char) : Prop :=
  ∃ ds, fractionPart s = '.' :: ds ∧ Digits ds ∧ ds ≠ []

theorem range_of_roundsBelow (hbelow : RoundsBelowSecond s)
    (hread : parseIso8601 p s = .ok (tm, ns)) : 0 ≤ ns ∧ ns < 1000000000 := by
  by_cases hpoint : 20 < s.length ∧ (s.drop 19).head? = some '.'
  · obtain ⟨rest, tm₀, d, -, hd, -, rfl⟩ := parts_of_read hpoint hread
    obtain ⟨hcast, hlo, hhi⟩ := castToRep_fraction (p := p) hd.nonneg (hbelow d hd)
    rw [hcast]
    exact ⟨hlo, hhi⟩
  · have hs := (tolerated_of_read hread).1
    rcases parseIso8601_no_point p hs hpoint with hrefused | ⟨tm₀, zone, hzone, -⟩
    · rw [hrefused] at hread
      cases hread
    · rw [hzone] at hread
      cases hresult : zoneResult p tm₀ zone with
      | error e =>
          rw [hresult] at hread
          cases hread
      | ok tm' =>
          rw [hresult] at hread
          obtain ⟨-, rfl⟩ := Prod.mk.inj (Except.ok.inj hread)
          exact ⟨Int.le_refl 0, by decide⟩

/-- A fraction below a second and the zone as it says: the instant is the one written. -/
theorem nearest_of_parts {tm₀ : Tm} {z : ℤ} (hzone : timegm tm = timegm tm₀ - z) (hd : 0 ≤ d)
    (hns : ns = roundHalfAway (d * 1000000000)) :
    |(timegm tm + ns / 1000000000 : ℚ) - (timegm tm₀ - z + d)| ≤ 1 / 2000000000 := by
  obtain ⟨hlo, hhi⟩ := roundHalfAway_bounds (z := d * 1000000000) (by linarith)
  rw [← hns] at hlo hhi
  have hzone : (timegm tm : ℚ) = timegm tm₀ - z := by exact_mod_cast hzone
  rw [hzone, abs_le]
  constructor <;> linarith

/-- Where assertions are compiled out, a text that is tolerated and has a fraction is read. -/
theorem Tolerated.parts (htol : Tolerated s) (hndebug : p.ndebug = true)
    (hd : FractionValue (fractionPart s) d) : ∃ rest tm₀ tm,
      strptime (cstr s) secondFormat ⟨0, 0, 0, 1, 0, 0, 0⟩ = some (rest, tm₀) ∧
        zoneResult p tm₀ (zonePart s) = .ok tm ∧
          (zonePart s = [] ∨ (zonePart s).length = 1 ∨ TakesOffset (zonePart s)) := by
  obtain ⟨⟨rest, hmatch⟩, -, hpass⟩ := (tolerated_long_iff hd.point.1).mp htol
  obtain ⟨tm₀, htm₀⟩ := strptime_iff.mpr hmatch
  obtain ⟨tm, htm⟩ := exists_zoneResult hndebug tm₀ hpass
  exact ⟨rest, tm₀, tm, htm₀, htm, hpass⟩

theorem ProperSubseconds.roundsBelow (h : ProperSubseconds .carrying s) (htol : Tolerated s) :
    RoundsBelowSecond s := by
  intro d hd
  by_contra hge
  obtain ⟨rest, tm₀, tm, hmain, hzone, -⟩ := htol.parts (p := .carrying) rfl hd
  obtain ⟨hcarry, hin⟩ := castToRep_carrying (not_lt.mp hge)
  have hread := parseIso8601Into_of_ok (read_of_parts hd hmain hzone) hin
  exact absurd (h.range _ _ hread).2 (not_lt.mpr hcarry)

/-- The zone is wrong by two minutes at least, the fraction by half a nanosecond at most. -/
theorem ProperSubseconds.not_shortEast (h : ProperSubseconds .carrying s) (htol : Tolerated s)
    (hplain : PlainFraction s) : ¬ ShortEast (zonePart s) := by
  intro hshort
  obtain ⟨ds, hfraction, hds, hne⟩ := hplain
  have hd := fractionValue_of_digits hfraction hds hne
  obtain ⟨rest, tm₀, tm, hmain, hzone, hpass⟩ := htol.parts (p := .carrying) rfl hd
  obtain ⟨hcast, hlo, hhi⟩ :=
    castToRep_fraction (p := .carrying) hd.nonneg (h.roundsBelow htol _ hd)
  have hread := read_of_parts hd hmain hzone
  rw [hcast] at hread
  have hread := parseIso8601Into_of_ok hread (inRange_subsecond hlo hhi.le)
  obtain ⟨-, hzero, m, hm, -⟩ := id hshort
  have hsaid : ZoneSays (zonePart s)
      (negateIf ((zonePart s).head? = some '-') (|0| * 3600 + m * 60)) :=
    Or.inr ⟨hshort.length, 0, m, hzero, hm, rfl⟩
  generalize negateIf ((zonePart s).head? = some '-') (|0| * 3600 + m * 60) = z at hsaid
  have hfar := (timegm_zoneResult isZoneChar_head_zonePart (timegm_bounds_of_strptime hmain)
    hpass hsaid hzone).2 hshort
  have hfar : (timegm tm₀ : ℚ) - z + 120 ≤ timegm tm := by exact_mod_cast hfar
  have hnear := h.nearest _ _ hread _
    ⟨rest, tm₀, ds, z, hmain, hfraction, hds, hne, hsaid, rfl⟩
  obtain ⟨-, hround⟩ := roundHalfAway_bounds
    (z := value ds / (10 ^ ds.length : ℕ) * 1000000000) (by linarith [hd.nonneg])
  obtain ⟨-, hupper⟩ := abs_le.mp hnear
  linarith

/-- A text that is read has no other instant than the one that is written. -/
theorem nearest_of_read (htol : Tolerated s) (hbelow : RoundsBelowSecond s)
    (hshort : PlainFraction s → ¬ ShortEast (zonePart s))
    (hread : parseIso8601 p s = .ok (tm, ns)) {q : ℚ} (hq : WrittenInstant s q) :
    |(timegm tm + ns / 1000000000 : ℚ) - q| ≤ 1 / 2000000000 := by
  obtain ⟨rest, tm₀, ds, z, hmain, hfraction, hds, hne, hsaid, rfl⟩ := hq
  have hd := fractionValue_of_digits hfraction hds hne
  obtain ⟨rest', tm₀', d', hmain', hd', hzone, rfl⟩ := parts_of_read hd.point hread
  rw [hmain] at hmain'
  obtain ⟨rfl, rfl⟩ := Prod.mk.inj (Option.some.inj hmain')
  have hsame := hd'.toLdouble
  rw [hd.toLdouble] at hsame
  obtain rfl := Except.ok.inj hsame
  have hpass := ((tolerated_long_iff hd.point.1).mp htol).2.2
  have hhonoured := (timegm_zoneResult isZoneChar_head_zonePart
    (timegm_bounds_of_strptime hmain) hpass hsaid hzone).1 (hshort ⟨ds, hfraction, hds, hne⟩)
  exact nearest_of_parts hhonoured hd.nonneg (castToRep_fraction (p := p) hd.nonneg (hbelow _ hd)).1

/-- **When sub-seconds are proper.**  On every platform the value stored is a proper
fraction and nearest to what is written exactly if the text is refused, or its fraction
rounds to less than a second and, where it is decimal digits, no plus goes before
minutes without hours. -/
theorem subseconds_proper_iff (s : List Char) :
    (∀ p, ProperSubseconds p s) ↔ (Tolerated s →
      RoundsBelowSecond s ∧ ¬(PlainFraction s ∧ ShortEast (zonePart s))) := by
  constructor
  · intro h htol
    refine ⟨(h .carrying).roundsBelow htol, ?_⟩
    rintro ⟨hplain, hshort⟩
    exact (h .carrying).not_shortEast htol hplain hshort
  · intro h p
    constructor
    · intro tm ns hinto
      have hread := parseIso8601Into_ok hinto
      obtain ⟨-, htol⟩ := tolerated_of_read hread
      exact range_of_roundsBelow (h htol).1 hread
    · intro tm ns hinto q hq
      have hread := parseIso8601Into_ok hinto
      obtain ⟨-, htol⟩ := tolerated_of_read hread
      obtain ⟨hbelow, hnot⟩ := h htol
      exact nearest_of_read htol hbelow (fun hplain hshort => hnot ⟨hplain, hshort⟩) hread hq

/-- Ten nines round up to a second, which is stored as sub-seconds. -/
theorem rounded_second_is_stored :
    (parseIso8601Into .zeroed .nanoseconds "2017-08-07T12:00:00.9999999999Z".toList).map Prod.snd =
        .ok 1000000000 ∧
      ¬ ∀ (p : Platform) (s : List Char), ProperSubseconds p s := by
  have hread : parseIso8601Into .zeroed .nanoseconds "2017-08-07T12:00:00.9999999999Z".toList =
      .ok (⟨0, 0, 12, 7, 7, 117, 0⟩, 1000000000) := by
    decide +kernel
  refine ⟨by rw [hread]; rfl, fun h => ?_⟩
  exact absurd ((h .zeroed _).range _ _ hread).2 (lt_irrefl _)

end
end KssUtil.Time

import KssUtil.Time.Localized

/-!
# Localized text that cannot be parsed (timeutil.cpp, timeutil.hpp)

The facet says in an argument of its own whether it failed.  The reader of strings asks
the stream instead, which knows nothing of it, and the reader of streams answers with a
time that is -1.
-/

namespace KssUtil.Time

open KssUtil.Libc

def TimeGot.rejected (got : TimeGot) : Bool := got.failbit || got.badbit

section

variable (lib : TimeLibrary) (loc : Locale)

/-- `_private::readFromInputStream` -/
def readFromInputStream (strm : InputStream) : Except Exn ℤ × InputStream :=
  let strm := strm.skipFlagged
  let got := loc.get strm.rest zeroTm
  let strm := { strm with rest := got.rest }
  if !got.failbit && !got.badbit then (tmToTime lib [] got.tm, strm) else (.ok (-1), strm)

/-- `operator>>`: whether it returned, and what the time point and the stream are then. -/
def readTimePoint (D : DurationType) (strm : InputStream) (tp : ℤ) :
    Except Exn Unit × ℤ × InputStream :=
  let r := readFromInputStream lib loc strm
  match r.1 >>= fromTimeT D with
  | .ok tp' => (.ok (), tp', r.2)
  | .error e => (.error e, tp, r.2)

end

/-! ## Failures of the facet -/

section

variable (lib : TimeLibrary) (loc : Locale) (tzone : List Char) (D : DurationType)

/-- A string that the facet rejects is a `system_error`. -/
def StringFailureReported (s : List Char) : Prop :=
  (loc.get s zeroTm).rejected = true →
    fromLocalizedString lib loc tzone D s = .error .systemError

/-- After a text that the facet rejects the stream has failed, and the time point is
what it was. -/
def StreamFailureReported (strm : InputStream) (tp : ℤ) : Prop :=
  (loc.get (strm.nextText) zeroTm).rejected = true →
    (readTimePoint lib loc D strm tp).2.2.fail = true ∧
      (readTimePoint lib loc D strm tp).2.1 = tp

end

section

variable {lib : TimeLibrary} {loc : Locale} {tzone s : List Char} {D : DurationType}
  {strm : InputStream} {tp : ℤ}

/-- The stream does not matter: what is thrown comes from the conversion. -/
theorem stringFailureReported_iff (hs : s ≠ []) :
    StringFailureReported lib loc tzone D s ↔ ((loc.get s zeroTm).rejected = true →
      lib.timelocal (lib.zone tzone) (loc.get s zeroTm).tm = -1) := by
  apply imp_congr_right
  intro _
  have hresult : fromLocalizedString lib loc tzone D s =
      tmToTime lib tzone (loc.get s zeroTm).tm >>= fromTimeT D := by
    rw [fromLocalizedString, parseLocalized_eq hs]
  rw [hresult, tmToTime]
  by_cases hfailed : lib.timelocal (lib.zone tzone) (loc.get s zeroTm).tm = -1
  · rw [if_pos hfailed]
    exact iff_of_true rfl hfailed
  · rw [if_neg hfailed]
    refine iff_of_false ?_ hfailed
    show ¬ fromTimeT D _ = _
    rw [fromTimeT, checkedDurationCast_eq]
    intro h
    split at h
    · cases h
    · cases h

/-- The time is set to -1, unless the type does not have it. -/
theorem streamFailureReported_iff :
    StreamFailureReported lib loc D strm tp ↔
      ((loc.get strm.nextText zeroTm).rejected = true →
        (strm.fail || strm.skipws && strm.eofbit) = true ∧
          (D.Reaches (-1) → tp = truncate (D.ticks (-1)))) := by
  apply imp_congr_right
  intro hrejected
  have hread : readFromInputStream lib loc strm = (.ok (-1),
      { strm.skipFlagged with rest := (loc.get strm.nextText zeroTm).rest }) := by
    have haccepted : (!(loc.get strm.nextText zeroTm).failbit &&
        !(loc.get strm.nextText zeroTm).badbit) = false := by
      rw [← Bool.not_or, Bool.not_eq_false']
      exact hrejected
    rw [readFromInputStream]
    dsimp only
    rw [InputStream.rest_skipFlagged, haccepted]
    rfl
  have hfail : InputStream.fail { strm.skipFlagged with
      rest := (loc.get strm.nextText zeroTm).rest } =
        (strm.fail || strm.skipws && strm.eofbit) := InputStream.fail_skipFlagged
  have hcast : ((-1 : ℤ) : ℚ) = -1 := by norm_num
  obtain ⟨hok, herror⟩ := checkedDurationCast_seconds D (-1)
  rw [hcast] at hok herror
  rw [readTimePoint, hread]
  by_cases hreach : D.Reaches (-1)
  · have htime : (Except.ok (-1) >>= fromTimeT D) = .ok (truncate (D.ticks (-1))) := hok hreach
    dsimp only
    rw [htime]
    dsimp only
    rw [hfail]
    apply and_congr_right
    intro _
    exact ⟨fun h _ => h.symm, fun h => (h hreach).symm⟩
  · have htime : (Except.ok (-1) >>= fromTimeT D) = .error .overflowError := herror hreach
    dsimp only
    rw [htime]
    dsimp only
    rw [hfail]
    exact and_congr_right fun _ => ⟨fun _ h => absurd h hreach, fun _ => rfl⟩

/-- **When failures are reported.**  A string that the facet rejects is reported if its
`tm` cannot be converted; a stream, if it had failed or come to its end before, and the
time point already was -1 or cannot be. -/
theorem failures_reported_iff (hs : s ≠ []) :
    StringFailureReported lib loc tzone D s ∧ StreamFailureReported lib loc D strm tp ↔
      ((loc.get s zeroTm).rejected = true →
        lib.timelocal (lib.zone tzone) (loc.get s zeroTm).tm = -1) ∧
      ((loc.get strm.nextText zeroTm).rejected = true →
        (strm.fail || strm.skipws && strm.eofbit) = true ∧
          (D.Reaches (-1) → tp = truncate (D.ticks (-1)))) :=
  and_congr (stringFailureReported_iff hs) streamFailureReported_iff

/-- A stream that has come to its end, and the last second before the epoch. -/
theorem failures_reported_iff_at_end :
    StringFailureReported easternLibrary cLocale [] .seconds
        "Tue Jan  8 12:00:00 2019".toList ∧
      StreamFailureReported easternLibrary cLocale .seconds
        { rest := [], eofbit := true } (-1) := by
  refine (failures_reported_iff (by decide)).mpr ⟨fun h => absurd h (by decide), fun _ => ?_⟩
  refine ⟨rfl, fun _ => ?_⟩
  decide +kernel

/-- No time at all is read as the last day of 1899, and from a stream as -1. -/
theorem unparseable_time_is_read :
    fromLocalizedString easternLibrary cLocale [] .seconds "yesterday".toList =
        .ok (-2209075200) ∧
      readTimePoint easternLibrary cLocale .seconds { rest := "yesterday".toList } 0 =
        (.ok (), -1, { rest := "yesterday".toList }) ∧
      ¬ ∀ (lib : TimeLibrary) (loc : Locale) (tzone : List Char) (D : DurationType)
        (s : List Char) (strm : InputStream) (tp : ℤ), s ≠ [] →
          StringFailureReported lib loc tzone D s ∧
            StreamFailureReported lib loc D strm tp := by
  have hstring : fromLocalizedString easternLibrary cLocale [] .seconds
      "yesterday".toList = .ok (-2209075200) := by
    decide +kernel
  have hstream : readTimePoint easternLibrary cLocale .seconds { rest := "yesterday".toList } 0 =
      (.ok (), -1, { rest := "yesterday".toList }) := by
    decide +kernel
  refine ⟨hstring, hstream, fun h => ?_⟩
  have hthrown := (h easternLibrary cLocale [] .seconds "yesterday".toList
    { rest := [] } 0 (by decide)).1 (by decide)
  rw [hstring] at hthrown
  cases hthrown

end
end KssUtil.Time

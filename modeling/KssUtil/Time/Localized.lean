import KssUtil.Libc.Streams
import KssUtil.Time.Iso8601

/-!
# Localized text (timeutil.cpp, timeutil.hpp)

Local time in a zone, and the conversions of time points to the text of a locale and
back.  What the C library and the locale do is a parameter, with what the sources
rely on.
-/

namespace KssUtil.Time

open KssUtil.Libc

/-! ## Zones and locales -/

/-- `standardOffset` is the offset of standard time when the clocks show a local time,
given in seconds. -/
structure TimeZone where
  offset : ℤ → ℤ
  daylight : ℤ → Bool
  standardOffset : ℤ → ℤ
  standard : ∀ t, daylight t = false → (∀ t', t' + offset t' = t + offset t → t' = t) →
    standardOffset (t + offset t) = offset t

namespace TimeZone

/-- What the clocks show. -/
def localTime (z : TimeZone) (t : ℤ) : ℤ := t + z.offset t

/-- At no other time do the clocks show the same. -/
def Unambiguous (z : TimeZone) (t : ℤ) : Prop := ∀ t', z.localTime t' = z.localTime t → t' = t

end TimeZone

/-- `struct tm`, with `tm_isdst` -/
structure LocalTm where
  tm : Tm
  isdst : ℤ
deriving DecidableEq, Repr

/-- After `memset` -/
def zeroTm : LocalTm := ⟨⟨0, 0, 0, 0, 0, 0, 0⟩, 0⟩

/-- The zones by name, that of the process itself under the empty one, and `timelocal`,
which is -1 if it fails.  With `tm_isdst` 0 it presumes standard time. -/
structure TimeLibrary where
  zone : List Char → TimeZone
  timelocal : TimeZone → LocalTm → ℤ
  presumes_standard : ∀ z tm, tm.tm.Valid → -2147483648 ≤ tm.tm.year ∧ tm.tm.year ≤ 2147483647 →
    tm.isdst = 0 → timelocal z tm = timegm tm.tm - z.standardOffset (timegm tm.tm)

/-- `tm_year` has to fit into an `int`. -/
def localtimeR (z : TimeZone) (t : ℤ) : Option LocalTm :=
  (gmtimeR (z.localTime t)).map fun tm =>
    ⟨{ tm with gmtoff := z.offset t }, if z.daylight t then 1 else 0⟩

/-- What `time_get::get` leaves: its error state, the `tm` as far as it was filled, and
the text that is left. -/
structure TimeGot where
  eofbit : Bool
  failbit : Bool
  badbit : Bool
  tm : LocalTm
  rest : List Char

/-- The facets for `%c`.  `get` fills what the text has into a `tm`. -/
structure Locale where
  put : LocalTm → List Char
  get : List Char → LocalTm → TimeGot

/-- What is written is read into a `tm` of zeros as the same date and time of day, and
nothing else. -/
def Locale.InverseAt (loc : Locale) (tm : LocalTm) : Prop :=
  loc.put tm ≠ [] ∧ (loc.get (loc.put tm) zeroTm).tm = ⟨{ tm.tm with gmtoff := 0 }, 0⟩

/-! ## Conversions -/

section

variable (lib : TimeLibrary) (loc : Locale) (tzone : List Char)

def tmToTime (tm : LocalTm) : Except Exn ℤ :=
  let t := lib.timelocal (lib.zone tzone) tm
  if t = -1 then throw .systemError else return t

def timeToTm (t : ℤ) : Except Exn LocalTm :=
  match localtimeR (lib.zone tzone) t with
  | some tm => return tm
  | none => throw .systemError

/-- `_private::parseLocalized`.  The stream knows nothing of the error state of the facet. -/
def parseLocalized (s : List Char) : Except Exn ℤ :=
  if s.isEmpty then throw .invalidArgument
  else
    let strm : InputStream := { rest := s }
    let got := loc.get strm.rest zeroTm
    let strm := { strm with rest := got.rest }
    if strm.badbit || strm.fail then throw .systemError else tmToTime lib tzone got.tm

/-- `_private::toLocalized` -/
def toLocalized (t : ℤ) : Except Exn (List Char) := do
  let tm ← timeToTm lib tzone t
  return loc.put tm

def fromLocalizedString (D : DurationType) (s : List Char) : Except Exn ℤ := do
  let t ← parseLocalized lib loc tzone s
  fromTimeT D t

def toLocalizedString (D : DurationType) (tp : ℤ) : Except Exn (List Char) := do
  let t ← toTimeT D tp
  toLocalized lib loc tzone t

/-- The text of `t` is read back as `t`, as a time point of any type that has it. -/
def ReadBack (t : ℤ) : Prop :=
  ∀ (D : DurationType) (tp : ℤ), D.InRange tp → tp * D.num = t * D.den →
    (toLocalizedString lib loc tzone D tp >>= fromLocalizedString lib loc tzone D) = .ok tp

end

/-! ## Whole seconds -/

section

variable {D : DurationType} {tp t : ℤ}

theorem toTimeT_whole (ht : DurationType.seconds.InRange t) (hwhole : tp * D.num = t * D.den) :
    toTimeT D tp = .ok t := by
  have hden : ((D.den : ℕ) : ℚ) ≠ 0 := Nat.cast_ne_zero.mpr (Nat.ne_of_gt D.den_pos)
  have hs : D.convertTo .seconds tp = t := by
    have hq : (tp : ℚ) * D.num = t * D.den := by exact_mod_cast hwhole
    unfold DurationType.convertTo DurationType.seconds
    dsimp only
    rw [Nat.mul_one, Nat.mul_one, hq, mul_div_assoc, div_self hden, mul_one]
  rw [toTimeT, checkedDurationCast_eq, hs, truncate_intCast, if_pos]
  exact ⟨Int.cast_le.mpr ht.1, Int.cast_le.mpr ht.2⟩

theorem fromTimeT_whole (hin : D.InRange tp) (hwhole : tp * D.num = t * D.den) :
    fromTimeT D t = .ok tp := by
  have hnum : ((D.num : ℕ) : ℚ) ≠ 0 := Nat.cast_ne_zero.mpr (Nat.ne_of_gt D.num_pos)
  have hs : DurationType.seconds.convertTo D t = tp := by
    have hq : (tp : ℚ) * D.num = t * D.den := by exact_mod_cast hwhole
    unfold DurationType.convertTo DurationType.seconds
    dsimp only
    rw [Nat.one_mul, Nat.one_mul, ← hq, mul_div_assoc, div_self hnum, mul_one]
  rw [fromTimeT, checkedDurationCast_eq, hs, truncate_intCast, if_pos]
  exact ⟨Int.cast_le.mpr hin.1, Int.cast_le.mpr hin.2⟩

theorem fromTimeT_seconds {t' : ℤ} (h : fromTimeT .seconds t' = .ok t) : t' = t := by
  unfold fromTimeT at h
  rw [checkedDurationCast_self] at h
  split at h
  · exact Except.ok.inj h
  · cases h

end

/-! ## The round trip -/

section

variable {lib : TimeLibrary} {loc : Locale} {tzone : List Char} {t : ℤ}

/-- What is thrown comes from the conversion. -/
theorem parseLocalized_eq {s : List Char} (hs : s ≠ []) :
    parseLocalized lib loc tzone s = tmToTime lib tzone (loc.get s zeroTm).tm := by
  rw [parseLocalized, List.isEmpty_eq_false_iff.mpr hs]
  rfl

theorem gmtimeR_year {t : ℤ} {tm : Tm} (h : gmtimeR t = some tm) :
    -2147483648 ≤ tm.year ∧ tm.year ≤ 2147483647 := by
  unfold gmtimeR at h
  dsimp only at h
  split at h
  · rename_i hyear
    rw [← Option.some.inj h]
    exact hyear
  · cases h

/-- The local time, but for its zone, is the one that `gmtime_r` has for what the clocks
show. -/
theorem localtimeR_of_gmtimeR {z : TimeZone} {tm : Tm} (h : gmtimeR (z.localTime t) = some tm) :
    ∃ out, localtimeR z t = some out ∧ ({ out.tm with gmtoff := 0 } : Tm) = tm := by
  have hzero := (gmtimeR_spec h).1.gmtoff
  refine ⟨_, by rw [localtimeR, h, Option.map_some], ?_⟩
  obtain ⟨sec, min, hour, mday, mon, year, gmtoff⟩ := tm
  obtain rfl : gmtoff = 0 := hzero
  rfl

/-- What comes back of `t`: what the clocks show, less the offset of standard time. -/
theorem read_written {tm : Tm} (htm : gmtimeR ((lib.zone tzone).localTime t) = some tm)
    (hinverse : ∀ tm, localtimeR (lib.zone tzone) t = some tm → loc.InverseAt tm) {r : ℤ}
    (hr : r = (lib.zone tzone).localTime t -
      (lib.zone tzone).standardOffset ((lib.zone tzone).localTime t)) :
    ∃ s, toLocalized lib loc tzone t = .ok s ∧
      parseLocalized lib loc tzone s = if r = -1 then .error .systemError else .ok r := by
  obtain ⟨out, hlocal, hfields⟩ := localtimeR_of_gmtimeR htm
  obtain ⟨hvalid, htimegm⟩ := gmtimeR_spec htm
  obtain ⟨hne, hget⟩ := hinverse out hlocal
  have hpresumed := lib.presumes_standard (lib.zone tzone) ⟨tm, 0⟩ hvalid (gmtimeR_year htm) rfl
  dsimp only at hpresumed
  rw [htimegm, ← hr] at hpresumed
  refine ⟨loc.put out, ?_, ?_⟩
  · unfold toLocalized timeToTm
    rw [hlocal]
    exact ok_bind _ _
  · rw [parseLocalized_eq hne, hget, hfields]
    unfold tmToTime
    rw [hpresumed]
    rfl

/-- The offset of standard time takes the clocks back to the instant, unless daylight
saving time has moved them. -/
theorem localTime_sub_eq_iff {z : TimeZone} (hunambiguous : z.Unambiguous t) :
    z.localTime t - z.standardOffset (z.localTime t) = t ↔
      (z.daylight t = true → z.standardOffset (z.localTime t) = z.offset t) := by
  have hlocal : z.localTime t = t + z.offset t := rfl
  cases hdaylight : z.daylight t with
  | false =>
      -- standard time is in force, and its offset is the one presumed
      have hstandard := z.standard t hdaylight hunambiguous
      rw [← hlocal] at hstandard
      rw [hstandard]
      refine iff_of_true ?_ fun _ => rfl
      omega
  | true =>
      constructor
      · intro heq _
        omega
      · intro heq
        have := heq rfl
        omega

/-- A local time whose year is too large is not written. -/
theorem not_written (htm : gmtimeR ((lib.zone tzone).localTime t) = none) :
    toLocalized lib loc tzone t = .error .systemError := by
  have hlocal : localtimeR (lib.zone tzone) t = none := by
    rw [localtimeR, htm, Option.map_none]
  unfold toLocalized timeToTm
  rw [hlocal]
  rfl

/-- Between whole seconds and their time points nothing is lost. -/
theorem readBack_iff (ht : DurationType.seconds.InRange t) :
    ReadBack lib loc tzone t ↔
      ∃ s, toLocalized lib loc tzone t = .ok s ∧ parseLocalized lib loc tzone s = .ok t := by
  constructor
  · intro h
    have hseconds := h .seconds t ht rfl
    unfold toLocalizedString at hseconds
    rw [toTimeT_whole ht rfl, ok_bind] at hseconds
    cases hwrite : toLocalized lib loc tzone t with
    | error e =>
        rw [hwrite] at hseconds
        cases hseconds
    | ok s =>
        rw [hwrite, ok_bind] at hseconds
        unfold fromLocalizedString at hseconds
        cases hread : parseLocalized lib loc tzone s with
        | error e =>
            rw [hread] at hseconds
            cases hseconds
        | ok t' =>
            rw [hread, ok_bind] at hseconds
            rw [fromTimeT_seconds hseconds] at hread
            exact ⟨s, rfl, hread⟩
  · rintro ⟨s, hwrite, hread⟩ D tp hin hwhole
    unfold toLocalizedString
    rw [toTimeT_whole ht hwhole, ok_bind, hwrite, ok_bind]
    unfold fromLocalizedString
    rw [hread, ok_bind]
    exact fromTimeT_whole hin hwhole

/-- **The round trip of localized text.**  An instant is read back if and only if it is
not -1, its year in the zone fits a `tm`, and no daylight saving time shifts its clocks. -/
theorem readBack_iff_standard (lib : TimeLibrary) (loc : Locale) (tzone : List Char)
    (ht : DurationType.seconds.InRange t)
    (hinverse : ∀ tm, localtimeR (lib.zone tzone) t = some tm → loc.InverseAt tm)
    (hunambiguous : (lib.zone tzone).Unambiguous t) :
    ReadBack lib loc tzone t ↔
      t ≠ -1 ∧ (gmtimeR ((lib.zone tzone).localTime t)).isSome ∧
        ((lib.zone tzone).daylight t = true →
          (lib.zone tzone).standardOffset ((lib.zone tzone).localTime t) =
            (lib.zone tzone).offset t) := by
  rw [readBack_iff ht]
  cases htm : gmtimeR ((lib.zone tzone).localTime t) with
  | none =>
      refine iff_of_false ?_ ?_
      · rintro ⟨s, hwrite, _⟩
        rw [not_written htm] at hwrite
        cases hwrite
      · rintro ⟨_, hsome, _⟩
        cases hsome
  | some tm =>
      obtain ⟨s, hwrite, hread⟩ := read_written htm hinverse rfl
      rw [← localTime_sub_eq_iff hunambiguous]
      constructor
      · rintro ⟨s', hwrite', hread'⟩
        rw [hwrite] at hwrite'
        obtain rfl := Except.ok.inj hwrite'
        rw [hread] at hread'
        split at hread'
        · cases hread'
        · rename_i hne
          have hback := Except.ok.inj hread'
          rw [hback] at hne
          exact ⟨hne, rfl, hback⟩
      · rintro ⟨hne, _, hback⟩
        rw [hback, if_neg hne] at hread
        exact ⟨s, hwrite, hread⟩

end

/-! ## New York in 2019 -/

/-- Eastern time, with the daylight saving time of 2019. -/
def easternTime : TimeZone where
  offset t := if 1552201200 ≤ t ∧ t < 1572760800 then -14400 else -18000
  daylight t := 1552201200 ≤ t ∧ t < 1572760800
  standardOffset _ := -18000
  standard := by
    intro t hdaylight _
    rw [if_neg (of_decide_eq_false hdaylight)]

def utc : TimeZone := ⟨fun _ => 0, fun _ => false, fun _ => 0, fun _ _ _ => rfl⟩

def easternLibrary : TimeLibrary where
  zone tzone := if tzone = "America/New_York".toList then easternTime else utc
  timelocal z tm := timegm tm.tm - z.standardOffset (timegm tm.tm)
  presumes_standard _ _ _ _ _ := rfl

def dayNames : List (List Char) :=
  ["Mon".toList, "Tue".toList, "Wed".toList, "Thu".toList, "Fri".toList, "Sat".toList, "Sun".toList]

def monthNames : List (List Char) :=
  ["Jan".toList, "Feb".toList, "Mar".toList, "Apr".toList, "May".toList, "Jun".toList, "Jul".toList,
    "Aug".toList, "Sep".toList, "Oct".toList, "Nov".toList, "Dec".toList]

/-- "%a %b %e %H:%M:%S %Y", read by its columns behind the name of a day. -/
def cLocale : Locale where
  put tm :=
    dayNames.getD (Foundation.Gregorian.dayNumber tm.tm.date % 7).toNat [] ++
      ' ' :: monthNames.getD tm.tm.mon.toNat [] ++
      ' ' :: (if tm.tm.mday < 10 then ' ' :: printfZero 1 tm.tm.mday
        else printfZero 2 tm.tm.mday) ++
      ' ' :: printfZero 2 tm.tm.hour ++ ':' :: printfZero 2 tm.tm.min ++
      ':' :: printfZero 2 tm.tm.sec ++ ' ' :: printfZero 4 (tm.tm.year + 1900)
  get s tm :=
    let number (pos count : ℕ) : ℤ := (strtol ((s.drop pos).take count) 10).value
    if s.take 3 ∈ dayNames then
      let read : LocalTm := { tm with
        tm := { tm.tm with
          mon := monthNames.idxOf ((s.drop 4).take 3)
          mday := number 8 2
          hour := number 11 2
          min := number 14 2
          sec := number 17 2
          year := number 20 4 - 1900 } }
      ⟨s.length ≤ 24, false, false, read, s.drop 24⟩
    else ⟨s.isEmpty, true, false, tm, s⟩

theorem easternTime_unambiguous {t : ℤ} (h : t < 1552201200 - 3600 ∨
    1552201200 ≤ t ∧ t < 1572760800 - 3600) : easternTime.Unambiguous t := by
  intro t' heq
  unfold TimeZone.localTime easternTime at heq
  dsimp only at heq
  split at heq <;> split at heq <;> omega

/-- `cLocale` reads what it writes for one local time. -/
theorem cLocale_inverseAt {z : TimeZone} {t : ℤ} {out : LocalTm} (hout : localtimeR z t = some out)
    (hinverse : cLocale.put out ≠ [] ∧
      (cLocale.get (cLocale.put out) zeroTm).tm = ⟨{ out.tm with gmtoff := 0 }, 0⟩) :
    ∀ tm, localtimeR z t = some tm → cLocale.InverseAt tm := by
  intro tm htm
  rw [hout] at htm
  rw [← Option.some.inj htm]
  exact hinverse

/-- 8 January, in standard time. -/
theorem readBack_iff_standard_january :
    ReadBack easternLibrary cLocale "America/New_York".toList 1547000000 ↔
      (1547000000 : ℤ) ≠ -1 ∧
        (gmtimeR ((easternLibrary.zone "America/New_York".toList).localTime 1547000000)).isSome ∧
        ((easternLibrary.zone "America/New_York".toList).daylight 1547000000 = true →
          (easternLibrary.zone "America/New_York".toList).standardOffset
              ((easternLibrary.zone "America/New_York".toList).localTime 1547000000) =
            (easternLibrary.zone "America/New_York".toList).offset 1547000000) := by
  have hout : localtimeR (easternLibrary.zone "America/New_York".toList) 1547000000 =
      some ⟨⟨20, 13, 21, 8, 0, 119, -18000⟩, 0⟩ := by decide +kernel
  refine readBack_iff_standard easternLibrary cLocale "America/New_York".toList ?_ ?_ ?_
  · decide
  · exact cLocale_inverseAt hout (by decide +kernel)
  · exact easternTime_unambiguous (Or.inl (by decide))

/-- 8 June, in daylight saving time, comes back an hour late; and -1 is refused. -/
theorem june_is_read_an_hour_late :
    (easternLibrary.zone "America/New_York".toList).Unambiguous 1560000000 ∧
    (∀ tm, localtimeR (easternLibrary.zone "America/New_York".toList) 1560000000 = some tm →
      cLocale.InverseAt tm) ∧
    toLocalized easternLibrary cLocale "America/New_York".toList 1560000000 =
      .ok "Sat Jun  8 09:20:00 2019".toList ∧
    parseLocalized easternLibrary cLocale "America/New_York".toList
      "Sat Jun  8 09:20:00 2019".toList = .ok 1560003600 ∧
    ¬ReadBack easternLibrary cLocale "America/New_York".toList 1560000000 ∧
    toLocalized easternLibrary cLocale [] (-1) = .ok "Wed Dec 31 23:59:59 1969".toList ∧
    parseLocalized easternLibrary cLocale [] "Wed Dec 31 23:59:59 1969".toList =
      .error .systemError := by
  have hout : localtimeR (easternLibrary.zone "America/New_York".toList) 1560000000 =
      some ⟨⟨0, 20, 9, 8, 5, 119, -14400⟩, 1⟩ := by decide +kernel
  have hwrite : toLocalized easternLibrary cLocale "America/New_York".toList 1560000000 =
      .ok "Sat Jun  8 09:20:00 2019".toList := by decide +kernel
  have hread : parseLocalized easternLibrary cLocale "America/New_York".toList
      "Sat Jun  8 09:20:00 2019".toList = .ok 1560003600 := by decide +kernel
  refine ⟨?_, ?_, hwrite, hread, ?_, ?_, ?_⟩
  · exact easternTime_unambiguous (Or.inr (by decide))
  · exact cLocale_inverseAt hout (by decide +kernel)
  · rw [readBack_iff (by decide)]
    rintro ⟨s, hwrite', hread'⟩
    rw [hwrite] at hwrite'
    rw [← Except.ok.inj hwrite', hread] at hread'
    exact absurd (Except.ok.inj hread') (by decide)
  · decide +kernel
  · decide +kernel

end KssUtil.Time

import KssUtil.Time.Iso8601

/-!
# Well-formed date-time texts, and what the reader makes of them

A `Stamp` is what a complete date-time text says: its fields, the digits of its
fraction and its zone.  The reader and the writer meet here: every stamp's text
is read, and the writer writes the text of a stamp.
-/

namespace KssUtil.Time

open KssUtil.Foundation KssUtil.Libc

/-! ## Stamps -/

inductive OffsetLayout where
  /-- `+hh` -/
  | hours
  /-- `+hhmm` -/
  | basic
  /-- `+hh:mm` -/
  | extended
deriving DecidableEq, Repr

structure Offset where
  negative : Bool
  hours : ℕ
  minutes : ℕ
  layout : OffsetLayout
  hours_le : hours ≤ 24
  minutes_le : minutes ≤ 59
  minutes_eq : layout = .hours → minutes = 0

/-- What the offset says: the sign goes with the hours and the minutes. -/
def Offset.seconds (o : Offset) : ℤ := negateIf o.negative (o.hours * 3600 + o.minutes * 60)

def Offset.sign (o : Offset) : Char := if o.negative then '-' else '+'

def Offset.minuteText (o : Offset) : List Char :=
  match o.layout with
  | .hours => []
  | .basic => padded 2 o.minutes
  | .extended => ':' :: padded 2 o.minutes

def Offset.text (o : Offset) : List Char := o.sign :: (padded 2 o.hours ++ o.minuteText)

inductive Zone where
  | absent
  | zulu
  | offset (o : Offset)

def Zone.text : Zone → List Char
  | absent => []
  | zulu => ['Z']
  | offset o => o.text

structure Stamp where
  tm : Tm
  /-- The digits after the point; none if there is no point. -/
  fraction : List Char
  zone : Zone
  inRange : ∀ f : Field, f.InRange tm
  gmtoff : tm.gmtoff = 0
  digits : Digits fraction

namespace Stamp

variable (w : Stamp)

def mainText : List Char := secondFormat.flatMap (Item.write w.tm)

def fractionText : List Char := if w.fraction = [] then [] else '.' :: w.fraction

def text : List Char := w.mainText ++ (w.fractionText ++ w.zone.text)

end Stamp

/-! ## The parts of a text -/

theorem castToRep_of_inRange (p : Platform) {n : ℤ} (h : DurationType.nanoseconds.InRange n) :
    castToRep p (n : ℚ) = n := by
  rw [castToRep, truncate_intCast, if_pos h]

theorem inRange_subsecond {n : ℤ} (hlo : 0 ≤ n) (hhi : n ≤ 1000000000) :
    DurationType.nanoseconds.InRange n := by
  show Rep.int64.min ≤ n ∧ n ≤ Rep.int64.max
  rw [int64_min, int64_max]
  omega

theorem not_isEmpty {α : Type} {s : List α} (h : s ≠ []) : (!s.isEmpty) = true := by
  rw [List.isEmpty_eq_false_iff.mpr h]
  rfl

section

variable {p : Platform} {s : List Char} {fmt : Format} {tm : Tm}

theorem parse_ok (hs : s ≠ []) (hfmt : fmt ≠ []) {r : List Char × Tm}
    (h : strptime (cstr s) fmt tm = some r) : parse p s fmt tm = .ok r.2 := by
  rw [parse, not_isEmpty hs, not_isEmpty hfmt, assertion_bind, assertion_bind, h]
  rfl

theorem parseMainPortion_ok (hs : s ≠ []) {sel : Selection} (hsel : selectFormat s = some sel)
    (hparse : parse p s sel.format ⟨0, 0, 0, 1, 0, 0, 0⟩ = .ok tm) :
    parseMainPortion p s = .ok (tm, sel) := by
  rw [parseMainPortion, not_isEmpty hs, assertion_bind, hsel]
  dsimp only
  rw [hparse]
  rfl

/-- Beyond 20 characters the format is told by what follows the seconds. -/
theorem selectFormat_long (hlen : 20 < s.length) : selectFormat s =
    if s.getD 19 nul = '.' then some { format := secondFormat, needToParseNanoseconds := true }
    else if isZoneChar (s.getD 19 nul) then
      some { format := secondFormat, needToParseTimeZone := true, timeZoneStart := 19 }
    else none := by
  rw [selectFormat]
  dsimp only
  rw [if_neg (by omega), if_neg (by omega), if_neg (by omega), if_neg (by omega),
    if_neg (by omega), if_neg (by omega), if_neg (by omega), if_pos hlen]

theorem parse_invalid (hs : s ≠ []) (hfmt : fmt ≠ []) (h : strptime (cstr s) fmt tm = none) :
    parse p s fmt tm = .error .systemError := by
  rw [parse, not_isEmpty hs, not_isEmpty hfmt, assertion_bind, assertion_bind, h]
  rfl

end

theorem not_isZoneChar_of_isDigit {c : Char} (h : c.isDigit = true) : isZoneChar c = false := by
  rw [isZoneChar, decide_eq_false_iff_not]
  rintro (rfl | rfl | rfl) <;> exact absurd h (by decide)

theorem length_field {tm : Tm} {f : Field} (h : f.InRange tm) :
    (padded f.width (f.get tm).toNat).length = f.width := by
  obtain ⟨hlo, hhi⟩ := h
  apply length_padded
  · cases f <;> decide
  · have hpow : f.hi < 10 ^ f.width := by cases f <;> decide
    omega

def itemWidth : Item → ℕ
  | .field f => f.width
  | .lit _ => 1

def formatWidth (fmt : Format) : ℕ := (fmt.map itemWidth).sum

theorem length_write {fmt : Format} {tm : Tm} (h : ∀ f, Item.field f ∈ fmt → f.InRange tm) :
    (fmt.flatMap (Item.write tm)).length = formatWidth fmt := by
  induction fmt with
  | nil => rfl
  | cons item fmt ih =>
      have hitem : (Item.write tm item).length = itemWidth item := by
        cases item with
        | field f => exact length_field (h f List.mem_cons_self)
        | lit c => rfl
      rw [List.flatMap_cons, List.length_append, hitem,
        ih fun f hf => h f (List.mem_cons_of_mem item hf)]
      rfl

theorem mem_write {fmt : Format} {tm : Tm} {c : Char} (hc : c ∈ fmt.flatMap (Item.write tm)) :
    c.isDigit = true ∨ Item.lit c ∈ fmt := by
  obtain ⟨item, hitem, hc⟩ := List.mem_flatMap.mp hc
  cases item with
  | field f => exact Or.inl (digits_padded _ _ c hc)
  | lit d =>
      rw [List.mem_singleton.mp hc]
      exact Or.inr hitem

namespace Stamp

variable {w : Stamp}

theorem length_mainText : w.mainText.length = 19 := length_write fun f _ => w.inRange f

/-- The characters between the fields. -/
theorem lit_mem_secondFormat {c : Char} (h : Item.lit c ∈ secondFormat) :
    c = '-' ∨ c = 'T' ∨ c = ':' := by
  simpa [secondFormat, minuteFormat, hourFormat, dayFormat, monthFormat, yearFormat, or_assoc,
    or_comm, or_left_comm] using h

theorem mainText_ne_nul : ∀ c ∈ w.mainText, c ≠ nul := by
  intro c hc
  rcases mem_write hc with hdigit | hlit
  · exact ne_nul_of_isDigit hdigit
  · rcases lit_mem_secondFormat hlit with rfl | rfl | rfl <;> decide

theorem append_ne_nil (tail : List Char) : w.mainText ++ tail ≠ [] := by
  intro hnil
  have hlen := congrArg List.length hnil
  rw [List.length_append, length_mainText] at hlen
  exact absurd hlen (by simp)

/-- The fields are read, whatever follows the seconds. -/
theorem strptime_mainText (tail : List Char) :
    strptime (cstr (w.mainText ++ tail)) secondFormat ⟨0, 0, 0, 1, 0, 0, 0⟩ =
      some (cstr tail, w.tm) := by
  rw [cstr_append mainText_ne_nul, mainText, strptime_write fun f _ => w.inRange f]
  have hY := (w.inRange .Y).1
  have hm := (w.inRange .m).1
  have hd := (w.inRange .d).1
  have hH := (w.inRange .H).1
  have hM := (w.inRange .M).1
  have hS := (w.inRange .S).1
  have hoff := w.gmtoff
  simp only [Field.get, Field.lo] at hY hm hd hH hM hS
  generalize w.tm = tm at hY hm hd hH hM hS hoff
  obtain ⟨sec, min, hour, mday, mon, year, gmtoff⟩ := tm
  simp only [secondFormat, minuteFormat, hourFormat, dayFormat, monthFormat, yearFormat,
    List.cons_append, List.nil_append, List.foldl_cons, List.foldl_nil, Field.set, Field.get]
  dsimp only at hY hm hd hH hM hS hoff
  congr 2
  rw [Tm.mk.injEq]
  omega

theorem parse_mainText (p : Platform) (tail : List Char) :
    parse p (w.mainText ++ tail) secondFormat ⟨0, 0, 0, 1, 0, 0, 0⟩ = .ok w.tm :=
  parse_ok (append_ne_nil tail) (by decide) (strptime_mainText tail)

/-! ## The main portion -/

section

variable (p : Platform)

/-- A complete text of date and time only. -/
theorem parseMainPortion_plain :
    parseMainPortion p w.mainText = .ok (w.tm, { format := secondFormat }) := by
  have hparse := parse_mainText (w := w) p []
  have hne := append_ne_nil (w := w) []
  rw [List.append_nil] at hparse hne
  apply parseMainPortion_ok hne ?_ hparse
  rw [selectFormat, length_mainText]
  rfl

/-- With `Z` and nothing else after it. -/
theorem parseMainPortion_zulu :
    parseMainPortion p (w.mainText ++ ['Z']) = .ok (w.tm, { format := zuluFormat }) := by
  have hlen : (w.mainText ++ ['Z']).length = 20 := by
    rw [List.length_append, length_mainText]
    rfl
  have hread : strptime (cstr (w.mainText ++ ['Z'])) zuluFormat ⟨0, 0, 0, 1, 0, 0, 0⟩ =
      some ([], w.tm) := by
    rw [zuluFormat, strptime_append (strptime_mainText ['Z'])]
    rfl
  have hparse : parse p (w.mainText ++ ['Z']) zuluFormat ⟨0, 0, 0, 1, 0, 0, 0⟩ = .ok w.tm :=
    parse_ok (append_ne_nil ['Z']) (by decide) hread
  apply parseMainPortion_ok (append_ne_nil ['Z']) ?_ hparse
  rw [selectFormat, hlen]
  rfl

theorem getD_mainText (tail : List Char) (c : Char) :
    (w.mainText ++ tail).getD 19 c = tail.head?.getD c := by
  rw [List.getD_eq_getElem?_getD, List.getElem?_append_right (by rw [length_mainText]),
    length_mainText, List.head?_eq_getElem?]

theorem selectFormat_mainText {c : Char} {tail : List Char} (htail : tail ≠ []) :
    selectFormat (w.mainText ++ c :: tail) =
      if c = '.' then some { format := secondFormat, needToParseNanoseconds := true }
      else if isZoneChar c then
        some { format := secondFormat, needToParseTimeZone := true, timeZoneStart := 19 }
      else none := by
  have hlen : 20 < (w.mainText ++ c :: tail).length := by
    have hpos := List.length_pos_iff.mpr htail
    rw [List.length_append, length_mainText, List.length_cons]
    omega
  have hchar : (w.mainText ++ c :: tail).getD 19 nul = c := getD_mainText _ _
  rw [selectFormat_long hlen, hchar]

theorem parseMainPortion_fraction {tail : List Char} (htail : tail ≠ []) :
    parseMainPortion p (w.mainText ++ '.' :: tail) =
      .ok (w.tm, { format := secondFormat, needToParseNanoseconds := true }) := by
  apply parseMainPortion_ok (append_ne_nil _) ?_ (parse_mainText p _)
  rw [selectFormat_mainText htail, if_pos rfl]

theorem parseMainPortion_zone {c : Char} {tail : List Char} (hc : isZoneChar c = true)
    (htail : tail ≠ []) :
    parseMainPortion p (w.mainText ++ c :: tail) =
      .ok (w.tm, { format := secondFormat, needToParseTimeZone := true, timeZoneStart := 19 }) := by
  have hpoint : ¬ c = '.' := by
    rintro rfl
    revert hc
    decide
  apply parseMainPortion_ok (append_ne_nil _) ?_ (parse_mainText p _)
  rw [selectFormat_mainText htail, if_neg hpoint, if_pos hc]

end

/-! ## The fraction -/

/-- The sub-seconds the reader takes from the fraction. -/
def readNs (w : Stamp) (p : Platform) : ℤ :=
  if w.fraction = [] then 0
  else castToRep p (roundHalfAway
    (value w.fraction / (10 ^ w.fraction.length : ℕ) * 1000000000))

theorem toLdouble_point {ds : List Char} (hds : Digits ds) (hne : ds ≠ []) :
    toLdouble ('.' :: ds) = .ok (value ds / (10 ^ ds.length : ℕ)) := by
  have hcstr : cstr ('.' :: ds) = '.' :: ds := by
    apply cstr_of_ne
    intro c hc
    rcases List.mem_cons.mp hc with rfl | hc
    · decide
    · exact ne_nul_of_digits hds c hc
  have hread := strtold_point hds hne (stops_nil : Stops Char.isDigit [])
  rw [List.append_nil] at hread
  rw [toLdouble, hcstr, hread]
  show Except.ok (value ds / (10 ^ ds.length : ℕ) * ((10 ^ 0 : ℕ) : ℚ)) = _
  rw [pow_zero, Nat.cast_one, mul_one]

theorem drop_mainText (tail : List Char) : (w.mainText ++ tail).drop 19 = tail := by
  rw [← length_mainText (w := w), List.drop_left]

theorem findZone_fraction {ds tail : List Char} (hds : Digits ds) :
    findZone (w.mainText ++ '.' :: (ds ++ tail)) 19 =
      (tail.findIdx? isZoneChar).map (· + (20 + ds.length)) := by
  have hnone : ('.' :: ds).findIdx? isZoneChar = none := by
    rw [List.findIdx?_eq_none_iff]
    intro c hc
    rcases List.mem_cons.mp hc with rfl | hc
    · decide
    · exact not_isZoneChar_of_isDigit (hds c hc)
  have hsplit : '.' :: (ds ++ tail) = ('.' :: ds) ++ tail := rfl
  rw [findZone, drop_mainText, hsplit, List.findIdx?_append, hnone, Option.none_or, Option.map_map]
  congr 1
  ext1 n
  show n + ('.' :: ds).length + 19 = n + (20 + ds.length)
  rw [List.length_cons]
  omega

/-- Where the zone starts, after a fraction. -/
def zoneStart (w : Stamp) : Option ℕ :=
  match w.zone with
  | .absent => none
  | _ => some (20 + w.fraction.length)

theorem findIdx?_zoneText :
    (w.zone.text.findIdx? isZoneChar).map (· + (20 + w.fraction.length)) = w.zoneStart := by
  unfold zoneStart
  cases w.zone with
  | absent => rfl
  | zulu =>
      show some (0 + (20 + w.fraction.length)) = _
      rw [Nat.zero_add]
  | offset o =>
      have hsign : isZoneChar o.sign = true := by
        unfold Offset.sign
        split <;> rfl
      show ((o.sign :: (padded 2 o.hours ++ o.minuteText)).findIdx? isZoneChar).map _ = _
      rw [List.findIdx?_cons, if_pos hsign, Option.map_some, Nat.zero_add]

theorem nsstr_text (hne : w.fraction ≠ []) : nsstr w.text w.zoneStart = '.' :: w.fraction := by
  have hdrop : w.text.drop 19 = ('.' :: w.fraction) ++ w.zone.text := by
    rw [text, drop_mainText, fractionText, if_neg hne]
  have htake : (w.text.drop 19).take (20 + w.fraction.length - 19) = '.' :: w.fraction := by
    have hlen : 20 + w.fraction.length - 19 = ('.' :: w.fraction).length := by
      rw [List.length_cons]
      omega
    rw [hdrop, hlen, List.take_left]
  unfold zoneStart
  cases hzone : w.zone with
  | absent =>
      rw [hzone] at hdrop
      rw [nsstr, hdrop]
      exact List.append_nil _
  | zulu => exact htake
  | offset o => exact htake

theorem text_ne_nil : w.text ≠ [] := append_ne_nil _

theorem parseNanoseconds_text (p : Platform) (hne : w.fraction ≠ []) :
    parseNanoseconds p w.text = .ok (w.readNs p, w.zoneStart) := by
  have htext : w.text = w.mainText ++ '.' :: (w.fraction ++ w.zone.text) := by
    rw [text, fractionText, if_neg hne]
    rfl
  have hzone : findZone w.text 19 = w.zoneStart := by
    rw [htext, findZone_fraction w.digits, findIdx?_zoneText]
  rw [parseNanoseconds, not_isEmpty text_ne_nil, assertion_bind, hzone]
  dsimp only
  rw [nsstr_text hne, toLdouble_point w.digits hne, readNs, if_neg hne]
  rfl

end Stamp

/-! ## The zone -/

theorem toInteger_of_reads {s : List Char} {v : ℤ} (h : ReadsInteger (cstr s) v [])
    (hlo : longMin ≤ v) (hhi : v ≤ longMax) : toInteger s = .ok v := by
  have hread := strtol_of_some (scanInteger_ten.mpr h)
  rw [clampLong_of_mem ⟨hlo, hhi⟩] at hread
  rw [toInteger, hread]
  rfl

/-- A sign and up to two digits. -/
theorem toInteger_signed {sg ds : List Char} {negative : Bool} (hsg : IsSign sg negative)
    (hds : Digits ds) (hne : ds ≠ []) (hlen : ds.length ≤ 2) :
    toInteger (sg ++ ds) = .ok (negateIf negative (value ds)) := by
  have hnul : ∀ c ∈ sg ++ ds, c ≠ nul := by
    intro c hc
    rcases List.mem_append.mp hc with hc | hc
    · rcases hsg with ⟨rfl, -⟩ | ⟨rfl, -⟩ | ⟨rfl, -⟩
      · exact absurd hc List.not_mem_nil
      · rw [List.mem_singleton.mp hc]
        decide
      · rw [List.mem_singleton.mp hc]
        decide
    · exact ne_nul_of_digits hds c hc
  have hvalue : value ds < 100 := by
    have hpow : 10 ^ ds.length ≤ 10 ^ 2 := Nat.pow_le_pow_right (by decide) hlen
    have := value_lt hds
    omega
  have hbounds : longMin ≤ negateIf negative (value ds) ∧
      negateIf negative (value ds) ≤ longMax := by
    unfold negateIf longMin longMax
    split <;> omega
  apply toInteger_of_reads ?_ hbounds.1 hbounds.2
  refine ⟨[], sg, negative, ds, ?_, ?_, hsg, hds, hne, stops_nil, rfl⟩
  · rw [cstr_of_ne hnul, List.append_nil, List.nil_append]
  · intro c hc
    exact absurd hc List.not_mem_nil

theorem padded_two {n : ℕ} (h : n < 100) :
    Digits (padded 2 n) ∧ padded 2 n ≠ [] ∧ (padded 2 n).length = 2 ∧ value (padded 2 n) = n := by
  have hlen : (padded 2 n).length = 2 := length_padded (by decide) h
  refine ⟨digits_padded 2 n, ?_, hlen, value_padded 2 n⟩
  intro hnil
  rw [hnil] at hlen
  exact absurd hlen (by decide)

theorem parseTimeZone_zulu (p : Platform) {s : List Char} (tm : Tm) {start : ℕ} (hs : s ≠ [])
    (hdrop : s.drop start = ['Z']) : parseTimeZone p s tm start = .ok tm := by
  rw [parseTimeZone, not_isEmpty hs, assertion_bind, hdrop]
  exact assertion_bind _ _

theorem parseTimeZone_offset (p : Platform) {s tzstr : List Char} (tm : Tm) {start : ℕ}
    (hs : s ≠ []) (hdrop : s.drop start = tzstr) (hlen : tzstr.length ≠ 1) {h m : ℤ}
    (hh : parseHourOffset tzstr = .ok h) (hm : parseMinuteOffset tzstr = .ok m) :
    parseTimeZone p s tm start = .ok (shiftTimeZone tm h m) := by
  rw [parseTimeZone, not_isEmpty hs, assertion_bind, hdrop]
  dsimp only
  rw [if_neg hlen, hh, hm]
  rfl

namespace Offset

variable (o : Offset)

theorem isSign : IsSign [o.sign] o.negative := by
  unfold Offset.sign
  cases o.negative with
  | true => exact Or.inr (Or.inr ⟨rfl, rfl⟩)
  | false => exact Or.inr (Or.inl ⟨rfl, rfl⟩)

theorem parseHourOffset_text : parseHourOffset o.text = .ok (negateIf o.negative o.hours) := by
  have hle := o.hours_le
  obtain ⟨hds, hne, hlen, hvalue⟩ := padded_two (n := o.hours) (by omega)
  have htake : o.text.take 3 = [o.sign] ++ padded 2 o.hours := by
    rw [text, List.take_succ_cons, List.take_append_of_le_length (Nat.le_of_eq hlen.symm),
      List.take_of_length_le (Nat.le_of_eq hlen)]
    rfl
  have hrange : ¬ (negateIf o.negative (o.hours : ℤ) > maxHourOffset ∨
      negateIf o.negative (o.hours : ℤ) < -maxHourOffset) := by
    unfold negateIf maxHourOffset
    split <;> omega
  rw [parseHourOffset, htake, toInteger_signed o.isSign hds hne (by omega), hvalue]
  exact if_neg hrange

/-- The minutes are found by the length of the text. -/
theorem minuteOffsetStr_text : minuteOffsetStr o.text =
    .ok (if o.layout = OffsetLayout.hours then [] else padded 2 o.minutes) := by
  have hle := o.hours_le
  have hle' := o.minutes_le
  obtain ⟨-, -, hh, -⟩ := padded_two (n := o.hours) (by omega)
  obtain ⟨-, -, hm, -⟩ := padded_two (n := o.minutes) (by omega)
  generalize hhours : padded 2 o.hours = hs at hh
  generalize hminutes : padded 2 o.minutes = ms at hm
  obtain ⟨a, b, rfl⟩ := List.length_eq_two.mp hh
  obtain ⟨c, d, rfl⟩ := List.length_eq_two.mp hm
  unfold minuteOffsetStr Offset.text minuteText
  rw [hhours, hminutes]
  cases o.layout <;> rfl

theorem parseMinuteOffset_text : parseMinuteOffset o.text = .ok o.minutes := by
  have hle := o.minutes_le
  obtain ⟨hds, hne, hlen, hvalue⟩ := padded_two (n := o.minutes) (by omega)
  have hrange : ¬ ((o.minutes : ℤ) < 0 ∨ (o.minutes : ℤ) > maximumMinuteOffset) := by
    unfold maximumMinuteOffset
    omega
  have hread : toInteger (if o.layout = OffsetLayout.hours then [] else padded 2 o.minutes) =
      .ok (o.minutes : ℤ) := by
    split
    · rename_i hlayout
      rw [o.minutes_eq hlayout]
      rfl
    · have hnone : IsSign [] false := Or.inl ⟨rfl, rfl⟩
      have := toInteger_signed hnone hds hne (Nat.le_of_eq hlen)
      rw [hvalue] at this
      exact this
  rw [parseMinuteOffset, minuteOffsetStr_text]
  show (do
    let minuteOffset ← toInteger (if o.layout = OffsetLayout.hours then [] else padded 2 o.minutes)
    if minuteOffset < 0 ∨ minuteOffset > maximumMinuteOffset then throwInvalid
    else return minuteOffset) = _
  rw [hread]
  exact if_neg hrange

theorem length_text_ne_one : o.text.length ≠ 1 := by
  have hle := o.hours_le
  obtain ⟨-, -, hlen, -⟩ := padded_two (n := o.hours) (by omega)
  rw [text, List.length_cons, List.length_append, hlen]
  omega

/-- What the reader adds to the local time. -/
def shift (o : Offset) : ℤ :=
  if o.negative = false ∧ 0 < o.hours then -(o.hours * 3600 + o.minutes * 60)
  else o.hours * 3600 + o.minutes * 60

theorem shiftTimeZone_eq (tm : Tm) : shiftTimeZone tm (negateIf o.negative o.hours) o.minutes =
    if o.shift ≠ 0 then (gmtimeR (timegm tm + o.shift)).getD tm else tm := by
  have habs : |negateIf o.negative (o.hours : ℤ)| = o.hours := by
    unfold negateIf
    split
    · rw [abs_neg, Nat.abs_cast]
    · exact Nat.abs_cast _
  have hpos : negateIf o.negative (o.hours : ℤ) > 0 ↔ o.negative = false ∧ 0 < o.hours := by
    unfold negateIf
    cases o.negative <;> simp
  have hshift : (if negateIf o.negative (o.hours : ℤ) > 0 then
      -((o.hours : ℤ) * 60 * 60 + o.minutes * 60) else (o.hours : ℤ) * 60 * 60 + o.minutes * 60) =
        o.shift := by
    unfold shift
    split <;> split <;> first | omega | tauto
  unfold shiftTimeZone
  dsimp only
  rw [habs, hshift]

end Offset
/-! ## Whole texts -/

theorem parseIso8601_ok {p : Platform} {s : List Char} {tm tm' : Tm} {sel : Selection} {ns : ℤ}
    {zone : Option ℕ} (hs : s ≠ []) (hmain : parseMainPortion p s = .ok (tm, sel))
    (hsub : parseSubseconds p s sel = .ok (ns, zone)) (hzone : parseZone p s tm zone = .ok tm') :
    parseIso8601 p s = .ok (tm', ns) := by
  rw [parseIso8601, if_neg (by simpa using hs), hmain]
  show (parseSubseconds p s sel >>= _) = _
  rw [hsub]
  show (parseZone p s tm zone >>= _) = _
  rw [hzone]
  rfl

namespace Stamp

/-- The broken-down time the reader makes of a stamp. -/
def readTm (w : Stamp) : Tm :=
  match w.zone with
  | .offset o => shiftTimeZone w.tm (negateIf o.negative o.hours) o.minutes
  | _ => w.tm

variable (w : Stamp) (p : Platform)

theorem parseZone_text {start : ℕ} (hdrop : w.text.drop start = w.zone.text)
    (hzone : w.zone.text ≠ []) : parseZone p w.text w.tm (some start) = .ok w.readTm := by
  rw [parseZone, readTm]
  cases hz : w.zone with
  | absent =>
      rw [hz] at hzone
      exact absurd rfl hzone
  | zulu =>
      rw [hz] at hdrop
      exact parseTimeZone_zulu p w.tm text_ne_nil hdrop
  | offset o =>
      rw [hz] at hdrop
      exact parseTimeZone_offset p w.tm text_ne_nil hdrop o.length_text_ne_one
        o.parseHourOffset_text o.parseMinuteOffset_text

theorem parseIso8601_text_fraction (hne : w.fraction ≠ []) :
    parseIso8601 p w.text = .ok (w.readTm, w.readNs p) := by
  have htext : w.text = w.mainText ++ '.' :: (w.fraction ++ w.zone.text) := by
    rw [text, fractionText, if_neg hne]
    rfl
  have hmain : parseMainPortion p w.text =
      .ok (w.tm, { format := secondFormat, needToParseNanoseconds := true }) := by
    rw [htext]
    exact parseMainPortion_fraction p (List.append_ne_nil_of_left_ne_nil hne _)
  have hdrop : w.text.drop (20 + w.fraction.length) = w.zone.text := by
    have hlen : 20 + w.fraction.length = (w.mainText ++ '.' :: w.fraction).length := by
      rw [List.length_append, length_mainText, List.length_cons]
      omega
    have hsplit : w.mainText ++ '.' :: (w.fraction ++ w.zone.text) =
        (w.mainText ++ '.' :: w.fraction) ++ w.zone.text := by
      rw [List.append_assoc]
      rfl
    rw [htext, hsplit, hlen, List.drop_left]
  apply parseIso8601_ok text_ne_nil hmain (parseNanoseconds_text p hne)
  unfold zoneStart
  cases hz : w.zone with
  | absent =>
      rw [readTm, hz]
      rfl
  | zulu =>
      apply w.parseZone_text p hdrop
      rw [hz]
      exact List.cons_ne_nil _ _
  | offset o =>
      apply w.parseZone_text p hdrop
      rw [hz]
      exact List.cons_ne_nil _ _

theorem parseIso8601_text_seconds (hnil : w.fraction = []) :
    parseIso8601 p w.text = .ok (w.readTm, w.readNs p) := by
  have htext : w.text = w.mainText ++ w.zone.text := by
    rw [text, fractionText, if_pos hnil]
    rfl
  have hns : w.readNs p = 0 := if_pos hnil
  rw [hns]
  cases hz : w.zone with
  | absent =>
      rw [hz] at htext
      have hmain := parseMainPortion_plain (w := w) p
      have hsame : w.text = w.mainText := htext.trans (List.append_nil _)
      rw [← hsame] at hmain
      apply parseIso8601_ok text_ne_nil hmain rfl
      rw [readTm, hz]
      rfl
  | zulu =>
      rw [hz] at htext
      have hmain := parseMainPortion_zulu (w := w) p
      have hsame : w.text = w.mainText ++ ['Z'] := htext
      rw [← hsame] at hmain
      apply parseIso8601_ok text_ne_nil hmain rfl
      rw [readTm, hz]
      rfl
  | offset o =>
      have hsign : isZoneChar o.sign = true := by
        unfold Offset.sign
        split <;> rfl
      have htail : padded 2 o.hours ++ o.minuteText ≠ [] := by
        have hle := o.hours_le
        exact List.append_ne_nil_of_left_ne_nil (padded_two (by omega)).2.1 _
      rw [hz] at htext
      have hmain := parseMainPortion_zone (w := w) p hsign htail
      have hsame : w.text = w.mainText ++ o.sign :: (padded 2 o.hours ++ o.minuteText) := htext
      rw [← hsame] at hmain
      apply parseIso8601_ok text_ne_nil hmain rfl
      apply w.parseZone_text p
      · rw [hz, htext, drop_mainText]
      · rw [hz]
        exact List.cons_ne_nil _ _

/-- **Every stamp is read.** -/
theorem parseIso8601_text : parseIso8601 p w.text = .ok (w.readTm, w.readNs p) := by
  by_cases hnil : w.fraction = []
  · exact w.parseIso8601_text_seconds p hnil
  · exact w.parseIso8601_text_fraction p hnil

end Stamp
end KssUtil.Time

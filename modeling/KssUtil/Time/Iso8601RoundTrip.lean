import KssUtil.Time.Iso8601Offsets
import Mathlib.Tactic.Ring

/-!
# Date-time texts of time points

For a year of four digits the writer writes the text of a stamp in UTC, with the
fewest digits that give its sub-seconds.  A time point is read back unless it is
before the epoch and has sub-seconds: these are dropped.
-/

namespace KssUtil.Time

open KssUtil.Foundation KssUtil.Libc

/-! ## The main portion -/

theorem padded_of_le {w n : ℕ} (h : w ≤ (Nat.toDigits 10 n).length) :
    padded w n = Nat.toDigits 10 n := by
  rw [padded, List.leftpad, Nat.sub_eq_zero_of_le h]
  rfl

/-- A year of four digits is printed with all of them. -/
theorem padded_year {n : ℕ} (hlo : 1000 ≤ n) (hhi : n ≤ 9999) : padded 1 n = padded 4 n := by
  have hlen : 4 ≤ (Nat.toDigits 10 n).length := by
    by_contra hlt
    have := (Nat.length_toDigits_le_iff (n := n) (k := 3) (b := 10) (by decide) (by decide)).mp
      (by omega)
    omega
  rw [padded_of_le (Nat.le_trans (by decide) hlen), padded_of_le hlen]

/-- The fields are those of a four-digit year. -/
structure FourDigit (tm : Tm) : Prop where
  valid : tm.Valid
  year : 1000 ≤ tm.year + 1900 ∧ tm.year + 1900 ≤ 9999

namespace FourDigit

variable {tm : Tm} (h : FourDigit tm)
include h

theorem inRange (f : Field) : f.InRange tm := by
  obtain ⟨hlo, hhi⟩ := h.year
  have hmon := h.valid.mon
  have hlt : tm.mon.toNat < 12 := h.valid.date.1
  have hday : 1 ≤ tm.mday := h.valid.date.2.1
  have hday' : tm.mday ≤ 31 := h.valid.date.day_le
  have hhour := h.valid.hour
  have hmin := h.valid.min
  have hsec := h.valid.sec
  cases f <;> simp only [Field.InRange, Field.get, Field.lo, Field.hi] <;> omega

/-- Every field has the digits that are read. -/
theorem print_eq (item : Item) : item.print tm = item.write tm := by
  cases item with
  | lit c => rfl
  | field f =>
      obtain ⟨hlo, hhi⟩ := h.inRange f
      have hnonneg : 0 ≤ f.get tm := by omega
      cases f with
      | Y =>
          obtain ⟨hyear, hyear'⟩ := h.year
          have hget : Field.Y.get tm = tm.year + 1900 := rfl
          rw [Item.print, printfZero_of_nonneg hnonneg, Item.write]
          exact padded_year (by omega) (by omega)
      | m => exact printfZero_of_nonneg hnonneg
      | d => exact printfZero_of_nonneg hnonneg
      | H => exact printfZero_of_nonneg hnonneg
      | M => exact printfZero_of_nonneg hnonneg
      | S => exact printfZero_of_nonneg hnonneg

end FourDigit

/-! ## The fraction -/

theorem rdropWhile_cons_of_neg {α : Type} {p : α → Bool} {a : α} (ha : p a = false) (l : List α) :
    (a :: l).rdropWhile p = a :: l.rdropWhile p := by
  induction l using List.reverseRecOn with
  | nil => exact List.rdropWhile_concat_neg p [] a (Bool.eq_false_iff.mp ha)
  | append_singleton l b ih =>
      have hsplit : a :: (l ++ [b]) = (a :: l) ++ [b] := rfl
      rw [hsplit, List.rdropWhile_concat, List.rdropWhile_concat, ih]
      split <;> rfl

/-- Trimming takes away zeros only. -/
theorem exists_trimmed (ds : List Char) : ∃ k, ds = rtrimChar ds '0' ++ List.replicate k '0' := by
  refine ⟨(ds.rtakeWhile (· = '0')).length, ?_⟩
  have hzeros : ds.rtakeWhile (· = '0') = List.replicate (ds.rtakeWhile (· = '0')).length '0' := by
    apply List.eq_replicate_of_mem
    intro c hc
    exact of_decide_eq_true (List.mem_rtakeWhile_imp (p := fun c => c = '0') hc)
  rw [rtrimChar, ← hzeros, List.rdropWhile_append_rtakeWhile]

/-- Less than a second, in a coarser unit. -/
theorem durationCast_subsecond {To : DurationType} {k : ℕ} {ns : ℤ} (hrep : To.rep = Rep.int64)
    (h : 1000000000 * To.num = 1 * To.den * k) (hpos : 0 < ns) (hlt : ns < 1000000000) :
    durationCast To .nanoseconds ns = ns / k := by
  have hdiv : 0 ≤ ns / (k : ℤ) := Int.ediv_nonneg hpos.le (Int.natCast_nonneg k)
  have hdiv' : ns / (k : ℤ) ≤ ns := Int.ediv_le_self _ hpos.le
  have hwrap : ∀ n : ℤ, 0 ≤ n → n < 1000000000 → Rep.int64.wrap n = n := by
    intro n hn hn'
    apply Rep.wrap_eq
    rw [int64_min, int64_max]
    omega
  rw [durationCast_of_multiple h, hrep, hwrap ns hpos.le hlt, Int.tdiv_eq_ediv_of_nonneg hpos.le,
    hwrap _ hdiv (by omega)]

/-- The format is the shortest that is exact. -/
theorem fractionText_spec {ns : ℤ} (hpos : 0 < ns) (hlt : ns < 1000000000) :
    ∃ w n, fractionText ns = '.' :: padded w n ∧ 0 < w ∧ n < 10 ^ w ∧
      (n : ℤ) * 1000000000 = ns * 10 ^ w := by
  have hms : durationCast .milliseconds .nanoseconds ns = ns / 1000000 :=
    durationCast_subsecond (k := 1000000) rfl rfl hpos hlt
  have hus : durationCast .microseconds .nanoseconds ns = ns / 1000 :=
    durationCast_subsecond (k := 1000) rfl rfl hpos hlt
  unfold fractionText
  rw [hms, hus]
  dsimp only
  split
  · refine ⟨3, (ns / 1000000).toNat, ?_, by decide, ?_, ?_⟩
    · rw [printfZero_of_nonneg (by omega)]
    · omega
    · omega
  · split
    · refine ⟨6, (ns / 1000).toNat, ?_, by decide, ?_, ?_⟩
      · rw [printfZero_of_nonneg (by omega)]
      · omega
      · omega
    · refine ⟨9, ns.toNat, ?_, by decide, ?_, ?_⟩
      · rw [printfZero_of_nonneg (by omega)]
      · omega
      · omega

/-- What is written of a sub-second count are the digits of that fraction. -/
theorem exists_fraction {ns : ℤ} (hpos : 0 < ns) (hlt : ns < 1000000000) :
    ∃ ds, rtrimChar (fractionText ns) '0' = '.' :: ds ∧ Digits ds ∧ ds ≠ [] ∧
      (value ds : ℤ) * 1000000000 = ns * 10 ^ ds.length := by
  obtain ⟨w, n, htext, hw, hn, hvalue⟩ := fractionText_spec hpos hlt
  obtain ⟨k, hk⟩ := exists_trimmed (padded w n)
  have hdigits : Digits (rtrimChar (padded w n) '0' ++ List.replicate k '0') := by
    rw [← hk]
    exact digits_padded w n
  have hlen : (rtrimChar (padded w n) '0').length + k = w := by
    have := congrArg List.length hk
    rw [length_padded hw hn, List.length_append, List.length_replicate] at this
    exact this.symm
  have htrim : n = value (rtrimChar (padded w n) '0') * 10 ^ k := by
    have := congrArg value hk
    rw [value_padded, value_replicate_zero] at this
    exact this
  -- the zeros that were trimmed are the power of ten that is missing
  have hscaled : (value (rtrimChar (padded w n) '0') : ℤ) * 1000000000 =
      ns * 10 ^ (rtrimChar (padded w n) '0').length := by
    have hk0 : (10 : ℤ) ^ k ≠ 0 := by positivity
    apply mul_right_cancel₀ hk0
    rw [← hlen, pow_add, ← mul_assoc] at hvalue
    rw [← hvalue]
    conv_rhs => rw [htrim]
    push_cast
    ring
  refine ⟨rtrimChar (padded w n) '0', ?_, (digits_append.mp hdigits).1, ?_, hscaled⟩
  · rw [htext]
    exact rdropWhile_cons_of_neg (by decide) _
  · intro hnil
    rw [hnil, value_nil, List.length_nil] at hscaled
    omega

/-! ## The text of a stamp -/

theorem readNs_eq (p : Platform) {w : Stamp} {ns : ℤ} (hpos : 0 < ns) (hlt : ns < 1000000000)
    (hne : w.fraction ≠ [])
    (hvalue : (value w.fraction : ℤ) * 1000000000 = ns * 10 ^ w.fraction.length) :
    w.readNs p = ns := by
  have hq : (value w.fraction : ℚ) * 1000000000 = ns * 10 ^ w.fraction.length := by
    exact_mod_cast hvalue
  have hpow : (10 : ℚ) ^ w.fraction.length ≠ 0 := by positivity
  have hexact : (value w.fraction : ℚ) / (10 ^ w.fraction.length : ℕ) * 1000000000 = ns := by
    rw [Nat.cast_pow, Nat.cast_ofNat, div_mul_eq_mul_div, hq, mul_div_assoc, div_self hpow, mul_one]
  rw [Stamp.readNs, if_neg hne, hexact, roundHalfAway_intCast]
  exact castToRep_of_inRange p (inRange_subsecond hpos.le hlt.le)

/-- The fields without their offset. -/
def civil (tm : Tm) : Tm := { tm with gmtoff := 0 }

theorem civil_eq {tm : Tm} (h : tm.gmtoff = 0) : civil tm = tm := by
  rw [civil, ← h]

theorem timegm_civil (tm : Tm) : timegm (civil tm) = timegm tm := rfl

theorem zoneText_zero {tm : Tm} (h : tm.gmtoff = 0) : zoneText tm.gmtoff = ['Z'] := by
  rw [zoneText, if_pos h]

/-- The text of a stamp with the zone that is written, if its fraction is what is
written of `ns`. -/
theorem toIso8601_eq_text (p : Platform) {tm : Tm} {ns : ℤ} {w : Stamp} (h : FourDigit w.tm)
    (htm : w.tm = civil tm) (hzone : zoneText tm.gmtoff = w.zone.text)
    (hfraction : (if ns ≠ 0 then rtrimChar (fractionText ns) '0' else []) = w.fractionText) :
    toIso8601 p tm ns = w.text := by
  have hprint : secondFormat.flatMap (Item.print tm) = w.mainText := by
    rw [Stamp.mainText]
    congr 1
    ext1 item
    rw [← h.print_eq item, htm]
    -- no conversion of the format prints the offset
    cases item with
    | lit c => rfl
    | field f => cases f <;> rfl
  have hmain : (strftime 20 secondFormat tm).getD p.unspecified = w.mainText := by
    rw [strftime, hprint, if_pos (by rw [Stamp.length_mainText])]
    rfl
  rw [toIso8601, hmain, hfraction, hzone, Stamp.text, List.append_assoc]

/-- **The writer writes stamps**, with the digits of the sub-seconds. -/
theorem exists_stamp_zone (p : Platform) {tm : Tm} (h : FourDigit (civil tm)) {z : Zone}
    (hzone : zoneText tm.gmtoff = z.text) {ns : ℤ} (hlo : 0 ≤ ns) (hlt : ns < 1000000000) :
    ∃ w : Stamp, toIso8601 p tm ns = w.text ∧ w.tm = civil tm ∧ w.zone = z ∧
      (value w.fraction : ℤ) * 1000000000 = ns * 10 ^ w.fraction.length ∧ w.readNs p = ns := by
  by_cases hns : ns = 0
  · let w : Stamp := ⟨civil tm, [], z, h.inRange, h.valid.gmtoff, digits_nil⟩
    refine ⟨w, toIso8601_eq_text p h rfl hzone ?_, rfl, rfl, ?_, hns.symm⟩
    · exact if_neg (not_not.mpr hns)
    · rw [hns, value_nil, Nat.cast_zero, Int.zero_mul, Int.zero_mul]
  · have hpos : 0 < ns := by omega
    obtain ⟨ds, htext, hds, hne, hvalue⟩ := exists_fraction hpos hlt
    let w : Stamp := ⟨civil tm, ds, z, h.inRange, h.valid.gmtoff, hds⟩
    have hfraction : w.fractionText = '.' :: ds := if_neg hne
    refine ⟨w, toIso8601_eq_text p h rfl hzone ?_, rfl, rfl, hvalue,
      readNs_eq p hpos hlt hne hvalue⟩
    rw [if_pos hns, htext, hfraction]

/-- In UTC the zone is `Z`. -/
theorem exists_stamp (p : Platform) {tm : Tm} (h : FourDigit tm) {ns : ℤ} (hlo : 0 ≤ ns)
    (hlt : ns < 1000000000) :
    ∃ w : Stamp, toIso8601 p tm ns = w.text ∧ w.tm = tm ∧ w.zone = .zulu ∧
      (value w.fraction : ℤ) * 1000000000 = ns * 10 ^ w.fraction.length ∧ w.readNs p = ns := by
  have hcivil := civil_eq h.valid.gmtoff
  have hfour : FourDigit (civil tm) := by rwa [hcivil]
  have hstamp := exists_stamp_zone p hfour (z := .zulu) (zoneText_zero h.valid.gmtoff) hlo hlt
  rwa [hcivil] at hstamp

/-! ## Time points -/

/-- The periods with which a text is exact. -/
inductive Precision where
  | seconds
  | milliseconds
  | microseconds
  | nanoseconds
deriving DecidableEq, Repr

namespace Precision

def perSecond : Precision → ℕ
  | seconds => 1
  | milliseconds => 1000
  | microseconds => 1000000
  | nanoseconds => 1000000000

/-- The nanoseconds of a tick. -/
def tick : Precision → ℕ
  | seconds => 1000000000
  | milliseconds => 1000000
  | microseconds => 1000
  | nanoseconds => 1

theorem perSecond_pos (u : Precision) : 0 < u.perSecond := by
  cases u <;> decide

theorem perSecond_mul_tick (u : Precision) : u.perSecond * u.tick = 1000000000 := by
  cases u <;> rfl

def duration (u : Precision) (rep : Rep) : DurationType :=
  ⟨rep, 1, u.perSecond, Nat.one_pos, u.perSecond_pos⟩

end Precision

/-- The first second of a year, since the epoch. -/
def firstSecond (y : ℤ) : ℤ := (Gregorian.daysBeforeYear y - epochDay) * 86400

/-- The instant lies in the years 1000 to 9999. -/
def FourDigitYear (D : DurationType) (tp : ℤ) : Prop :=
  firstSecond 1000 * D.den ≤ tp ∧ tp < firstSecond 10000 * D.den

theorem fourDigit_gmtimeR {t : ℤ} (hlo : firstSecond 1000 ≤ t) (hhi : t < firstSecond 10000) :
    ∃ tm, gmtimeR t = some tm ∧ FourDigit tm ∧ timegm tm = t := by
  have hfirst : firstSecond 1000 = -30610224000 := by decide
  have hlast : firstSecond 10000 = 253402300800 := by decide
  rw [hfirst] at hlo
  rw [hlast] at hhi
  have hepoch : epochDay = 719162 := by decide
  obtain ⟨tm, htm⟩ := exists_gmtimeR (t := t) (by omega) (by omega)
  obtain ⟨hvalid, htime⟩ := gmtimeR_spec htm
  refine ⟨tm, htm, ⟨hvalid, ?_⟩, htime⟩
  have hyear : tm.year + 1900 = Gregorian.yearOf (t / 86400 + epochDay) := by
    rw [gmtimeR] at htm
    split at htm
    · rw [← Option.some.inj htm]
      exact Int.sub_add_cancel _ _
    · exact absurd htm.symm (Option.some_ne_none tm)
  obtain ⟨hbefore, hafter⟩ := Gregorian.yearOf_spec (t / 86400 + epochDay)
  rw [hyear]
  rw [hepoch] at hbefore hafter ⊢
  generalize Gregorian.yearOf (t / 86400 + 719162) = y at hbefore hafter
  unfold Gregorian.daysBeforeYear at hbefore hafter
  omega

/-- A count is `q` whole seconds and `r` ticks, both with its sign. -/
structure Split (u : Precision) (tp q r : ℤ) : Prop where
  sum : q * u.perSecond + r = tp
  lower : -(u.perSecond : ℤ) < r
  upper : r < u.perSecond
  nonneg : 0 ≤ tp → 0 ≤ r
  nonpos : tp ≤ 0 → r ≤ 0

theorem split_tdiv (u : Precision) (tp : ℤ) :
    Split u tp (tp.tdiv u.perSecond) (tp.tmod u.perSecond) := by
  have hpos : (0 : ℤ) < u.perSecond := by exact_mod_cast u.perSecond_pos
  constructor
  · exact Int.tdiv_mul_add_tmod _ _
  · exact Int.lt_tmod_of_pos _ hpos
  · exact Int.tmod_lt_of_pos _ hpos
  · exact Int.tmod_nonneg _
  · intro h
    have := Int.tmod_nonneg (a := -tp) u.perSecond (by omega)
    rw [Int.neg_tmod] at this
    omega

section

variable {u : Precision} {rep : Rep} {tp q r : ℤ}

theorem Split.bounds (h : Split u tp q r) (hyear : FourDigitYear (u.duration rep) tp) :
    firstSecond 1000 ≤ q ∧ q < firstSecond 10000 := by
  have hfirst : firstSecond 1000 = -30610224000 := by decide
  have hlast : firstSecond 10000 = 253402300800 := by decide
  obtain ⟨hlo, hhi⟩ := hyear
  obtain ⟨hsum, hlower, hupper, hnonneg, hnonpos⟩ := h
  have hlo : firstSecond 1000 * u.perSecond ≤ tp := hlo
  have hhi : tp < firstSecond 10000 * u.perSecond := hhi
  rw [hfirst] at hlo ⊢
  rw [hlast] at hhi ⊢
  cases u <;> simp only [Precision.perSecond, Nat.cast_one, Nat.cast_ofNat] at * <;> omega

theorem toTimeT_eq (hyear : FourDigitYear (u.duration rep) tp) :
    toTimeT (u.duration rep) tp = .ok (tp.tdiv u.perSecond) := by
  have hfirst : firstSecond 1000 = -30610224000 := by decide
  have hlast : firstSecond 10000 = 253402300800 := by decide
  obtain ⟨hlo, hhi⟩ := hyear
  have hlo : firstSecond 1000 * u.perSecond ≤ tp := hlo
  have hhi : tp < firstSecond 10000 * u.perSecond := hhi
  rw [hfirst] at hlo
  rw [hlast] at hhi
  apply checkedDurationCast_of_multiple (k := u.perSecond)
  · show u.perSecond * 1 = 1 * 1 * u.perSecond
    omega
  · show Rep.int64.min * u.perSecond ≤ tp
    rw [int64_min]
    cases u <;> simp only [Precision.perSecond, Nat.cast_one, Nat.cast_ofNat] at * <;> omega
  · show tp ≤ Rep.int64.max * u.perSecond
    rw [int64_max]
    cases u <;> simp only [Precision.perSecond, Nat.cast_one, Nat.cast_ofNat] at * <;> omega

/-- The sub-seconds written: none before the epoch. -/
def writtenNs (u : Precision) (r : ℤ) : ℤ := if 0 < r then r * u.tick else 0

theorem writtenNs_bounds (h : Split u tp q r) :
    0 ≤ writtenNs u r ∧ writtenNs u r < 1000000000 := by
  obtain ⟨-, -, hupper, -, -⟩ := h
  unfold writtenNs
  split
  · cases u <;> simp only [Precision.perSecond, Precision.tick, Nat.cast_one, Nat.cast_ofNat] at *
      <;> omega
  · decide

/-- **What is written** of a time point are its whole seconds and, after the
epoch, its sub-seconds. -/
theorem toIso8601String_eq (p : Platform) (hyear : FourDigitYear (u.duration rep) tp)
    (h : Split u tp (tp.tdiv u.perSecond) r) {tm : Tm}
    (htm : gmtimeR (tp.tdiv u.perSecond) = some tm) :
    toIso8601String p (u.duration rep) tp = .ok (toIso8601 p tm (writtenNs u r)) := by
  have hsub : tp * (u.duration rep).num - tp.tdiv u.perSecond * (u.duration rep).den = r := by
    have hsum := h.sum
    show tp * (1 : ℕ) - tp.tdiv u.perSecond * u.perSecond = r
    rw [Nat.cast_one]
    omega
  have hden : ((u.duration rep).den : ℚ) ≠ 0 := by
    exact_mod_cast (u.perSecond_pos).ne'
  -- the sub-seconds are a whole number of nanoseconds, so nothing is lost in the text
  have hexact : (r : ℚ) * (u.duration rep).num / (u.duration rep).den * 1000000000 =
      ((r * u.tick : ℤ) : ℚ) := by
    have hticks : (1000000000 : ℚ) = (u.duration rep).den * u.tick := by
      exact_mod_cast u.perSecond_mul_tick.symm
    rw [hticks, div_mul_eq_mul_div, mul_comm ((u.duration rep).den : ℚ), ← mul_assoc,
      mul_div_assoc, div_self hden, mul_one, Int.cast_mul, Int.cast_natCast]
    show (r : ℚ) * (1 : ℕ) * u.tick = r * u.tick
    rw [Nat.cast_one, mul_one]
  have hbounds := writtenNs_bounds h
  have htoTm : toTm (u.duration rep) tp p.uninitialised = .ok tm := by
    rw [toTm, toTimeT_eq hyear, ok_bind, tzTimeR, htm]
    rfl
  have hsecs : checkedDurationCast .seconds (u.duration rep) tp = .ok (tp.tdiv u.perSecond) :=
    toTimeT_eq hyear
  rw [toIso8601String, htoTm, ok_bind, hsecs, ok_bind, hsub]
  unfold writtenNs at hbounds ⊢
  split
  · rename_i hr
    rw [if_pos hr] at hbounds ⊢
    have hle : (r : ℚ) * (u.duration rep).num / (u.duration rep).den ≤ 1 := by
      have hupper := h.upper
      have hpos : (0 : ℚ) < (u.duration rep).den := by exact_mod_cast u.perSecond_pos
      rw [div_le_one hpos]
      show (r : ℚ) * (1 : ℕ) ≤ (u.perSecond : ℕ)
      rw [Nat.cast_one, mul_one]
      exact_mod_cast hupper.le
    dsimp only
    rw [if_pos hle, hexact, roundHalfAway_intCast, castToRep_of_inRange p
      (inRange_subsecond hbounds.1 hbounds.2.le)]
    rfl
  · rename_i hr
    rw [if_neg hr]
    rfl

/-- **What is read** is the sum of the two parts. -/
theorem fromIso8601String_eq (p : Platform) {w : Stamp} {ns : ℤ} (hzone : w.zone = .zulu)
    (hns : w.readNs p = ns) (hlo : 0 ≤ ns) (hlt : ns < 1000000000)
    (hin : (u.duration rep).InRange (timegm w.tm * u.perSecond)) :
    fromIso8601String p (u.duration rep) w.text =
      .ok (if ns ≠ 0 then rep.wrap (timegm w.tm * u.perSecond + rep.wrap (ns / u.tick))
        else timegm w.tm * u.perSecond) := by
  have hparse : parseIso8601 p w.text = .ok (w.tm, ns) := by
    rw [w.parseIso8601_text, hns, Stamp.readTm, hzone]
  have hcast : checkedDurationCast .nanoseconds .nanoseconds ns = .ok ns := by
    rw [checkedDurationCast_self, if_pos]
    show Rep.int64.min ≤ ns ∧ ns ≤ Rep.int64.max
    rw [int64_min, int64_max]
    omega
  have htime : fromTm (u.duration rep) w.tm = .ok (timegm w.tm * u.perSecond) := by
    have hoff : tmToTimeT w.tm = timegm w.tm := by
      rw [tmToTimeT, w.gmtoff]
      rfl
    rw [fromTm, hoff, fromTimeT, checkedDurationCast_of_divisor (k := u.perSecond), if_pos hin]
    show 1 * u.perSecond = 1 * 1 * u.perSecond
    omega
  have hfraction : durationCast (u.duration rep) .nanoseconds ns = rep.wrap (ns / u.tick) := by
    have hwrap : Rep.int64.wrap ns = ns := by
      apply Rep.wrap_eq
      rw [int64_min, int64_max]
      omega
    rw [durationCast_of_multiple (k := u.tick), hwrap, Int.tdiv_eq_ediv_of_nonneg hlo]
    · rfl
    · show 1000000000 * 1 = 1 * u.perSecond * u.tick
      rw [Nat.one_mul, u.perSecond_mul_tick]
  rw [fromIso8601String, hparse, ok_bind, hcast, ok_bind, htime, ok_bind, hfraction]
  split
  · rfl
  · rfl

/-! ## The round trip -/

/-- The text of a time point is read back as that time point. -/
def RoundTrips (p : Platform) (D : DurationType) (tp : ℤ) : Prop :=
  (toIso8601String p D tp >>= fromIso8601String p D) = .ok tp

/-- The whole seconds of a count are between it and zero. -/
theorem Split.inRange (h : Split u tp q r) (hin : (u.duration rep).InRange tp) :
    (u.duration rep).InRange (q * u.perSecond) := by
  obtain ⟨hmin, hmax⟩ := hin
  have hmin : rep.min ≤ tp := hmin
  have hmax : tp ≤ rep.max := hmax
  have hzero := rep.min_nonpos
  have hzero' := rep.max_nonneg
  show rep.min ≤ q * u.perSecond ∧ q * u.perSecond ≤ rep.max
  obtain ⟨hsum, hlower, hupper, hnonneg, hnonpos⟩ := h
  cases u <;> simp only [Precision.perSecond, Nat.cast_one, Nat.cast_ofNat] at * <;> omega

theorem roundTrip_eq (p : Platform) (hin : (u.duration rep).InRange tp)
    (hyear : FourDigitYear (u.duration rep) tp) :
    (toIso8601String p (u.duration rep) tp >>= fromIso8601String p (u.duration rep)) =
      .ok (if 0 ≤ tp then tp else tp.tdiv u.perSecond * u.perSecond) := by
  have hsplit := split_tdiv u tp
  have hbounds := hsplit.bounds hyear
  obtain ⟨tm, htm, hfour, htime⟩ := fourDigit_gmtimeR hbounds.1 hbounds.2
  obtain ⟨hlo, hlt⟩ := writtenNs_bounds hsplit
  obtain ⟨w, htext, rfl, hzone, -, hns⟩ := exists_stamp p hfour hlo hlt
  have hwhole := hsplit.inRange hin
  rw [← htime] at hwhole
  rw [toIso8601String_eq p hyear hsplit htm, ok_bind, htext,
    fromIso8601String_eq p hzone hns hlo hlt hwhole, htime]
  generalize tp.tdiv u.perSecond = q at hsplit
  generalize tp.tmod u.perSecond = r at hsplit
  have hsum := hsplit.sum
  have htick : (0 : ℤ) < u.tick := by cases u <;> decide
  congr 1
  rcases lt_or_ge 0 r with hr | hr
  · -- sub-seconds are written, so the count is positive
    have htp : 0 ≤ tp := by
      by_contra hneg
      have := hsplit.nonpos (by omega)
      omega
    have hne : r * u.tick ≠ 0 := (Int.mul_pos hr htick).ne'
    have hquot : 0 ≤ q * u.perSecond := by
      have hlower := hsplit.upper
      cases u <;> simp only [Precision.perSecond, Nat.cast_one, Nat.cast_ofNat] at * <;> omega
    have hwrap : rep.wrap r = r :=
      Rep.wrap_eq ⟨Int.le_trans rep.min_nonpos hr.le, Int.le_trans (by omega) hin.2⟩
    rw [writtenNs, if_pos hr, if_pos hne, if_pos htp, Int.mul_ediv_cancel _ htick.ne', hwrap, hsum]
    exact Rep.wrap_eq hin
  · rw [writtenNs, if_neg (not_lt.mpr hr), if_neg (not_not.mpr rfl)]
    split
    · rename_i htp
      have := hsplit.nonneg htp
      omega
    · rfl

/-- **The round trip of time points.**  It holds from the epoch on, and before it
for whole seconds. -/
theorem time_point_round_trip_iff (p : Platform) (hin : (u.duration rep).InRange tp)
    (hyear : FourDigitYear (u.duration rep) tp) :
    RoundTrips p (u.duration rep) tp ↔ 0 ≤ tp ∨ (u.perSecond : ℤ) ∣ tp := by
  rw [RoundTrips, roundTrip_eq p hin hyear]
  have hsum := (split_tdiv u tp).sum
  constructor
  · intro h
    have heq := Except.ok.inj h
    split at heq
    · rename_i htp
      exact Or.inl htp
    · right
      rw [← heq]
      exact Dvd.intro_left _ rfl
  · rintro (htp | hdvd)
    · rw [if_pos htp]
    · split
      · rfl
      · rw [Int.tdiv_mul_cancel hdvd]

theorem time_point_round_trip_iff_after :
    RoundTrips .zeroed .milliseconds 1502150285001 :=
  let hin : (Precision.milliseconds.duration Rep.int64).InRange 1502150285001 :=
    ⟨by decide, by decide⟩
  (time_point_round_trip_iff .zeroed hin ⟨by decide, by decide⟩).mpr (Or.inl (by decide))

/-- A second and a half before the epoch comes back as one second before it. -/
theorem negative_subseconds_break_round_trip : ¬ ∀ (p : Platform) (u : Precision) (rep : Rep)
    (tp : ℤ), (u.duration rep).InRange tp → FourDigitYear (u.duration rep) tp →
      RoundTrips p (u.duration rep) tp := by
  intro h
  have hin : (Precision.milliseconds.duration Rep.int64).InRange (-1500) :=
    ⟨by decide, by decide⟩
  have hyear : FourDigitYear (Precision.milliseconds.duration Rep.int64) (-1500) :=
    ⟨by decide, by decide⟩
  have hread := h .zeroed .milliseconds Rep.int64 (-1500) hin hyear
  rw [RoundTrips, roundTrip_eq .zeroed hin hyear] at hread
  exact absurd (Except.ok.inj hread) (by decide)

end
end KssUtil.Time

import KssUtil.Time.Iso8601Instants
import KssUtil.Time.Iso8601RoundTrip

/-!
# Offsets that are written and read back

The writer and the reader both take the sign of an offset from its whole hours.  An
offset of less than an hour has none: to the west it is written as if it were to the
east, and the reader's error undoes the writer's; to the east it is written as it is
and read as if it were to the west.
-/

namespace KssUtil.Time

open KssUtil.Foundation KssUtil.Libc

/-! ## What is written -/

/-- The sign is that of the whole hours. -/
def writtenOffset (gmtoff : ℤ) (h : |gmtoff| < 86400) : Offset where
  negative := decide (gmtoff ≤ -3600)
  hours := gmtoff.natAbs / 3600
  minutes := gmtoff.natAbs % 3600 / 60
  layout := .extended
  hours_le := by
    rw [Int.abs_eq_natAbs] at h
    omega
  minutes_le := by omega
  minutes_eq := fun hlayout => absurd hlayout (by decide)

section

variable {gmtoff : ℤ}

/-- Hours are cut off towards zero, so the first one to the west is not negative. -/
theorem tzhour_neg_iff : gmtoff.tdiv 3600 < 0 ↔ gmtoff ≤ -3600 := by
  rcases le_total 0 gmtoff with h | h
  · have hdiv := Int.tdiv_nonneg h (by decide : (0 : ℤ) ≤ 3600)
    omega
  · have hdiv : gmtoff.tdiv 3600 = -(-gmtoff / 3600) := by
      rw [← Int.tdiv_eq_ediv_of_nonneg (by omega), Int.neg_tdiv, neg_neg]
    rw [hdiv]
    omega

theorem natAbs_tzminute :
    ((gmtoff.tmod 3600).tdiv 60).natAbs = gmtoff.natAbs % 3600 / 60 := by
  rw [Int.natAbs_tdiv, Int.natAbs_tmod]
  rfl

/-- The minutes are printed without their sign. -/
theorem printfZero_abs (w : ℕ) (n : ℤ) :
    printfZero w (if n < 0 then -n else n) = padded w n.natAbs := by
  split
  · rename_i hn
    rw [printfZero_of_nonneg (by omega)]
    congr 1
    omega
  · rename_i hn
    rw [printfZero_of_nonneg (by omega)]
    congr 1
    omega

theorem zoneText_eq (h : |gmtoff| < 86400) (hne : gmtoff ≠ 0) :
    zoneText gmtoff = (writtenOffset gmtoff h).text := by
  have hhour : (60 * 60 : ℤ) = 3600 := by decide
  have hsign : (if gmtoff.tdiv 3600 < 0 then '-' else '+') = (writtenOffset gmtoff h).sign := by
    rw [Offset.sign, writtenOffset]
    simp only [tzhour_neg_iff, decide_eq_true_eq]
  have hhours : (gmtoff.tdiv 3600).natAbs = gmtoff.natAbs / 3600 := Int.natAbs_tdiv gmtoff 3600
  rw [zoneText, if_neg hne, hhour]
  dsimp only
  rw [printfZero_abs, natAbs_tzminute, printfSignZero, hsign, hhours]
  rfl

/-- A zone that the writer writes. -/
theorem exists_zone (h : |gmtoff| < 86400) : ∃ z : Zone, zoneText gmtoff = z.text ∧
    (gmtoff = 0 ∧ z = .zulu ∨ gmtoff ≠ 0 ∧ z = .offset (writtenOffset gmtoff h)) := by
  by_cases hzero : gmtoff = 0
  · exact ⟨.zulu, if_pos hzero, Or.inl ⟨hzero, rfl⟩⟩
  · exact ⟨.offset (writtenOffset gmtoff h), zoneText_eq h hzero, Or.inr ⟨hzero, rfl⟩⟩

/-! ## What it says, and what is made of it -/

theorem abs_eq_parts (hminutes : 60 ∣ gmtoff) :
    ((gmtoff.natAbs / 3600 : ℕ) : ℤ) * 3600 + (gmtoff.natAbs % 3600 / 60 : ℕ) * 60 = |gmtoff| := by
  rw [Int.abs_eq_natAbs]
  omega

theorem writtenOffset_seconds (h : |gmtoff| < 86400) (hminutes : 60 ∣ gmtoff) :
    (writtenOffset gmtoff h).seconds = if gmtoff ≤ -3600 then gmtoff else |gmtoff| := by
  rw [Offset.seconds, writtenOffset]
  dsimp only
  rw [abs_eq_parts hminutes, negateIf]
  split
  · rename_i hneg
    rw [decide_eq_true_eq] at hneg
    rw [if_pos hneg, abs_of_neg (by omega), neg_neg]
  · rename_i hneg
    rw [decide_eq_true_eq] at hneg
    rw [if_neg hneg]

/-- The reader adds what is written, but subtracts it if it has hours to the east. -/
theorem writtenOffset_shift (h : |gmtoff| < 86400) (hminutes : 60 ∣ gmtoff) :
    (writtenOffset gmtoff h).shift = if 3600 ≤ gmtoff then -gmtoff else |gmtoff| := by
  have hhours : decide (gmtoff ≤ -3600) = false ∧ 0 < gmtoff.natAbs / 3600 ↔ 3600 ≤ gmtoff := by
    rw [decide_eq_false_iff_not]
    omega
  rw [Offset.shift, writtenOffset]
  dsimp only
  rw [abs_eq_parts hminutes]
  simp only [hhours]
  split
  · rename_i heast
    rw [abs_of_nonneg (by omega)]
  · rfl

end

/-! ## Whole texts -/

/-- A time of day in a year of four digits, at an offset of whole minutes that is
less than a day. -/
structure Zoned (tm : Tm) : Prop where
  fields : FourDigit (civil tm)
  minutes : 60 ∣ tm.gmtoff
  day : |tm.gmtoff| < 86400

/-- The text is read as the civil time in UTC of the instant, with its sub-seconds. -/
def ReadsBack (p : Platform) (tm : Tm) (ns : ℤ) : Prop :=
  ∃ utc, gmtimeR (tmToTimeT tm) = some utc ∧ parseIso8601 p (toIso8601 p tm ns) = .ok (utc, ns)

/-- The text ends with a zone that says the offset. -/
def SuffixDenotes (p : Platform) (tm : Tm) (ns : ℤ) : Prop :=
  ∃ w : Stamp, toIso8601 p tm ns = w.text ∧ w.zone.seconds = tm.gmtoff

theorem tmToTimeT_eq (tm : Tm) : tmToTimeT tm = timegm tm - tm.gmtoff := by
  unfold tmToTimeT
  split
  · rfl
  · rename_i h
    rw [not_not.mp h, sub_zero]

section

variable {tm : Tm} {ns : ℤ}

theorem Zoned.exists_stamp (p : Platform) (h : Zoned tm) (hlo : 0 ≤ ns) (hlt : ns < 1000000000) :
    ∃ w : Stamp, toIso8601 p tm ns = w.text ∧ w.tm = civil tm ∧ w.readNs p = ns ∧
      (tm.gmtoff = 0 ∧ w.zone = .zulu ∨
        tm.gmtoff ≠ 0 ∧ w.zone = .offset (writtenOffset tm.gmtoff h.day)) := by
  obtain ⟨z, hz, hcases⟩ := exists_zone h.day
  obtain ⟨w, htext, htm, rfl, -, hns⟩ := exists_stamp_zone p h.fields hz hlo hlt
  exact ⟨w, htext, htm, hns, hcases⟩

/-- The suffix is wrong for less than an hour to the west. -/
theorem suffixDenotes_iff (p : Platform) (h : Zoned tm) (hlo : 0 ≤ ns) (hlt : ns < 1000000000) :
    SuffixDenotes p tm ns ↔ ¬(-3600 < tm.gmtoff ∧ tm.gmtoff < 0) := by
  obtain ⟨w, htext, -, -, hzone⟩ := h.exists_stamp p hlo hlt
  have hsame : SuffixDenotes p tm ns ↔ w.zone.seconds = tm.gmtoff := by
    constructor
    · rintro ⟨v, hv, hseconds⟩
      rw [← hseconds]
      exact (Stamp.eq_of_text (htext.symm.trans hv)).2.2
    · intro hseconds
      exact ⟨w, htext, hseconds⟩
  rw [hsame]
  rcases hzone with ⟨hzero, hz⟩ | ⟨-, hz⟩
  · rw [hz, hzero]
    simp [Zone.seconds]
  · rw [hz, Zone.seconds, writtenOffset_seconds h.day h.minutes]
    split
    · rename_i hwest
      simp only [true_iff]
      omega
    · rename_i hwest
      rw [abs_eq_self]
      omega

/-- What is read is wrong for less than an hour to the east. -/
theorem readsBack_iff (p : Platform) (h : Zoned tm) (hlo : 0 ≤ ns) (hlt : ns < 1000000000) :
    ReadsBack p tm ns ↔ ¬(0 < tm.gmtoff ∧ tm.gmtoff < 3600) := by
  obtain ⟨w, htext, htm, hns, hzone⟩ := h.exists_stamp p hlo hlt
  have hvalid : w.tm.Valid := by
    rw [htm]
    exact h.fields.valid
  have hsame : ReadsBack p tm ns ↔ gmtimeR (timegm w.tm - tm.gmtoff) = some w.readTm := by
    rw [ReadsBack, tmToTimeT_eq, htext, w.parseIso8601_text, hns, htm, timegm_civil]
    constructor
    · rintro ⟨utc, hutc, hread⟩
      obtain ⟨rfl, -⟩ := Prod.mk.inj (Except.ok.inj hread)
      exact hutc
    · intro hutc
      exact ⟨w.readTm, hutc, rfl⟩
  rw [hsame]
  rcases hzone with ⟨hzero, hz⟩ | ⟨-, hz⟩
  · have hread : w.readTm = w.tm := by rw [Stamp.readTm, hz]
    have hyear := h.fields.year
    rw [← htm] at hyear
    rw [hzero, sub_zero, hread, gmtimeR_timegm hvalid (by omega)]
    simp
  · rw [gmtimeR_readTm_iff hz hvalid, writtenOffset_shift h.day h.minutes]
    split
    · rename_i heast
      simp only [true_iff]
      omega
    · rename_i heast
      rw [abs_eq_neg_self]
      omega

/-- **Offsets in texts.**  The writer and the reader agree with each other and with
the offset for none and from an hour on. -/
theorem offset_text_agrees_iff (p : Platform) (h : Zoned tm) (hlo : 0 ≤ ns)
    (hlt : ns < 1000000000) :
    (ReadsBack p tm ns ∧ SuffixDenotes p tm ns) ↔ tm.gmtoff = 0 ∨ 3600 ≤ |tm.gmtoff| := by
  rw [readsBack_iff p h hlo hlt, suffixDenotes_iff p h hlo hlt, le_abs]
  omega

end

/-- 2017-08-07T23:58:05 at an offset. -/
theorem zoned_august {gmtoff : ℤ} (hminutes : 60 ∣ gmtoff) (hday : |gmtoff| < 86400) :
    Zoned { augustTm with gmtoff := gmtoff } := by
  have hyear : 1000 ≤ augustTm.year + 1900 ∧ augustTm.year + 1900 ≤ 9999 := by decide
  exact ⟨⟨augustTm_valid, hyear⟩, hminutes, hday⟩

theorem offset_text_agrees_west :
    ReadsBack .zeroed { augustTm with gmtoff := -12600 } 1000000 ∧
      SuffixDenotes .zeroed { augustTm with gmtoff := -12600 } 1000000 :=
  (offset_text_agrees_iff .zeroed (zoned_august (by decide) (by decide)) (by decide)
    (by decide)).mpr (by decide)

/-- Half an hour to the east is read as half an hour to the west. -/
theorem offset_text_disagrees : ¬ ∀ (p : Platform) (tm : Tm) (ns : ℤ), Zoned tm → 0 ≤ ns →
    ns < 1000000000 → ReadsBack p tm ns ∧ SuffixDenotes p tm ns := by
  intro h
  have hzoned : Zoned { augustTm with gmtoff := 1800 } := zoned_august (by decide) (by decide)
  have hread := (h .zeroed _ 0 hzoned (by decide) (by decide)).1
  exact absurd ((readsBack_iff .zeroed hzoned (by decide) (by decide)).mp hread) (by decide)

end KssUtil.Time

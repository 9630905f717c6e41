import KssUtil.Time.Iso8601Text

/-!
# Offsets in date-time texts

The reader turns a local time with an offset into UTC.  It takes the sign from
the number of hours, so an offset of less than an hour to the east is added where
it should be subtracted.
-/

namespace KssUtil.Time

open KssUtil.Foundation KssUtil.Libc

/-! ## The times of four-digit years -/

/-- Every time within 30000 years of the epoch has a broken-down time. -/
theorem exists_gmtimeR {t : ℤ} (hlo : -1000000000000 ≤ t) (hhi : t ≤ 1000000000000) :
    ∃ tm, gmtimeR t = some tm := by
  obtain ⟨hfirst, hlast⟩ := Gregorian.yearOf_spec (t / 86400 + epochDay)
  have hepoch : epochDay = 719162 := by decide
  have hyear : -2147483648 ≤ (Gregorian.dateOf (t / 86400 + epochDay)).year - 1900 ∧
      (Gregorian.dateOf (t / 86400 + epochDay)).year - 1900 ≤ 2147483647 := by
    show -2147483648 ≤ Gregorian.yearOf (t / 86400 + epochDay) - 1900 ∧
      Gregorian.yearOf (t / 86400 + epochDay) - 1900 ≤ 2147483647
    rw [hepoch] at hfirst hlast ⊢
    generalize Gregorian.yearOf (t / 86400 + 719162) = y at hfirst hlast
    unfold Gregorian.daysBeforeYear at hfirst hlast
    omega
  rw [gmtimeR, if_pos hyear]
  exact ⟨_, rfl⟩

theorem gmtimeR_inj {t t' : ℤ} {tm : Tm} (h : gmtimeR t = some tm) (h' : gmtimeR t' = some tm) :
    t = t' := by
  rw [← (gmtimeR_spec h).2, ← (gmtimeR_spec h').2]

theorem Stamp.timegm_bounds (w : Stamp) :
    -100000000000 ≤ timegm w.tm ∧ timegm w.tm ≤ 300000000000 := by
  have hY := w.inRange .Y
  have hm := w.inRange .m
  have hd := w.inRange .d
  have hH := w.inRange .H
  have hM := w.inRange .M
  have hS := w.inRange .S
  simp only [Field.InRange, Field.get, Field.lo, Field.hi] at hY hm hd hH hM hS
  have hepoch : epochDay = 719162 := by decide
  have hmon : w.tm.mon / 12 = 0 := by omega
  have hmod : (w.tm.mon % 12).toNat < 12 := by omega
  have hlo := Gregorian.daysBeforeMonth_mono
    (Gregorian.isLeap (w.tm.year + 1900 + w.tm.mon / 12)) (Nat.zero_le (w.tm.mon % 12).toNat)
    (by omega)
  have hhi := Gregorian.daysBeforeMonth_mono
    (Gregorian.isLeap (w.tm.year + 1900 + w.tm.mon / 12)) (Nat.le_of_lt hmod) (Nat.le_refl 12)
  have hlen := Gregorian.daysBeforeMonth_twelve (w.tm.year + 1900 + w.tm.mon / 12)
  have hyear : Gregorian.yearLength (w.tm.year + 1900 + w.tm.mon / 12) ≤ 366 := by
    unfold Gregorian.yearLength
    split <;> omega
  rw [Gregorian.daysBeforeMonth_zero] at hlo
  unfold timegm Gregorian.dayNumber
  dsimp only
  rw [hepoch]
  unfold Gregorian.daysBeforeYear
  omega

/-! ## Local time and UTC -/

section

variable {w : Stamp} {o : Offset}

/-- The reader adds `shift` to the local time. -/
theorem gmtimeR_readTm (hzone : w.zone = .offset o) (hvalid : w.tm.Valid) :
    gmtimeR (timegm w.tm + o.shift) = some w.readTm := by
  have hY := w.inRange .Y
  simp only [Field.InRange, Field.get, Field.lo, Field.hi] at hY
  rw [Stamp.readTm, hzone]
  dsimp only
  rw [o.shiftTimeZone_eq]
  split
  · have hbounds := w.timegm_bounds
    have hh := o.hours_le
    have hm := o.minutes_le
    have hshift : -90000 ≤ o.shift ∧ o.shift ≤ 90000 := by
      unfold Offset.shift
      split <;> omega
    obtain ⟨tm, htm⟩ := exists_gmtimeR (t := timegm w.tm + o.shift) (by omega) (by omega)
    rw [htm]
    rfl
  · rename_i hshift
    rw [not_not.mp hshift, Int.add_zero]
    exact gmtimeR_timegm hvalid (by omega)

/-- What is read is the local time less `n` seconds, if it is `n` that the reader takes
away. -/
theorem gmtimeR_readTm_iff (hzone : w.zone = .offset o) (hvalid : w.tm.Valid) (n : ℤ) :
    gmtimeR (timegm w.tm - n) = some w.readTm ↔ o.shift = -n := by
  have hread := gmtimeR_readTm hzone hvalid
  constructor
  · intro hmeant
    have := gmtimeR_inj hread hmeant
    omega
  · intro hshift
    rw [hshift] at hread
    exact hread

theorem shift_eq_iff : o.shift = -o.seconds ↔
    ¬(o.negative = false ∧ o.hours = 0 ∧ o.minutes ≠ 0) := by
  unfold Offset.shift Offset.seconds negateIf
  cases o.negative with
  | true =>
      rw [if_neg (by simp), if_pos rfl]
      simp
  | false =>
      rw [if_neg Bool.false_ne_true]
      split
      · rename_i hhours
        simp only [eq_self, true_and, true_iff] at hhours ⊢
        omega
      · rename_i hhours
        simp only [eq_self, true_and] at hhours ⊢
        omega

/-- The text is read as the UTC time of its local time less its offset. -/
def OffsetHonoured (p : Platform) (w : Stamp) (o : Offset) : Prop :=
  ∃ tm ns, parseIso8601 p w.text = .ok (tm, ns) ∧ gmtimeR (timegm w.tm - o.seconds) = some tm

theorem offsetHonoured_iff_shift (p : Platform) (hzone : w.zone = .offset o)
    (hvalid : w.tm.Valid) : OffsetHonoured p w o ↔ o.shift = -o.seconds := by
  rw [← gmtimeR_readTm_iff hzone hvalid]
  constructor
  · rintro ⟨tm, ns, hparse, hmeant⟩
    rw [w.parseIso8601_text] at hparse
    obtain ⟨rfl, -⟩ := Prod.mk.inj (Except.ok.inj hparse)
    exact hmeant
  · intro hmeant
    exact ⟨w.readTm, w.readNs p, w.parseIso8601_text p, hmeant⟩

/-- **The sign of an offset.**  It is honoured, except for an offset of less than
an hour after a plus. -/
theorem offset_honoured_iff (p : Platform) (hzone : w.zone = .offset o) (hvalid : w.tm.Valid) :
    OffsetHonoured p w o ↔ ¬(o.negative = false ∧ o.hours = 0 ∧ o.minutes ≠ 0) := by
  rw [offsetHonoured_iff_shift p hzone hvalid]
  exact shift_eq_iff

end

/-- 2017-08-07T23:58:05 -/
def augustTm : Tm := ⟨5, 58, 23, 7, 7, 117, 0⟩

theorem augustTm_valid : augustTm.Valid where
  mon := by decide
  date := by decide
  hour := by decide
  min := by decide
  sec := by decide
  gmtoff := rfl

def augustStamp (o : Offset) : Stamp where
  tm := augustTm
  fraction := []
  zone := .offset o
  inRange := by
    intro f
    cases f <;> exact ⟨by decide, by decide⟩
  gmtoff := rfl
  digits := digits_nil

theorem offset_honoured_iff_west :
    OffsetHonoured .zeroed (augustStamp ⟨true, 3, 30, .basic, by decide, by decide, by decide⟩)
      ⟨true, 3, 30, .basic, by decide, by decide, by decide⟩ :=
  (offset_honoured_iff .zeroed rfl augustTm_valid).mpr (by decide)

/-- `+00:30` is read as half an hour to the west. -/
theorem short_east_offset_breaks : ¬ ∀ (p : Platform) (w : Stamp) (o : Offset),
    w.zone = .offset o → w.tm.Valid → OffsetHonoured p w o := by
  intro h
  have honoured := h .zeroed
    (augustStamp ⟨false, 0, 30, .extended, by decide, by decide, by decide⟩) _ rfl
    augustTm_valid
  rw [offsetHonoured_iff_shift _ rfl augustTm_valid] at honoured
  exact absurd honoured (by decide)

end KssUtil.Time

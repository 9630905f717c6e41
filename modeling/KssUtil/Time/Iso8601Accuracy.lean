import KssUtil.Time.Iso8601Instants
import KssUtil.Time.Iso8601RoundTrip

/-!
# How exact the texts of time points are

The whole seconds are cut off, and what is left is rounded to nanoseconds by itself.
If that rounds up to a second there is no place for it: the text then says a tenth of
a second.  A period whose numerator is not one is multiplied in once more than it
should be, since the difference is already of the common type.
-/

namespace KssUtil.Time

open KssUtil.Foundation KssUtil.Libc

/-! ## Time points of any duration type -/

/-- The count of a time point, of an integer type or of `long double`. -/
inductive Ticks where
  | integral (n : ℤ)
  | floating (q : ℚ)

/-- `checkedDurationCast` of a count of `long double` -/
def checkedDurationCastFloating (To D : DurationType) (dtn : ℚ) : Except Exn ℤ :=
  let s : ℚ := dtn * (D.num * To.den : ℕ) / (D.den * To.num : ℕ)
  if s < To.rep.min ∨ s > To.rep.max then throw .overflowError
  else return truncate s

/-- `toIso8601String` of a count of `long double` -/
def toIso8601StringFloating (p : Platform) (D : DurationType) (tp : ℚ) :
    Except Exn (List Char) := do
  let tt ← checkedDurationCastFloating .seconds D tp
  let tm := tzTimeR tt p.uninitialised
  let secs ← checkedDurationCastFloating .seconds D tp
  let subsecs := tp * D.num - secs * D.den
  if subsecs > 0 then
    let subSecsAsSeconds := subsecs * D.num / D.den
    if subSecsAsSeconds ≤ 1 then
      return toIso8601 p tm (castToRep p (roundHalfAway (subSecsAsSeconds * 1000000000)))
    else throw .aborted
  else return toIso8601 p tm 0

namespace Ticks

def value : Ticks → ℚ
  | integral n => n
  | floating q => q

/-- The time since the epoch. -/
def seconds (D : DurationType) (t : Ticks) : ℚ := t.value * D.num / D.den

def toIso8601String (p : Platform) (D : DurationType) : Ticks → Except Exn (List Char)
  | integral n => Time.toIso8601String p D n
  | floating q => toIso8601StringFloating p D q

/-- Integers are counted as exactly as `long double` is. -/
theorem toIso8601String_eq_floating (p : Platform) (D : DurationType) (t : Ticks) :
    t.toIso8601String p D = toIso8601StringFloating p D t.value := by
  cases t with
  | floating q => rfl
  | integral n =>
      have hcast : checkedDurationCastFloating .seconds D (integral n).value =
          checkedDurationCast .seconds D n := rfl
      show Time.toIso8601String p D n = _
      rw [Time.toIso8601String, toIso8601StringFloating, hcast, toTm, toTimeT]
      cases hsecs : checkedDurationCast .seconds D n with
      | error e => rfl
      | ok secs =>
          have hsub : ((n * D.num - secs * D.den : ℤ) : ℚ) =
              (integral n).value * D.num - secs * D.den := by
            rw [value]
            push_cast
            rfl
          rw [ok_bind, ok_bind, ok_bind, pure_bind, ok_bind, ← hsub]
          dsimp only
          by_cases hpos : n * D.num - secs * D.den > 0
          · have hposq : ((n * D.num - secs * D.den : ℤ) : ℚ) > 0 := Int.cast_pos.mpr hpos
            rw [if_pos hpos, if_pos hposq]
          · have hposq : ¬((n * D.num - secs * D.den : ℤ) : ℚ) > 0 :=
              fun h => hpos (Int.cast_pos.mp h)
            rw [if_neg hpos, if_neg hposq]

end Ticks

/-! ## What is written -/

section

variable {D : DurationType} {tp : ℚ}

/-- The whole seconds of a count from the epoch on. -/
theorem checkedDurationCastFloating_seconds {X : ℚ} (hX : tp * D.num / D.den = X) (hlo : 0 ≤ X)
    (hhi : X ≤ Rep.int64.max) : checkedDurationCastFloating .seconds D tp = .ok ⌊X⌋ := by
  have hs : tp * (D.num * DurationType.seconds.den : ℕ) / (D.den * DurationType.seconds.num : ℕ) =
      X := by
    show tp * (D.num * 1 : ℕ) / (D.den * 1 : ℕ) = X
    rw [Nat.mul_one, Nat.mul_one, hX]
  have hmin : (Rep.int64.min : ℚ) ≤ 0 := by exact_mod_cast Rep.int64.min_nonpos
  have hin : ¬(X < Rep.int64.min ∨ X > Rep.int64.max) :=
    not_or.mpr ⟨not_lt.mpr (hmin.trans hlo), not_lt.mpr hhi⟩
  unfold checkedDurationCastFloating
  dsimp only
  rw [hs]
  show (if X < Rep.int64.min ∨ X > Rep.int64.max then _ else _) = _
  rw [if_neg hin, truncate, if_pos hlo]
  rfl

/-- What is left of a count, in ticks of the common type. -/
theorem subsecs_eq {X : ℚ} (hX : tp * D.num / D.den = X) :
    tp * D.num - ⌊X⌋ * D.den = Int.fract X * D.den := by
  have hden : (D.den : ℚ) ≠ 0 := Nat.cast_ne_zero.mpr D.den_pos.ne'
  have htp : tp * D.num = X * D.den := by
    rw [← hX, div_mul_cancel₀ _ hden]
  rw [htp, ← sub_mul, Int.self_sub_floor]

/-- **What is written** of a time point from the epoch on: its whole seconds, and the
rest times the numerator of its period. -/
theorem toIso8601StringFloating_eq (p : Platform) {X : ℚ} (hX : tp * D.num / D.den = X)
    (hlo : 0 ≤ X) (hhi : X < firstSecond 10000) {tm : Tm} (htm : gmtimeR ⌊X⌋ = some tm) :
    toIso8601StringFloating p D tp =
      if 0 < Int.fract X then
        if Int.fract X * D.num ≤ 1 then
          .ok (toIso8601 p tm
            (castToRep p (roundHalfAway (Int.fract X * D.num * 1000000000))))
        else .error .aborted
      else .ok (toIso8601 p tm 0) := by
  have hden : (0 : ℚ) < D.den := Nat.cast_pos.mpr D.den_pos
  have hmax : ((firstSecond 10000 : ℤ) : ℚ) ≤ Rep.int64.max := by
    have hlast : firstSecond 10000 ≤ Rep.int64.max := by
      rw [int64_max]
      decide
    exact_mod_cast hlast
  have hsecs := checkedDurationCastFloating_seconds hX hlo (hhi.le.trans hmax)
  have hvalue : Int.fract X * D.den * D.num / D.den = Int.fract X * D.num := by
    rw [mul_right_comm, mul_div_cancel_right₀ _ hden.ne']
  have hpos : Int.fract X * D.den > 0 ↔ 0 < Int.fract X := mul_pos_iff_of_pos_right hden
  unfold toIso8601StringFloating
  rw [hsecs, ok_bind, ok_bind, subsecs_eq hX, tzTimeR, htm]
  dsimp only
  rw [hvalue]
  by_cases hfract : 0 < Int.fract X
  · rw [if_pos (hpos.mpr hfract), if_pos hfract]
    rfl
  · rw [if_neg fun h => hfract (hpos.mp h), if_neg hfract]
    rfl

end

/-! ## What the fraction says -/

/-- The nanoseconds that the text of a sub-second count says: a count of a whole second
is written `.1`. -/
def saidNs (ns : ℤ) : ℤ := if ns = 1000000000 then 100000000 else ns

/-- The text says what was counted, but for a count of a whole second. -/
theorem exists_stamp_instant (p : Platform) {tm : Tm} (h : FourDigit tm) {ns : ℤ} (hlo : 0 ≤ ns)
    (hhi : ns ≤ 1000000000) :
    ∃ w : Stamp, toIso8601 p tm ns = w.text ∧
      w.instant = timegm tm + (saidNs ns : ℚ) / 1000000000 := by
  have hutc : Zone.zulu.seconds = 0 := rfl
  by_cases hcarry : ns = 1000000000
  · let w : Stamp := ⟨tm, ['1'], .zulu, h.inRange, h.valid.gmtoff,
      digits_cons.mpr ⟨rfl, digits_nil⟩⟩
    have hfraction : (if ns ≠ 0 then rtrimChar (fractionText ns) '0' else []) = ['.', '1'] := by
      rw [hcarry]
      decide +kernel
    have hcivil : w.tm = civil tm := (civil_eq h.valid.gmtoff).symm
    refine ⟨w, toIso8601_eq_text p h hcivil (zoneText_zero h.valid.gmtoff) hfraction, ?_⟩
    have hvalue : value ['1'] = 1 := by decide
    rw [saidNs, if_pos hcarry]
    show (timegm tm : ℚ) - ((0 : ℤ) : ℚ) + (value ['1'] : ℚ) / (10 ^ 1 : ℕ) = _
    rw [hvalue]
    norm_num
  · obtain ⟨w, htext, rfl, hzone, hvalue, -⟩ := exists_stamp p h hlo (by omega)
    refine ⟨w, htext, ?_⟩
    have hpow : ((10 ^ w.fraction.length : ℕ) : ℚ) ≠ 0 := by positivity
    have hcast : (value w.fraction : ℚ) * 1000000000 = ns * (10 ^ w.fraction.length : ℕ) := by
      exact_mod_cast hvalue
    have hsame : w.fractionValue = (ns : ℚ) / 1000000000 := by
      rw [Stamp.fractionValue, div_eq_div_iff hpow (by norm_num), hcast]
    rw [Stamp.instant, hzone, hutc, Int.cast_zero, sub_zero, hsame, saidNs, if_neg hcarry]

/-- With `y` nanoseconds to be written and a period of numerator `num`, what is written
is near: nothing is lost to a carry, and multiplying by the numerator once too often
does not show. -/
def FractionSurvives (num : ℕ) (y : ℚ) : Prop :=
  y = 0 ∨ num = 1 ∧ y < 1000000000 - 1 / 2 ∨ 2 ≤ num ∧ num * y < 1 / 2 ∨
    num = 2 ∧ 1 / 2 ≤ y ∧ y < 3 / 4 ∨
      num = 10 ∧ 100000000 - 1 / 20 ≤ y ∧ y ≤ 100000000

section

variable {num : ℕ} {y : ℚ} {n : ℤ}

/-- The only integer within less than one of `k`. -/
theorem eq_of_near {k : ℤ} (hlo : (k : ℚ) - 1 < n) (hhi : (n : ℚ) < k + 1) : n = k := by
  have hlo : ((k - 1 : ℤ) : ℚ) < n := by
    rw [Int.cast_sub, Int.cast_one]
    exact hlo
  have hhi : (n : ℚ) < (k + 1 : ℤ) := by
    rw [Int.cast_add, Int.cast_one]
    exact hhi
  have := Int.cast_lt.mp hlo
  have := Int.cast_lt.mp hhi
  omega

/-- A count that is rounded up to a whole second. -/
theorem carry_near_iff (hpos : 0 < y) (hlower : 1000000000 ≤ num * y + 1 / 2)
    (hle : num * y ≤ 1000000000) : |100000000 - y| ≤ 1 / 2 ↔ FractionSurvives num y := by
  rw [abs_le, FractionSurvives]
  constructor
  · rintro ⟨habove, hbelow⟩
    -- a tenth of a second is right only if the numerator made a second of it
    have hten : num = 10 := by
      by_contra hne
      rcases Nat.lt_or_ge num 10 with hlt | hge
      · have hnine : (num : ℚ) ≤ 9 := by exact_mod_cast Nat.le_of_lt_succ hlt
        have := mul_le_mul_of_nonneg_right hnine hpos.le
        linarith
      · have heleven : (11 : ℚ) ≤ num := by exact_mod_cast (by omega : 11 ≤ num)
        have := mul_le_mul_of_nonneg_right heleven hpos.le
        linarith
    rw [hten, Nat.cast_ofNat] at hlower hle
    exact Or.inr (Or.inr (Or.inr (Or.inr ⟨hten, by linarith, by linarith⟩)))
  · rintro (h | ⟨rfl, h⟩ | ⟨-, h⟩ | ⟨rfl, -, h⟩ | ⟨rfl, h, h'⟩)
    · exact absurd h hpos.ne'
    · rw [Nat.cast_one, one_mul] at hlower
      linarith
    · linarith
    · rw [Nat.cast_ofNat] at hlower
      linarith
    · exact ⟨by linarith, by linarith⟩

/-- A count that is rounded to less than a second. -/
theorem rounded_near_iff (hnum : 0 < num) (hpos : 0 < y) (hlower : n ≤ num * y + 1 / 2)
    (hupper : num * y + 1 / 2 < n + 1) (hn : n < 1000000000) :
    |(n : ℚ) - y| ≤ 1 / 2 ↔ FractionSurvives num y := by
  have hn : (n : ℚ) ≤ 999999999 := by exact_mod_cast Int.le_sub_one_of_lt hn
  rw [abs_le, FractionSurvives]
  constructor
  · rintro ⟨habove, hbelow⟩
    rcases Nat.lt_or_ge num 2 with hone | htwo
    · obtain rfl : num = 1 := by omega
      rw [Nat.cast_one, one_mul] at hupper
      exact Or.inr (Or.inl ⟨rfl, by linarith⟩)
    · rcases lt_or_ge 0 n with hn1 | hn0
      · -- from a nanosecond on only a numerator of two leaves the count near
        have hn1 : (1 : ℚ) ≤ n := by exact_mod_cast hn1
        obtain rfl : num = 2 := by
          by_contra hne
          have hthree : (3 : ℚ) ≤ num := by exact_mod_cast (by omega : 3 ≤ num)
          have := mul_le_mul_of_nonneg_right hthree hpos.le
          linarith
        rw [Nat.cast_ofNat] at hupper
        obtain rfl : n = 1 := eq_of_near (by push_cast; linarith) (by push_cast; linarith)
        rw [Int.cast_one] at hbelow
        exact Or.inr (Or.inr (Or.inr (Or.inl ⟨rfl, by linarith, by linarith⟩)))
      · have hn0 : (n : ℚ) ≤ 0 := by exact_mod_cast hn0
        exact Or.inr (Or.inr (Or.inl ⟨htwo, by linarith⟩))
  · rintro (h | ⟨rfl, h⟩ | ⟨-, h⟩ | ⟨rfl, h, h'⟩ | ⟨rfl, h, -⟩)
    · exact absurd h hpos.ne'
    · rw [Nat.cast_one, one_mul] at hlower hupper
      exact ⟨by linarith, by linarith⟩
    · have hone : (1 : ℚ) ≤ num := by exact_mod_cast hnum
      have := mul_le_mul_of_nonneg_right hone hpos.le
      obtain rfl : n = 0 := eq_of_near (by push_cast; linarith) (by push_cast; linarith)
      rw [Int.cast_zero]
      exact ⟨by linarith, by linarith⟩
    · rw [Nat.cast_ofNat] at hlower hupper
      obtain rfl : n = 1 := eq_of_near (by push_cast; linarith) (by push_cast; linarith)
      rw [Int.cast_one]
      exact ⟨by linarith, by linarith⟩
    · rw [Nat.cast_ofNat] at hupper
      linarith

theorem said_near_iff (hnum : 0 < num) (hy : 0 ≤ y) (hle : num * y ≤ 1000000000) :
    |(saidNs (roundHalfAway (num * y)) : ℚ) - y| ≤ 1 / 2 ↔ FractionSurvives num y := by
  rcases hy.eq_or_lt with rfl | hpos
  · have hzero : saidNs (roundHalfAway (num * 0)) = 0 := by
      rw [mul_zero, ← Int.cast_zero, roundHalfAway_intCast]
      rfl
    rw [hzero]
    exact iff_of_true (by norm_num) (Or.inl rfl)
  · obtain ⟨hlower, hupper⟩ := roundHalfAway_bounds (z := num * y) (by positivity)
    generalize roundHalfAway (num * y) = n at hlower hupper
    rw [saidNs]
    split
    · rename_i hcarry
      rw [hcarry, Int.cast_ofNat] at hlower
      rw [Int.cast_ofNat]
      exact carry_near_iff hpos hlower hle
    · rename_i hcarry
      have hlt : (n : ℚ) < (1000000001 : ℤ) := by
        rw [Int.cast_ofNat]
        linarith
      have := Int.cast_lt.mp hlt
      exact rounded_near_iff hnum hpos hlower hupper (by omega)

/-- The contract on the fraction fails only where the numerator makes it a second. -/
theorem not_survives_of_gt (hlt : y < 1000000000) (hgt : 1000000000 < num * y) :
    ¬ FractionSurvives num y := by
  rintro (rfl | ⟨rfl, h⟩ | ⟨-, h⟩ | ⟨rfl, -, h⟩ | ⟨rfl, -, h⟩)
  · rw [mul_zero] at hgt
    linarith
  · rw [Nat.cast_one, one_mul] at hgt
    linarith
  · linarith
  · rw [Nat.cast_ofNat] at hgt
    linarith
  · rw [Nat.cast_ofNat] at hgt
    linarith

end

/-! ## Time points from the epoch on -/

section

variable {D : DurationType} {t t₁ t₂ : Ticks}

/-- The instant lies between the epoch and the year 10000. -/
def AfterEpoch (D : DurationType) (t : Ticks) : Prop :=
  0 ≤ t.seconds D ∧ t.seconds D < firstSecond 10000

/-- The nanoseconds after the last whole second. -/
def Ticks.subNanoseconds (D : DurationType) (t : Ticks) : ℚ :=
  Int.fract (t.seconds D) * 1000000000

/-- What is written of an instant, in nanoseconds since the epoch. -/
def writtenNanoseconds (D : DurationType) (t : Ticks) : ℤ :=
  ⌊t.seconds D⌋ * 1000000000 + saidNs (roundHalfAway (D.num * t.subNanoseconds D))

theorem Ticks.subNanoseconds_bounds :
    0 ≤ t.subNanoseconds D ∧ t.subNanoseconds D < 1000000000 := by
  have hlo := Int.fract_nonneg (t.seconds D)
  have hhi := Int.fract_lt_one (t.seconds D)
  rw [Ticks.subNanoseconds]
  exact ⟨by linarith, by linarith⟩

/-- **The text of a time point**, unless the contract on its fraction fails. -/
theorem toIso8601String_cases (p : Platform) (h : AfterEpoch D t) :
    1000000000 < D.num * t.subNanoseconds D ∧ t.toIso8601String p D = .error .aborted ∨
      D.num * t.subNanoseconds D ≤ 1000000000 ∧ ∃ w : Stamp,
        t.toIso8601String p D = .ok w.text ∧
          w.instant * 1000000000 = writtenNanoseconds D t := by
  obtain ⟨hlo, hhi⟩ := h
  have hfloor : (0 : ℤ) ≤ ⌊t.seconds D⌋ := Int.floor_nonneg.mpr hlo
  have hfirst : firstSecond 1000 ≤ 0 := by decide
  obtain ⟨tm, htm, hfour, htime⟩ :=
    fourDigit_gmtimeR (hfirst.trans hfloor) (Int.floor_lt.mpr hhi)
  have hvalue : Int.fract (t.seconds D) * D.num * 1000000000 = D.num * t.subNanoseconds D := by
    rw [Ticks.subNanoseconds]
    ring
  have hcontract : Int.fract (t.seconds D) * D.num ≤ 1 ↔
      D.num * t.subNanoseconds D ≤ 1000000000 := by
    rw [← hvalue]
    constructor <;> intro h <;> linarith
  have hwritten : ∀ ns : ℤ, 0 ≤ ns → ns ≤ 1000000000 → ∃ w : Stamp,
      toIso8601 p tm ns = w.text ∧
        w.instant * 1000000000 = (⌊t.seconds D⌋ * 1000000000 + saidNs ns : ℤ) := by
    intro ns hns hns'
    obtain ⟨w, htext, hinstant⟩ := exists_stamp_instant p hfour hns hns'
    refine ⟨w, htext, ?_⟩
    rw [hinstant, htime]
    push_cast
    ring
  have htext := toIso8601StringFloating_eq (X := t.seconds D) p rfl hlo hhi htm
  rw [hvalue] at htext
  rw [t.toIso8601String_eq_floating, htext, writtenNanoseconds]
  by_cases hpos : 0 < Int.fract (t.seconds D)
  · rw [if_pos hpos]
    by_cases hle : D.num * t.subNanoseconds D ≤ 1000000000
    · have hnonneg : 0 ≤ D.num * t.subNanoseconds D :=
        mul_nonneg (Nat.cast_nonneg _) t.subNanoseconds_bounds.1
      obtain ⟨hns, hns'⟩ := roundHalfAway_mem hnonneg hle
      obtain ⟨w, hw, hinstant⟩ := hwritten _ hns hns'
      rw [if_pos (hcontract.mpr hle), castToRep_of_inRange p (inRange_subsecond hns hns'), hw]
      exact Or.inr ⟨hle, w, rfl, hinstant⟩
    · rw [if_neg fun h => hle (hcontract.mp h)]
      exact Or.inl ⟨not_le.mp hle, rfl⟩
  · have hwhole : t.subNanoseconds D = 0 := by
      rw [Ticks.subNanoseconds, le_antisymm (not_lt.mp hpos) (Int.fract_nonneg _), zero_mul]
    obtain ⟨w, hw, hinstant⟩ := hwritten 0 (Int.le_refl 0) (by decide)
    have hzero : roundHalfAway 0 = 0 := by
      rw [← Int.cast_zero, roundHalfAway_intCast]
    rw [if_neg hpos, hw, hwhole, mul_zero, hzero]
    exact Or.inr ⟨by norm_num, w, rfl, hinstant⟩

/-- The text denotes an instant at most half a nanosecond away. -/
def NearlyWritten (p : Platform) (D : DurationType) (t : Ticks) : Prop :=
  ∃ w : Stamp, t.toIso8601String p D = .ok w.text ∧
    |w.instant - t.seconds D| ≤ 1 / 2000000000

theorem abs_instant_sub {w : Stamp} (hw : w.instant * 1000000000 = writtenNanoseconds D t) :
    |w.instant - t.seconds D| * 1000000000 =
      |(saidNs (roundHalfAway (D.num * t.subNanoseconds D)) : ℚ) - t.subNanoseconds D| := by
  have hscale : (w.instant - t.seconds D) * 1000000000 =
      saidNs (roundHalfAway (D.num * t.subNanoseconds D)) - t.subNanoseconds D := by
    have hsplit := Int.floor_add_fract (t.seconds D)
    have hsub : t.subNanoseconds D = Int.fract (t.seconds D) * 1000000000 := rfl
    rw [writtenNanoseconds] at hw
    push_cast at hw
    rw [sub_mul, hw]
    linarith
  have hpos : |(1000000000 : ℚ)| = 1000000000 := abs_of_pos (by norm_num)
  rw [← hscale, abs_mul, hpos]

/-- **Half a nanosecond.**  A time point is written that exactly if its fraction
survives. -/
theorem nearlyWritten_iff (p : Platform) (h : AfterEpoch D t) :
    NearlyWritten p D t ↔ FractionSurvives D.num (t.subNanoseconds D) := by
  obtain ⟨hlo, hhi⟩ := t.subNanoseconds_bounds (D := D)
  rcases toIso8601String_cases p h with ⟨hgt, habort⟩ | ⟨hle, w, htext, hinstant⟩
  · refine iff_of_false ?_ (not_survives_of_gt hhi hgt)
    rintro ⟨w, htext, -⟩
    rw [habort] at htext
    cases htext
  · have hscaled := abs_instant_sub hinstant
    rw [← said_near_iff D.num_pos hlo hle, ← hscaled]
    constructor
    · rintro ⟨w', htext', hnear⟩
      rw [htext] at htext'
      rw [← Stamp.instant_eq_of_text (Except.ok.inj htext')] at hnear
      linarith
    · intro hnear
      exact ⟨w, htext, by linarith⟩

/-- A text denotes what was written. -/
theorem instant_of_text (p : Platform) (h : AfterEpoch D t) {w : Stamp}
    (hw : t.toIso8601String p D = .ok w.text) :
    w.instant * 1000000000 = writtenNanoseconds D t := by
  rcases toIso8601String_cases p h with ⟨-, habort⟩ | ⟨-, w', htext, hinstant⟩
  · rw [habort] at hw
    cases hw
  · rw [htext] at hw
    rw [← Stamp.instant_eq_of_text (Except.ok.inj hw)]
    exact hinstant

/-- What is written depends on the instant only. -/
theorem writtenNanoseconds_congr (h : t₁.seconds D = t₂.seconds D) :
    writtenNanoseconds D t₁ = writtenNanoseconds D t₂ := by
  rw [writtenNanoseconds, writtenNanoseconds, Ticks.subNanoseconds, Ticks.subNanoseconds, h]

/-- Texts half a nanosecond away at most are in the order of their time points. -/
theorem writtenNanoseconds_mono {a b : ℚ} (ha : |a - t₁.seconds D| ≤ 1 / 2000000000)
    (hb : |b - t₂.seconds D| ≤ 1 / 2000000000) (ha' : a * 1000000000 = writtenNanoseconds D t₁)
    (hb' : b * 1000000000 = writtenNanoseconds D t₂) (hle : t₁.seconds D ≤ t₂.seconds D) :
    a ≤ b := by
  obtain ⟨-, ha⟩ := abs_le.mp ha
  obtain ⟨hb, -⟩ := abs_le.mp hb
  by_contra hlt
  have hgap : writtenNanoseconds D t₂ < writtenNanoseconds D t₁ := by
    have : (writtenNanoseconds D t₂ : ℚ) < writtenNanoseconds D t₁ := by
      rw [← ha', ← hb']
      linarith
    exact_mod_cast this
  -- they are a whole nanosecond apart, so the time points are the same
  have hnext : (writtenNanoseconds D t₂ : ℚ) + 1 ≤ writtenNanoseconds D t₁ := by
    exact_mod_cast Int.add_one_le_of_lt hgap
  have hsame : t₁.seconds D = t₂.seconds D := by linarith
  rw [writtenNanoseconds_congr hsame] at hgap
  exact absurd hgap (lt_irrefl _)

/-- Two time points are written to half a nanosecond, and in their order. -/
structure AccuratelyWritten (p : Platform) (D : DurationType) (t₁ t₂ : Ticks) : Prop where
  first : NearlyWritten p D t₁
  second : NearlyWritten p D t₂
  order : t₁.seconds D ≤ t₂.seconds D → ∀ w₁ w₂ : Stamp, t₁.toIso8601String p D = .ok w₁.text →
    t₂.toIso8601String p D = .ok w₂.text → w₁.instant ≤ w₂.instant

/-- **The accuracy of the texts.**  From the epoch on, time points of any duration type
are written to half a nanosecond and in their order exactly if the fractions of both
survive. -/
theorem accurately_written_iff (p : Platform) (h₁ : AfterEpoch D t₁) (h₂ : AfterEpoch D t₂) :
    AccuratelyWritten p D t₁ t₂ ↔ FractionSurvives D.num (t₁.subNanoseconds D) ∧
      FractionSurvives D.num (t₂.subNanoseconds D) := by
  rw [← nearlyWritten_iff p h₁, ← nearlyWritten_iff p h₂]
  constructor
  · intro h
    exact ⟨h.first, h.second⟩
  · rintro ⟨hfirst, hsecond⟩
    refine ⟨hfirst, hsecond, ?_⟩
    intro hle w₁ w₂ htext₁ htext₂
    obtain ⟨v₁, hv₁, hnear₁⟩ := hfirst
    obtain ⟨v₂, hv₂, hnear₂⟩ := hsecond
    rw [htext₁] at hv₁
    rw [htext₂] at hv₂
    rw [← Stamp.instant_eq_of_text (Except.ok.inj hv₁)] at hnear₁
    rw [← Stamp.instant_eq_of_text (Except.ok.inj hv₂)] at hnear₂
    exact writtenNanoseconds_mono hnear₁ hnear₂ (instant_of_text p h₁ htext₁)
      (instant_of_text p h₂ htext₂) hle

/-- `std::chrono::duration<int64_t, std::pico>` -/
def picoseconds : DurationType := ⟨Rep.int64, 1, 1000000000000, Nat.one_pos, Nat.succ_pos _⟩

theorem subNanoseconds_picoseconds {n : ℤ} (hlo : 0 ≤ n) (hhi : n < 1000000000000) :
    AfterEpoch picoseconds (.integral n) ∧
      (Ticks.integral n).subNanoseconds picoseconds = n / 1000 := by
  have hlo : (0 : ℚ) ≤ n := by exact_mod_cast hlo
  have hhi : (n : ℚ) < 1000000000000 := by exact_mod_cast hhi
  have hseconds : (Ticks.integral n).seconds picoseconds = n / 1000000000000 := by
    show (n : ℚ) * (1 : ℕ) / (1000000000000 : ℕ) = _
    norm_num
  have hlast : (1 : ℚ) ≤ firstSecond 10000 := by
    have : (1 : ℤ) ≤ firstSecond 10000 := by decide
    exact_mod_cast this
  have hfract : Int.fract ((n : ℚ) / 1000000000000) = n / 1000000000000 :=
    Int.fract_eq_self.mpr ⟨by positivity, by linarith⟩
  refine ⟨⟨?_, ?_⟩, ?_⟩
  · rw [hseconds]
    positivity
  · rw [hseconds]
    linarith
  · rw [Ticks.subNanoseconds, hseconds, hfract]
    linarith

theorem accurately_written_iff_pico :
    AccuratelyWritten .zeroed picoseconds (.integral 1499) (.integral 1500) := by
  obtain ⟨h₁, hsub₁⟩ := subNanoseconds_picoseconds (n := 1499) (by decide) (by decide)
  obtain ⟨h₂, hsub₂⟩ := subNanoseconds_picoseconds (n := 1500) (by decide) (by decide)
  refine (accurately_written_iff .zeroed h₁ h₂).mpr ⟨?_, ?_⟩
  · rw [hsub₁]
    exact Or.inr (Or.inl ⟨rfl, by norm_num⟩)
  · rw [hsub₂]
    exact Or.inr (Or.inl ⟨rfl, by norm_num⟩)

/-- A picosecond before the next second is written as a tenth of a second. -/
theorem last_picosecond_is_not_written : ¬ ∀ (p : Platform) (D : DurationType) (t₁ t₂ : Ticks),
    AfterEpoch D t₁ → AfterEpoch D t₂ → AccuratelyWritten p D t₁ t₂ := by
  intro h
  obtain ⟨hafter, hsub⟩ := subNanoseconds_picoseconds (n := 999999999999) (by decide) (by decide)
  have hnear := (nearlyWritten_iff .zeroed hafter).mp (h .zeroed _ _ _ hafter hafter).first
  rw [hsub] at hnear
  rcases hnear with h | ⟨-, h⟩ | ⟨h, -⟩ | ⟨h, -⟩ | ⟨h, -⟩
  · norm_num at h
  · norm_num at h
  · exact absurd h (by decide)
  · exact absurd h (by decide)
  · exact absurd h (by decide)

end
end KssUtil.Time

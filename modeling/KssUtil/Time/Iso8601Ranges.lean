import KssUtil.Time.DurationStreams
import KssUtil.Time.Iso8601Grammar
import KssUtil.Time.Iso8601Instants
import KssUtil.Time.Iso8601Offsets

/-!
# Date-time texts at the ends of a time point's range

The whole seconds are converted with a check, and what follows them is added without
one.  So it is the whole second of an instant that decides whether it is refused.
-/

namespace KssUtil.Time

open KssUtil.Foundation KssUtil.Libc

/-! ## What a text in UTC says -/

/-- The text says the instant `q`: it is of reduced accuracy, and what it leaves out is
midnight on the first of January, or it is complete, with `Z` or nothing after it. -/
inductive SaysUtc : List Char → ℚ → Prop where
  | reduced {fmt : Format} {tm : Tm} (hfmt : fmt ∈ reducedFormats)
      (hrange : ∀ f : Field, f.InRange tm) (hoff : tm.gmtoff = 0)
      (hrest : ∀ f : Field, Item.field f ∉ fmt → f.get tm = f.get ⟨0, 0, 0, 1, 0, 0, 0⟩) :
      SaysUtc (fmt.flatMap (Item.write tm)) (timegm tm)
  | complete (w : Stamp) (hzone : w.zone = .absent ∨ w.zone = .zulu) : SaysUtc w.text w.instant

/-- A text is read as whole seconds `T` and a fraction `f`, rounded to nanoseconds. -/
structure ReadAs (p : Platform) (s : List Char) (tm : Tm) (ns : ℤ) (f : ℚ) : Prop where
  parse : parseIso8601 p s = .ok (tm, ns)
  gmtoff : tm.gmtoff = 0
  bounds : -100000000000 ≤ timegm tm ∧ timegm tm ≤ 300000000000
  round : ns = roundHalfAway (f * 1000000000)
  nonneg : 0 ≤ f
  lt_one : f < 1

theorem ReadAs.ns_bounds {p : Platform} {s : List Char} {tm : Tm} {ns : ℤ} {f : ℚ}
    (h : ReadAs p s tm ns f) : 0 ≤ ns ∧ ns ≤ 1000000000 := by
  have hnonneg := h.nonneg
  have hlt := h.lt_one
  rw [h.round]
  exact roundHalfAway_mem (by linarith) (by linarith)

theorem ReadAs.floor_eq {p : Platform} {s : List Char} {tm : Tm} {ns : ℤ} {f : ℚ}
    (h : ReadAs p s tm ns f) : ⌊(timegm tm : ℚ) + f⌋ = timegm tm := by
  rw [Int.floor_intCast_add, Int.floor_eq_zero_iff.mpr ⟨h.nonneg, h.lt_one⟩, add_zero]

/-! ### Texts of reduced accuracy -/

section

variable {fmt : Format} {tm : Tm}

/-- What the fields are set to when a text written from `tm` is read. -/
def setFields (tm : Tm) (fmt : Format) (tm₀ : Tm) : Tm :=
  fmt.foldl (fun t item => match item with
    | .field f => f.set t (f.get tm).toNat
    | .lit _ => t) tm₀

theorem get_set (f g : Field) (t : Tm) (v : ℕ) :
    g.get (f.set t v) = if f = g then (v : ℤ) else g.get t := by
  cases f <;> cases g <;> simp [Field.set, Field.get]

theorem get_setFields (hrange : ∀ f : Field, f.InRange tm) (g : Field) (tm₀ : Tm)
    (h : Item.field g ∈ fmt ∨ g.get tm₀ = g.get tm) : g.get (setFields tm fmt tm₀) = g.get tm := by
  induction fmt generalizing tm₀ with
  | nil => exact h.resolve_left List.not_mem_nil
  | cons item fmt ih =>
      cases item with
      | lit c =>
          apply ih
          rcases h with hmem | hsame
          · exact Or.inl (List.mem_of_ne_of_mem (by simp) hmem)
          · exact Or.inr hsame
      | field f =>
          show g.get (setFields tm fmt (f.set tm₀ (f.get tm).toNat)) = g.get tm
          apply ih
          rw [get_set]
          by_cases hfg : f = g
          · rw [if_pos hfg, hfg]
            exact Or.inr (Int.toNat_of_nonneg (Int.le_trans (Int.natCast_nonneg _) (hrange g).1))
          · rw [if_neg hfg]
            rcases h with hmem | hsame
            · refine Or.inl (List.mem_of_ne_of_mem ?_ hmem)
              intro heq
              exact hfg (Item.field.inj heq).symm
            · exact Or.inr hsame

theorem gmtoff_setFields (tm₀ : Tm) : (setFields tm fmt tm₀).gmtoff = tm₀.gmtoff := by
  induction fmt generalizing tm₀ with
  | nil => rfl
  | cons item fmt ih =>
      cases item with
      | lit c => exact ih tm₀
      | field f => exact (ih _).trans (Field.gmtoff_set tm₀ _ f)

theorem tm_eq_of_get {t t' : Tm} (h : ∀ f : Field, f.get t = f.get t')
    (hoff : t.gmtoff = t'.gmtoff) : t = t' := by
  have hY := h .Y
  have hm := h .m
  have hd := h .d
  have hH := h .H
  have hM := h .M
  have hS := h .S
  obtain ⟨sec, min, hour, mday, mon, year, gmtoff⟩ := t
  obtain ⟨sec', min', hour', mday', mon', year', gmtoff'⟩ := t'
  simp only [Field.get] at hY hm hd hH hM hS hoff
  rw [Tm.mk.injEq]
  omega

theorem parseIso8601_reduced (p : Platform) (hfmt : fmt ∈ reducedFormats)
    (hrange : ∀ f : Field, f.InRange tm) (hoff : tm.gmtoff = 0)
    (hrest : ∀ f : Field, Item.field f ∉ fmt → f.get tm = f.get ⟨0, 0, 0, 1, 0, 0, 0⟩) :
    parseIso8601 p (fmt.flatMap (Item.write tm)) = .ok (tm, 0) := by
  have hplain : fmt ∈ plainFormats := List.mem_append_left _ hfmt
  have hwidth : (fmt.flatMap (Item.write tm)).length = formatWidth fmt :=
    length_write fun f _ => hrange f
  have hnul : ∀ c ∈ fmt.flatMap (Item.write tm), c ≠ nul := by
    rintro c hc rfl
    exact absurd (isTextChar_write hplain hc) (by decide)
  have hne : fmt.flatMap (Item.write tm) ≠ [] := by
    apply List.ne_nil_of_length_pos
    have hall : ∀ fmt ∈ plainFormats, 0 < formatWidth fmt := by decide
    rw [hwidth]
    exact hall fmt hplain
  have hfields : setFields tm fmt ⟨0, 0, 0, 1, 0, 0, 0⟩ = tm := by
    apply tm_eq_of_get
    · intro f
      apply get_setFields hrange
      by_cases hmem : Item.field f ∈ fmt
      · exact Or.inl hmem
      · exact Or.inr (hrest f hmem).symm
    · rw [gmtoff_setFields, hoff]
  have hread : strptime (fmt.flatMap (Item.write tm) ++ []) fmt ⟨0, 0, 0, 1, 0, 0, 0⟩ =
      some ([], setFields tm fmt ⟨0, 0, 0, 1, 0, 0, 0⟩) :=
    strptime_write (fun f _ => hrange f) [] ⟨0, 0, 0, 1, 0, 0, 0⟩
  rw [List.append_nil, ← cstr_of_ne hnul] at hread
  have hmain := parseMainPortion_ok hne (selectFormat_plain hplain hwidth)
    (parse_ok (p := p) hne (width_plainFormats hplain).1 hread)
  have hparsed : parseIso8601 p (fmt.flatMap (Item.write tm)) =
      .ok (setFields tm fmt ⟨0, 0, 0, 1, 0, 0, 0⟩, 0) :=
    parseIso8601_ok hne hmain rfl rfl
  rw [hfields] at hparsed
  exact hparsed

end

/-! ### What is read of them -/

theorem Stamp.fractionValue_bounds (w : Stamp) : 0 ≤ w.fractionValue ∧ w.fractionValue < 1 := by
  have hpow : (0 : ℚ) < (10 ^ w.fraction.length : ℕ) := by positivity
  have hlt : (value w.fraction : ℚ) < (10 ^ w.fraction.length : ℕ) := by
    exact_mod_cast value_lt w.digits
  rw [Stamp.fractionValue]
  exact ⟨by positivity, (div_lt_one hpow).mpr hlt⟩

theorem Stamp.readNs_eq (p : Platform) (w : Stamp) :
    w.readNs p = roundHalfAway (w.fractionValue * 1000000000) := by
  obtain ⟨hlo, hhi⟩ := w.fractionValue_bounds
  rw [Stamp.readNs]
  split
  · rename_i hnil
    rw [Stamp.fractionValue, hnil, value_nil, Nat.cast_zero, zero_div, zero_mul, roundHalfAway_zero]
  · obtain ⟨hns, hns'⟩ := roundHalfAway_mem (z := w.fractionValue * 1000000000) (by linarith)
      (by linarith)
    exact castToRep_of_inRange p (inRange_subsecond hns hns')

/-- **What is read** of a text in UTC are the whole seconds of its instant, and the rest
to the nearest nanosecond. -/
theorem SaysUtc.readAs {s : List Char} {q : ℚ} (h : SaysUtc s q) (p : Platform) :
    ∃ tm ns f, ReadAs p s tm ns f ∧ q = timegm tm + f := by
  cases h with
  | reduced hfmt hrange hoff hrest =>
      rename_i fmt tm
      refine ⟨tm, 0, 0, ?_, (add_zero _).symm⟩
      constructor
      · exact parseIso8601_reduced p hfmt hrange hoff hrest
      · exact hoff
      · exact Stamp.timegm_bounds ⟨tm, [], .absent, hrange, hoff, digits_nil⟩
      · rw [zero_mul, roundHalfAway_zero]
      · exact le_refl 0
      · exact one_pos
  | complete w hzone =>
      have hread : w.readTm = w.tm ∧ w.zone.seconds = 0 := by
        rw [Stamp.readTm]
        rcases hzone with hzone | hzone <;> rw [hzone] <;> exact ⟨rfl, rfl⟩
      have hparse := w.parseIso8601_text p
      rw [hread.1, w.readNs_eq] at hparse
      obtain ⟨hlo, hhi⟩ := w.fractionValue_bounds
      refine ⟨w.tm, _, w.fractionValue, ⟨hparse, w.gmtoff, w.timegm_bounds, rfl, hlo, hhi⟩, ?_⟩
      rw [Stamp.instant, hread.2, Int.cast_zero, sub_zero]

/-! ## Counts of ticks -/

/-- `std::chrono::duration<rep, ratio>` of a standard period -/
def DurationUnit.of (u : DurationUnit) (rep : Rep) : DurationType := { u.duration with rep := rep }

/-- The count is less than one tick away from the instant, and the instant itself if
that is a whole number of ticks. -/
structure Counts (D : DurationType) (q : ℚ) (t : ℤ) : Prop where
  near : |t - D.ticks q| < 1
  exact : ∀ n : ℤ, D.ticks q = n → t = n

/-- A text that says `q` is read as `q` if the type reaches it, and is too large
otherwise. -/
structure NeverWraps (p : Platform) (D : DurationType) (s : List Char) (q : ℚ) : Prop where
  inside : D.Reaches q → ∃ t, fromIso8601String p D s = .ok t ∧ Counts D q t
  outside : ¬ D.Reaches q → fromIso8601String p D s = .error .overflowError

section

variable {D : DurationType} {p : Platform} {s : List Char} {q f : ℚ} {t T ns : ℤ} {k : ℕ}

/-- A count of an instant in range is in range. -/
theorem Counts.inRange (h : Counts D q t) (hq : D.Reaches q) : D.InRange t := by
  obtain ⟨hbelow, habove⟩ := abs_lt.mp h.near
  obtain ⟨hmin, hmax⟩ := hq
  have hlo : ((D.rep.min - 1 : ℤ) : ℚ) < t := by
    push_cast
    linarith
  have hhi : (t : ℚ) < (D.rep.max + 1 : ℤ) := by
    push_cast
    linarith
  exact ⟨Int.sub_one_lt_iff.mp (Int.cast_lt.mp hlo), Int.le_of_lt_add_one (Int.cast_lt.mp hhi)⟩

/-- Integers less than one apart are the same. -/
theorem counts_of_near (h : |t - D.ticks q| < 1) : Counts D q t := by
  refine ⟨h, fun n hn => ?_⟩
  rw [hn] at h
  have hz : |t - n| < 1 := by exact_mod_cast h
  exact Int.sub_eq_zero.mp (Int.abs_lt_one_iff.mp hz)

/-! ### Periods up to a second -/

/-- Whole ticks of `k` nanoseconds in a rounded fraction. -/
theorem ediv_roundHalfAway_near (hk : 0 < k) (hf : 0 ≤ f) {x : ℚ} (hx : x * k = f * 1000000000) :
    |((roundHalfAway (f * 1000000000) / k : ℤ) : ℚ) - x| < 1 := by
  have hone : (1 : ℚ) ≤ k := by exact_mod_cast hk
  obtain ⟨hlower, hupper⟩ := roundHalfAway_bounds (z := f * 1000000000) (by linarith)
  rw [← hx] at hlower hupper ⊢
  generalize roundHalfAway (x * k) = ns at hlower hupper ⊢
  have hle : ns / k * k ≤ ns := Int.ediv_mul_le ns (by omega)
  have hlt : ns + 1 ≤ (ns / k + 1) * k := Int.lt_ediv_add_one_mul_self ns (by omega)
  generalize ns / k = j at hle hlt ⊢
  have hle : (j : ℚ) * k ≤ ns := by exact_mod_cast hle
  have hlt : (ns : ℚ) + 1 ≤ (j + 1) * k := by exact_mod_cast hlt
  have hbelow : (j : ℚ) < x + 1 := by
    apply lt_of_mul_lt_mul_right (a := (k : ℚ)) _ (by linarith)
    linarith
  have habove : x < j + 1 := by
    apply lt_of_mul_lt_mul_right (a := (k : ℚ)) _ (by linarith)
    linarith
  rw [abs_lt]
  constructor <;> linarith

theorem counts_fine (hnum : D.num = 1) (hk : D.den * k = 1000000000) (hf : 0 ≤ f) :
    Counts D (T + f) (T * D.den + roundHalfAway (f * 1000000000) / k) := by
  have hpos : 0 < k := Nat.pos_of_ne_zero fun hzero => by
    rw [hzero, Nat.mul_zero] at hk
    exact absurd hk (by decide)
  have hkq : (D.den : ℚ) * k = 1000000000 := by exact_mod_cast hk
  have hx : f * D.den * k = f * 1000000000 := by rw [mul_assoc, hkq]
  have hticks : D.ticks (T + f) = T * D.den + f * D.den := by
    rw [DurationType.ticks, hnum, Nat.cast_one, div_one, add_mul]
  apply counts_of_near
  rw [hticks, Int.cast_add, Int.cast_mul, Int.cast_natCast, add_sub_add_left_eq_sub]
  exact ediv_roundHalfAway_near hpos hf hx

/-! ### Periods of many seconds -/

theorem counts_coarse (hden : D.den = 1) (hf : 0 ≤ f) (hlt : f < 1) :
    Counts D (T + f) (T.tdiv D.num) := by
  have hk : (0 : ℚ) < D.num := Nat.cast_pos.mpr D.num_pos
  have hticks : D.ticks (T + f) * D.num = T + f := by
    rw [DurationType.ticks, hden, Nat.cast_one, mul_one, div_mul_cancel₀ _ hk.ne']
  have hsplit := Int.tdiv_mul_add_tmod T D.num
  have hrlo := Int.lt_tmod_of_pos T (Int.natCast_pos.mpr D.num_pos)
  have hrhi := Int.tmod_lt_of_pos T (Int.natCast_pos.mpr D.num_pos)
  generalize T.tdiv D.num = t at hsplit ⊢
  generalize T.tmod D.num = r at hsplit hrlo hrhi
  have hsplit : (t : ℚ) * D.num + r = T := by exact_mod_cast hsplit
  have hrlo : -(D.num : ℚ) + 1 ≤ r := by exact_mod_cast hrlo
  have hrhi : (r : ℚ) + 1 ≤ D.num := by exact_mod_cast hrhi
  have hbelow : (t : ℚ) < D.ticks (T + f) + 1 := by
    apply lt_of_mul_lt_mul_right (a := (D.num : ℚ)) _ hk.le
    linarith
  have habove : D.ticks (T + f) < t + 1 := by
    apply lt_of_mul_lt_mul_right (a := (D.num : ℚ)) _ hk.le
    linarith
  apply counts_of_near
  rw [abs_lt]
  constructor <;> linarith

/-! ## What is returned -/

/-- A part of a second of so many nanoseconds, or some whole seconds. -/
def Standard (D : DurationType) : Prop :=
  (D.num = 1 ∧ ∃ k, D.den * k = 1000000000) ∨ (D.den = 1 ∧ 1 < D.num)

theorem standard_of (u : DurationUnit) (r : Rep) : Standard (u.of r) := by
  have hcoarse : 1 < 3600 ∧ 1 < 60 := by decide
  cases u with
  | h => exact Or.inr ⟨rfl, hcoarse.1⟩
  | min => exact Or.inr ⟨rfl, hcoarse.2⟩
  | s => exact Or.inl ⟨rfl, 1000000000, Nat.one_mul _⟩
  | ms => exact Or.inl ⟨rfl, 1000000, by show 1000 * 1000000 = _; norm_num⟩
  | us => exact Or.inl ⟨rfl, 1000, by show 1000000 * 1000 = _; norm_num⟩
  | ns => exact Or.inl ⟨rfl, 1, Nat.mul_one _⟩

/-- The whole seconds, and the ticks of the rest, count the instant. -/
theorem counts_sum (hstd : Standard D) (hmax : 1000000000 ≤ D.rep.max) (hround :
    ns = roundHalfAway (f * 1000000000)) (hf : 0 ≤ f) (hlt : f < 1) :
    Counts D (T + f) (truncate (D.ticks T) + durationCast D .nanoseconds ns) := by
  obtain ⟨hlo, hhi⟩ := roundHalfAway_mem (z := f * 1000000000) (by linarith) (by linarith)
  rw [← hround] at hlo hhi
  have hmin := D.rep.min_nonpos
  have hwrap : Rep.int64.wrap ns = ns := Rep.wrap_eq (inRange_subsecond hlo hhi)
  rcases hstd with ⟨hnum, k, hk⟩ | ⟨hden, hnum⟩
  · have hticks : D.ticks T = ((T * D.den : ℤ) : ℚ) := by
      rw [DurationType.ticks, hnum, Nat.cast_one, div_one, Int.cast_mul, Int.cast_natCast]
    have hquot : D.rep.min ≤ ns / k ∧ ns / k ≤ D.rep.max := by
      have := Int.ediv_nonneg hlo (Int.natCast_nonneg k)
      have := Int.ediv_le_self (k : ℤ) hlo
      omega
    have hcast : durationCast D .nanoseconds ns = ns / k := by
      rw [durationCast_of_multiple (k := k), hwrap, Int.tdiv_eq_ediv_of_nonneg hlo,
        Rep.wrap_eq hquot]
      show 1000000000 * D.num = 1 * D.den * k
      rw [hnum, Nat.mul_one, Nat.one_mul, hk]
    rw [hticks, truncate_intCast, hcast, hround]
    exact counts_fine hnum hk hf
  · have hticks : D.ticks T = T / D.num := by
      rw [DurationType.ticks, hden, Nat.cast_one, mul_one]
    have hzero : ns.tdiv (1000000000 * D.num : ℕ) = 0 := by
      apply Int.tdiv_eq_zero_of_lt hlo
      push_cast
      omega
    have hcast : durationCast D .nanoseconds ns = 0 := by
      rw [durationCast_of_multiple (k := 1000000000 * D.num), hwrap, hzero,
        Rep.wrap_eq ⟨hmin, D.rep.max_nonneg⟩]
      show 1000000000 * D.num = 1 * D.den * (1000000000 * D.num)
      rw [hden, Nat.one_mul]
    rw [hticks, truncate_div T D.num_pos, hcast, add_zero]
    exact counts_coarse hden hf hlt

theorem truncate_ticks_inRange (hstd : Standard D) (hmax : 1000000000 ≤ D.rep.max)
    (hreach : D.Reaches T) : D.InRange (truncate (D.ticks T)) := by
  have hround : (0 : ℤ) = roundHalfAway (0 * 1000000000) := by rw [zero_mul, roundHalfAway_zero]
  have hcounts := counts_sum (T := T) hstd hmax hround (le_refl 0) one_pos
  rw [durationCast_zero, add_zero, add_zero] at hcounts
  exact hcounts.inRange hreach

/-- The whole seconds are converted first. -/
theorem ReadAs.fromIso8601String {tm : Tm} (h : ReadAs p s tm ns f) :
    Time.fromIso8601String p D s = checkedDurationCast D .seconds (timegm tm) >>= fun t =>
      if ns ≠ 0 then .ok (D.rep.wrap (t + durationCast D .nanoseconds ns)) else .ok t := by
  obtain ⟨hlo, hhi⟩ := h.ns_bounds
  have htime : tmToTimeT tm = timegm tm := by
    unfold tmToTimeT
    exact if_neg (not_not.mpr h.gmtoff)
  have hns : checkedDurationCast .nanoseconds .nanoseconds ns = .ok ns := by
    rw [checkedDurationCast_self, if_pos (inRange_subsecond hlo hhi)]
  unfold Time.fromIso8601String
  rw [h.parse, ok_bind, hns, ok_bind, fromTm, fromTimeT, htime]
  rfl

/-- **What is returned** is a count of the instant, reduced to the range of the type, if
that reaches the whole second. -/
theorem ReadAs.ok {tm : Tm} (h : ReadAs p s tm ns f) (hstd : Standard D)
    (hmax : 1000000000 ≤ D.rep.max) (hreach : D.Reaches (timegm tm)) :
    ∃ t, Counts D (timegm tm + f) t ∧ Time.fromIso8601String p D s = .ok (D.rep.wrap t) := by
  refine ⟨_, counts_sum hstd hmax h.round h.nonneg h.lt_one, ?_⟩
  rw [h.fromIso8601String, (checkedDurationCast_seconds D _).1 hreach, ok_bind]
  split
  · rfl
  · rename_i hzero
    rw [not_not.mp hzero, durationCast_zero, add_zero,
      Rep.wrap_eq (truncate_ticks_inRange hstd hmax hreach)]

theorem ReadAs.overflow {tm : Tm} (h : ReadAs p s tm ns f) (hreach : ¬ D.Reaches (timegm tm)) :
    Time.fromIso8601String p D s = .error .overflowError := by
  rw [h.fromIso8601String, (checkedDurationCast_seconds D _).2 hreach]
  rfl

/-- The whole second decides. -/
theorem neverWraps_iff_floor (hstd : Standard D) (hmax : 1000000000 ≤ D.rep.max)
    (hsaid : SaysUtc s q) : NeverWraps p D s q ↔ (D.Reaches q ↔ D.Reaches ⌊q⌋) := by
  obtain ⟨tm, ns, f, h, rfl⟩ := hsaid.readAs p
  rw [h.floor_eq]
  by_cases hreach : D.Reaches (timegm tm)
  · obtain ⟨t, hcounts, hok⟩ := h.ok hstd hmax hreach
    constructor
    · intro hwraps
      refine iff_of_true ?_ hreach
      by_contra hout
      rw [hwraps.outside hout] at hok
      cases hok
    · intro hiff
      have hin := hiff.mpr hreach
      refine ⟨fun _ => ⟨t, ?_, hcounts⟩, fun hout => absurd hin hout⟩
      rw [hok, Rep.wrap_eq (hcounts.inRange hin)]
  · have herror := h.overflow hreach
    constructor
    · intro hwraps
      refine iff_of_false ?_ hreach
      intro hin
      obtain ⟨t, hok, -⟩ := hwraps.inside hin
      rw [herror] at hok
      cases hok
    · intro hiff
      exact ⟨fun hin => absurd (hiff.mp hin) hreach, fun _ => herror⟩

/-! ## When nothing wraps -/

theorem ticks_mono {q' : ℚ} (h : q ≤ q') : D.ticks q ≤ D.ticks q' := by
  unfold DurationType.ticks
  gcongr

theorem ticks_nonneg_iff : 0 ≤ D.ticks q ↔ 0 ≤ q := by
  have hden : (0 : ℚ) < D.den := Nat.cast_pos.mpr D.den_pos
  have hnum : (0 : ℚ) < D.num := Nat.cast_pos.mpr D.num_pos
  rw [DurationType.ticks, le_div_iff₀ hnum, zero_mul, mul_nonneg_iff_of_pos_right hden]

/-- The whole second is as far inside the range as the instant, unless the range ends
between them. -/
theorem reaches_floor_iff (hmin : D.rep.min = 0 ∨ D.rep.min ≤ D.ticks ⌊q⌋)
    (hmax : D.ticks q ≤ D.rep.max) : D.Reaches q ↔ D.Reaches ⌊q⌋ := by
  have hfloor : D.ticks ⌊q⌋ ≤ D.ticks q := ticks_mono (Int.floor_le q)
  constructor
  · rintro ⟨hlo, -⟩
    refine ⟨?_, hfloor.trans hmax⟩
    rcases hmin with hzero | hmin
    · rw [hzero, Int.cast_zero] at hlo ⊢
      have hq := Int.floor_nonneg.mpr (ticks_nonneg_iff.mp hlo)
      exact ticks_nonneg_iff.mpr (by exact_mod_cast hq)
    · exact hmin
  · rintro ⟨hlo, -⟩
    exact ⟨hlo.trans hfloor, hmax⟩

/-- A count of 64 bits of anything but nanoseconds ends beyond the years of a text. -/
theorem reaches_floor_of_coarser {u : DurationUnit} {r : Rep} (hu : u ≠ .ns)
    (hr : r = .int64 ∨ r = .uint64) (hlo : -100000000000 ≤ ⌊q⌋) (hhi : ⌊q⌋ ≤ 300000000000) :
    (u.of r).Reaches q ↔ (u.of r).Reaches ⌊q⌋ := by
  have hperiod : (u.of r).den ≤ 1000000 ∧ 1 ≤ (u.of r).num := by
    refine ⟨?_, (u.of r).num_pos⟩
    show u.duration.den ≤ 1000000
    cases u <;> first | exact absurd rfl hu | decide
  have hden : ((u.of r).den : ℚ) ≤ 1000000 := by exact_mod_cast hperiod.1
  have hnum : (1 : ℚ) ≤ (u.of r).num := by exact_mod_cast hperiod.2
  have hnum0 : (0 : ℚ) < (u.of r).num := by linarith
  have hlo : (-100000000000 : ℚ) ≤ ⌊q⌋ := by exact_mod_cast hlo
  have hhi : (⌊q⌋ : ℚ) ≤ 300000000000 := by exact_mod_cast hhi
  have hbelow : -1000000000000000000 ≤ (u.of r).ticks ⌊q⌋ := by
    rw [DurationType.ticks, le_div_iff₀ hnum0]
    nlinarith
  have habove : (u.of r).ticks q ≤ 1000000000000000000 := by
    have hq := Int.lt_floor_add_one q
    rw [DurationType.ticks, div_le_iff₀ hnum0]
    nlinarith
  apply reaches_floor_iff
  · rcases hr with rfl | rfl
    · have hmin : ((u.of .int64).rep.min : ℚ) = -9223372036854775808 := by
        show ((Rep.int64.min : ℤ) : ℚ) = _
        rw [int64_min]
        norm_num
      rw [hmin]
      exact Or.inr (by linarith)
    · exact Or.inl rfl
  · have hmax : ((1000000000000000000 : ℤ) : ℚ) ≤ (u.of r).rep.max := by
      apply Int.cast_le.mpr
      show _ ≤ r.max
      rcases hr with rfl | rfl <;> decide
    rw [Int.cast_ofNat] at hmax
    exact habove.trans hmax

/-- **When nothing wraps.**  For counts of 64 bits the text of an instant is read as the
instant if that is in range and is too large otherwise, but for nanoseconds only if the
range does not end between the instant and its whole second. -/
theorem never_wraps_iff {u : DurationUnit} {r : Rep} (hr : r = .int64 ∨ r = .uint64)
    (hsaid : SaysUtc s q) : NeverWraps p (u.of r) s q ↔
      (u = .ns → ((u.of r).Reaches q ↔ (u.of r).Reaches ⌊q⌋)) := by
  have hmax : 1000000000 ≤ (u.of r).rep.max := by
    show 1000000000 ≤ r.max
    rcases hr with rfl | rfl <;> decide
  rw [neverWraps_iff_floor (standard_of u r) hmax hsaid]
  obtain ⟨tm, ns, f, h, rfl⟩ := hsaid.readAs p
  constructor
  · intro hiff _
    exact hiff
  · intro hns
    by_cases hu : u = .ns
    · exact hns hu
    · apply reaches_floor_of_coarser hu hr
      · rw [h.floor_eq]
        exact h.bounds.1
      · rw [h.floor_eq]
        exact h.bounds.2

/-- 2262-04-11T23:47:16.9Z -/
def lastSecond : Stamp where
  tm := ⟨16, 47, 23, 11, 3, 362, 0⟩
  fraction := ['9']
  zone := .zulu
  inRange f := by cases f <;> exact ⟨by decide, by decide⟩
  gmtoff := rfl
  digits := digits_cons.mpr ⟨rfl, digits_nil⟩

theorem instant_lastSecond : lastSecond.instant = 92233720369 / 10 := by
  have hseconds : timegm lastSecond.tm = 9223372036 := by decide +kernel
  have hvalue : value ['9'] = 9 := by decide
  show (timegm lastSecond.tm : ℚ) - ((0 : ℤ) : ℚ) + (value ['9'] : ℚ) / (10 ^ 1 : ℕ) = _
  rw [hseconds, hvalue]
  norm_num

theorem never_wraps_iff_microseconds :
    NeverWraps .zeroed (DurationUnit.us.of .int64) lastSecond.text lastSecond.instant :=
  (never_wraps_iff (Or.inl rfl) (SaysUtc.complete lastSecond (Or.inr rfl))).mpr
    fun hns => absurd hns (by decide)

/-- The last second of the nanoseconds of 64 bits is not all in their range. -/
theorem last_second_wraps :
    fromIso8601String .zeroed (DurationUnit.ns.of .int64) "2262-04-11T23:47:16.9Z".toList =
        .ok (-9223372036809551616) ∧
      ¬ ∀ (p : Platform) (u : DurationUnit) (r : Rep) (s : List Char) (q : ℚ),
        (r = .int64 ∨ r = .uint64) → SaysUtc s q → NeverWraps p (u.of r) s q := by
  have hread : fromIso8601String .zeroed (DurationUnit.ns.of .int64)
      "2262-04-11T23:47:16.9Z".toList = .ok (-9223372036809551616) := by
    decide +kernel
  refine ⟨hread, fun h => ?_⟩
  have htext : lastSecond.text = "2262-04-11T23:47:16.9Z".toList := by decide +kernel
  have hout : ¬ (DurationUnit.ns.of .int64).Reaches lastSecond.instant := by
    rintro ⟨-, hmax⟩
    rw [instant_lastSecond] at hmax
    have hticks : (92233720369 / 10 : ℚ) * (1000000000 : ℕ) / (1 : ℕ) ≤ (Rep.int64.max : ℤ) := hmax
    rw [int64_max] at hticks
    norm_num at hticks
  have hsaid := SaysUtc.complete lastSecond (Or.inr rfl)
  have herror := (h .zeroed .ns .int64 _ _ (Or.inl rfl) hsaid).outside hout
  rw [htext, hread] at herror
  cases herror

end
end KssUtil.Time

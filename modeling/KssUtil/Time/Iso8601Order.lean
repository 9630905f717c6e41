import KssUtil.Foundation.TextOrder
import KssUtil.Time.Iso8601RoundTrip

/-!
# ISO 8601 texts in order (timeutil.cpp, timeutil.hpp)

Texts of time points are used as keys: `std::string` compares them character by character.  The
fields come in the order of their weight and have all their digits, but the sub-seconds do not.
-/

namespace KssUtil.Time

open KssUtil.Foundation KssUtil.Libc

/-! ## The main part -/

/-- The values that a format shows, in its order. -/
def fieldValues (tm : Tm) : Format → List ℤ
  | [] => []
  | .field f :: fmt => f.get tm :: fieldValues tm fmt
  | .lit _ :: fmt => fieldValues tm fmt

section

variable {tm tm' : Tm}

theorem lt_pow_of_inRange {f : Field} (h : f.InRange tm) : (f.get tm).toNat < 10 ^ f.width := by
  have hpow : f.hi < 10 ^ f.width := by cases f <;> decide
  have hhi := h.2
  omega

/-- Texts of one format are in the order of the values. -/
theorem write_lt_write_iff (h : ∀ f : Field, f.InRange tm) (h' : ∀ f : Field, f.InRange tm')
    (fmt : Format) : fmt.flatMap (Item.write tm) < fmt.flatMap (Item.write tm') ↔
      fieldValues tm fmt < fieldValues tm' fmt := by
  induction fmt with
  | nil => simp [fieldValues]
  | cons item fmt ih =>
      rw [List.flatMap_cons, List.flatMap_cons]
      cases item with
      | lit c => exact (append_lt_append_left _).trans ih
      | field f =>
          have hbound := lt_pow_of_inRange (h f)
          have hbound' := lt_pow_of_inRange (h' f)
          have hwidth : 0 < f.width := by cases f <;> decide
          have hnonneg : 0 ≤ f.get tm := le_trans (Int.natCast_nonneg _) (h f).1
          have hnonneg' : 0 ≤ f.get tm' := le_trans (Int.natCast_nonneg _) (h' f).1
          have hlen : (padded f.width (f.get tm).toNat).length =
              (padded f.width (f.get tm').toNat).length := by
            rw [length_padded hwidth hbound, length_padded hwidth hbound']
          have hlt : padded f.width (f.get tm).toNat < padded f.width (f.get tm').toNat ↔
              f.get tm < f.get tm' := by
            rw [padded_lt_padded_iff hwidth hbound hbound']
            omega
          have heq : padded f.width (f.get tm).toNat = padded f.width (f.get tm').toNat ↔
              f.get tm = f.get tm' := by
            constructor
            · intro heq
              have hvalue := padded_injective heq
              omega
            · exact fun heq => by rw [heq]
          rw [Item.write, Item.write, append_lt_append_iff hlen, hlt, heq, ih, fieldValues,
            fieldValues, List.cons_lt_cons_iff]

/-- The time of day. -/
def timeOfDay (tm : Tm) : ℤ := tm.hour * 3600 + tm.min * 60 + tm.sec

theorem timegm_eq (h : tm.Valid) :
    timegm tm = (Gregorian.dayNumber tm.date - epochDay) * 86400 + timeOfDay tm := by
  obtain ⟨hmonth, hdate, -⟩ := h
  have hlt : tm.mon.toNat < 12 := hdate.1
  have hyear : tm.year + 1900 + tm.mon / 12 = tm.year + 1900 := by omega
  have hmon : tm.mon % 12 = tm.mon := by omega
  rw [timegm, timeOfDay, hyear, hmon, Tm.date]
  omega

/-- The fields of an earlier time are before those of a later one. -/
theorem timegm_lt_of_fieldValues_lt (h : tm.Valid) (h' : tm'.Valid)
    (hlt : fieldValues tm secondFormat < fieldValues tm' secondFormat) :
    timegm tm < timegm tm' := by
  have hdays : tm.date.Before tm'.date → timegm tm < timegm tm' := by
    intro hbefore
    have hday := hbefore.dayNumber_lt h.date h'.date
    have hhour := h.hour
    have hmin := h.min
    have hsec := h.sec
    have hhour' := h'.hour
    have hmin' := h'.min
    have hsec' := h'.sec
    rw [timegm_eq h, timegm_eq h', timeOfDay, timeOfDay]
    omega
  have htimes : tm.date = tm'.date → timeOfDay tm < timeOfDay tm' →
      timegm tm < timegm tm' := by
    intro hdate htime
    rw [timegm_eq h, timegm_eq h', hdate]
    omega
  have hmon := h.mon
  have hmon' := h'.mon
  have hmin := h.min
  have hsec := h.sec
  have hmin' := h'.min
  have hsec' := h'.sec
  simp only [secondFormat, minuteFormat, hourFormat, dayFormat, monthFormat, yearFormat,
    List.cons_append, List.nil_append, fieldValues, Field.get, List.cons_lt_cons_iff,
    List.lt_irrefl, and_false, or_false] at hlt
  rcases hlt with hyear | ⟨hyear, hlt⟩
  · exact hdays (Or.inl (by simp only [Tm.date]; omega))
  rcases hlt with hmonth | ⟨hmonth, hlt⟩
  · exact hdays (Or.inr ⟨hyear, Or.inl (by simp only [Tm.date]; omega)⟩)
  have hmonth : tm.mon = tm'.mon := by omega
  rcases hlt with hday | ⟨hday, hlt⟩
  · exact hdays (Or.inr ⟨hyear, Or.inr ⟨by simp only [Tm.date, hmonth], hday⟩⟩)
  have hdate : tm.date = tm'.date := by
    rw [Tm.date, Tm.date, hyear, hmonth, hday]
  apply htimes hdate
  unfold timeOfDay
  rcases hlt with hhour | ⟨hhour, hminute | ⟨hminute, hsecond⟩⟩
  · omega
  · omega
  · omega

/-- **The main parts** of the texts are in the order of the times. -/
theorem fieldValues_lt_iff (h : tm.Valid) (h' : tm'.Valid) :
    fieldValues tm secondFormat < fieldValues tm' secondFormat ↔ timegm tm < timegm tm' := by
  constructor
  · exact timegm_lt_of_fieldValues_lt h h'
  · intro htime
    rcases lt_trichotomy (fieldValues tm secondFormat) (fieldValues tm' secondFormat) with
      hlt | heq | hgt
    · exact hlt
    · obtain ⟨hyear, hmonth, hday, hhour, hmin, hsec, -⟩ :
          tm.year + 1900 = tm'.year + 1900 ∧ tm.mon + 1 = tm'.mon + 1 ∧ tm.mday = tm'.mday ∧
            tm.hour = tm'.hour ∧ tm.min = tm'.min ∧ tm.sec = tm'.sec ∧ ([] : List ℤ) = [] := by
        simpa only [secondFormat, minuteFormat, hourFormat, dayFormat, monthFormat, yearFormat,
          List.cons_append, List.nil_append, fieldValues, Field.get, List.cons.injEq] using heq
      have hmonth : tm.mon = tm'.mon := by omega
      rw [timegm, timegm, hyear, hmonth, hday, hhour, hmin, hsec] at htime
      exact absurd htime (lt_irrefl _)
    · exact absurd htime (timegm_lt_of_fieldValues_lt h' h hgt).not_gt

end

/-! ## The sub-seconds -/

/-- What is written of the sub-seconds. -/
def writtenFraction (ns : ℤ) : List Char := if ns ≠ 0 then rtrimChar (fractionText ns) '0' else []

theorem writtenFraction_zero : writtenFraction 0 = [] := if_neg (not_not.mpr rfl)

theorem writtenFraction_pos {ns : ℤ} (hpos : 0 < ns) (hlt : ns < 1000000000) :
    ∃ ds, writtenFraction ns = '.' :: ds ∧ Digits ds ∧
      (value ds : ℤ) * 1000000000 = ns * 10 ^ ds.length := by
  obtain ⟨ds, htext, hds, -, hvalue⟩ := exists_fraction hpos hlt
  refine ⟨ds, ?_, hds, hvalue⟩
  rw [writtenFraction, if_pos hpos.ne', htext]

theorem lt_Z_of_mem {ns : ℤ} (hnonneg : 0 ≤ ns) (hlt : ns < 1000000000) {c : Char}
    (hc : c ∈ writtenFraction ns) : c < 'Z' := by
  rcases hnonneg.eq_or_lt with rfl | hpos
  · rw [writtenFraction_zero] at hc
    cases hc
  · obtain ⟨ds, hfraction, hds, -⟩ := writtenFraction_pos hpos hlt
    rw [hfraction] at hc
    rcases List.mem_cons.mp hc with rfl | hc
    · decide
    · have hdigit := hds c hc
      simp only [Char.isDigit, Bool.and_eq_true, decide_eq_true_eq] at hdigit
      exact lt_of_le_of_lt hdigit.2 (by decide : '9' < 'Z')

/-- The digits of a lesser fraction are before those of a greater one, or they are the beginning
of them. -/
theorem digits_lt_or_isPrefix {ns ns' : ℤ} (hlt : ns < ns') {ds ds' : List Char} (hds : Digits ds)
    (hds' : Digits ds') (hvalue : (value ds : ℤ) * 1000000000 = ns * 10 ^ ds.length)
    (hvalue' : (value ds' : ℤ) * 1000000000 = ns' * 10 ^ ds'.length) :
    ds <+: ds' ∨ ∀ xs ys, ds ++ xs < ds' ++ ys := by
  have hzeros : ∀ n, Digits (List.replicate n '0') := by
    intro n c hc
    rw [List.eq_of_mem_replicate hc]
    decide
  refine isPrefix_or_append_lt (z := '0') (fun c hc => zero_le_of_isDigit (hds c hc))
    (m := ds'.length) (n := ds.length) (Nat.add_comm _ _) ?_
  rw [← value_lt_value_iff (digits_append.mpr ⟨hds, hzeros _⟩) (digits_append.mpr ⟨hds', hzeros _⟩)
    (by simp [Nat.add_comm]), value_replicate_zero, value_replicate_zero]
  -- both are the numbers of units of the same power of ten
  have hpow : (0 : ℤ) < 10 ^ (ds.length + ds'.length) := by positivity
  have hscaled : (value ds * 10 ^ ds'.length : ℤ) * 1000000000 =
      ns * 10 ^ (ds.length + ds'.length) := by
    rw [pow_add, ← mul_assoc, ← hvalue]
    ring
  have hscaled' : (value ds' * 10 ^ ds.length : ℤ) * 1000000000 =
      ns' * 10 ^ (ds.length + ds'.length) := by
    rw [add_comm, pow_add, ← mul_assoc, ← hvalue']
    ring
  have hcast : (value ds * 10 ^ ds'.length : ℤ) < value ds' * 10 ^ ds.length := by
    have hmul := mul_lt_mul_of_pos_right hlt hpow
    rw [← hscaled, ← hscaled'] at hmul
    exact lt_of_mul_lt_mul_right hmul (by decide)
  exact_mod_cast hcast

/-- **Sub-seconds in order.**  The later ones are behind, unless their digits go on where those
of the earlier ones have ended: `Z` is behind every digit. -/
theorem writtenFraction_lt_iff {ns ns' : ℤ} (hnonneg : 0 ≤ ns) (hle : ns ≤ ns')
    (hlt : ns' < 1000000000) :
    writtenFraction ns ++ ['Z'] < writtenFraction ns' ++ ['Z'] ↔
      ¬ writtenFraction ns <+: writtenFraction ns' := by
  constructor
  · rintro hbefore ⟨t, ht⟩
    rw [← ht, List.append_assoc, append_lt_append_left] at hbefore
    cases t with
    | nil => exact absurd hbefore (lt_irrefl _)
    | cons c t =>
        have hc : c < 'Z' := by
          apply lt_Z_of_mem (hnonneg.trans hle) hlt
          rw [← ht]
          exact List.mem_append_right _ List.mem_cons_self
        rcases List.cons_lt_cons_iff.mp hbefore with hZ | ⟨rfl, -⟩
        · exact lt_asymm hc hZ
        · exact lt_irrefl _ hc
  · intro hprefix
    rcases hnonneg.eq_or_lt with rfl | hpos
    · rw [writtenFraction_zero] at hprefix
      exact absurd List.nil_prefix hprefix
    rcases hle.eq_or_lt with rfl | hless
    · exact absurd (List.prefix_refl _) hprefix
    obtain ⟨ds, hfraction, hds, hvalue⟩ := writtenFraction_pos hpos (hless.trans hlt)
    obtain ⟨ds', hfraction', hds', hvalue'⟩ := writtenFraction_pos (hpos.trans hless) hlt
    rw [hfraction, hfraction', List.cons_prefix_cons] at hprefix
    rw [hfraction, hfraction', List.cons_append, List.cons_append, List.cons_lt_cons_iff]
    refine Or.inr ⟨rfl, ?_⟩
    rcases digits_lt_or_isPrefix hless hds hds' hvalue hvalue' with hpre | hbefore
    · exact absurd ⟨rfl, hpre⟩ hprefix
    · exact hbefore _ _

/-! ## Time points -/

section

variable {u : Precision} {rep : Rep} {tp tp' : ℤ}

/-- The text of a time of a four-digit year, in UTC. -/
theorem toIso8601_zulu (p : Platform) {tm : Tm} (h : FourDigit tm) (ns : ℤ) :
    toIso8601 p tm ns =
      secondFormat.flatMap (Item.write tm) ++ (writtenFraction ns ++ ['Z']) := by
  have hprint : secondFormat.flatMap (Item.print tm) = secondFormat.flatMap (Item.write tm) := by
    congr 1
    ext1 item
    exact h.print_eq item
  have hlen : (secondFormat.flatMap (Item.write tm)).length = 19 :=
    length_write fun f _ => h.inRange f
  have hmain : (strftime 20 secondFormat tm).getD p.unspecified =
      secondFormat.flatMap (Item.write tm) := by
    rw [strftime, hprint, if_pos (by rw [hlen])]
    rfl
  rw [toIso8601, hmain, zoneText_zero h.valid.gmtoff, List.append_assoc]
  rfl

/-- The second that a text shows. -/
def Precision.second (u : Precision) (tp : ℤ) : ℤ := tp.tdiv u.perSecond

/-- The sub-seconds that a text shows, with the point before them. -/
def Precision.fraction (u : Precision) (tp : ℤ) : List Char :=
  writtenFraction (writtenNs u (tp.tmod u.perSecond))

/-- What is written of a time point. -/
theorem exists_text (p : Platform) (hyear : FourDigitYear (u.duration rep) tp) :
    ∃ tm, FourDigit tm ∧ timegm tm = u.second tp ∧ toIso8601String p (u.duration rep) tp =
      .ok (secondFormat.flatMap (Item.write tm) ++ (u.fraction tp ++ ['Z'])) := by
  have hsplit := split_tdiv u tp
  obtain ⟨hlo, hhi⟩ := hsplit.bounds hyear
  obtain ⟨tm, htm, hfour, htime⟩ := fourDigit_gmtimeR hlo hhi
  refine ⟨tm, hfour, htime, ?_⟩
  rw [toIso8601String_eq p hyear hsplit htm, toIso8601_zulu p hfour]
  rfl

/-- A later time point is not in an earlier second, and in the same one it has no less
sub-seconds. -/
theorem Split.mono {q r q' r' : ℤ} (h : Split u tp q r) (h' : Split u tp' q' r') (hlt : tp < tp') :
    q ≤ q' ∧ (q = q' → writtenNs u r ≤ writtenNs u r') := by
  obtain ⟨hsum, hlower, hupper, hnonneg, hnonpos⟩ := h
  obtain ⟨hsum', hlower', hupper', hnonneg', hnonpos'⟩ := h'
  constructor
  · cases u <;> simp only [Precision.perSecond, Nat.cast_one, Nat.cast_ofNat] at * <;> omega
  · rintro rfl
    have hless : r < r' := by omega
    unfold writtenNs
    split
    · rw [if_pos (by omega)]
      exact mul_le_mul_of_nonneg_right hless.le (Int.natCast_nonneg _)
    · split
      · rename_i hpos
        exact mul_nonneg hpos.le (Int.natCast_nonneg _)
      · exact le_rfl

/-- **Texts in order.**  Of two time points in the years 1000 to 9999 the text of the later one
is behind that of the earlier one, unless both show the same second and the later one has the
sub-seconds of the earlier one, or none, with more digits behind them. -/
theorem texts_in_order_iff (p : Platform) (hyear : FourDigitYear (u.duration rep) tp)
    (hyear' : FourDigitYear (u.duration rep) tp') (hlt : tp < tp') :
    ∃ s s', toIso8601String p (u.duration rep) tp = .ok s ∧
      toIso8601String p (u.duration rep) tp' = .ok s' ∧
      (s < s' ↔ ¬ (u.second tp = u.second tp' ∧ u.fraction tp <+: u.fraction tp')) := by
  obtain ⟨tm, hfour, htime, htext⟩ := exists_text p hyear
  obtain ⟨tm', hfour', htime', htext'⟩ := exists_text p hyear'
  refine ⟨_, _, htext, htext', ?_⟩
  have hlen : (secondFormat.flatMap (Item.write tm)).length =
      (secondFormat.flatMap (Item.write tm')).length := by
    rw [length_write fun f _ => hfour.inRange f, length_write fun f _ => hfour'.inRange f]
  have hmain : secondFormat.flatMap (Item.write tm) < secondFormat.flatMap (Item.write tm') ↔
      u.second tp < u.second tp' := by
    rw [write_lt_write_iff hfour.inRange hfour'.inRange,
      fieldValues_lt_iff hfour.valid hfour'.valid, htime, htime']
  have hmain' : secondFormat.flatMap (Item.write tm') < secondFormat.flatMap (Item.write tm) ↔
      u.second tp' < u.second tp := by
    rw [write_lt_write_iff hfour'.inRange hfour.inRange,
      fieldValues_lt_iff hfour'.valid hfour.valid, htime, htime']
  obtain ⟨hsecond, hfraction⟩ := (split_tdiv u tp).mono (split_tdiv u tp') hlt
  have hbounds := writtenNs_bounds (split_tdiv u tp)
  have hbounds' := writtenNs_bounds (split_tdiv u tp')
  rw [append_lt_append_iff hlen, hmain]
  rcases (hsecond : u.second tp ≤ u.second tp').lt_or_eq with hless | hsame
  · exact ⟨fun _ hsame => hless.ne hsame.1, fun _ => Or.inl hless⟩
  · have heq : secondFormat.flatMap (Item.write tm) = secondFormat.flatMap (Item.write tm') := by
      rcases lt_trichotomy (secondFormat.flatMap (Item.write tm))
        (secondFormat.flatMap (Item.write tm')) with h | h | h
      · exact absurd hsame (hmain.mp h).ne
      · exact h
      · exact absurd hsame (hmain'.mp h).ne'
    have hfractions : u.fraction tp ++ ['Z'] < u.fraction tp' ++ ['Z'] ↔
        ¬ u.fraction tp <+: u.fraction tp' :=
      writtenFraction_lt_iff hbounds.1 (hfraction hsame) hbounds'.2
    constructor
    · rintro (hless | ⟨-, hbefore⟩) ⟨-, hprefix⟩
      · exact hless.ne hsame
      · exact hfractions.mp hbefore hprefix
    · intro hnot
      exact Or.inr ⟨heq, hfractions.mpr fun hprefix => hnot ⟨hsame, hprefix⟩⟩

/-- One second after the epoch, and half a second and six tenths later. -/
theorem texts_in_order_iff_tenths :
    (∃ s s', toIso8601String .zeroed (Precision.milliseconds.duration .int64) 1000 = .ok s ∧
      toIso8601String .zeroed (Precision.milliseconds.duration .int64) 1500 = .ok s' ∧ ¬ s < s') ∧
    ∃ s s', toIso8601String .zeroed (Precision.milliseconds.duration .int64) 1500 = .ok s ∧
      toIso8601String .zeroed (Precision.milliseconds.duration .int64) 1600 = .ok s' ∧ s < s' := by
  have hyear : ∀ tp : ℤ, 0 ≤ tp → tp ≤ 1600 →
      FourDigitYear (Precision.milliseconds.duration .int64) tp := by
    have hfirst : firstSecond 1000 * 1000 ≤ 0 := by decide
    have hlast : 1600 < firstSecond 10000 * 1000 := by decide
    exact fun tp hlo hhi => ⟨hfirst.trans hlo, hhi.trans_lt hlast⟩
  constructor
  · obtain ⟨s, s', hs, hs', hiff⟩ := texts_in_order_iff .zeroed (hyear 1000 (by decide) (by decide))
      (hyear 1500 (by decide) (by decide)) (by decide)
    exact ⟨s, s', hs, hs', fun hlt => hiff.mp hlt (by decide)⟩
  · obtain ⟨s, s', hs, hs', hiff⟩ := texts_in_order_iff .zeroed (hyear 1500 (by decide) (by decide))
      (hyear 1600 (by decide) (by decide)) (by decide)
    exact ⟨s, s', hs, hs', hiff.mpr (by decide)⟩

end
end KssUtil.Time

import KssUtil.Time.Iso8601Text

/-!
# The grammar of the ISO 8601 reader

`Grammatical` are the texts the reader is for, `Tolerated` those it does not
refuse.  A text is told by its length, and what its parts are read with takes
more than its grammar.
-/

namespace KssUtil.Time

open KssUtil.Foundation KssUtil.Libc

/-- The formats of reduced accuracy. -/
def reducedFormats : List Format :=
  [yearFormat, monthFormat, dayFormat, hourFormat, minuteFormat]

inductive Grammatical : List Char → Prop where
  | reduced {fmt : Format} {tm : Tm} (hfmt : fmt ∈ reducedFormats)
      (hrange : ∀ f, Item.field f ∈ fmt → f.InRange tm) :
      Grammatical (fmt.flatMap (Item.write tm))
  | complete (w : Stamp) : Grammatical w.text

/-! ## What is not refused -/

/-- The formats that are for the whole text. -/
def plainFormats : List Format := reducedFormats ++ [secondFormat, zuluFormat]

/-- What stands after the seconds and before a character of a zone. -/
def fractionPart (s : List Char) : List Char := (s.drop 19).takeWhile fun c => !isZoneChar c

def zonePart (s : List Char) : List Char := (s.drop 19).dropWhile fun c => !isZoneChar c

/-- A point, digits and perhaps an exponent, up to a null character. -/
def TakesFraction (t : List Char) : Prop :=
  ∃ ds rest, cstr t = '.' :: (ds ++ rest) ∧ Digits ds ∧ ds ≠ [] ∧ (rest = [] ∨ IsExponent rest)

/-- A number up to a null character, which may be missing. -/
def TakesInteger (t : List Char) (v : ℤ) : Prop :=
  cstr t = [] ∧ v = 0 ∨ ReadsInteger (cstr t) v []

/-- The minutes are where the length of the zone says; other lengths have none. -/
def minutePart (tz : List Char) : List Char :=
  if tz.length = 5 then (tz.drop 3).take 2
  else if tz.length = 6 then (tz.drop 4).take 2
  else []

structure TakesOffset (tz : List Char) : Prop where
  hours : ∃ h, TakesInteger (tz.take 3) h ∧ -24 ≤ h ∧ h ≤ 24
  colon : tz.length = 6 → tz.getD 3 nul = ':'
  minutes : ∃ m, TakesInteger (minutePart tz) m ∧ 0 ≤ m ∧ m ≤ 59

inductive Tolerated (s : List Char) : Prop where
  | plain {fmt : Format} {rest : List Char} (hfmt : fmt ∈ plainFormats)
      (hlen : s.length = formatWidth fmt) (hmatch : Matches fmt (cstr s) rest)
  | long {rest : List Char} (hlen : 20 < s.length) (hmatch : Matches secondFormat (cstr s) rest)
      (hfraction : fractionPart s = [] ∨ TakesFraction (fractionPart s))
      (hzone : zonePart s = [] ∨ (zonePart s).length = 1 ∨ TakesOffset (zonePart s))

/-! ## Refusals -/

section

variable {α β : Type}

/-- The text is not refused. -/
def Passes (x : Except Exn α) : Prop := x ≠ .error .systemError

theorem passes_ok (a : α) : Passes (.ok a) := by
  intro h
  cases h

theorem not_passes_throwInvalid : ¬ Passes (throwInvalid : Except Exn α) := fun h => h rfl

theorem passes_bind {x : Except Exn α} {f : α → Except Exn β} :
    Passes (x >>= f) ↔ Passes x ∧ ∀ a, x = .ok a → Passes (f a) := by
  cases x with
  | error e =>
      constructor
      · intro h
        constructor
        · rintro heq
          obtain rfl := Except.error.inj heq
          exact h rfl
        · intro a ha
          cases ha
      · rintro ⟨h, -⟩ heq
        obtain rfl := Except.error.inj heq
        exact h rfl
  | ok a =>
      constructor
      · intro h
        refine ⟨passes_ok a, ?_⟩
        rintro b hb
        obtain rfl := Except.ok.inj hb
        exact h
      · rintro ⟨-, h⟩
        exact h a rfl

theorem passes_assertion (ndebug cond : Bool) : Passes (assertion ndebug cond) := by
  unfold assertion
  split
  · exact passes_ok _
  · intro h
    cases h

theorem passes_ite {c : Prop} [Decidable c] {x : Except Exn α} :
    Passes (if c then throwInvalid else x) ↔ ¬c ∧ Passes x := by
  split
  · rename_i hc
    exact iff_of_false not_passes_throwInvalid fun h => h.1 hc
  · rename_i hc
    exact (and_iff_right hc).symm

/-- The text is read or refused. -/
def OnlyRefuses (x : Except Exn α) : Prop := Passes x → ∃ a, x = .ok a

theorem onlyRefuses_ok (a : α) : OnlyRefuses (.ok a) := fun _ => ⟨a, rfl⟩

theorem onlyRefuses_throwInvalid : OnlyRefuses (throwInvalid : Except Exn α) :=
  fun h => absurd h not_passes_throwInvalid

theorem onlyRefuses_ite {c : Prop} [Decidable c] {x : Except Exn α} (hx : OnlyRefuses x) :
    OnlyRefuses (if c then throwInvalid else x) := by
  split
  · exact onlyRefuses_throwInvalid
  · exact hx

theorem onlyRefuses_bind {x : Except Exn α} {f : α → Except Exn β} (hx : OnlyRefuses x)
    (hf : ∀ a, OnlyRefuses (f a)) : OnlyRefuses (x >>= f) := by
  intro h
  obtain ⟨hpass, hrest⟩ := passes_bind.mp h
  obtain ⟨a, rfl⟩ := hx hpass
  exact hf a (hrest a rfl)

/-- Two steps in a row, the first of which never aborts. -/
theorem OnlyRefuses.passes_bind {x : Except Exn α} {f : α → Except Exn β} (hx : OnlyRefuses x) :
    Passes (x >>= f) ↔ ∃ a, x = .ok a ∧ Passes (f a) := by
  constructor
  · intro h
    obtain ⟨hpass, hrest⟩ := Time.passes_bind.mp h
    obtain ⟨a, ha⟩ := hx hpass
    exact ⟨a, ha, hrest a ha⟩
  · rintro ⟨a, rfl, h⟩
    exact h

end

section

variable {s tz : List Char} {v : ℤ} {p : Platform}

/-! ### Numbers -/

theorem toInteger_of_takes (h : TakesInteger s v) : toInteger s = .ok (clampLong v) := by
  rcases h with ⟨hnil, rfl⟩ | h
  · rw [toInteger, hnil]
    rfl
  · rw [toInteger, strtol_of_some (scanInteger_ten.mpr h)]
    rfl

theorem onlyRefuses_toInteger (s : List Char) : OnlyRefuses (toInteger s) :=
  onlyRefuses_ite (onlyRefuses_ok _)

theorem passes_toInteger : Passes (toInteger s) ↔ ∃ v, TakesInteger s v := by
  constructor
  · intro h
    have hend : (strtol (cstr s) 10).endptr = [] := Decidable.not_not.mp (passes_ite.mp h).1
    cases hscan : scanInteger 10 (cstr s) with
    | none =>
        rw [strtol_of_none hscan] at hend
        exact ⟨0, Or.inl ⟨hend, rfl⟩⟩
    | some r =>
        obtain ⟨v, rest⟩ := r
        rw [strtol_of_some hscan] at hend
        have hend : rest = [] := hend
        rw [hend] at hscan
        exact ⟨v, Or.inr (scanInteger_ten.mp hscan)⟩
  · rintro ⟨v, h⟩
    rw [toInteger_of_takes h]
    exact passes_ok _

/-- A number and a test that no number beyond a `long` passes. -/
theorem passes_toInteger_bind {f : ℤ → Except Exn ℤ} {lo hi : ℤ}
    (hf : ∀ v, Passes (f v) ↔ lo ≤ v ∧ v ≤ hi) (hlo : longMin < lo) (hhi : hi < longMax) :
    Passes (toInteger s >>= f) ↔ ∃ v, TakesInteger s v ∧ lo ≤ v ∧ v ≤ hi := by
  have hclamp : ∀ v, (lo ≤ clampLong v ∧ clampLong v ≤ hi) ↔ (lo ≤ v ∧ v ≤ hi) := by
    intro v
    unfold clampLong
    split
    · omega
    · split <;> omega
  constructor
  · intro h
    obtain ⟨hread, hrange⟩ := passes_bind.mp h
    obtain ⟨v, hv⟩ := passes_toInteger.mp hread
    exact ⟨v, hv, (hclamp v).mp ((hf _).mp (hrange _ (toInteger_of_takes hv)))⟩
  · rintro ⟨v, hv, hin⟩
    rw [toInteger_of_takes hv, ok_bind]
    exact (hf _).mpr ((hclamp v).mpr hin)

/-! ### Zones -/

theorem onlyRefuses_parseHourOffset (tz : List Char) : OnlyRefuses (parseHourOffset tz) :=
  onlyRefuses_bind (onlyRefuses_toInteger _) fun _ => onlyRefuses_ite (onlyRefuses_ok _)

theorem passes_parseHourOffset : Passes (parseHourOffset tz) ↔
    ∃ h, TakesInteger (tz.take 3) h ∧ -24 ≤ h ∧ h ≤ 24 := by
  apply passes_toInteger_bind
  · intro v
    rw [passes_ite]
    have hok : Passes (pure v : Except Exn ℤ) := passes_ok v
    rw [and_iff_left hok]
    unfold maxHourOffset
    omega
  · decide
  · decide

theorem minuteOffsetStr_eq :
    minuteOffsetStr tz = if tz.length = 6 ∧ tz.getD 3 nul ≠ ':' then throwInvalid
      else .ok (minutePart tz) := by
  unfold minuteOffsetStr minutePart
  split
  · rename_i hlen
    rw [if_neg (by omega)]
    rfl
  · split
    · rename_i hlen
      split
      · rename_i hcolon
        rw [if_pos ⟨hlen, hcolon⟩]
      · rename_i hcolon
        rw [if_neg fun h => hcolon h.2]
        rfl
    · rename_i hlen
      rw [if_neg fun h => hlen h.1]
      rfl

theorem passes_parseMinuteOffset : Passes (parseMinuteOffset tz) ↔
    (tz.length = 6 → tz.getD 3 nul = ':') ∧
      ∃ m, TakesInteger (minutePart tz) m ∧ 0 ≤ m ∧ m ≤ 59 := by
  have hminutes : Passes (toInteger (minutePart tz) >>= fun minuteOffset =>
      if minuteOffset < 0 ∨ minuteOffset > maximumMinuteOffset then throwInvalid
      else return minuteOffset) ↔ ∃ m, TakesInteger (minutePart tz) m ∧ 0 ≤ m ∧ m ≤ 59 := by
    apply passes_toInteger_bind
    · intro v
      have hok : Passes (pure v : Except Exn ℤ) := passes_ok v
      rw [passes_ite, and_iff_left hok]
      unfold maximumMinuteOffset
      omega
    · decide
    · decide
  rw [parseMinuteOffset, minuteOffsetStr_eq, ← hminutes]
  by_cases hcolon : tz.length = 6 ∧ tz.getD 3 nul ≠ ':'
  · rw [if_pos hcolon]
    exact iff_of_false not_passes_throwInvalid fun h => hcolon.2 (h.1 hcolon.1)
  · rw [if_neg hcolon, ok_bind]
    refine (and_iff_right ?_).symm
    intro hlen
    by_contra hne
    exact hcolon ⟨hlen, hne⟩

theorem passes_parseTimeZone (hs : s ≠ []) (tm : Tm) (start : ℕ) :
    Passes (parseTimeZone p s tm start) ↔
      (s.drop start).length = 1 ∨ TakesOffset (s.drop start) := by
  rw [parseTimeZone, not_isEmpty hs, assertion_bind]
  dsimp only
  generalize s.drop start = tz
  split
  · rename_i hlen
    refine iff_of_true ?_ (Or.inl hlen)
    exact passes_bind.mpr ⟨passes_assertion _ _, fun _ _ => passes_ok tm⟩
  · rename_i hlen
    rw [or_iff_right hlen]
    constructor
    · intro h
      obtain ⟨hhours, -⟩ := passes_bind.mp h
      obtain ⟨v, -, hrest⟩ := (onlyRefuses_parseHourOffset tz).passes_bind.mp h
      obtain ⟨hminutes, -⟩ := passes_bind.mp hrest
      obtain ⟨hcolon, hminutes⟩ := passes_parseMinuteOffset.mp hminutes
      exact ⟨passes_parseHourOffset.mp hhours, hcolon, hminutes⟩
    · rintro ⟨hhours, hcolon, hminutes⟩
      refine passes_bind.mpr ⟨passes_parseHourOffset.mpr hhours, fun h _ => ?_⟩
      exact passes_bind.mpr ⟨passes_parseMinuteOffset.mpr ⟨hcolon, hminutes⟩,
        fun m _ => passes_ok _⟩

theorem passes_parseZone (hs : s ≠ []) (tm : Tm) {zone : Option ℕ} :
    Passes (parseZone p s tm zone) ↔ ∀ start, zone = some start →
      (s.drop start).length = 1 ∨ TakesOffset (s.drop start) := by
  cases zone with
  | none =>
      refine iff_of_true (passes_ok tm) ?_
      intro start h
      cases h
  | some start =>
      rw [parseZone, passes_parseTimeZone hs]
      constructor
      · rintro h start' heq
        obtain rfl := Option.some.inj heq
        exact h
      · intro h
        exact h start rfl

/-! ### Fractions -/

/-- Where the fraction ends and the zone starts. -/
theorem findZone_cases (s : List Char) :
    findZone s 19 = none ∧ fractionPart s = s.drop 19 ∧ zonePart s = [] ∨
      ∃ start, findZone s 19 = some start ∧ nsstr s (some start) = fractionPart s ∧
        s.drop start = zonePart s ∧ zonePart s ≠ [] := by
  unfold findZone fractionPart zonePart nsstr
  generalize ht : s.drop 19 = t
  cases hfind : t.findIdx? isZoneChar with
  | none =>
      left
      have hnone : ∀ c ∈ t, (!isZoneChar c) = true := by
        intro c hc
        rw [List.findIdx?_eq_none_iff.mp hfind c hc]
        rfl
      exact ⟨rfl, List.takeWhile_eq_self_iff.mpr hnone, List.dropWhile_eq_nil_iff.mpr hnone⟩
  | some n =>
      right
      obtain ⟨hlt, hidx⟩ := List.findIdx?_eq_some_iff_findIdx_eq.mp hfind
      have hsub : n + 19 - 19 = n := Nat.add_sub_cancel n 19
      have hdrop : (t.dropWhile fun c => !isZoneChar c) = t.drop n := by
        rw [List.dropWhile_eq_drop_findIdx_not]
        simp only [Bool.not_not]
        rw [hidx]
      refine ⟨n + 19, rfl, ?_, ?_, ?_⟩
      · rw [List.takeWhile_eq_take_findIdx_not]
        simp only [Bool.not_not]
        rw [hsub, hidx]
      · rw [hdrop, ← ht, List.drop_drop, Nat.add_comm]
      · rw [hdrop]
        intro hnil
        exact absurd (List.drop_eq_nil_iff.mp hnil) (Nat.not_le_of_lt hlt)

theorem onlyRefuses_toLdouble (t : List Char) : OnlyRefuses (toLdouble t) :=
  onlyRefuses_ite (onlyRefuses_ok _)

theorem passes_toLdouble {t : List Char} (hpoint : t.head? = some '.') :
    Passes (toLdouble t) ↔ TakesFraction t := by
  obtain ⟨cs, rfl⟩ := List.head?_eq_some_iff.mp hpoint
  have hcstr : cstr ('.' :: cs) = '.' :: cstr cs := by
    rw [cstr, List.takeWhile_cons, if_pos (by decide)]
    rfl
  have hok : ∀ q : ℚ, Passes (pure q : Except Exn ℚ) := passes_ok
  rw [toLdouble, passes_ite, and_iff_left (hok _), not_not, TakesFraction, hcstr,
    strtold_point_nil_iff]
  constructor
  · rintro ⟨ds, rest, hcs, hds, hne, hrest⟩
    exact ⟨ds, rest, by rw [hcs], hds, hne, hrest⟩
  · rintro ⟨ds, rest, hcs, hds, hne, hrest⟩
    exact ⟨ds, rest, (List.cons.inj hcs).2, hds, hne, hrest⟩

/-- The fraction and the zone after it. -/
theorem passes_after_point (hs : s ≠ []) (hpoint : (s.drop 19).head? = some '.') (tm : Tm) :
    Passes (parseNanoseconds p s >>= fun subseconds => parseZone p s tm subseconds.2) ↔
      TakesFraction (fractionPart s) ∧
        (zonePart s = [] ∨ (zonePart s).length = 1 ∨ TakesOffset (zonePart s)) := by
  have hhead : (fractionPart s).head? = some '.' := by
    obtain ⟨cs, hcs⟩ := List.head?_eq_some_iff.mp hpoint
    rw [fractionPart, hcs]
    rfl
  have hnsstr : nsstr s (findZone s 19) = fractionPart s := by
    rcases findZone_cases s with ⟨hzone, hfraction, -⟩ | ⟨start, hzone, hfraction, -⟩
    · rw [hzone, nsstr, hfraction]
    · rw [hzone, hfraction]
  have hzone : Passes (parseZone p s tm (findZone s 19)) ↔
      zonePart s = [] ∨ (zonePart s).length = 1 ∨ TakesOffset (zonePart s) := by
    rw [passes_parseZone hs]
    rcases findZone_cases s with ⟨hzone, -, hpart⟩ | ⟨start, hzone, -, hpart, hne⟩
    · rw [hzone, hpart]
      refine iff_of_true ?_ (Or.inl rfl)
      intro start h
      cases h
    · rw [hzone, or_iff_right hne, ← hpart]
      constructor
      · intro h
        exact h start rfl
      · rintro h start' heq
        obtain rfl := Option.some.inj heq
        exact h
  -- the value of the fraction has no say in whether the zone is read
  have hread : (parseNanoseconds p s >>= fun subseconds => parseZone p s tm subseconds.2) =
      toLdouble (fractionPart s) >>= fun _ => parseZone p s tm (findZone s 19) := by
    rw [parseNanoseconds, not_isEmpty hs, assertion_bind]
    dsimp only
    rw [hnsstr, bind_assoc]
    rfl
  rw [hread]
  constructor
  · intro h
    obtain ⟨hfraction, hrest⟩ := passes_bind.mp h
    obtain ⟨d, -, hrest⟩ := (onlyRefuses_toLdouble _).passes_bind.mp h
    exact ⟨(passes_toLdouble hhead).mp hfraction, hzone.mp hrest⟩
  · rintro ⟨hfraction, hrest⟩
    exact passes_bind.mpr ⟨(passes_toLdouble hhead).mpr hfraction, fun _ _ => hzone.mpr hrest⟩

/-! ### The main portion -/

theorem selectFormat_plain {fmt : Format} (hfmt : fmt ∈ plainFormats)
    (hlen : s.length = formatWidth fmt) : selectFormat s = some { format := fmt } := by
  rw [selectFormat, hlen]
  simp only [plainFormats, reducedFormats, List.cons_append, List.nil_append, List.mem_cons,
    List.not_mem_nil, or_false] at hfmt
  rcases hfmt with rfl | rfl | rfl | rfl | rfl | rfl | rfl <;> rfl

/-- A text of up to 20 characters has a format of its length, if any. -/
theorem selectFormat_short (hlen : s.length ≤ 20)
    (hnone : ∀ fmt ∈ plainFormats, s.length ≠ formatWidth fmt) : selectFormat s = none := by
  have hne : ∀ n ∈ plainFormats.map formatWidth, s.length ≠ n := List.forall_mem_map.mpr hnone
  rw [selectFormat]
  dsimp only
  rw [if_neg (hne 4 (by decide)), if_neg (hne 7 (by decide)), if_neg (hne 10 (by decide)),
    if_neg (hne 13 (by decide)), if_neg (hne 16 (by decide)), if_neg (hne 19 (by decide)),
    if_neg (hne 20 (by decide)), if_neg (Nat.not_lt.mpr hlen)]

theorem parseMainPortion_eq (hs : s ≠ []) {sel : Selection} (hsel : selectFormat s = some sel)
    (hfmt : sel.format ≠ []) : parseMainPortion p s =
      match strptime (cstr s) sel.format ⟨0, 0, 0, 1, 0, 0, 0⟩ with
      | none => throwInvalid
      | some r => .ok (r.2, sel) := by
  cases hread : strptime (cstr s) sel.format ⟨0, 0, 0, 1, 0, 0, 0⟩ with
  | none =>
      rw [parseMainPortion, not_isEmpty hs, assertion_bind, hsel]
      dsimp only
      rw [parse_invalid hs hfmt hread]
      rfl
  | some r => exact parseMainPortion_ok hs hsel (parse_ok hs hfmt hread)

/-- A text that has a format is read if the format matches and the rest is. -/
theorem passes_of_selection (hs : s ≠ []) {sel : Selection} (hsel : selectFormat s = some sel)
    (hfmt : sel.format ≠ []) {after : Prop}
    (hafter : ∀ tm, Passes (parseSubseconds p s sel >>= fun subseconds =>
      parseZone p s tm subseconds.2) ↔ after) :
    Passes (parseIso8601 p s) ↔ (∃ rest, Matches sel.format (cstr s) rest) ∧ after := by
  rw [parseIso8601, if_neg (by simpa using hs), parseMainPortion_eq hs hsel hfmt]
  cases hread : strptime (cstr s) sel.format ⟨0, 0, 0, 1, 0, 0, 0⟩ with
  | none =>
      refine iff_of_false not_passes_throwInvalid ?_
      rintro ⟨⟨rest, hmatch⟩, -⟩
      obtain ⟨tm, htm⟩ := strptime_iff.mpr hmatch
      rw [hread] at htm
      exact Option.some_ne_none _ htm.symm
  | some r =>
      have hmatch : ∃ rest, Matches sel.format (cstr s) rest := ⟨r.1, strptime_iff.mp ⟨r.2, hread⟩⟩
      rw [and_iff_right hmatch, ← hafter r.2]
      dsimp only
      rw [ok_bind, Time.passes_bind, Time.passes_bind]
      refine and_congr_right fun _ => forall_congr' fun a => forall_congr' fun _ => ?_
      rw [Time.passes_bind]
      exact and_iff_left fun _ _ => passes_ok _

theorem not_passes_of_none (hs : s ≠ []) (hsel : selectFormat s = none) :
    ¬ Passes (parseIso8601 p s) := by
  rw [parseIso8601, if_neg (by simpa using hs), parseMainPortion, not_isEmpty hs, assertion_bind,
    hsel]
  exact not_passes_throwInvalid

/-! ### Whole texts -/

theorem width_plainFormats {fmt : Format} (hfmt : fmt ∈ plainFormats) :
    fmt ≠ [] ∧ formatWidth fmt ≤ 20 := by
  have hall : ∀ fmt ∈ plainFormats, fmt ≠ [] ∧ formatWidth fmt ≤ 20 := by decide
  exact hall fmt hfmt

theorem passes_short (hs : s ≠ []) (hlen : s.length ≤ 20) :
    Passes (parseIso8601 p s) ↔ Tolerated s := by
  by_cases hfound : ∃ fmt ∈ plainFormats, s.length = formatWidth fmt
  · obtain ⟨fmt, hfmt, hwidth⟩ := hfound
    have hsel := selectFormat_plain hfmt hwidth
    have hafter : ∀ tm, Passes (parseSubseconds p s { format := fmt } >>= fun subseconds =>
        parseZone p s tm subseconds.2) ↔ True :=
      fun tm => iff_of_true (passes_ok tm) trivial
    rw [passes_of_selection hs hsel (width_plainFormats hfmt).1 hafter, and_iff_left trivial]
    constructor
    · rintro ⟨rest, hmatch⟩
      exact .plain hfmt hwidth hmatch
    · rintro (⟨hfmt', hwidth', hmatch⟩ | ⟨hlong, -, -, -⟩)
      · have hsame := selectFormat_plain hfmt' hwidth'
        rw [hsel] at hsame
        obtain rfl := (Selection.mk.inj (Option.some.inj hsame)).1
        exact ⟨_, hmatch⟩
      · omega
  · have hnone : ∀ fmt ∈ plainFormats, s.length ≠ formatWidth fmt :=
      fun fmt hfmt hwidth => hfound ⟨fmt, hfmt, hwidth⟩
    refine iff_of_false (not_passes_of_none hs (selectFormat_short hlen hnone)) ?_
    rintro (⟨hfmt, hwidth, -⟩ | ⟨hlong, -, -, -⟩)
    · exact hnone _ hfmt hwidth
    · omega

/-- A text longer than the formats is taken in three parts. -/
theorem tolerated_long_iff (hlen : 20 < s.length) :
    Tolerated s ↔ (∃ rest, Matches secondFormat (cstr s) rest) ∧
      (fractionPart s = [] ∨ TakesFraction (fractionPart s)) ∧
        (zonePart s = [] ∨ (zonePart s).length = 1 ∨ TakesOffset (zonePart s)) := by
  constructor
  · rintro (⟨hfmt, hwidth, -⟩ | ⟨-, hmatch, hfraction, hzone⟩)
    · have := (width_plainFormats hfmt).2
      omega
    · exact ⟨⟨_, hmatch⟩, hfraction, hzone⟩
  · rintro ⟨⟨rest, hmatch⟩, hfraction, hzone⟩
    exact .long hlen hmatch hfraction hzone

theorem passes_long (hlen : 20 < s.length) : Passes (parseIso8601 p s) ↔ Tolerated s := by
  have hs : s ≠ [] := List.ne_nil_of_length_pos (by omega)
  obtain ⟨c, tail, htail⟩ : ∃ c tail, s.drop 19 = c :: tail := by
    apply List.exists_cons_of_ne_nil
    intro hnil
    have := List.drop_eq_nil_iff.mp hnil
    omega
  have hchar : s.getD 19 nul = c := by
    rw [List.getD_eq_getElem?_getD, ← List.head?_drop, htail]
    rfl
  have hsel := selectFormat_long hlen
  rw [hchar] at hsel
  rw [tolerated_long_iff hlen]
  -- the character behind the seconds decides what is read next
  by_cases hpoint : c = '.'
  · rw [if_pos hpoint] at hsel
    have hhead : (s.drop 19).head? = some '.' := by rw [htail, hpoint]; rfl
    have hne : fractionPart s ≠ [] := by
      rw [fractionPart, htail, hpoint]
      exact List.cons_ne_nil _ _
    rw [or_iff_right hne]
    exact passes_of_selection hs hsel (by decide) (passes_after_point hs hhead)
  · rw [if_neg hpoint] at hsel
    by_cases hzone : isZoneChar c = true
    · rw [if_pos hzone] at hsel
      have hfraction : fractionPart s = [] := by
        rw [fractionPart, htail, List.takeWhile_cons, hzone]
        rfl
      have hpart : zonePart s = s.drop 19 := by
        rw [zonePart, htail, List.dropWhile_cons, hzone]
        rfl
      have hne : s.drop 19 ≠ [] := by
        rw [htail]
        exact List.cons_ne_nil _ _
      rw [hfraction, hpart, or_iff_right hne, and_iff_right (Or.inl rfl)]
      exact passes_of_selection hs hsel (by decide) fun tm => passes_parseTimeZone hs tm 19
    · rw [if_neg hzone] at hsel
      refine iff_of_false (not_passes_of_none hs hsel) ?_
      have hpart : fractionPart s = c :: tail.takeWhile fun c => !isZoneChar c := by
        rw [fractionPart, htail, List.takeWhile_cons, Bool.eq_false_iff.mpr hzone]
        rfl
      rw [hpart]
      rintro ⟨-, hnil | ⟨ds, rest, htext, -⟩, -⟩
      · exact List.cons_ne_nil _ _ hnil
      · -- the fraction would begin with a point
        rw [cstr, List.takeWhile_cons] at htext
        split at htext
        · exact hpoint (List.cons.inj htext).1
        · exact List.cons_ne_nil _ _ htext.symm

/-- **What the reader refuses** is what is not tolerated. -/
theorem passes_parseIso8601 (hs : s ≠ []) : Passes (parseIso8601 p s) ↔ Tolerated s := by
  rcases Nat.lt_or_ge 20 s.length with hlen | hlen
  · exact passes_long hlen
  · exact passes_short hs hlen

/-! ### The grammar -/

/-- The characters of date-time texts. -/
def isTextChar (c : Char) : Bool := c.isDigit || ['-', 'T', ':', '.', '+', 'Z'].contains c

theorem isTextChar_digits {ds : List Char} (h : Digits ds) {c : Char} (hc : c ∈ ds) :
    isTextChar c = true := by
  rw [isTextChar, h c hc, Bool.true_or]

theorem isTextChar_write {fmt : Format} (hfmt : fmt ∈ plainFormats) {tm : Tm} {c : Char}
    (hc : c ∈ fmt.flatMap (Item.write tm)) : isTextChar c = true := by
  rcases mem_write hc with hdigit | hlit
  · rw [isTextChar, hdigit, Bool.true_or]
  · have hall : ∀ fmt ∈ plainFormats, ∀ item ∈ fmt,
        (match item with
          | .lit c => isTextChar c
          | .field _ => true) = true := by
      decide
    exact hall fmt hfmt (.lit c) hlit

theorem isTextChar_zone {z : Zone} {c : Char} (hc : c ∈ z.text) : isTextChar c = true := by
  cases z with
  | absent => exact absurd hc List.not_mem_nil
  | zulu =>
      rw [List.mem_singleton.mp hc]
      decide
  | offset o =>
      rcases List.mem_cons.mp hc with rfl | hc
      · unfold Offset.sign
        split <;> decide
      · rcases List.mem_append.mp hc with hc | hc
        · exact isTextChar_digits (digits_padded _ _) hc
        · unfold Offset.minuteText at hc
          split at hc
          · exact absurd hc List.not_mem_nil
          · exact isTextChar_digits (digits_padded _ _) hc
          · rcases List.mem_cons.mp hc with rfl | hc
            · decide
            · exact isTextChar_digits (digits_padded _ _) hc

theorem Grammatical.isTextChar (h : Grammatical s) : ∀ c ∈ s, isTextChar c = true := by
  intro c hc
  cases h with
  | reduced hfmt hrange => exact isTextChar_write (List.mem_append_left _ hfmt) hc
  | complete w =>
      rcases List.mem_append.mp hc with hc | hc
      · exact isTextChar_write (by decide) hc
      · rcases List.mem_append.mp hc with hc | hc
        · unfold Stamp.fractionText at hc
          split at hc
          · exact absurd hc List.not_mem_nil
          · rcases List.mem_cons.mp hc with rfl | hc
            · decide
            · exact isTextChar_digits w.digits hc
        · exact isTextChar_zone hc

/-- A text of the grammar is read. -/
theorem Grammatical.accepted (h : Grammatical s) (p : Platform) :
    ∃ r, parseIso8601 p s = .ok r := by
  have hnul : ∀ c ∈ s, c ≠ nul := by
    rintro c hc rfl
    exact absurd (h.isTextChar _ hc) (by decide)
  cases h with
  | reduced hfmt hrange =>
      rename_i fmt tm
      have hplain : fmt ∈ plainFormats := List.mem_append_left _ hfmt
      have hwidth := length_write hrange
      have hne : fmt.flatMap (Item.write tm) ≠ [] := by
        apply List.ne_nil_of_length_pos
        have hall : ∀ fmt ∈ plainFormats, 0 < formatWidth fmt := by decide
        rw [hwidth]
        exact hall fmt hplain
      have hread := strptime_write hrange [] ⟨0, 0, 0, 1, 0, 0, 0⟩
      rw [List.append_nil] at hread
      rw [← cstr_of_ne hnul] at hread
      have hmain := parseMainPortion_ok hne (selectFormat_plain hplain hwidth)
        (parse_ok (p := p) hne (width_plainFormats hplain).1 hread)
      exact ⟨_, parseIso8601_ok hne hmain rfl rfl⟩
  | complete w => exact ⟨_, w.parseIso8601_text p⟩

/-- The text is read if it is grammatical, and refused if it is not. -/
def FollowsGrammar (p : Platform) (s : List Char) : Prop :=
  ((∃ r, parseIso8601 p s = .ok r) ↔ Grammatical s) ∧
    (¬ Grammatical s → parseIso8601 p s = .error .systemError)

theorem followsGrammar_iff (p : Platform) :
    FollowsGrammar p s ↔ (Grammatical s ∨ parseIso8601 p s = .error .systemError) := by
  constructor
  · rintro ⟨-, hrefused⟩
    by_cases hg : Grammatical s
    · exact Or.inl hg
    · exact Or.inr (hrefused hg)
  · rintro (hg | hrefused)
    · exact ⟨iff_of_true (hg.accepted p) hg, fun h => absurd hg h⟩
    · have hread : ¬ ∃ r, parseIso8601 p s = .ok r := by
        rintro ⟨r, hr⟩
        rw [hr] at hrefused
        cases hrefused
      exact ⟨iff_of_false hread fun hg => hread (hg.accepted p), fun _ => hrefused⟩

/-- **The grammar of the reader.**  It decides the grammar on the grammatical texts
and on those it does not tolerate. -/
theorem follows_grammar_iff_not_tolerated (p : Platform) (hs : s ≠ []) :
    FollowsGrammar p s ↔ (Grammatical s ∨ ¬ Tolerated s) := by
  rw [followsGrammar_iff p, ← passes_parseIso8601 (p := p) hs, Passes, not_not]

theorem follows_grammar_iff_not_tolerated_short :
    FollowsGrammar .zeroed "201708".toList := by
  refine (follows_grammar_iff_not_tolerated .zeroed (by decide)).mpr (Or.inr ?_)
  rintro (⟨hfmt, hwidth, -⟩ | ⟨hlong, -, -, -⟩)
  · have hall : ∀ fmt ∈ plainFormats, "201708".toList.length ≠ formatWidth fmt := by decide
    exact hall _ hfmt hwidth
  · exact absurd hlong (by decide)

/-- Text after the offset is not looked at. -/
theorem trailing_text_is_accepted :
    ¬ ∀ (p : Platform) (s : List Char), s ≠ [] → FollowsGrammar p s := by
  intro h
  have hfollows := h .zeroed "2017-08-07T12:00:00+02:00garbage".toList (by decide)
  have hread : (parseIso8601 .zeroed "2017-08-07T12:00:00+02:00garbage".toList).isOk = true := by
    decide +kernel
  rcases (followsGrammar_iff _).mp hfollows with hg | hrefused
  · have hletter := hg.isTextChar 'g' (by decide)
    exact absurd hletter (by decide)
  · rw [hrefused] at hread
    exact Bool.false_ne_true hread

end
end KssUtil.Time

import KssUtil.Time.Iso8601Grammar

/-!
# The assertions of the ISO 8601 reader

A zone of one character is asserted to be `Z`.  Right after the seconds that follows
from the length of the text; after a fraction nothing does, and a sign at the very end
fails the assertion.
-/

namespace KssUtil.Time

open KssUtil.Foundation KssUtil.Libc

section

variable {p : Platform} {s : List Char}

/-! ## The parts after a point -/

/-- What becomes of the time with a zone of the text `tz`. -/
def zoneResult (p : Platform) (tm : Tm) (tz : List Char) : Except Exn Tm :=
  if tz = [] then return tm
  else if tz.length = 1 then do
    assertion p.ndebug (tz.head? = some 'Z')
    return tm
  else do
    let hourOffset ← parseHourOffset tz
    let minuteOffset ← parseMinuteOffset tz
    return shiftTimeZone tm hourOffset minuteOffset

theorem parseTimeZone_eq (hs : s ≠ []) (tm : Tm) {start : ℕ} (hne : s.drop start ≠ []) :
    parseTimeZone p s tm start = zoneResult p tm (s.drop start) := by
  rw [parseTimeZone, not_isEmpty hs, assertion_bind, zoneResult, if_neg hne]

theorem parseZone_eq (hs : s ≠ []) (tm : Tm) :
    parseZone p s tm (findZone s 19) = zoneResult p tm (zonePart s) := by
  rcases findZone_cases s with ⟨hzone, -, hpart⟩ | ⟨start, hzone, -, hpart, hne⟩
  · rw [hzone, hpart]
    rfl
  · rw [← hpart] at hne
    rw [hzone, ← hpart]
    exact parseTimeZone_eq hs tm hne

/-- After a point the fraction and the zone are read. -/
theorem parseIso8601_point (p : Platform) (hlen : 20 < s.length)
    (hpoint : (s.drop 19).head? = some '.') : parseIso8601 p s =
      match strptime (cstr s) secondFormat ⟨0, 0, 0, 1, 0, 0, 0⟩ with
      | none => throwInvalid
      | some r => do
          let d ← toLdouble (fractionPart s)
          let tm ← zoneResult p r.2 (zonePart s)
          return (tm, castToRep p (roundHalfAway (d * 1000000000))) := by
  have hs : s ≠ [] := List.ne_nil_of_length_pos (by omega)
  have hchar : s.getD 19 nul = '.' := by
    rw [List.getD_eq_getElem?_getD, ← List.head?_drop, hpoint]
    rfl
  have hsel := selectFormat_long hlen
  rw [hchar, if_pos rfl] at hsel
  have hnsstr : nsstr s (findZone s 19) = fractionPart s := by
    rcases findZone_cases s with ⟨hzone, hfraction, -⟩ | ⟨start, hzone, hfraction, -⟩
    · rw [hzone, nsstr, hfraction]
    · rw [hzone, hfraction]
  rw [parseIso8601, if_neg (by simpa using hs), parseMainPortion_eq hs hsel (by decide)]
  cases strptime (cstr s) secondFormat ⟨0, 0, 0, 1, 0, 0, 0⟩ with
  | none => rfl
  | some r =>
      dsimp only
      rw [ok_bind, parseSubseconds, if_pos rfl, parseNanoseconds, not_isEmpty hs, assertion_bind]
      dsimp only
      rw [hnsstr, bind_assoc]
      congr 1
      funext d
      rw [pure_bind]
      show (parseZone p s r.2 (findZone s 19) >>= _) = _
      rw [parseZone_eq hs]

/-! ## Steps that only read or refuse -/

theorem onlyRefuses_iff {α : Type} {x : Except Exn α} :
    OnlyRefuses x ↔ (∃ a, x = .ok a) ∨ x = .error .systemError := by
  rw [OnlyRefuses, Passes, ← or_iff_not_imp_left, or_comm]

theorem onlyRefuses_parseMinuteOffset (tz : List Char) : OnlyRefuses (parseMinuteOffset tz) := by
  refine onlyRefuses_bind ?_ fun _ =>
    onlyRefuses_bind (onlyRefuses_toInteger _) fun _ => onlyRefuses_ite (onlyRefuses_ok _)
  rw [minuteOffsetStr_eq]
  exact onlyRefuses_ite (onlyRefuses_ok _)

/-- Only a lone character that is not `Z` fails the assertion on the zone. -/
theorem onlyRefuses_zoneResult {tm : Tm} {tz : List Char}
    (h : tz.length = 1 → tz.head? = some 'Z') : OnlyRefuses (zoneResult p tm tz) := by
  unfold zoneResult
  split
  · exact onlyRefuses_ok tm
  · split
    · rename_i hlen
      rw [decide_eq_true (h hlen), assertion_bind]
      exact onlyRefuses_ok tm
    · exact onlyRefuses_bind (onlyRefuses_parseHourOffset tz) fun _ =>
        onlyRefuses_bind (onlyRefuses_parseMinuteOffset tz) fun _ => onlyRefuses_ok _

/-- What is selected where no point follows the seconds: sub-seconds are not needed,
and a zone is at least two characters long. -/
theorem selectFormat_of_not_point (hpoint : ¬(20 < s.length ∧ (s.drop 19).head? = some '.'))
    {sel : Selection} (hsel : selectFormat s = some sel) :
    sel.format ≠ [] ∧ sel.needToParseNanoseconds = false ∧
      (sel.needToParseTimeZone = true → sel.timeZoneStart = 19 ∧ 20 < s.length) := by
  rcases Nat.lt_or_ge 20 s.length with hlen | hlen
  · have hchar : s.getD 19 nul ≠ '.' := by
      intro hc
      rw [List.getD_eq_getElem?_getD, List.getElem?_eq_getElem (by omega), Option.getD_some] at hc
      apply hpoint
      rw [List.head?_drop, List.getElem?_eq_getElem (by omega), hc]
      exact ⟨hlen, rfl⟩
    rw [selectFormat_long hlen, if_neg hchar] at hsel
    split at hsel
    · obtain rfl := Option.some.inj hsel
      exact ⟨by decide, rfl, fun _ => ⟨rfl, hlen⟩⟩
    · exact absurd hsel.symm (Option.some_ne_none sel)
  · by_cases hfound : ∃ fmt ∈ plainFormats, s.length = formatWidth fmt
    · obtain ⟨fmt, hfmt, hwidth⟩ := hfound
      rw [selectFormat_plain hfmt hwidth] at hsel
      obtain rfl := Option.some.inj hsel
      exact ⟨(width_plainFormats hfmt).1, rfl, fun h => absurd h Bool.false_ne_true⟩
    · have hnone : ∀ fmt ∈ plainFormats, s.length ≠ formatWidth fmt :=
        fun fmt hfmt hwidth => hfound ⟨fmt, hfmt, hwidth⟩
      rw [selectFormat_short hlen hnone] at hsel
      exact absurd hsel.symm (Option.some_ne_none sel)

/-- Without a point the main portion and the zone are all there is to a text. -/
theorem parseIso8601_no_point (p : Platform) (hs : s ≠ [])
    (hpoint : ¬(20 < s.length ∧ (s.drop 19).head? = some '.')) :
    parseIso8601 p s = .error .systemError ∨
      ∃ tm zone, parseIso8601 p s = (zoneResult p tm zone >>= fun tm => return (tm, 0)) ∧
        zone.length ≠ 1 := by
  cases hsel : selectFormat s with
  | none =>
      left
      rw [parseIso8601, if_neg (by simpa using hs), parseMainPortion, not_isEmpty hs,
        assertion_bind, hsel]
      rfl
  | some sel =>
      obtain ⟨hfmt, hns, hzone⟩ := selectFormat_of_not_point hpoint hsel
      rw [parseIso8601, if_neg (by simpa using hs), parseMainPortion_eq hs hsel hfmt]
      cases strptime (cstr s) sel.format ⟨0, 0, 0, 1, 0, 0, 0⟩ with
      | none => exact Or.inl rfl
      | some r =>
          right
          dsimp only
          rw [ok_bind, parseSubseconds, if_neg (by rw [hns]; decide), pure_bind]
          dsimp only
          by_cases hneed : sel.needToParseTimeZone = true
          · obtain ⟨hstart, hlen⟩ := hzone hneed
            have hdrop : (s.drop 19).length ≠ 1 ∧ s.drop 19 ≠ [] := by
              rw [List.length_drop]
              refine ⟨by omega, fun hnil => ?_⟩
              have := List.drop_eq_nil_iff.mp hnil
              omega
            rw [if_pos hneed, hstart, parseZone, parseTimeZone_eq hs r.2 hdrop.2]
            exact ⟨r.2, s.drop 19, rfl, hdrop.1⟩
          · rw [if_neg hneed]
            exact ⟨r.2, [], rfl, by decide⟩

/-! ## The assertion that fails -/

/-- The text is read or refused: every assertion that is reached holds. -/
def AssertionsHold (p : Platform) (s : List Char) : Prop :=
  (∃ r, parseIso8601 p s = .ok r) ∨ parseIso8601 p s = .error .systemError

/-- After the seconds a fraction that is read, and after that a sign alone. -/
structure LoneSign (s : List Char) : Prop where
  length : 20 < s.length
  point : (s.drop 19).head? = some '.'
  main : ∃ rest, Matches secondFormat (cstr s) rest
  fraction : TakesFraction (fractionPart s)
  sign : zonePart s = ['-'] ∨ zonePart s = ['+']

/-- The zone begins with one of its characters. -/
theorem isZoneChar_zonePart {c : Char} {cs : List Char} (h : zonePart s = c :: cs) :
    isZoneChar c = true := by
  have hstop := stops_dropWhile (fun c => !isZoneChar c) (s.drop 19)
  rw [zonePart] at h
  rw [h, stops_cons, Bool.not_eq_false'] at hstop
  exact hstop

theorem sign_or_zulu (hlen : (zonePart s).length = 1) :
    (zonePart s = ['-'] ∨ zonePart s = ['+']) ∨ zonePart s = ['Z'] := by
  obtain ⟨c, hc⟩ := List.length_eq_one_iff.mp hlen
  have hchar := isZoneChar_zonePart hc
  rw [isZoneChar, decide_eq_true_eq] at hchar
  rw [hc]
  rcases hchar with rfl | rfl | rfl
  · exact Or.inl (Or.inl rfl)
  · exact Or.inl (Or.inr rfl)
  · exact Or.inr rfl

theorem head?_fractionPart (hpoint : (s.drop 19).head? = some '.') :
    (fractionPart s).head? = some '.' := by
  obtain ⟨cs, hcs⟩ := List.head?_eq_some_iff.mp hpoint
  rw [fractionPart, hcs]
  rfl

theorem zoneResult_sign (hassert : p.ndebug = false) (tm : Tm) {tz : List Char}
    (h : tz = ['-'] ∨ tz = ['+']) : zoneResult p tm tz = .error .aborted := by
  rw [zoneResult, hassert]
  rcases h with rfl | rfl <;> rfl

theorem not_onlyRefuses_aborted {α : Type} :
    ¬ OnlyRefuses (.error .aborted : Except Exn α) := by
  rw [onlyRefuses_iff]
  rintro (⟨a, h⟩ | h)
  · cases h
  · cases h

/-- **Which assertion fails, and where.**  With assertions compiled in, all that are
reached hold, and a text that is not read is refused, except where a sign alone
follows a fraction. -/
theorem assertions_hold_iff (p : Platform) (hassert : p.ndebug = false) (hs : s ≠ []) :
    AssertionsHold p s ↔ ¬ LoneSign s := by
  rw [AssertionsHold, ← onlyRefuses_iff]
  by_cases hpoint : 20 < s.length ∧ (s.drop 19).head? = some '.'
  · obtain ⟨hlen, hpoint⟩ := hpoint
    have hhead := head?_fractionPart hpoint
    rw [parseIso8601_point p hlen hpoint]
    by_cases hlone : LoneSign s
    · obtain ⟨rest, hmatch⟩ := hlone.main
      obtain ⟨tm, htm⟩ := strptime_iff.mpr hmatch
      obtain ⟨d, hd⟩ := onlyRefuses_toLdouble _ ((passes_toLdouble hhead).mpr hlone.fraction)
      rw [htm]
      dsimp only
      rw [hd, ok_bind, zoneResult_sign hassert tm hlone.sign]
      exact iff_of_false not_onlyRefuses_aborted (not_not.mpr hlone)
    · refine iff_of_true ?_ hlone
      cases hread : strptime (cstr s) secondFormat ⟨0, 0, 0, 1, 0, 0, 0⟩ with
      | none => exact onlyRefuses_throwInvalid
      | some r =>
          intro hpass
          dsimp only at hpass ⊢
          -- a fraction that is refused keeps the zone from being looked at
          obtain ⟨hfraction, -⟩ := passes_bind.mp hpass
          have hfraction := (passes_toLdouble hhead).mp hfraction
          have hzulu : (zonePart s).length = 1 → (zonePart s).head? = some 'Z' := by
            intro hone
            rcases sign_or_zulu hone with hsign | hzulu
            · exact absurd ⟨hlen, hpoint, ⟨r.1, strptime_iff.mp ⟨r.2, hread⟩⟩, hfraction, hsign⟩
                hlone
            · rw [hzulu]
              rfl
          exact onlyRefuses_bind (onlyRefuses_toLdouble _) (fun _ =>
            onlyRefuses_bind (onlyRefuses_zoneResult hzulu) fun _ => onlyRefuses_ok _) hpass
  · have hlone : ¬ LoneSign s := fun h => hpoint ⟨h.length, h.point⟩
    refine iff_of_true ?_ hlone
    rcases parseIso8601_no_point p hs hpoint with hrefused | ⟨tm, zone, hread, hlen⟩
    · rw [hrefused]
      exact onlyRefuses_throwInvalid
    · rw [hread]
      exact onlyRefuses_bind (onlyRefuses_zoneResult fun h => absurd h hlen) fun _ =>
        onlyRefuses_ok _

/-- Assertions compiled in. -/
def Platform.asserting : Platform := { Platform.zeroed with ndebug := false }

theorem assertions_hold_iff_zulu :
    AssertionsHold .asserting "2017-08-07T12:00:00.5Z".toList := by
  refine (assertions_hold_iff .asserting rfl (by decide)).mpr ?_
  rintro ⟨-, -, -, -, hsign⟩
  exact absurd hsign (by decide)

/-- A fraction with a minus after it. -/
theorem lone_sign_aborts : ¬ ∀ (p : Platform) (s : List Char), s ≠ [] → AssertionsHold p s := by
  intro h
  have haborted : parseIso8601 .asserting "2017-08-07T12:00:00.5-".toList =
      .error .aborted := by
    decide +kernel
  rcases h .asserting "2017-08-07T12:00:00.5-".toList (by decide) with ⟨r, hr⟩ | hr
  · rw [haborted] at hr
    cases hr
  · rw [haborted] at hr
    cases hr

end
end KssUtil.Time

import KssUtil.Time.Iso8601

/-!
# The two formatters

`formatIso8601` tries again with a larger buffer until the text fits into it.
`toIso8601` has room for nineteen characters and does not ask whether they were
enough.
-/

namespace KssUtil.Time

open KssUtil.Foundation KssUtil.Libc

/-- "%H:%M:%S" -/
def timeFormat : Format := [.field .H, .lit ':', .field .M, .lit ':', .field .S]

/-- The conversions of a format text. -/
def ofText : List Char → Format
  | '%' :: 'F' :: cs => dayFormat ++ ofText cs
  | '%' :: 'T' :: cs => timeFormat ++ ofText cs
  | '%' :: 'Y' :: cs => .field .Y :: ofText cs
  | '%' :: 'm' :: cs => .field .m :: ofText cs
  | '%' :: 'd' :: cs => .field .d :: ofText cs
  | '%' :: 'H' :: cs => .field .H :: ofText cs
  | '%' :: 'M' :: cs => .field .M :: ofText cs
  | '%' :: 'S' :: cs => .field .S :: ofText cs
  | c :: cs => .lit c :: ofText cs
  | [] => []

/-- `strftime` returns the length of the text, so an empty one is a failure too. -/
def ftimeWithBuffer (format : List Char) (tm : Tm) (bufsiz : ℕ) : Option (List Char) :=
  (strftime bufsiz (ofText format) tm).filter (· ≠ [])

/-- `while (!ftime_with_buffer(...))`, for so many rounds. -/
def growBuffer (fmt : List Char) (tm : Tm) : ℕ → ℕ → Option (List Char)
  | 0, _ => none
  | fuel + 1, bufsiz =>
      match ftimeWithBuffer fmt tm bufsiz with
      | some ret => some ret
      | none => growBuffer fmt tm fuel (bufsiz + bufsiz / 2)

/-- `_private::format` -/
def format (fuel : ℕ) (fmt : List Char) (tm : Tm) : Option (List Char) :=
  growBuffer fmt tm fuel (fmt.length + 100)

def formatIso8601 (fuel : ℕ) (tm : Tm) : Option (List Char) := format fuel "%FT%TZ".toList tm

/-! ## The growing buffer -/

section

variable {fmt text r : List Char} {tm : Tm} {fuel bufsiz : ℕ}

theorem ftimeWithBuffer_eq (htext : (ofText fmt).flatMap (Item.print tm) = text) (hne : text ≠ []) :
    ftimeWithBuffer fmt tm bufsiz = if text.length + 1 ≤ bufsiz then some text else none := by
  rw [ftimeWithBuffer, strftime, htext]
  split
  · exact Option.filter_some_pos (decide_eq_true hne)
  · rfl

/-- A buffer of two characters or more grows in each round. -/
theorem growBuffer_eq (htext : (ofText fmt).flatMap (Item.print tm) = text) (hne : text ≠ [])
    (hbufsiz : 2 ≤ bufsiz) (hfuel : text.length + 2 ≤ bufsiz + fuel) :
    growBuffer fmt tm (fuel + 1) bufsiz = some text := by
  induction fuel generalizing bufsiz with
  | zero =>
      rw [growBuffer, ftimeWithBuffer_eq htext hne, if_pos (by omega)]
  | succ fuel ih =>
      rw [growBuffer, ftimeWithBuffer_eq htext hne]
      split
      · rename_i hfit
        split at hfit
        · exact hfit.symm
        · cases hfit
      · exact ih (by omega) (by omega)

theorem eq_of_growBuffer (htext : (ofText fmt).flatMap (Item.print tm) = text) (hne : text ≠ [])
    (h : growBuffer fmt tm fuel bufsiz = some r) : r = text := by
  induction fuel generalizing bufsiz with
  | zero => cases h
  | succ fuel ih =>
      rw [growBuffer, ftimeWithBuffer_eq htext hne] at h
      split at h
      · rename_i hfit
        split at hfit
        · exact (Option.some.inj h).symm.trans (Option.some.inj hfit).symm
        · cases hfit
      · exact ih h

end

/-! ## What is written -/

section

variable {tm : Tm}

/-- The date and the time, however long they are. -/
def mainPortion (tm : Tm) : List Char := secondFormat.flatMap (Item.print tm)

theorem flatMap_ofText (tm : Tm) :
    (ofText "%FT%TZ".toList).flatMap (Item.print tm) = mainPortion tm ++ ['Z'] := by
  show (secondFormat ++ [Item.lit 'Z']).flatMap (Item.print tm) = _
  rw [List.flatMap_append]
  rfl

/-- **The full text** is returned in the end, and nothing else. -/
theorem formatIso8601_eq_iff (tm : Tm) (r : List Char) :
    (∃ fuel, formatIso8601 fuel tm = some r) ↔ r = mainPortion tm ++ ['Z'] := by
  have hne : mainPortion tm ++ ['Z'] ≠ [] := List.append_ne_nil_of_right_ne_nil _ (by decide)
  constructor
  · rintro ⟨fuel, h⟩
    exact eq_of_growBuffer (flatMap_ofText tm) hne h
  · rintro rfl
    refine ⟨(mainPortion tm ++ ['Z']).length + 1, ?_⟩
    exact growBuffer_eq (flatMap_ofText tm) hne (by omega) (by omega)

/-- The characters of the fields. -/
def printedLength (tm : Tm) : ℕ :=
  ([.Y, .m, .d, .H, .M, .S].map fun f => (Item.print tm (.field f)).length).sum

theorem length_mainPortion (tm : Tm) : (mainPortion tm).length = printedLength tm + 5 := by
  have hlit : ∀ c, (Item.print tm (.lit c)).length = 1 := fun _ => rfl
  rw [mainPortion, List.length_flatMap, printedLength]
  simp only [secondFormat, minuteFormat, hourFormat, dayFormat, monthFormat, yearFormat,
    List.map_append, List.map_cons, List.map_nil, List.sum_append, List.sum_cons, List.sum_nil,
    hlit]
  omega

theorem toIso8601_zero (p : Platform) (hutc : tm.gmtoff = 0) :
    toIso8601 p tm 0 = (strftime 20 secondFormat tm).getD p.unspecified ++ ['Z'] := by
  have hzone : zoneText tm.gmtoff = ['Z'] := if_pos hutc
  have hfraction : (if (0 : ℤ) ≠ 0 then rtrimChar (fractionText 0) '0' else []) = [] := rfl
  rw [toIso8601, hzone, hfraction, List.append_nil]

/-- The formatters return the same text, whatever a `strftime` that fails leaves behind. -/
def FormattersAgree (tm : Tm) : Prop :=
  ∀ p : Platform, ∃ fuel, formatIso8601 fuel tm = some (toIso8601 p tm 0)

/-- **When the formatters agree**: the fields take fourteen characters at most. -/
theorem formatters_agree_iff (hutc : tm.gmtoff = 0) :
    FormattersAgree tm ↔ printedLength tm ≤ 14 := by
  have hlength := length_mainPortion tm
  constructor
  · intro h
    by_contra hlong
    have hnone : strftime 20 secondFormat tm = none := if_neg (by
      show ¬ (mainPortion tm).length + 1 ≤ 20
      omega)
    -- an empty buffer is shorter than any date
    have hsame := (formatIso8601_eq_iff tm _).mp (h .zeroed)
    rw [toIso8601_zero .zeroed hutc, hnone] at hsame
    have hempty : [] = mainPortion tm := List.append_cancel_right hsame
    rw [← hempty, List.length_nil] at hlength
    omega
  · intro hshort p
    have hsome : strftime 20 secondFormat tm = some (mainPortion tm) := if_pos (by
      show (mainPortion tm).length + 1 ≤ 20
      omega)
    rw [formatIso8601_eq_iff, toIso8601_zero p hutc, hsome]
    rfl

theorem formatters_agree_iff_1970 : FormattersAgree ⟨0, 0, 0, 1, 0, 70, 0⟩ :=
  (formatters_agree_iff rfl).mpr (by decide +kernel)

/-- The year 10000 does not fit, and `strftime` writes nothing. -/
theorem formatters_disagree_in_year_10000 :
    formatIso8601 1 ⟨0, 0, 0, 1, 0, 8100, 0⟩ = some "10000-01-01T00:00:00Z".toList ∧
      toIso8601 .zeroed ⟨0, 0, 0, 1, 0, 8100, 0⟩ 0 = "Z".toList ∧
        ¬ ∀ tm : Tm, tm.gmtoff = 0 → FormattersAgree tm := by
  have hformat : formatIso8601 1 ⟨0, 0, 0, 1, 0, 8100, 0⟩ =
      some "10000-01-01T00:00:00Z".toList := by
    decide +kernel
  have hto : toIso8601 .zeroed ⟨0, 0, 0, 1, 0, 8100, 0⟩ 0 = "Z".toList := by decide +kernel
  refine ⟨hformat, hto, fun h => ?_⟩
  have hfull := (formatIso8601_eq_iff _ _).mp ⟨1, hformat⟩
  have hsame := (formatIso8601_eq_iff _ _).mp (h ⟨0, 0, 0, 1, 0, 8100, 0⟩ rfl .zeroed)
  rw [hto, ← hfull] at hsame
  exact absurd hsame (by decide)

/-! ## The years that fit -/

theorem length_printfZero_le_iff (n : ℤ) :
    (printfZero 1 n).length ≤ 4 ↔ -999 ≤ n ∧ n ≤ 9999 := by
  rw [printfZero]
  split
  · rw [List.length_cons, Nat.succ_le_succ_iff, length_padded_le_iff (by decide) (by decide)]
    omega
  · rw [length_padded_le_iff (by decide) (by decide)]
    omega

/-- With two digits for each of the other fields the year may have four, or three and a
sign. -/
theorem printedLength_le_iff (h : ∀ f : Field, f ≠ .Y → 0 ≤ f.get tm ∧ f.get tm ≤ 99) :
    printedLength tm ≤ 14 ↔ -999 ≤ tm.year + 1900 ∧ tm.year + 1900 ≤ 9999 := by
  have htwo : ∀ n : ℤ, 0 ≤ n ∧ n ≤ 99 → (printfZero 2 n).length = 2 := by
    rintro n ⟨hlo, hhi⟩
    rw [printfZero_of_nonneg hlo, length_padded (by decide) (by omega)]
  have hsum : printedLength tm = (printfZero 1 (tm.year + 1900)).length + 10 := by
    show (printfZero 1 (tm.year + 1900)).length + ((printfZero 2 (Field.m.get tm)).length +
      ((printfZero 2 (Field.d.get tm)).length + ((printfZero 2 (Field.H.get tm)).length +
        ((printfZero 2 (Field.M.get tm)).length + ((printfZero 2 (Field.S.get tm)).length +
          0))))) = _
    rw [htwo _ (h .m (by decide)), htwo _ (h .d (by decide)), htwo _ (h .H (by decide)),
      htwo _ (h .M (by decide)), htwo _ (h .S (by decide))]
  rw [hsum, ← length_printfZero_le_iff]
  omega

end
end KssUtil.Time

import KssUtil.Strings.Convert

/-!
# Texts of durations

What `convert` makes of the texts that are an integer and a unit, and of all
others.
-/

namespace KssUtil.Strings

open KssUtil.Foundation KssUtil.Libc KssUtil.Time

/-! ## The unit -/

/-- The units in the order in which the endings are tried. -/
def triedUnits : List DurationUnit := [.ns, .us, .ms, .s, .min, .h]

def firstUnit (s : List Char) : Option DurationUnit :=
  triedUnits.find? fun u => endsWith s u.suffix

section

variable {s : List Char} {D : DurationType}

theorem doConvertDuration_eq (hs : s ≠ []) : doConvertDuration D s =
    match firstUnit s with
    | some u => doConvertKnownDuration u.duration D s
    | none => .error .systemError := by
  rw [doConvertDuration, if_neg fun hempty => hs (List.isEmpty_iff.mp hempty), firstUnit]
  simp only [triedUnits, List.find?_cons, List.find?_nil, DurationUnit.suffix]
  cases endsWith s ['n', 's'] with
  | true => rfl
  | false =>
      cases endsWith s ['u', 's'] with
      | true => rfl
      | false =>
          cases endsWith s ['m', 's'] with
          | true => rfl
          | false =>
              cases endsWith s ['s'] with
              | true => rfl
              | false =>
                  cases endsWith s ['m', 'i', 'n'] with
                  | true => rfl
                  | false =>
                      cases endsWith s ['h'] with
                      | true => rfl
                      | false =>
                          rfl

theorem endsWith_suffix (u : DurationUnit) : endsWith s u.suffix = true ↔ u.suffix <:+ cstr s := by
  have hcstr : cstr u.suffix = u.suffix := by cases u <;> decide
  rw [endsWith, hcstr, kssEndsWith_iff]

theorem firstUnit_isSome :
    (∃ u, firstUnit s = some u) ↔ ∃ u : DurationUnit, u.suffix <:+ cstr s := by
  constructor
  · rintro ⟨u, h⟩
    have hends := List.find?_some (p := fun u : DurationUnit => endsWith s u.suffix) h
    exact ⟨u, (endsWith_suffix u).mp hends⟩
  · rintro ⟨u, h⟩
    have hmem : u ∈ triedUnits := by cases u <;> decide
    exact Option.isSome_iff_exists.mp
      (List.find?_isSome.mpr ⟨u, hmem, (endsWith_suffix u).mpr h⟩)

end

/-! ## Quantities -/

/-- An integer in decimal and a unit. -/
structure Quantity where
  sign : List Char
  negative : Bool
  digits : List Char
  unit : DurationUnit
  isSign : IsSign sign negative
  isDigits : Digits digits
  ne_nil : digits ≠ []

/-- How long `n` of a unit are in `D`: the count has to be a `long`, and the
length has to be in reach of `D`. -/
def meaning (D : DurationType) (u : DurationUnit) (n : ℤ) : Except Exn ℤ :=
  if longMin ≤ n ∧ n ≤ longMax then
    let q := u.duration.convertTo D n
    if (D.rep.min : ℚ) ≤ q ∧ q ≤ D.rep.max then .ok (truncate q) else .error .overflowError
  else .error .systemError

namespace Quantity

variable (q : Quantity)

def text : List Char := q.sign ++ (q.digits ++ q.unit.suffix)

def count : ℤ := negateIf q.negative (value q.digits)

/-- The count that is read: digits after a zero are taken for octal. -/
def readCount : ℤ := negateIf q.negative (octalOrDecimal q.digits)

theorem text_ne_nil : q.text ≠ [] :=
  List.append_ne_nil_of_right_ne_nil _ (List.append_ne_nil_of_left_ne_nil q.ne_nil _)

theorem cstr_text : cstr q.text = q.text := by
  apply cstr_of_ne
  intro c hc
  rcases List.mem_append.mp hc with hc | hc
  · rcases q.isSign with ⟨h, -⟩ | ⟨h, -⟩ | ⟨h, -⟩
    · rw [h] at hc
      exact absurd hc List.not_mem_nil
    · rw [h] at hc
      rw [List.mem_singleton.mp hc]
      decide
    · rw [h] at hc
      rw [List.mem_singleton.mp hc]
      decide
  · rcases List.mem_append.mp hc with hc | hc
    · exact ne_nul_of_digits q.isDigits c hc
    · exact (q.unit.suffix_letters hc).2.2.1

/-- A word without digits that ends a text after a digit is within what follows
the digit. -/
theorem suffix_after_digit {w x tail : List Char} {d : Char} (hd : d.isDigit = true)
    (hw : ∀ c ∈ w, c.isDigit = false) (h : w <:+ x ++ d :: tail) : w <:+ tail := by
  have hmem : d ∉ w := by
    intro hmem
    rw [hw d hmem] at hd
    exact Bool.false_ne_true hd
  rcases List.suffix_or_suffix_of_suffix h (List.suffix_append x (d :: tail)) with h | h
  · rcases List.suffix_cons_iff.mp h with rfl | h
    · exact absurd List.mem_cons_self hmem
    · exact h
  · exact absurd (h.subset List.mem_cons_self) hmem

theorem text_eq : ∃ x d, d.isDigit = true ∧ q.text = x ++ d :: q.unit.suffix := by
  obtain hnil | ⟨init, d, hdigits⟩ := List.eq_nil_or_concat q.digits
  · exact absurd hnil q.ne_nil
  · rw [List.concat_eq_append] at hdigits
    refine ⟨q.sign ++ init, d, q.isDigits d ?_, ?_⟩
    · rw [hdigits]
      exact List.mem_append_right init List.mem_cons_self
    · rw [text, hdigits, List.append_assoc, List.append_assoc]
      rfl

theorem firstUnit_text : firstUnit q.text = some q.unit := by
  have hends : ∀ u : DurationUnit,
      endsWith q.text u.suffix = decide (u.suffix <:+ q.unit.suffix) := by
    intro u
    rw [Bool.eq_iff_iff, endsWith_suffix, cstr_text, decide_eq_true_eq]
    obtain ⟨x, d, hd, htext⟩ := q.text_eq
    constructor
    · intro h
      rw [htext] at h
      exact suffix_after_digit hd (fun c hc => (u.suffix_letters hc).2.1) h
    · intro h
      exact h.trans ((List.suffix_append _ _).trans (List.suffix_append _ _))
  rw [firstUnit]
  simp only [hends]
  cases q.unit <;> decide

theorem readsLiteral_text : ReadsLiteral (cstr q.text) q.readCount := by
  obtain ⟨c, cs, hdigits⟩ := List.exists_cons_of_ne_nil q.ne_nil
  have hc : c.isDigit = true := q.isDigits c (by rw [hdigits]; exact List.mem_cons_self)
  have hletter : ∀ c ∈ q.unit.suffix.head?, 10 ≤ digitOf c ∧ ¬(c = 'x' ∨ c = 'X') :=
    fun c hc => (q.unit.suffix_letters (List.mem_of_mem_head? hc)).2.2.2
  refine ⟨[], q.sign, q.negative, c, cs ++ q.unit.suffix, ?_, ?_, q.isSign, hc, ?_⟩
  · rw [cstr_text, text, hdigits]
    rfl
  · intro c hc
    exact absurd hc List.not_mem_nil
  · have := literalValue_append q.isDigits q.ne_nil hletter
    rw [readCount, ← this, hdigits]
    rfl

end Quantity

section

variable {s : List Char} {D : DurationType}

theorem doConvertKnownDuration_eq {u : DurationUnit} {v : ℤ} (h : ReadsLiteral (cstr s) v) :
    doConvertKnownDuration u.duration D s = meaning D u v := by
  rw [doConvertKnownDuration, Integer.convertLong_of_reads h, meaning]
  split
  · exact checkedDurationCast_eq D u.duration v
  · rfl

theorem doConvertDuration_text (q : Quantity) :
    doConvertDuration D q.text = meaning D q.unit q.readCount := by
  rw [doConvertDuration_eq q.text_ne_nil, q.firstUnit_text]
  exact doConvertKnownDuration_eq q.readsLiteral_text

/-- What is refused: a text without a unit at its end, or without an integer of 64
bits at its front. -/
theorem doConvertDuration_refuses_iff (hs : s ≠ []) :
    doConvertDuration D s = .error .systemError ↔
      ¬ ∃ (u : DurationUnit) (v : ℤ), u.suffix <:+ cstr s ∧ ReadsLiteral (cstr s) v ∧
        longMin ≤ v ∧ v ≤ longMax := by
  rw [doConvertDuration_eq hs]
  constructor
  · rintro h ⟨u, v, hu, hv, hin⟩
    obtain ⟨u', hu'⟩ := firstUnit_isSome.mpr ⟨u, hu⟩
    rw [hu'] at h
    dsimp only at h
    rw [doConvertKnownDuration_eq hv, meaning, if_pos hin] at h
    dsimp only at h
    split at h
    · cases h
    · cases h
  · intro hnone
    cases hfirst : firstUnit s with
    | none => rfl
    | some u =>
        obtain ⟨u', hu'⟩ := firstUnit_isSome.mp ⟨u, hfirst⟩
        -- with a unit at its end, the text lacks the integer or has one that is too long
        dsimp only
        by_cases hread : ∃ v, ReadsLiteral (cstr s) v
        · obtain ⟨v, hv⟩ := hread
          rw [doConvertKnownDuration_eq hv, meaning, if_neg]
          intro hin
          exact hnone ⟨u', v, hu', hv, hin⟩
        · rw [doConvertKnownDuration, Integer.convertLong_of_not_reads hs hread]
          rfl

end

/-! ## The round trip -/

/-- The text of a duration as a quantity. -/
def writtenQuantity (u : DurationUnit) (dtn : ℤ) : Quantity where
  sign := if dtn < 0 then ['-'] else []
  negative := decide (dtn < 0)
  digits := padded 1 dtn.natAbs
  unit := u
  isSign := by
    split
    · rename_i hneg
      exact Or.inr (Or.inr ⟨rfl, decide_eq_true hneg⟩)
    · rename_i hneg
      exact Or.inl ⟨rfl, decide_eq_false hneg⟩
  isDigits := digits_padded 1 dtn.natAbs
  ne_nil := padded_one_ne_nil _

section

variable (approx : ℚ → List Char) (u : DurationUnit) (dtn : ℤ)

theorem writeDuration_eq_text :
    writeDuration approx u.duration dtn = (writtenQuantity u dtn).text := by
  rw [u.writeDuration_duration, insertInteger, Quantity.text, writtenQuantity]
  split
  · rfl
  · rfl

theorem readCount_writtenQuantity : (writtenQuantity u dtn).readCount = dtn := by
  have hcount : negateIf (decide (dtn < 0)) (dtn.natAbs : ℤ) = dtn := by
    obtain ⟨sg, -, -, h⟩ := insertInteger_eq dtn
    exact h
  show negateIf (decide (dtn < 0)) (octalOrDecimal (padded 1 dtn.natAbs)) = dtn
  rw [octalOrDecimal]
  split
  · -- only "0" begins with a zero
    rename_i hhead
    have hzero := eq_zero_of_head_padded_one hhead
    rw [hzero] at hcount ⊢
    exact hcount
  · rw [value_padded]
    exact hcount

end

/-- **The round trip of durations.** -/
theorem duration_text_round_trip (approx : ℚ → List Char) (ch : Char) (P Q : DurationUnit)
    {count : ℤ} (hin : P.duration.InRange count) (tail : List Char) (dtn₀ : ℤ) :
    readDuration ch P.duration { rest := writeDuration approx P.duration count ++ tail } dtn₀ =
        (count, { rest := tail }) ∧
      convert P (writeDuration approx P.duration count) = .ok count ∧
      convert Q (writeDuration approx P.duration count) =
        checkedDurationCast Q.duration P.duration count ∧
      checkedDurationCast Q.duration P.duration count =
        if (Q.duration.rep.min : ℚ) ≤ P.duration.convertTo Q.duration count ∧
            P.duration.convertTo Q.duration count ≤ Q.duration.rep.max then
          .ok (truncate (P.duration.convertTo Q.duration count))
        else .error .overflowError := by
  have hlong : longMin ≤ count ∧ count ≤ longMax := by
    obtain ⟨hlo, hhi⟩ := hin
    cases P <;> exact ⟨hlo, hhi⟩
  have hconvert : ∀ U : DurationUnit, convert U (writeDuration approx P.duration count) =
      checkedDurationCast U.duration P.duration count := by
    intro U
    rw [convert, writeDuration_eq_text, doConvertDuration_text, readCount_writtenQuantity, meaning,
      if_pos hlong, checkedDurationCast_eq]
    rfl
  have hsame : checkedDurationCast P.duration P.duration count = .ok count := by
    rw [checkedDurationCast_self, if_pos hin]
  refine ⟨P.readDuration_writeDuration approx ch hin tail dtn₀, ?_, hconvert Q,
    checkedDurationCast_eq _ _ _⟩
  rw [hconvert P, hsame]

theorem duration_text_round_trip_min :
    convert .h (writeDuration (fun _ => []) DurationUnit.ns.duration (-9223372036854775808)) =
      checkedDurationCast .hours .nanoseconds (-9223372036854775808) :=
  (duration_text_round_trip (fun _ => []) 'x' .ns .h ⟨by decide, by decide⟩ [] 0).2.2.1

/-! ## The grammar -/

/-- A quantity is converted by its count, and every other text is refused. -/
def FollowsUnits (D : DurationType) (s : List Char) : Prop :=
  (∀ q : Quantity, s = q.text → doConvertDuration D s = meaning D q.unit q.count) ∧
    ((¬ ∃ q : Quantity, s = q.text) → doConvertDuration D s = .error .systemError)

/-- **The grammar of durations.**  It is followed if a count that begins with a zero
means the same in octal, and if no other text has a unit at its end and an integer
at its front. -/
theorem follows_units_iff {D : DurationType} {s : List Char} (hs : s ≠ []) : FollowsUnits D s ↔
    (∀ q : Quantity, s = q.text → meaning D q.unit q.readCount = meaning D q.unit q.count) ∧
      ((¬ ∃ q : Quantity, s = q.text) → ¬ ∃ (u : DurationUnit) (v : ℤ), u.suffix <:+ cstr s ∧
        ReadsLiteral (cstr s) v ∧ longMin ≤ v ∧ v ≤ longMax) := by
  rw [FollowsUnits]
  apply and_congr
  · constructor
    · rintro h q rfl
      rw [← h q rfl, doConvertDuration_text]
    · rintro h q rfl
      rw [← h q rfl, doConvertDuration_text]
  · rw [doConvertDuration_refuses_iff hs]

/-- `-007min`, which is the same in octal. -/
def sevenMinutes : Quantity where
  sign := ['-']
  negative := true
  digits := ['0', '0', '7']
  unit := .min
  isSign := Or.inr (Or.inr ⟨rfl, rfl⟩)
  isDigits := List.all_eq_true.mp rfl
  ne_nil := List.cons_ne_nil _ _

theorem follows_units_iff_seven : FollowsUnits .seconds "-007min".toList := by
  refine (follows_units_iff (by decide)).mpr ⟨?_, ?_⟩
  · intro q hq
    have hunit : q.unit = .min := by
      have hfirst := q.firstUnit_text
      rw [← hq] at hfirst
      exact Option.some.inj (hfirst.symm.trans sevenMinutes.firstUnit_text)
    have hnumber : q.sign ++ q.digits = "-007".toList := by
      have htext : "-007".toList ++ "min".toList = q.sign ++ q.digits ++ "min".toList := by
        rw [List.append_assoc]
        refine hq.trans ?_
        rw [Quantity.text, hunit]
        rfl
      exact (List.append_cancel_right htext).symm
    have hdigits : q.digits = ['0', '0', '7'] := by
      rcases q.isSign with ⟨h, -⟩ | ⟨h, -⟩ | ⟨h, -⟩
      · rw [h, List.nil_append] at hnumber
        have hdash := q.isDigits '-' (hnumber ▸ List.mem_cons_self)
        exact absurd hdash (by decide)
      · rw [h] at hnumber
        exact absurd (List.cons.inj hnumber).1 (by decide)
      · rw [h] at hnumber
        exact (List.cons.inj hnumber).2
    rw [Quantity.readCount, Quantity.count, hdigits]
    rfl
  · rintro hnot
    exact absurd ⟨sevenMinutes, rfl⟩ hnot

/-- A longer word that ends in a unit is taken for the unit. -/
theorem longer_unit_word_is_accepted :
    ¬ ∀ (D : DurationType) (s : List Char), s ≠ [] → FollowsUnits D s := by
  intro h
  have hne : "10hours".toList ≠ [] := by decide
  have hgrammar : ¬ ∃ q : Quantity, "10hours".toList = q.text := by
    rintro ⟨q, hq⟩
    have hunit := q.firstUnit_text
    have hseconds : firstUnit "10hours".toList = some .s := by decide
    rw [← hq, hseconds] at hunit
    obtain ⟨x, d, hd, htext⟩ := q.text_eq
    rw [← hq, ← Option.some.inj hunit] at htext
    have hlast := congrArg (fun t : List Char => t.reverse[1]?) htext
    have hdigit : some 'r' = some d := by simpa [DurationUnit.suffix] using hlast
    rw [← Option.some.inj hdigit] at hd
    exact absurd hd (by decide)
  have hrefused := (h .seconds "10hours".toList hne).2 hgrammar
  refine (doConvertDuration_refuses_iff hne).mp hrefused ⟨.s, 10, by decide, ?_, by decide⟩
  exact ⟨[], [], false, '1', "0hours".toList, by decide, fun c hc => absurd hc List.not_mem_nil,
    Or.inl ⟨rfl, rfl⟩, by decide, by decide⟩

end KssUtil.Strings

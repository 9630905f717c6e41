import KssUtil.Strings.Tokenizer
import KssUtil.Strings.TypedText
import KssUtil.Time.Iso8601Order

/-!
# Records in a text

Values of several types are written one behind the other with delimiters between them, and are
read by a program that takes the tokens of a `Tokenizer` and converts each to the type that it
expects.
-/

namespace KssUtil.Strings

open KssUtil.Foundation KssUtil.Libc KssUtil.Time

/-! ## Writing and reading -/

/-- A value, with its type. -/
structure Datum where
  type : ValueType
  value : type.Carrier

/-- A value, and those behind it with the delimiter in front of each. -/
structure TextRecord where
  first : Datum
  more : List (Char × Datum)

def Datum.write (p : Platform) (d : Datum) : Except Exn (List Char) := d.type.write p d.value

namespace TextRecord

def data (r : TextRecord) : List Datum := r.first :: r.more.map Prod.snd

def writeMore (p : Platform) : List (Char × Datum) → Except Exn (List Char)
  | [] => return []
  | (c, d) :: more => do
      let text ← d.write p
      let rest ← writeMore p more
      return c :: (text ++ rest)

def write (p : Platform) (r : TextRecord) : Except Exn (List Char) := do
  let text ← r.first.write p
  let rest ← writeMore p r.more
  return text ++ rest

end TextRecord

/-- `convert<T>(t.next(token))`, for the types of a list -/
def readValues (p : Platform) : List ValueType → Tokenizer → Except Exn (List Datum × Tokenizer)
  | [], t => return ([], t)
  | type :: types, t => do
      let r ← t.next
      let value ← type.convert p r.2
      let rs ← readValues p types r.1
      return (⟨type, value⟩ :: rs.1, rs.2)

/-! ## Characters of values -/

/-- A character that can be in the text of a number or a time. -/
def isValueChar (c : Char) : Bool := c.isAlphanum || c == '-' || c == ':' || c == '.'

theorem isValueChar_of_isDigit {c : Char} (h : c.isDigit = true) : isValueChar c = true := by
  rw [isValueChar, Char.isAlphanum, h, Bool.or_true, Bool.true_or, Bool.true_or, Bool.true_or]

theorem isValueChar_insertInteger (n : ℤ) : ∀ c ∈ insertInteger n, isValueChar c = true := by
  have hdigits : ∀ c ∈ padded 1 n.natAbs, isValueChar c = true := fun c hc =>
    isValueChar_of_isDigit (digits_padded _ _ c hc)
  rw [insertInteger]
  split
  · exact List.forall_mem_cons.mpr ⟨rfl, hdigits⟩
  · exact hdigits

theorem isValueChar_writeDuration (unit : DurationUnit) (count : ℤ) :
    ∀ c ∈ writeDuration (fun _ => []) unit.duration count, isValueChar c = true := by
  have hsuffix : ∀ c ∈ unit.suffix, isValueChar c = true := by
    cases unit <;> exact List.all_eq_true.mp rfl
  rw [unit.writeDuration_duration]
  exact List.forall_mem_append.mpr ⟨isValueChar_insertInteger count, hsuffix⟩

theorem isValueChar_fraction (u : Precision) (tp : ℤ) :
    ∀ c ∈ u.fraction tp, isValueChar c = true := by
  obtain ⟨hlo, hlt⟩ := writtenNs_bounds (split_tdiv u tp)
  intro c hc
  rw [Precision.fraction] at hc
  rcases hlo.eq_or_lt with hzero | hpos
  · rw [← hzero, writtenFraction_zero] at hc
    cases hc
  · obtain ⟨ds, hfraction, hds, -⟩ := writtenFraction_pos hpos hlt
    rw [hfraction] at hc
    rcases List.mem_cons.mp hc with rfl | hc
    · rfl
    · exact isValueChar_of_isDigit (hds c hc)

theorem isValueChar_toIso8601String (p : Platform) {u : Precision} {tp : ℤ}
    (hyear : FourDigitYear (u.duration .int64) tp) {s : List Char}
    (h : toIso8601String p (u.duration .int64) tp = .ok s) : ∀ c ∈ s, isValueChar c = true := by
  obtain ⟨tm, hfour, -, htext⟩ := exists_text p hyear
  obtain rfl := Except.ok.inj (htext.symm.trans h)
  intro c hc
  rcases List.mem_append.mp hc with hc | hc
  · rcases mem_write hc with hdigit | hlit
    · exact isValueChar_of_isDigit hdigit
    · rcases Stamp.lit_mem_secondFormat hlit with rfl | rfl | rfl <;> rfl
  · rcases List.mem_append.mp hc with hc | hc
    · exact isValueChar_fraction u tp c hc
    · rw [List.mem_singleton.mp hc]
      rfl

/-! ## Texts of values -/

namespace Datum

/-- The value is one of its type, and a string has no delimiter in it. -/
structure Valid (delim : List Char) (d : Datum) : Prop where
  value : d.type.Valid d.value
  string : ∀ s : List Char, d = ⟨.string, s⟩ → ∀ c ∈ s, c ∉ delim

/-- What is written of a value. -/
def text (p : Platform) (d : Datum) : List Char := (d.write p).toOption.getD []

section

variable {p : Platform} {delim : List Char} {d : Datum}

theorem text_eq {s : List Char} (h : d.write p = .ok s) : d.text p = s := by
  rw [text, h]
  rfl

theorem Valid.write_eq (h : d.Valid delim) : d.write p = .ok (d.text p) := by
  obtain ⟨s, hwrite, -⟩ := ValueType.convert_write p h.value
  rw [text_eq hwrite]
  exact hwrite

theorem Valid.convert_text (h : d.Valid delim) : d.type.convert p (d.text p) = .ok d.value := by
  obtain ⟨s, hwrite, hconvert⟩ := ValueType.convert_write p h.value
  rw [text_eq hwrite]
  exact hconvert

/-- No text of a value has a delimiter in it. -/
theorem Valid.not_mem_delim (h : d.Valid delim) (hdelim : ∀ c ∈ delim, isValueChar c = false) :
    ∀ c ∈ d.text p, c ∉ delim := by
  have hnot : (∀ c ∈ d.text p, isValueChar c = true) → ∀ c ∈ d.text p, c ∉ delim := by
    intro hchars c hc hmem
    exact absurd (hchars c hc) (Bool.eq_false_iff.mp (hdelim c hmem))
  have hwrite := h.write_eq (p := p)
  obtain ⟨type, value⟩ := d
  cases type with
  | string => exact h.string value rfl
  | integer target => exact hnot (isValueChar_insertInteger value)
  | duration unit => exact hnot (isValueChar_writeDuration unit value)
  | timePoint precision => exact hnot (isValueChar_toIso8601String p h.value.2.1 hwrite)

/-- The text of a value is empty for the empty string only. -/
theorem Valid.text_eq_nil_iff (h : d.Valid delim) : d.text p = [] ↔ d = ⟨.string, []⟩ := by
  constructor
  · intro hnil
    have hconvert := h.convert_text (p := p)
    obtain ⟨type, value⟩ := d
    cases type with
    | string =>
        rw [show value = [] from hnil]
    | integer target =>
        have hempty : insertInteger value = [] := hnil
        obtain ⟨sg, -, htext, -⟩ := insertInteger_eq value
        rw [htext] at hempty
        exact absurd (List.append_eq_nil_iff.mp hempty).2 (padded_one_ne_nil _)
    | duration unit =>
        have hempty : insertInteger value ++ unit.suffix = [] :=
          (unit.writeDuration_duration (fun _ => []) value).symm.trans hnil
        exact absurd (List.append_eq_nil_iff.mp hempty).2 unit.suffix_ne_nil
    | timePoint precision =>
        rw [hnil] at hconvert
        cases hconvert
  · rintro rfl
    rfl

end

end Datum

/-! ## Tokens of records -/

/-- The texts between delimiters are the pieces. -/
theorem splitOnP_joined {q : Char → Bool} {more : List (Char × List Char)} :
    ∀ {text : List Char}, (∀ c ∈ text, q c = false) →
      (∀ x ∈ more, q x.1 = true ∧ ∀ c ∈ x.2, q c = false) →
      (text ++ more.flatMap fun x => x.1 :: x.2).splitOnP q = text :: more.map Prod.snd := by
  induction more with
  | nil =>
      intro text htext _
      rw [List.flatMap_nil, List.append_nil]
      exact List.splitOnP_eq_singleton htext
  | cons x more ih =>
      intro text htext hmore
      obtain ⟨⟨hdelim, hx⟩, hmore⟩ := List.forall_mem_cons.mp hmore
      rw [List.flatMap_cons, List.cons_append,
        List.splitOnP_append_cons_of_forall_mem htext _ hdelim, ih hx hmore]
      rfl

namespace TextRecord

structure Valid (delim : List Char) (r : TextRecord) : Prop where
  data : ∀ d ∈ r.data, d.Valid delim
  delims : ∀ x ∈ r.more, x.1 ∈ delim

/-- What is written of a record. -/
def text (p : Platform) (r : TextRecord) : List Char :=
  r.first.text p ++ r.more.flatMap fun x => x.1 :: x.2.text p

section

variable {p : Platform} {delim : List Char} {r : TextRecord}

theorem writeMore_eq {more : List (Char × Datum)} (h : ∀ x ∈ more, x.2.Valid delim) :
    writeMore p more = .ok (more.flatMap fun x => x.1 :: x.2.text p) := by
  induction more with
  | nil => rfl
  | cons x more ih =>
      obtain ⟨hx, hmore⟩ := List.forall_mem_cons.mp h
      rw [writeMore, hx.write_eq, ih hmore]
      rfl

theorem Valid.more (h : r.Valid delim) : ∀ x ∈ r.more, x.2.Valid delim := fun x hx =>
  h.data x.2 (List.mem_cons_of_mem _ (List.mem_map_of_mem hx))

theorem Valid.first (h : r.Valid delim) : r.first.Valid delim := h.data _ List.mem_cons_self

theorem Valid.write_eq (h : r.Valid delim) : r.write p = .ok (r.text p) := by
  rw [write, h.first.write_eq, writeMore_eq h.more]
  rfl

theorem Valid.splitOnP_text (h : r.Valid delim) (hdelim : ∀ c ∈ delim, isValueChar c = false) :
    (r.text p).splitOnP (delim.contains ·) = r.data.map (Datum.text p) := by
  have hclean : ∀ d : Datum, d.Valid delim → ∀ c ∈ d.text p, delim.contains c = false := by
    intro d hd c hc
    rw [← Bool.not_eq_true, List.contains_iff_mem]
    exact hd.not_mem_delim hdelim c hc
  have hmore : ∀ x ∈ r.more.map fun x => (x.1, x.2.text p),
      delim.contains x.1 = true ∧ ∀ c ∈ x.2, delim.contains c = false := by
    intro x hx
    obtain ⟨y, hy, rfl⟩ := List.mem_map.mp hx
    exact ⟨List.contains_iff_mem.mpr (h.delims y hy), hclean y.2 (h.more y hy)⟩
  have hsplit := splitOnP_joined (hclean r.first h.first) hmore
  rw [List.flatMap_map, List.map_map] at hsplit
  rw [text, hsplit]
  show _ = Datum.text p r.first :: (r.more.map Prod.snd).map (Datum.text p)
  rw [List.map_map]
  rfl

theorem Valid.text_eq_nil_iff (h : r.Valid delim) :
    r.text p = [] ↔ r = ⟨⟨.string, []⟩, []⟩ := by
  obtain ⟨first, more⟩ := r
  rw [text, List.append_eq_nil_iff, h.first.text_eq_nil_iff, TextRecord.mk.injEq]
  apply and_congr_right'
  cases more with
  | nil => exact iff_of_true rfl rfl
  | cons x more => exact iff_of_false (List.cons_ne_nil _ _) (List.cons_ne_nil _ _)

end

end TextRecord

/-! ## Reading -/

section

variable {p : Platform} {delim : List Char} {t : Tokenizer}

/-- The tokens that come first are read first. -/
theorem readValues_append {as : List Datum} (has : ∀ d ∈ as, d.Valid delim) :
    ∀ {t : Tokenizer} {rest : List (List Char)}, t.Valid →
      t.tokens = as.map (Datum.text p) ++ rest →
      ∃ t', t'.tokens = rest ∧ ∀ types, readValues p (as.map Datum.type ++ types) t =
        (readValues p types t').map fun r => (as ++ r.1, r.2) := by
  induction as with
  | nil =>
      intro t rest _ htokens
      refine ⟨t, htokens, fun types => ?_⟩
      rw [List.map_nil, List.nil_append]
      cases readValues p types t with
      | error e => rfl
      | ok r => rfl
  | cons d as ih =>
      intro t rest hvalid htokens
      obtain ⟨hd, has⟩ := List.forall_mem_cons.mp has
      have hanother : t.hasAnother = true := by
        rw [Tokenizer.hasAnother_iff, htokens]
        exact List.cons_ne_nil _ _
      obtain ⟨t', token, hnext, hvalid', hcons⟩ := Tokenizer.next_tokens hvalid hanother
      obtain ⟨rfl, hrest⟩ := List.cons.inj (hcons.symm.trans htokens)
      obtain ⟨t'', hlast, hread⟩ := ih has hvalid' hrest
      refine ⟨t'', hlast, fun types => ?_⟩
      rw [List.map_cons, List.cons_append, readValues, hnext, ok_bind]
      dsimp only
      rw [hd.convert_text, ok_bind, hread]
      cases readValues p types t'' with
      | error e => rfl
      | ok r => rfl

/-- What is read of a record by a program with a tokenizer that has the record before it. -/
structure RecordRead (p : Platform) (r : TextRecord) (t : Tokenizer) : Prop where
  values : ∀ as bs, r.data = as ++ bs → ∃ t', readValues p (as.map Datum.type) t = .ok (as, t') ∧
    (t'.hasAnother = true ↔ bs ≠ [])
  beyond : ∀ type types,
    readValues p (r.data.map Datum.type ++ type :: types) t = .error .aborted

theorem recordRead_of_tokens {r : TextRecord} (hr : r.Valid delim) (hvalid : t.Valid)
    (htokens : t.tokens = r.data.map (Datum.text p)) : RecordRead p r t := by
  constructor
  · intro as bs hdata
    have has : ∀ d ∈ as, d.Valid delim := fun d hd =>
      hr.data d (hdata ▸ List.mem_append_left bs hd)
    rw [hdata, List.map_append] at htokens
    obtain ⟨t', hlast, hread⟩ := readValues_append has hvalid htokens
    have hall := hread []
    rw [List.append_nil] at hall
    refine ⟨t', ?_, ?_⟩
    · rw [hall, readValues]
      show Except.ok (as ++ [], t') = _
      rw [List.append_nil]
    · rw [Tokenizer.hasAnother_iff, hlast, ne_eq, List.map_eq_nil_iff]
  · intro type types
    obtain ⟨t', hlast, hread⟩ := readValues_append hr.data hvalid
      (htokens.trans (List.append_nil _).symm)
    have hdone : ¬ t'.hasAnother = true := by
      rw [Tokenizer.hasAnother_iff, hlast]
      exact not_not.mpr rfl
    have hnext : t'.next = .error .aborted := by
      rw [Tokenizer.next, if_pos hdone]
      rfl
    rw [hread, readValues, hnext]
    rfl

/-- **Records are read back.**  A program that takes the tokens of a record, which may stand
anywhere in a string, and converts each to its type has the values that were written.  After a
part of the record it finds that there is more, and after the whole of it, that there is not; one
that asks for more all the same is aborted.  Of a record with nothing but an empty string there is
no token at all. -/
theorem records_read_back (p : Platform) {delim : List Char} (hne : delim ≠ [])
    (hdelim : ∀ c ∈ delim, isValueChar c = false) {r : TextRecord} (hr : r.Valid delim) :
    ∃ text, r.write p = .ok text ∧ ∀ before after (s : StdString),
      s.chars = before ++ text ++ after → ∃ t,
        Tokenizer.construct s delim before.length (before ++ text).length = .ok t ∧
        (t.hasAnother = true ↔ r ≠ ⟨⟨.string, []⟩, []⟩) ∧
        (r ≠ ⟨⟨.string, []⟩, []⟩ → RecordRead p r t) := by
  refine ⟨r.text p, hr.write_eq, fun before after s hs => ?_⟩
  obtain ⟨t, hconstruct, hvalid, htokens⟩ :=
    Tokenizer.construct_tokens s hne before.length (before ++ r.text p).length
  have hle : (before ++ r.text p).length ≤ s.length := by
    rw [StdString.length, hs]
    exact (List.prefix_append _ after).length_le
  have hwindow : s.window before.length (before ++ r.text p).length = r.text p := by
    rw [StdString.window, hs, List.take_left, List.drop_left]
  rw [Tokenizer.pieces, Nat.min_eq_left hle, hwindow, List.length_append] at htokens
  simp only [Nat.lt_add_right_iff_pos, List.length_pos_iff] at htokens
  have hnil : t.tokens = [] ↔ r.text p = [] := by
    rw [htokens, ite_eq_right_iff]
    exact ⟨fun h => by_contra fun htext => List.splitOnP_ne_nil _ _ (h htext),
      fun htext h => absurd htext h⟩
  refine ⟨t, hconstruct, ?_, fun hblank => ?_⟩
  · exact (Tokenizer.hasAnother_iff t).trans (not_congr (hnil.trans hr.text_eq_nil_iff))
  · rw [if_pos (mt hr.text_eq_nil_iff.mp hblank), hr.splitOnP_text hdelim] at htokens
    exact recordRead_of_tokens hr hvalid htokens

end

/-- `door -12 5min` -/
def doorRecord : TextRecord :=
  ⟨⟨.string, "door".toList⟩, [(' ', ⟨.integer .int, (-12 : ℤ)⟩), (' ', ⟨.duration .min, (5 : ℤ)⟩)]⟩

/-- The default delimiters. -/
def whiteSpace : List Char := [' ', '\t', '\n', '\r']

theorem doorRecord_valid : doorRecord.Valid whiteSpace := by
  constructor
  · show ∀ d ∈ [doorRecord.first, ⟨.integer .int, (-12 : ℤ)⟩, ⟨.duration .min, (5 : ℤ)⟩], _
    simp only [List.forall_mem_cons]
    refine ⟨⟨trivial, ?_⟩, ⟨show Integer.intMin ≤ -12 ∧ -12 ≤ Integer.intMax by decide, ?_⟩,
      ⟨show DurationType.minutes.InRange 5 by decide, ?_⟩, fun _ h => absurd h List.not_mem_nil⟩
    · intro s hs
      cases hs
      simp [whiteSpace]
    · intro s hs
      cases hs
    · intro s hs
      cases hs
  · exact List.forall_mem_cons.mpr ⟨List.mem_cons_self, List.forall_mem_cons.mpr
      ⟨List.mem_cons_self, fun _ h => absurd h List.not_mem_nil⟩⟩

/-- The record in a longer string. -/
theorem records_read_back_door :
    ∃ t, Tokenizer.construct ⟨"log door -12 5min".toList, by decide⟩ whiteSpace 4 17 = .ok t ∧
      ∃ t', readValues .zeroed [.string, .integer .int, .duration .min] t =
        .ok (doorRecord.data, t') ∧ t'.hasAnother = false := by
  have hdelim : ∀ c ∈ whiteSpace, isValueChar c = false := by
    simp only [whiteSpace, List.forall_mem_cons]
    exact ⟨rfl, rfl, rfl, rfl, fun _ h => absurd h List.not_mem_nil⟩
  obtain ⟨text, hwrite, hread⟩ :=
    records_read_back .zeroed (List.cons_ne_nil _ _) hdelim doorRecord_valid
  have htext : doorRecord.write .zeroed = .ok "door -12 5min".toList := by rfl
  obtain rfl := Except.ok.inj (hwrite.symm.trans htext)
  obtain ⟨t, hconstruct, -, hrecord⟩ :=
    hread "log ".toList [] ⟨"log door -12 5min".toList, by decide⟩ rfl
  have hsome : doorRecord ≠ ⟨⟨.string, []⟩, []⟩ := by
    intro h
    cases h
  obtain ⟨t', hvalues, hanother⟩ :=
    (hrecord hsome).values doorRecord.data [] (List.append_nil _).symm
  refine ⟨t, hconstruct, t', hvalues, ?_⟩
  rw [← Bool.not_eq_true, hanother]
  exact not_not.mpr rfl

end KssUtil.Strings

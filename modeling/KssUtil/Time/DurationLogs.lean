import KssUtil.Time.DurationStreams

/-!
# Many durations on one stream

Durations of any standard units are written one behind the other, with or without white space
between them, and read by a program that expects certain units.  The suffixes are a prefix code,
so a duration of another unit is noticed, whatever comes behind it; from there on the stream is
in a failed state.
-/

namespace KssUtil.Time

open KssUtil.Foundation KssUtil.Libc

/-! ## Writing and reading -/

/-- A duration that is written, and the white space behind it. -/
structure Entry where
  unit : DurationUnit
  count : ℤ
  space : List Char

structure Entry.Valid (e : Entry) : Prop where
  inRange : e.unit.duration.InRange e.count
  space : ∀ c ∈ e.space, isspace c = true

/-- `strm << dtn << space` for each entry -/
def writeEntries (approx : ℚ → List Char) (es : List Entry) : List Char :=
  es.flatMap fun e => writeDuration approx e.unit.duration e.count ++ e.space

/-- A variable that is read: its unit, what it holds before, and what the variable `ch` of
`operator>>` does. -/
structure Target where
  unit : DurationUnit
  dtn : ℤ
  ch : Char

/-- `strm >> dtn` for each variable; what they hold afterwards -/
def readTargets : List Target → IStream → List ℤ × IStream
  | [], strm => ([], strm)
  | t :: ts, strm =>
      let r := readDuration t.ch t.unit.duration strm t.dtn
      let rs := readTargets ts r.2
      (r.1 :: rs.1, rs.2)

/-- The counts up to the first entry of another unit, whose count is stored as well; then zeros. -/
def received : List Entry → List DurationUnit → List ℤ
  | _, [] => []
  | [], _ :: us => 0 :: us.map fun _ => 0
  | e :: es, u :: us => e.count :: if e.unit = u then received es us else us.map fun _ => 0

/-! ## White space and failures -/

section

variable {strm : IStream}

theorem IStream.extractInteger_space {ws : List Char} (hws : ∀ c ∈ ws, isspace c = true)
    (lo hi : ℤ) (cs : List Char) (n : ℤ) :
    IStream.extractInteger lo hi { rest := ws ++ cs } n =
      IStream.extractInteger lo hi { rest := cs } n := by
  have hsentry : IStream.sentry { rest := ws ++ cs } = IStream.sentry { rest := cs } := by
    show (if _ then _ else _) = (if _ then _ else _)
    rw [List.dropWhile_append_of_pos hws]
    rfl
  rw [IStream.extractInteger, IStream.extractInteger, hsentry]

theorem IStream.sentry_failed (h : strm.failbit = true) : strm.sentry = (false, strm) := by
  obtain ⟨rest, eofbit, failbit⟩ := strm
  obtain rfl : failbit = true := h
  have hgood : IStream.good ⟨rest, eofbit, true⟩ = false := Bool.and_false _
  rw [IStream.sentry, hgood]
  rfl

theorem readSuffix_failed {suffix : List Char} : ∀ {strm : IStream} (ch : Char),
    strm.failbit = true → readSuffix suffix ch strm = strm := by
  induction suffix with
  | nil => intro strm ch h; rfl
  | cons c suffix ih =>
      intro strm ch h
      have hchar : strm.extractChar ch = (ch, strm) := by
        rw [IStream.extractChar, IStream.sentry_failed h]
      have hfail : strm.setFail = strm := by
        obtain ⟨rest, eofbit, failbit⟩ := strm
        obtain rfl : failbit = true := h
        rfl
      rw [readSuffix, hchar]
      dsimp only
      rw [hfail, ite_self]
      exact ih ch h

/-- From a stream that has failed nothing is read, and the variable is set to 0. -/
theorem readDuration_failed (u : DurationUnit) (ch : Char) (dtn : ℤ) (h : strm.failbit = true) :
    readDuration ch u.duration strm dtn = (0, strm) := by
  have hcount : ∀ lo hi, strm.extractInteger lo hi 0 = (0, strm) := by
    intro lo hi
    rw [IStream.extractInteger, IStream.sentry_failed h]
    rfl
  rw [readDuration, u.getDurationSuffix_duration, if_neg u.suffix_ne_nil, hcount]
  exact Prod.ext rfl (readSuffix_failed ch h)

theorem readTargets_failed (ts : List Target) (h : strm.failbit = true) :
    readTargets ts strm = (ts.map fun _ => 0, strm) := by
  induction ts with
  | nil => rfl
  | cons t ts ih =>
      rw [readTargets, readDuration_failed t.unit t.ch t.dtn h]
      dsimp only
      rw [ih]
      rfl

end

/-! ## Suffixes -/

/-- A suffix that differs from the one that is expected is noticed. -/
theorem readSuffix_other {suffix : List Char} : ∀ {written : List Char} (ch : Char)
    (tail : List Char), (∀ c ∈ written, isspace c = false) → ¬ suffix <+: written →
    ¬ written <+: suffix →
    (readSuffix suffix ch { rest := written ++ tail }).failbit = true := by
  induction suffix with
  | nil => intro written ch tail _ h; exact absurd (List.nil_prefix) h
  | cons a suffix ih =>
      intro written ch tail hspace h h'
      cases written with
      | nil => exact absurd (List.nil_prefix) h'
      | cons b written =>
          obtain ⟨hb, hrest⟩ := List.forall_mem_cons.mp hspace
          rw [readSuffix, List.cons_append, IStream.extractChar_cons hb]
          dsimp only
          by_cases hab : a = b
          · subst hab
            rw [List.cons_prefix_cons, not_and] at h h'
            rw [if_neg (not_not.mpr rfl)]
            exact ih a tail hrest (h rfl) (h' rfl)
          · rw [if_pos hab, readSuffix_failed b rfl]
            rfl

namespace DurationUnit

/-- **The suffixes are a prefix code.** -/
theorem not_suffix_isPrefix {u w : DurationUnit} (h : u ≠ w) : ¬ u.suffix <+: w.suffix := by
  cases u <;> cases w <;> first | exact absurd rfl h | decide

theorem rep_duration (u : DurationUnit) : u.duration.rep = .int64 := by
  cases u <;> rfl

/-- A duration that is written in the unit `u`, and read in the unit `w`. -/
theorem readDuration_written (approx : ℚ → List Char) (u w : DurationUnit) (ch : Char) {n : ℤ}
    (hin : u.duration.InRange n) {ws : List Char} (hws : ∀ c ∈ ws, isspace c = true)
    (tail : List Char) (dtn : ℤ) :
    readDuration ch w.duration { rest := ws ++ (writeDuration approx u.duration n ++ tail) } dtn =
      (n, readSuffix w.suffix ch { rest := u.suffix ++ tail }) := by
  obtain ⟨sg, hsg, htext, hvalue⟩ := insertInteger_eq n
  have hin' : Rep.int64.min ≤ negateIf (decide (n < 0)) (value (padded 1 n.natAbs)) ∧
      negateIf (decide (n < 0)) (value (padded 1 n.natAbs)) ≤ Rep.int64.max := by
    rw [DurationType.InRange, rep_duration] at hin
    rwa [value_padded, hvalue]
  have hcount := IStream.extractInteger_append hsg (digits_padded 1 n.natAbs)
    (padded_one_ne_nil _) (List.append_ne_nil_of_left_ne_nil u.suffix_ne_nil tail)
    (u.suffix_stops tail) 0 hin'.1 hin'.2
  rw [value_padded, hvalue] at hcount
  rw [u.writeDuration_duration, htext, List.append_assoc, List.append_assoc, readDuration,
    w.getDurationSuffix_duration, if_neg w.suffix_ne_nil, rep_duration,
    IStream.extractInteger_space hws, hcount]

/-- At the end of the text there is nothing to be read. -/
theorem readDuration_end (w : DurationUnit) (ch : Char) {ws : List Char}
    (hws : ∀ c ∈ ws, isspace c = true) (dtn : ℤ) :
    readDuration ch w.duration { rest := ws } dtn =
      (0, { rest := [], eofbit := true, failbit := true }) := by
  have hcount : ∀ lo hi, IStream.extractInteger lo hi { rest := ws } 0 =
      (0, { rest := [], eofbit := true, failbit := true }) := by
    intro lo hi
    have hspace := IStream.extractInteger_space hws lo hi [] 0
    rw [List.append_nil] at hspace
    rw [hspace]
    rfl
  rw [readDuration, w.getDurationSuffix_duration, if_neg w.suffix_ne_nil, hcount]
  exact Prod.ext rfl (readSuffix_failed ch rfl)

end DurationUnit

/-! ## Whole texts -/

/-- What a program has read that expects the units of `ts`: the counts, the state of the stream,
and what is still in it. -/
structure DurationsRead (approx : ℚ → List Char) (es : List Entry) (ts : List Target)
    (r : List ℤ × IStream) : Prop where
  counts : r.1 = received es (ts.map Target.unit)
  failbit : r.2.failbit = false ↔ ts.map Target.unit <+: es.map Entry.unit
  rest : ts.map Target.unit <+: es.map Entry.unit →
    ∃ ws : List Char, (∀ c ∈ ws, isspace c = true) ∧
      r.2 = { rest := ws ++ writeEntries approx (es.drop ts.length) }

/-- A reading that fails is the last one that stores anything but zero. -/
theorem durationsRead_of_failed {approx : ℚ → List Char} {es : List Entry} {t : Target}
    {ts : List Target} {strm strm' : IStream} {n : ℤ}
    (hread : readDuration t.ch t.unit.duration strm t.dtn = (n, strm'))
    (hfailed : strm'.failbit = true)
    (hreceived : received es (t.unit :: ts.map Target.unit) = n :: ts.map fun _ => 0)
    (hnot : ¬ (t :: ts).map Target.unit <+: es.map Entry.unit) :
    DurationsRead approx es (t :: ts) (readTargets (t :: ts) strm) := by
  have hall : readTargets (t :: ts) strm = (n :: ts.map fun _ => 0, strm') := by
    rw [readTargets, hread]
    dsimp only
    rw [readTargets_failed ts hfailed]
  rw [hall]
  refine ⟨hreceived.symm, ?_, fun h => absurd h hnot⟩
  rw [hfailed]
  exact iff_of_false (by decide) hnot

theorem readTargets_writeEntries (approx : ℚ → List Char) (ts : List Target) :
    ∀ {es : List Entry} {ws : List Char}, (∀ e ∈ es, e.Valid) →
      (∀ c ∈ ws, isspace c = true) →
      DurationsRead approx es ts (readTargets ts { rest := ws ++ writeEntries approx es }) := by
  induction ts with
  | nil =>
      intro es ws _ hws
      have hcounts : received es [] = [] := by cases es <;> rfl
      exact ⟨hcounts.symm, iff_of_true rfl List.nil_prefix, fun _ => ⟨ws, hws, rfl⟩⟩
  | cons t ts ih =>
      intro es ws hes hws
      cases es with
      | nil =>
          have hempty : ws ++ writeEntries approx [] = ws := List.append_nil ws
          rw [hempty]
          refine durationsRead_of_failed (t.unit.readDuration_end t.ch hws t.dtn) rfl ?_ (by simp)
          rw [received, List.map_map]
          rfl
      | cons e es =>
          obtain ⟨he, hes⟩ := List.forall_mem_cons.mp hes
          have hwritten : writeEntries approx (e :: es) =
              writeDuration approx e.unit.duration e.count ++
                (e.space ++ writeEntries approx es) :=
            List.append_assoc _ _ _
          have hread := DurationUnit.readDuration_written approx e.unit t.unit t.ch he.inRange hws
            (e.space ++ writeEntries approx es) t.dtn
          have hspace : ∀ c ∈ e.unit.suffix, isspace c = false := fun c hc =>
            (e.unit.suffix_letters hc).1
          have hunits : (t :: ts).map Target.unit <+: (e :: es).map Entry.unit ↔
              t.unit = e.unit ∧ ts.map Target.unit <+: es.map Entry.unit :=
            List.cons_prefix_cons
          rw [hwritten]
          by_cases hunit : e.unit = t.unit
          · obtain ⟨hcounts, hfailbit, hrest⟩ := ih hes he.space
            rw [← hunit, DurationUnit.readSuffix_append hspace] at hread
            rw [readTargets, ← hunit, hread]
            refine ⟨?_, ?_, fun h => hrest (hunits.mp h).2⟩
            · rw [hcounts, List.map_cons, received, if_pos hunit]
            · rw [hfailbit, hunits, and_iff_right hunit.symm]
          · have hfailed := readSuffix_other t.ch (e.space ++ writeEntries approx es) hspace
              (DurationUnit.not_suffix_isPrefix (Ne.symm hunit))
              (DurationUnit.not_suffix_isPrefix hunit)
            refine durationsRead_of_failed hread hfailed ?_
              fun h => hunit (hunits.mp h).1.symm
            rw [received, if_neg hunit, List.map_map]
            rfl

/-- **Durations on a stream.**  However many durations are written to a stream, of whatever
units, those that expect the units that were written read the counts, and leave the rest in the
stream.  The first one that expects another unit puts the stream into a failed state, and all
that come after it are set to zero. -/
theorem durations_on_stream (approx : ℚ → List Char) {es : List Entry}
    (hes : ∀ e ∈ es, e.Valid) (ts : List Target) :
    DurationsRead approx es ts (readTargets ts { rest := writeEntries approx es }) := by
  have hnone : ∀ c ∈ ([] : List Char), isspace c = true := by
    intro c hc
    cases hc
  exact readTargets_writeEntries approx ts hes hnone

/-- `5min-7ms 1h` -/
def threeEntries : List Entry := [⟨.min, 5, []⟩, ⟨.ms, -7, [' ']⟩, ⟨.h, 1, []⟩]

/-- The second one is read in microseconds. -/
def microReaders : List Target := [⟨.min, 9, 'a'⟩, ⟨.us, 9, 'a'⟩, ⟨.h, 9, 'a'⟩]

theorem durations_on_stream_micro :
    let r := readTargets microReaders { rest := writeEntries (fun _ => []) threeEntries }
    r.1 = [5, -7, 0] ∧ r.2.failbit = true := by
  have hvalid : ∀ e ∈ threeEntries, e.Valid := by
    simp only [threeEntries, List.forall_mem_cons]
    exact ⟨⟨by decide, List.all_eq_true.mp rfl⟩, ⟨by decide, List.all_eq_true.mp rfl⟩,
      ⟨by decide, List.all_eq_true.mp rfl⟩, fun _ h => absurd h List.not_mem_nil⟩
  obtain ⟨hcounts, hfailbit, -⟩ := durations_on_stream (fun _ => []) hvalid microReaders
  exact ⟨hcounts, Bool.not_eq_false _ ▸ mt hfailbit.mp (by decide)⟩

end KssUtil.Time

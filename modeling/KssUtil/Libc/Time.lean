import KssUtil.Foundation.Gregorian
import KssUtil.Libc.Numbers

/-!
# Broken-down time of the C library

`gmtime_r`, `timegm`, `strftime` and `strptime`, for the fields the sources read
and in the "C" locale.  A format is its list of conversions and characters.
-/

namespace KssUtil.Libc

open KssUtil.Foundation

/-- `struct tm` -/
structure Tm where
  sec : ℤ
  min : ℤ
  hour : ℤ
  mday : ℤ
  mon : ℤ
  year : ℤ
  gmtoff : ℤ
deriving DecidableEq, Repr

/-! ## Calendar time -/

/-- The day number of 1970-01-01. -/
def epochDay : ℤ := Gregorian.dayNumber ⟨1970, 0, 1⟩

/-- A year has to fit into an `int`; if it does not, the structure is not
filled. -/
def gmtimeR (t : ℤ) : Option Tm :=
  let date := Gregorian.dateOf (t / 86400 + epochDay)
  let rest := t % 86400
  if -2147483648 ≤ date.year - 1900 ∧ date.year - 1900 ≤ 2147483647 then
    some ⟨rest % 60, rest / 60 % 60, rest / 3600, date.day, date.month, date.year - 1900, 0⟩
  else none

/-- The month may be any number, and so may the other fields. -/
def timegm (tm : Tm) : ℤ :=
  let date : Gregorian.Date := ⟨tm.year + 1900 + tm.mon / 12, (tm.mon % 12).toNat, tm.mday⟩
  (Gregorian.dayNumber date - epochDay) * 86400 + tm.hour * 3600 + tm.min * 60 + tm.sec

def Tm.date (tm : Tm) : Gregorian.Date := ⟨tm.year + 1900, tm.mon.toNat, tm.mday⟩

/-- A time of day on a day of the calendar, in UTC. -/
structure Tm.Valid (tm : Tm) : Prop where
  mon : 0 ≤ tm.mon
  date : tm.date.Valid
  hour : 0 ≤ tm.hour ∧ tm.hour ≤ 23
  min : 0 ≤ tm.min ∧ tm.min ≤ 59
  sec : 0 ≤ tm.sec ∧ tm.sec ≤ 59
  gmtoff : tm.gmtoff = 0

theorem gmtimeR_spec {t : ℤ} {tm : Tm} (h : gmtimeR t = some tm) : tm.Valid ∧ timegm tm = t := by
  unfold gmtimeR at h
  dsimp only at h
  split at h
  · obtain rfl := Option.some.inj h
    obtain ⟨hvalid, hnumber⟩ := Gregorian.dateOf_valid (t / 86400 + epochDay)
    generalize Gregorian.dateOf (t / 86400 + epochDay) = d at hvalid hnumber
    have hmonth : d.month < 12 := hvalid.1
    have hdate : (⟨d.year - 1900 + 1900, d.month, d.day⟩ : Gregorian.Date) = d := by
      rw [Int.sub_add_cancel]
    constructor
    · constructor
      · show 0 ≤ (d.month : ℤ)
        omega
      · show (⟨d.year - 1900 + 1900, d.month, d.day⟩ : Gregorian.Date).Valid
        rw [hdate]
        exact hvalid
      · constructor <;> dsimp only <;> omega
      · constructor <;> dsimp only <;> omega
      · constructor <;> dsimp only <;> omega
      · rfl
    · have hmon : (d.month : ℤ) / 12 = 0 := by omega
      have hmon' : ((d.month : ℤ) % 12).toNat = d.month := by omega
      unfold timegm
      dsimp only
      rw [hmon, hmon', Int.add_zero, hdate, hnumber]
      omega
  · exact absurd h.symm (Option.some_ne_none tm)

theorem gmtimeR_timegm {tm : Tm} (h : tm.Valid)
    (hyear : -2147483648 ≤ tm.year ∧ tm.year ≤ 2147483647) : gmtimeR (timegm tm) = some tm := by
  obtain ⟨sec, min, hour, mday, mon, year, gmtoff⟩ := tm
  have hmon := h.mon
  have hlt : mon.toNat < 12 := h.date.1
  obtain ⟨hh, hh'⟩ := h.hour
  obtain ⟨hm, hm'⟩ := h.min
  obtain ⟨hs, hs'⟩ := h.sec
  have hoff := h.gmtoff
  dsimp only at hmon hh hh' hm hm' hs hs' hoff hyear
  have hdiv : mon / 12 = 0 := by omega
  have hmod : (mon % 12).toNat = mon.toNat := by omega
  have hdate := Gregorian.dateOf_dayNumber h.date
  unfold Tm.date at hdate
  dsimp only at hdate
  unfold timegm gmtimeR
  dsimp only
  rw [hdiv, hmod, Int.add_zero]
  generalize hn : Gregorian.dayNumber ⟨year + 1900, mon.toNat, mday⟩ = n at hdate
  -- the day and the second of the day are the quotient and the remainder
  have hday : ((n - epochDay) * 86400 + hour * 3600 + min * 60 + sec) / 86400 + epochDay = n := by
    omega
  have hrest : ((n - epochDay) * 86400 + hour * 3600 + min * 60 + sec) % 86400 =
      hour * 3600 + min * 60 + sec := by
    omega
  rw [hday, hrest, hdate]
  dsimp only
  rw [if_pos (by omega), hoff]
  congr 2 <;> omega

/-! ## Formats -/

/-- The numeric fields a format names: `%Y`, `%m`, `%d`, `%H`, `%M` and `%S`. -/
inductive Field where
  | Y
  | m
  | d
  | H
  | M
  | S
deriving DecidableEq, Repr

inductive Item where
  | field (f : Field)
  | lit (c : Char)
deriving DecidableEq, Repr

abbrev Format := List Item

def Field.get (tm : Tm) : Field → ℤ
  | Y => tm.year + 1900
  | m => tm.mon + 1
  | d => tm.mday
  | H => tm.hour
  | M => tm.min
  | S => tm.sec

def Field.set (tm : Tm) (v : ℕ) : Field → Tm
  | Y => { tm with year := v - 1900 }
  | m => { tm with mon := v - 1 }
  | d => { tm with mday := v }
  | H => { tm with hour := v }
  | M => { tm with min := v }
  | S => { tm with sec := v }

/-- A year takes the digits it needs, the other fields at least two. -/
def Item.print (tm : Tm) : Item → List Char
  | .field .Y => printfZero 1 (Field.Y.get tm)
  | .field f => printfZero 2 (f.get tm)
  | .lit c => [c]

/-- The text, unless it does not fit into `max` characters with its terminator. -/
def strftime (max : ℕ) (fmt : Format) (tm : Tm) : Option (List Char) :=
  let text := fmt.flatMap (Item.print tm)
  if text.length + 1 ≤ max then some text else none

/-! ### `strptime` -/

/-- The least and the greatest value of a field, and its most digits. -/
def Field.lo : Field → ℕ
  | m | d => 1
  | _ => 0

def Field.hi : Field → ℕ
  | Y => 9999
  | m => 12
  | d => 31
  | H => 23
  | M => 59
  | S => 61

def Field.width : Field → ℕ
  | Y => 4
  | _ => 2

/-- Digits are read while there may be one more: not if ten times the value
exceeds what the field may hold. -/
def numberLoop (hi : ℕ) : ℕ → ℕ → List Char → ℕ × List Char
  | 0, v, rp => (v, rp)
  | _ + 1, v, [] => (v, [])
  | n + 1, v, c :: rp =>
      if c.isDigit ∧ v * 10 ≤ hi then numberLoop hi n (v * 10 + digitValue c) rp
      else (v, c :: rp)

/-- `get_number`: white space, then a number in range. -/
def getNumber (f : Field) (rp : List Char) : Option (ℕ × List Char) :=
  let rp := rp.dropWhile isspace
  if rp.head?.any Char.isDigit then
    let r := numberLoop f.hi f.width 0 rp
    if r.1 < f.lo ∨ r.1 > f.hi then none else some r
  else none

/-- `match_char` -/
def matchChar (c : Char) : List Char → Option (List Char)
  | [] => none
  | d :: rp => if d = c then some rp else none

/-- What is left of the text and the fields read, unless the text does not begin
as the format says. -/
def strptime (rp : List Char) : Format → Tm → Option (List Char × Tm)
  | [], tm => some (rp, tm)
  | .field f :: fmt, tm =>
      match getNumber f rp with
      | some (v, rp) => strptime rp fmt (f.set tm v)
      | none => none
  | .lit c :: fmt, tm =>
      match matchChar c rp with
      | some rp => strptime rp fmt tm
      | none => none

/-! ### What `strptime` reads -/

/-- `f` reads the number `v` off the front of `rp`: white space, then at least one
digit and as many as the field may still take. -/
structure ReadsNumber (f : Field) (rp : List Char) (v : ℕ) (rest : List Char) : Prop where
  text : ∃ sp ds, rp = sp ++ ds ++ rest ∧ (∀ c ∈ sp, isspace c = true) ∧
    Digits ds ∧ ds ≠ [] ∧ ds.length ≤ f.width ∧ value ds = v ∧
      (ds.length = f.width ∨ f.hi < v * 10 ∨ Stops Char.isDigit rest)
  range : f.lo ≤ v ∧ v ≤ f.hi

theorem numberLoop_sound {hi : ℕ} : ∀ {n v : ℕ} {rp : List Char} {w : ℕ} {rest : List Char},
    numberLoop hi n v rp = (w, rest) → ∃ ds, rp = ds ++ rest ∧ Digits ds ∧ ds.length ≤ n ∧
      valueFrom v ds = w ∧ (ds.length = n ∨ hi < w * 10 ∨ Stops Char.isDigit rest) := by
  intro n
  induction n with
  | zero =>
      intro v rp w rest h
      obtain ⟨rfl, rfl⟩ := Prod.mk.inj h
      exact ⟨[], rfl, digits_nil, Nat.le_refl 0, rfl, Or.inl rfl⟩
  | succ n ih =>
      intro v rp w rest h
      cases rp with
      | nil =>
          obtain ⟨rfl, rfl⟩ := Prod.mk.inj h
          exact ⟨[], rfl, digits_nil, Nat.zero_le _, rfl, Or.inr (Or.inr stops_nil)⟩
      | cons c rp =>
          rw [numberLoop] at h
          split at h
          · rename_i hc
            obtain ⟨ds, rfl, hds, hlen, hw, hend⟩ := ih h
            refine ⟨c :: ds, rfl, digits_cons.mpr ⟨hc.1, hds⟩, Nat.succ_le_succ hlen, ?_, ?_⟩
            · rw [valueFrom_cons]
              exact hw
            · rw [List.length_cons, Nat.add_right_cancel_iff]
              exact hend
          · rename_i hc
            obtain ⟨rfl, rfl⟩ := Prod.mk.inj h
            refine ⟨[], rfl, digits_nil, Nat.zero_le _, rfl, Or.inr ?_⟩
            rcases Decidable.not_and_iff_not_or_not.mp hc with hc | hc
            · right
              exact stops_cons.mpr (Bool.eq_false_iff.mpr hc)
            · left
              exact Nat.lt_of_not_le hc

theorem numberLoop_complete {hi : ℕ} {rest : List Char} : ∀ {ds : List Char} {n v : ℕ},
    Digits ds → ds.length ≤ n → valueFrom v ds ≤ hi →
      (ds.length = n ∨ hi < valueFrom v ds * 10 ∨ Stops Char.isDigit rest) →
        numberLoop hi n v (ds ++ rest) = (valueFrom v ds, rest) := by
  intro ds
  induction ds with
  | nil =>
      intro n v _ _ hle hend
      rw [valueFrom_nil] at hle hend ⊢
      rw [List.nil_append]
      cases n with
      | zero => rfl
      | succ n =>
          cases rest with
          | nil => rfl
          | cons c rest =>
              -- none of the three reasons to stop lets the loop go on
              rw [numberLoop, if_neg]
              rintro ⟨hc, hmore⟩
              rcases hend with h | h | h
              · exact absurd h.symm (Nat.succ_ne_zero n)
              · exact absurd hmore (Nat.not_le_of_lt h)
              · rw [stops_cons.mp h] at hc
                exact absurd hc Bool.false_ne_true
  | cons c ds ih =>
      intro n v hds hlen hle hend
      obtain ⟨hc, hds⟩ := digits_cons.mp hds
      rw [valueFrom_cons] at hle hend ⊢
      cases n with
      | zero => exact absurd hlen (Nat.not_succ_le_zero _)
      | succ n =>
          have hmore : v * 10 ≤ hi := by
            have := le_valueFrom (v * 10 + digitValue c) ds
            omega
          rw [List.cons_append, numberLoop, if_pos ⟨hc, hmore⟩]
          rw [List.length_cons, Nat.add_right_cancel_iff] at hend
          exact ih hds (Nat.le_of_succ_le_succ hlen) hle hend

theorem getNumber_sound {f : Field} {rp rest : List Char} {v : ℕ}
    (h : getNumber f rp = some (v, rest)) : ReadsNumber f rp v rest := by
  rw [getNumber] at h
  dsimp only at h
  split at h
  · rename_i hhead
    split at h
    · exact absurd h.symm (Option.some_ne_none _)
    · rename_i hrange
      have hloop := Option.some.inj h
      rw [hloop] at hrange
      obtain ⟨ds, hrp, hds, hlen, hv, hend⟩ := numberLoop_sound hloop
      constructor
      · refine ⟨rp.takeWhile isspace, ds, ?_, fun c hc => List.mem_takeWhile_imp hc, hds, ?_, hlen,
          hv, hend⟩
        · rw [List.append_assoc, ← hrp, List.takeWhile_append_dropWhile]
        · -- the loop is entered on a digit, and takes it
          rintro rfl
          rw [List.nil_append] at hrp
          rw [← hv] at hend
          rcases hend with hend | hend | hend
          · cases f <;> exact absurd hend (by decide)
          · exact absurd hend (Nat.not_lt_zero _)
          · rw [hrp] at hhead
            obtain ⟨c, hc, hdigit⟩ := Option.any_eq_true _ _ |>.mp hhead
            rw [hend c hc] at hdigit
            exact absurd hdigit Bool.false_ne_true
      · omega
  · exact absurd h.symm (Option.some_ne_none _)

theorem getNumber_complete {f : Field} {rp rest : List Char} {v : ℕ}
    (h : ReadsNumber f rp v rest) : getNumber f rp = some (v, rest) := by
  obtain ⟨⟨sp, ds, rfl, hsp, hds, hne, hlen, rfl, hend⟩, hlo, hhi⟩ := h
  obtain ⟨c, cs, rfl⟩ := List.exists_cons_of_ne_nil hne
  have hc := (digits_cons.mp hds).1
  have hskip : (sp ++ (c :: cs) ++ rest).dropWhile isspace = c :: cs ++ rest := by
    rw [List.append_assoc]
    exact dropWhile_append_stops hsp (stops_cons.mpr (isspace_of_isDigit hc))
  have hhead : ((c :: cs ++ rest).head?.any Char.isDigit) = true := hc
  rw [getNumber]
  dsimp only
  rw [hskip, if_pos hhead, numberLoop_complete hds hlen hhi hend]
  exact if_neg (by unfold value at *; omega)

theorem matchChar_eq_some {c : Char} {rp rest : List Char} :
    matchChar c rp = some rest ↔ rp = c :: rest := by
  cases rp with
  | nil =>
      constructor
      · intro h
        exact absurd h.symm (Option.some_ne_none rest)
      · intro h
        exact absurd h.symm (List.cons_ne_nil c rest)
  | cons d rp =>
      rw [matchChar, List.cons.injEq]
      split
      · rename_i hdc
        rw [Option.some.injEq, and_iff_right hdc]
      · rename_i hdc
        constructor
        · intro h
          exact absurd h.symm (Option.some_ne_none rest)
        · rintro ⟨h, -⟩
          exact absurd h hdc

/-- `fmt` reads a front of `rp` and leaves `rest`. -/
def Matches : Format → List Char → List Char → Prop
  | [], rp, rest => rp = rest
  | .field f :: fmt, rp, rest => ∃ v rp', ReadsNumber f rp v rp' ∧ Matches fmt rp' rest
  | .lit c :: fmt, rp, rest => ∃ rp', rp = c :: rp' ∧ Matches fmt rp' rest

/-- `strptime` succeeds on the texts its format matches. -/
theorem strptime_iff {fmt : Format} : ∀ {rp rest : List Char} {tm : Tm},
    (∃ tm', strptime rp fmt tm = some (rest, tm')) ↔ Matches fmt rp rest := by
  induction fmt with
  | nil =>
      intro rp rest tm
      constructor
      · rintro ⟨tm', h⟩
        exact (Prod.mk.inj (Option.some.inj h)).1
      · rintro rfl
        exact ⟨tm, rfl⟩
  | cons item fmt ih =>
      intro rp rest tm
      cases item with
      | field f =>
          constructor
          · rintro ⟨tm', h⟩
            rw [strptime] at h
            split at h
            · rename_i v rp' hread
              exact ⟨v, rp', getNumber_sound hread, ih.mp ⟨tm', h⟩⟩
            · exact absurd h.symm (Option.some_ne_none _)
          · rintro ⟨v, rp', hread, hrest⟩
            obtain ⟨tm', h⟩ := ih.mpr hrest
            refine ⟨tm', ?_⟩
            rw [strptime, getNumber_complete hread]
            exact h
      | lit c =>
          constructor
          · rintro ⟨tm', h⟩
            rw [strptime] at h
            split at h
            · rename_i rp' hmatch
              exact ⟨rp', matchChar_eq_some.mp hmatch, ih.mp ⟨tm', h⟩⟩
            · exact absurd h.symm (Option.some_ne_none _)
          · rintro ⟨rp', hrp, hrest⟩
            obtain ⟨tm', h⟩ := ih.mpr hrest
            refine ⟨tm', ?_⟩
            rw [strptime, matchChar_eq_some.mpr hrp]
            exact h

/-- A format is read part by part. -/
theorem strptime_append {fmt fmt' : Format} : ∀ {rp rest : List Char} {tm tm' : Tm},
    strptime rp fmt tm = some (rest, tm') →
      strptime rp (fmt ++ fmt') tm = strptime rest fmt' tm' := by
  induction fmt with
  | nil =>
      intro rp rest tm tm' h
      obtain ⟨rfl, rfl⟩ := Prod.mk.inj (Option.some.inj h)
      rfl
  | cons item fmt ih =>
      intro rp rest tm tm' h
      rw [List.cons_append]
      cases item with
      | field f =>
          rw [strptime] at h ⊢
          split at h
          · exact ih h
          · exact absurd h.symm (Option.some_ne_none _)
      | lit c =>
          rw [strptime] at h ⊢
          split at h
          · exact ih h
          · exact absurd h.symm (Option.some_ne_none _)

/-! ### Texts with all their digits -/

/-- The text of a field at its full width. -/
def Item.write (tm : Tm) : Item → List Char
  | .field f => padded f.width (f.get tm).toNat
  | .lit c => [c]

def Field.InRange (tm : Tm) (f : Field) : Prop := (f.lo : ℤ) ≤ f.get tm ∧ f.get tm ≤ f.hi

/-- A number in range is set, and the other fields stay. -/
theorem Field.inRange_set {tm : Tm} {f : Field} {v : ℕ} (hlo : f.lo ≤ v) (hhi : v ≤ f.hi)
    (h : ∀ g : Field, g.InRange tm) (g : Field) : g.InRange (f.set tm v) := by
  have hg := h g
  unfold Field.InRange at hg ⊢
  cases f <;> cases g <;> simp only [Field.set, Field.get, Field.lo, Field.hi] at * <;> omega

theorem Field.gmtoff_set (tm : Tm) (v : ℕ) (f : Field) : (f.set tm v).gmtoff = tm.gmtoff := by
  cases f <;> rfl

/-- What is read leaves every field in range. -/
theorem strptime_inRange {fmt : Format} : ∀ {rp rest : List Char} {tm tm' : Tm},
    (∀ f : Field, f.InRange tm) → strptime rp fmt tm = some (rest, tm') →
      (∀ f : Field, f.InRange tm') ∧ tm'.gmtoff = tm.gmtoff := by
  induction fmt with
  | nil =>
      intro rp rest tm tm' hrange h
      obtain ⟨-, rfl⟩ := Prod.mk.inj (Option.some.inj h)
      exact ⟨hrange, rfl⟩
  | cons item fmt ih =>
      intro rp rest tm tm' hrange h
      cases item with
      | field f =>
          rw [strptime] at h
          split at h
          · rename_i v rp' hread
            obtain ⟨hlo, hhi⟩ := (getNumber_sound hread).range
            obtain ⟨hrange', hoff⟩ := ih (Field.inRange_set hlo hhi hrange) h
            exact ⟨hrange', hoff.trans (Field.gmtoff_set tm v f)⟩
          · exact absurd h.symm (Option.some_ne_none _)
      | lit c =>
          rw [strptime] at h
          split at h
          · exact ih hrange h
          · exact absurd h.symm (Option.some_ne_none _)

theorem readsNumber_write {tm : Tm} {f : Field} (h : f.InRange tm) (rest : List Char) :
    ReadsNumber f (padded f.width (f.get tm).toNat ++ rest) (f.get tm).toNat rest := by
  obtain ⟨hlo, hhi⟩ := h
  have hlen : (padded f.width (f.get tm).toNat).length = f.width := by
    apply length_padded
    · cases f <;> decide
    · have hpow : f.hi < 10 ^ f.width := by cases f <;> decide
      omega
  constructor
  · refine ⟨[], padded f.width (f.get tm).toNat, rfl, ?_, digits_padded _ _, ?_,
      Nat.le_of_eq hlen, value_padded _ _, Or.inl hlen⟩
    · intro c hc
      exact absurd hc List.not_mem_nil
    · intro hnil
      rw [hnil] at hlen
      cases f <;> exact absurd hlen (by decide)
  · omega

/-- A text written at full width is read back, whatever follows it. -/
theorem strptime_write {fmt : Format} {tm : Tm} (h : ∀ f, Item.field f ∈ fmt → f.InRange tm)
    (rest : List Char) (tm₀ : Tm) :
    strptime (fmt.flatMap (Item.write tm) ++ rest) fmt tm₀ =
      some (rest, fmt.foldl (fun t item => match item with
        | .field f => f.set t (f.get tm).toNat
        | .lit _ => t) tm₀) := by
  induction fmt generalizing tm₀ with
  | nil => rfl
  | cons item fmt ih =>
      have ih := ih (fun f hf => h f (List.mem_cons_of_mem item hf))
      rw [List.flatMap_cons, List.append_assoc]
      cases item with
      | field f =>
          have hread := readsNumber_write (h f List.mem_cons_self)
            (fmt.flatMap (Item.write tm) ++ rest)
          rw [strptime, Item.write, getNumber_complete hread]
          exact ih _
      | lit c =>
          rw [strptime, Item.write, List.singleton_append, matchChar_eq_some.mpr rfl]
          exact ih _

end KssUtil.Libc

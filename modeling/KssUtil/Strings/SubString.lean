import KssUtil.Foundation.Program
import KssUtil.Strings.BasicString

/-!
# Write-through substrings (substring.hpp)

A substring refers to a string and writes to it.  The strings of the program are named
by `ι`, so that one can be told from another.
-/

namespace KssUtil.Strings

open KssUtil.Foundation

/-- `cstr` is what is at `_cstr`, if that is not null. -/
structure SubString (ι χ : Type) where
  str : ι
  i : ℕ
  n : ℕ
  cstr : Option (List χ)

/-- The strings, and the substring whose method is called. -/
structure SubState (lim : Limits) (ι χ : Type) where
  strs : ι → BasicString lim χ
  sub : SubString ι χ

abbrev SubMethod (lim : Limits) (ι χ α : Type) := EStateM Fault (SubState lim ι χ) α

/-- A difference of two `size_type`s -/
def sizeDifference (a b : ℕ) : ℕ := (a + 2 ^ 64 - b) % 2 ^ 64

namespace SubString

variable {lim : Limits} {ι χ : Type}

/-! ## Construction -/

section

variable (strs : ι → BasicString lim χ)

/-- `SubString(str, i, n)` -/
def construct (str : ι) (i n : ℕ) : Except Fault (SubString ι χ) :=
  let len := (strs str).length
  let first := if i ≥ len then npos else i
  let size := min n (sizeDifference len first)
  if (first = i ∨ i = npos) ∧ size ≤ n then return ⟨str, first, size, none⟩
  else throw .terminated

/-- `SubString(str, str2, i)` -/
def constructSearching [DecidableEq χ] (str : ι) (str2 : BasicString lim χ) (i : ℕ) :
    Except Fault (SubString ι χ) :=
  let first := (strs str).find str2 i
  let size := if first ≠ npos then str2.length else 0
  if first ≥ i ∧ (size = str2.length ∨ size = 0) then return ⟨str, first, size, none⟩
  else throw .terminated

/-! ## Access -/

variable (sub : SubString ι χ)

/-- The string of the substring has a character at its beginning. -/
def InRange : Prop := sub.i < (strs sub.str).length

instance : Decidable (sub.InRange strs) := inferInstanceAs (Decidable (_ < _))

/-- `none` is a null pointer. -/
def data [Zero χ] : Option (List χ) :=
  if sub.i ≥ (strs sub.str).length then none else some ((strs sub.str).data.drop sub.i)

/-- What can be read at `data()` -/
def cells [Zero χ] : List χ := (sub.data strs).getD []

def size : ℕ := sub.n

def empty : Bool := sub.n = 0

/-- What the substring stands for. -/
def text : List χ := ((strs sub.str).chars.drop sub.i).take sub.n

theorem length_text_le : (sub.text strs).length ≤ lim.maxSize := by
  have hlen := (strs sub.str).length_le
  rw [text, List.length_take, List.length_drop]
  omega

/-- `operator std::basic_string()` -/
def toBasicString : BasicString lim χ :=
  if sub.i ≥ (strs sub.str).length ∨ sub.n = 0 then emptyString
  else ⟨sub.text strs, sub.length_text_le strs⟩

/-! ## Comparisons -/

variable [LinearOrder χ]

/-- `==` on `n` characters at `p` and `m` at `q` -/
def equalChars (p : List χ) (n : ℕ) (q : List χ) (m : ℕ) : Except Fault Bool := do
  if n ≠ m then return false
  else return decide ((← Traits.compare p q n) = 0)

/-- `<` on `n` characters at `p` and `m` at `q` -/
def lessChars (p : List χ) (n : ℕ) (q : List χ) (m : ℕ) : Except Fault Bool := do
  let retval ← Traits.compare p q (min n m)
  if retval < 0 then return true
  else if retval > 0 then return false
  else return n < m

variable [Zero χ] (rhs : SubString ι χ) (s : BasicString lim χ) (cptr : CString χ)

/-- `same` says whether `this == &rhs`. -/
def equal (same : Bool) : Except Fault Bool :=
  if same then return true
  else equalChars (sub.cells strs) sub.size (rhs.cells strs) rhs.size

def less (same : Bool) : Except Fault Bool :=
  if same then return false
  else lessChars (sub.cells strs) sub.size (rhs.cells strs) rhs.size

def equalString : Except Fault Bool := equalChars (sub.cells strs) sub.size s.data s.length

def lessString : Except Fault Bool := lessChars (sub.cells strs) sub.size s.data s.length

/-- `<` with the string on the left -/
def stringLess : Except Fault Bool := lessChars s.data s.length (sub.cells strs) sub.size

def equalPointer : Except Fault Bool :=
  equalChars (sub.cells strs) sub.size cptr.data cptr.length

def lessPointer : Except Fault Bool :=
  lessChars (sub.cells strs) sub.size cptr.data cptr.length

end

/-! ## Assignment -/

section

variable [DecidableEq ι]

/-- The block at `_cstr` is given back as one of `_n + 1` characters. -/
def freeCStr : SubMethod lim ι χ PUnit := do
  let this ← get
  match this.sub.cstr with
  | none => pure ⟨⟩
  | some block =>
      if block.length ≠ this.sub.n + 1 then throw .undefined
      modify fun st => { st with sub := { st.sub with cstr := none } }

def assign (ptr : List χ) (newN : ℕ) : SubMethod lim ι χ PUnit := do
  let this ← get
  if this.sub.cstr.isSome then throw .terminated
  if this.sub.i ≥ (this.strs this.sub.str).length then throw .outOfRange
  freeCStr
  let chars ← ofExcept (readChars ptr newN)
  let str ← ofExcept ((this.strs this.sub.str).replace this.sub.i this.sub.n chars)
  modify fun st => { st with strs := Function.update st.strs st.sub.str str }
  modify fun st => { st with sub := { st.sub with n := newN } }

/-- What can be assigned to a substring, other than a substring. -/
inductive Source (lim : Limits) (χ : Type) [Zero χ] where
  | string (str : BasicString lim χ)
  | pointer (cptr : CString χ)
  | char (ch : χ)

variable [Zero χ]

def Source.text : Source lim χ → List χ
  | .string str => str.chars
  | .pointer cptr => cptr.text
  | .char ch => [ch]

/-- The three assignment operators that take no substring. -/
def assignFrom : Source lim χ → SubMethod lim ι χ PUnit
  | .string str => assign str.data str.length
  | .pointer cptr => assign cptr.data cptr.length
  | .char ch => assign [ch] 1

/-- `operator=(const SubString&)`: the number of characters is that of the target. -/
def assignSub (str : SubString ι χ) : SubMethod lim ι χ PUnit := do
  let this ← get
  assign (str.cells this.strs) this.sub.n

/-- The result is what is at the pointer, or `none` for a null pointer. -/
def cStr : SubMethod lim ι χ (Option (List χ)) := do
  let this ← get
  if this.sub.cstr.isNone ∧ this.sub.InRange this.strs then
    let chars ← ofExcept (readChars (this.sub.cells this.strs) this.sub.n)
    modify fun st => { st with sub := { st.sub with cstr := some (chars ++ [0]) } }
  let this ← get
  return this.sub.cstr

end

/-! ## What the comparisons see -/

section

variable [LinearOrder χ] {p q : List χ} {n m : ℕ}

theorem equalChars_eq (hp : n ≤ p.length) (hq : m ≤ q.length) :
    equalChars p n q m = .ok (decide (p.take n = q.take m)) := by
  have hn : (p.take n).length = n := List.length_take_of_le hp
  have hm : (q.take m).length = m := List.length_take_of_le hq
  rw [equalChars]
  by_cases hnm : n = m
  · obtain rfl := hnm
    have hcompare := Traits.compare_eq hp hq
    rw [Nat.min_self] at hcompare
    rw [if_neg (not_not.mpr rfl), hcompare]
    have hiff : compareChars (p.take n) (q.take n) = 0 ↔ p.take n = q.take n := by
      rcases compareChars_cases (p.take n) (q.take n) with ⟨hc, hlt⟩ | ⟨hc, hlt⟩ | ⟨hc, -, heq⟩
      · exact iff_of_false (ne_of_lt hc) (ne_of_lt hlt)
      · exact iff_of_false (ne_of_gt hc) (ne_of_gt hlt)
      · exact iff_of_true hc (heq.mpr (hn.trans hm.symm))
    exact congrArg Except.ok (decide_eq_decide.mpr hiff)
  · rw [if_pos hnm, decide_eq_false]
    · rfl
    · intro heq
      exact hnm (hn.symm.trans ((congrArg List.length heq).trans hm))

theorem lessChars_eq (hp : n ≤ p.length) (hq : m ≤ q.length) :
    lessChars p n q m = .ok (decide (p.take n < q.take m)) := by
  have hn : (p.take n).length = n := List.length_take_of_le hp
  have hm : (q.take m).length = m := List.length_take_of_le hq
  rw [lessChars, Traits.compare_eq hp hq]
  show (if compareChars (p.take n) (q.take m) < 0 then (.ok true : Except Fault Bool)
    else if compareChars (p.take n) (q.take m) > 0 then .ok false else .ok (decide (n < m))) = _
  rcases compareChars_cases (p.take n) (q.take m) with ⟨hc, hlt⟩ | ⟨hc, hlt⟩ | ⟨hc, hlt, -⟩
  · rw [if_pos hc, decide_eq_true hlt]
  · rw [if_neg (lt_asymm hc), if_pos hc, decide_eq_false (lt_asymm hlt)]
  · rw [hn, hm] at hlt
    rw [hc, if_neg (lt_irrefl 0), if_neg (lt_irrefl 0)]
    exact congrArg Except.ok (decide_eq_decide.mpr hlt.symm)

end

/-! ## Where a substring is -/

/-- The substring is a window of its string, and not behind the end. -/
structure Valid {lim : Limits} {ι χ : Type} (strs : ι → BasicString lim χ) (sub : SubString ι χ) :
    Prop where
  inRange : sub.InRange strs
  le : sub.i + sub.n ≤ (strs sub.str).length

section

variable {lim : Limits} {ι χ : Type} {strs : ι → BasicString lim χ} {sub : SubString ι χ}

theorem Valid.length_text (h : sub.Valid strs) : (sub.text strs).length = sub.n := by
  have hle : sub.i + sub.n ≤ (strs sub.str).chars.length := h.le
  rw [text, List.length_take, List.length_drop]
  omega

theorem Valid.toBasicString (h : sub.Valid strs) : (sub.toBasicString strs).chars =
    sub.text strs := by
  unfold SubString.toBasicString
  split
  · rename_i hempty
    rcases hempty with hout | hzero
    · exact absurd h.inRange (not_lt.mpr hout)
    · rw [text, hzero]
      rfl
  · rfl

variable [Zero χ]

theorem data_of_inRange (h : sub.InRange strs) :
    sub.data strs = some ((strs sub.str).data.drop sub.i) :=
  if_neg (not_le.mpr h)

theorem cells_of_inRange (h : sub.InRange strs) :
    sub.cells strs = (strs sub.str).data.drop sub.i := by
  rw [cells, data_of_inRange h]
  rfl

theorem Valid.size_le_cells (h : sub.Valid strs) : sub.size ≤ (sub.cells strs).length := by
  have hle := h.le
  have hdata := (strs sub.str).length_le_data
  rw [cells_of_inRange h.inRange, List.length_drop, size]
  omega

theorem Valid.take_cells (h : sub.Valid strs) : (sub.cells strs).take sub.size = sub.text strs := by
  have hle : sub.i + sub.n ≤ (strs sub.str).chars.length := h.le
  have hbegin : sub.i ≤ (strs sub.str).chars.length := le_trans (Nat.le_add_right _ _) hle
  have hrest : sub.n ≤ ((strs sub.str).chars.drop sub.i).length := by
    rw [List.length_drop]
    omega
  rw [cells_of_inRange h.inRange, BasicString.data, List.drop_append_of_le_length hbegin, size,
    List.take_append_of_le_length hrest, text]

variable [LinearOrder χ] {rhs : SubString ι χ}

theorem Valid.equal (h : sub.Valid strs) (hrhs : rhs.Valid strs) {same : Bool}
    (hsame : same = true → rhs = sub) :
    sub.equal strs rhs same = .ok (decide (sub.text strs = rhs.text strs)) := by
  rw [SubString.equal]
  split
  · rename_i htrue
    rw [hsame htrue, decide_eq_true rfl]
    rfl
  · rw [equalChars_eq h.size_le_cells hrhs.size_le_cells, h.take_cells, hrhs.take_cells]

theorem Valid.less (h : sub.Valid strs) (hrhs : rhs.Valid strs) {same : Bool}
    (hsame : same = true → rhs = sub) :
    sub.less strs rhs same = .ok (decide (sub.text strs < rhs.text strs)) := by
  rw [SubString.less]
  split
  · rename_i htrue
    rw [hsame htrue, decide_eq_false (lt_irrefl _)]
    rfl
  · rw [lessChars_eq h.size_le_cells hrhs.size_le_cells, h.take_cells, hrhs.take_cells]

variable (s : BasicString lim χ) (cptr : CString χ)

theorem Valid.equalString (h : sub.Valid strs) :
    sub.equalString strs s = .ok (decide (sub.text strs = s.chars)) := by
  rw [SubString.equalString, equalChars_eq h.size_le_cells s.length_le_data, h.take_cells,
    s.take_data]

theorem Valid.lessString (h : sub.Valid strs) :
    sub.lessString strs s = .ok (decide (sub.text strs < s.chars)) := by
  rw [SubString.lessString, lessChars_eq h.size_le_cells s.length_le_data, h.take_cells,
    s.take_data]

theorem Valid.stringLess (h : sub.Valid strs) :
    sub.stringLess strs s = .ok (decide (s.chars < sub.text strs)) := by
  rw [SubString.stringLess, lessChars_eq s.length_le_data h.size_le_cells, h.take_cells,
    s.take_data]

theorem Valid.equalPointer (h : sub.Valid strs) :
    sub.equalPointer strs cptr = .ok (decide (sub.text strs = cptr.text)) := by
  rw [SubString.equalPointer, equalChars_eq h.size_le_cells cptr.length_le_data, h.take_cells,
    cptr.take_data]

theorem Valid.lessPointer (h : sub.Valid strs) :
    sub.lessPointer strs cptr = .ok (decide (sub.text strs < cptr.text)) := by
  rw [SubString.lessPointer, lessChars_eq h.size_le_cells cptr.length_le_data, h.take_cells,
    cptr.take_data]

end

/-! ## What `c_str` does -/

section

variable {lim : Limits} {ι χ : Type} [Zero χ] {st : SubState lim ι χ}

/-- Behind the end of the string there is no copy, and a null pointer. -/
theorem cStr_of_not_inRange (h : ¬ st.sub.InRange st.strs) :
    (cStr : SubMethod lim ι χ _) st = .ok st.sub.cstr st := by
  apply eq_ok_of_returns
  simp [cStr, h]

theorem cStr_of_some {block : List χ} (h : st.sub.cstr = some block) :
    (cStr : SubMethod lim ι χ _) st = .ok (some block) st := by
  apply eq_ok_of_returns
  simp [cStr, h]

/-- The state with a copy of the text. -/
def copied (st : SubState lim ι χ) : SubState lim ι χ :=
  { st with sub := { st.sub with cstr := some (st.sub.text st.strs ++ [0]) } }

theorem cStr_of_none (hvalid : st.sub.Valid st.strs) (h : st.sub.cstr = none) :
    (cStr : SubMethod lim ι χ _) st = .ok (some (st.sub.text st.strs ++ [0])) (copied st) := by
  have hread : readChars (st.sub.cells st.strs) st.sub.n = .ok (st.sub.text st.strs) := by
    have hle := hvalid.size_le_cells
    have htake := hvalid.take_cells
    rw [size] at hle htake
    rw [readChars, if_pos hle, htake]
    rfl
  apply eq_ok_of_returns
  simp [cStr, copied, h, hvalid.inRange, hread]

end

/-! ## What an assignment does -/

section

variable {lim : Limits} {ι χ : Type} {st : SubState lim ι χ} {ptr : List χ} {newN : ℕ}

theorem runs_freeCStr (hcstr : st.sub.cstr = none) {Q : PUnit → SubState lim ι χ → Prop}
    {E : Fault → SubState lim ι χ → Prop} :
    Runs (freeCStr : SubMethod lim ι χ PUnit) st Q E ↔ Q ⟨⟩ st := by
  simp [freeCStr, hcstr]

variable [DecidableEq ι]

/-- Only the characters that are read matter. -/
theorem assign_congr {ptr ptr' : List χ} {newN : ℕ}
    (h : readChars ptr newN = readChars ptr' newN) :
    (assign ptr newN : SubMethod lim ι χ PUnit) = assign ptr' newN := by
  unfold assign
  rw [h]

theorem assign_terminated (h : st.sub.cstr.isSome = true) :
    (assign ptr newN : SubMethod lim ι χ PUnit) st = .error .terminated st := by
  apply eq_error_of_runs
  simp [assign, h]

theorem assign_outOfRange (hcstr : st.sub.cstr = none) (h : ¬ st.sub.InRange st.strs) :
    (assign ptr newN : SubMethod lim ι χ PUnit) st = .error .outOfRange st := by
  have hout : (st.strs st.sub.str).length ≤ st.sub.i := not_lt.mp h
  apply eq_error_of_runs
  simp [assign, hcstr, hout]

/-- There are not enough characters at the pointer. -/
theorem assign_undefined (hcstr : st.sub.cstr = none) (hin : st.sub.InRange st.strs)
    (h : ptr.length < newN) :
    (assign ptr newN : SubMethod lim ι χ PUnit) st = .error .undefined st := by
  have hinside : ¬ (st.strs st.sub.str).length ≤ st.sub.i := not_le.mpr hin
  have hread : readChars ptr newN = .error .undefined := if_neg (not_le.mpr h)
  apply eq_error_of_runs
  simp [assign, hcstr, hinside, hread, runs_freeCStr]

/-- The string with `chars` in place of the substring. -/
def replaced (st : SubState lim ι χ) (chars : List χ) : List χ :=
  (st.strs st.sub.str).chars.take st.sub.i ++ chars ++
    (st.strs st.sub.str).chars.drop (st.sub.i + st.sub.n)

/-- The characters are written, or the string would get too long. -/
theorem assign_cases (hcstr : st.sub.cstr = none) (hin : st.sub.InRange st.strs)
    (hread : newN ≤ ptr.length) :
    (∃ str : BasicString lim χ, str.chars = replaced st (ptr.take newN) ∧
      (assign ptr newN : SubMethod lim ι χ PUnit) st =
        .ok ⟨⟩ ⟨Function.update st.strs st.sub.str str, { st.sub with n := newN }⟩) ∨
    (lim.maxSize < (replaced st (ptr.take newN)).length ∧
      (assign ptr newN : SubMethod lim ι χ PUnit) st = .error .lengthError st) := by
  have hinside : ¬ (st.strs st.sub.str).length ≤ st.sub.i := not_le.mpr hin
  have hchars : readChars ptr newN = .ok (ptr.take newN) := if_pos hread
  have hpos : ¬ st.sub.i > (st.strs st.sub.str).length := not_lt.mpr (le_of_lt hin)
  by_cases hfits : (replaced st (ptr.take newN)).length ≤ lim.maxSize
  · left
    refine ⟨⟨_, hfits⟩, rfl, ?_⟩
    have hreplace : (st.strs st.sub.str).replace st.sub.i st.sub.n (ptr.take newN) =
        .ok ⟨_, hfits⟩ := by
      rw [BasicString.replace, if_neg hpos]
      exact dif_pos hfits
    apply eq_ok_of_returns
    simp [assign, hcstr, hinside, hchars, hreplace, runs_freeCStr]
  · right
    refine ⟨not_le.mp hfits, ?_⟩
    have hreplace : (st.strs st.sub.str).replace st.sub.i st.sub.n (ptr.take newN) =
        .error .lengthError := by
      rw [BasicString.replace, if_neg hpos]
      exact dif_neg hfits
    apply eq_error_of_runs
    simp [assign, hcstr, hinside, hchars, hreplace, runs_freeCStr]

variable [Zero χ]

variable (ι) in
/-- Each source gives its own pointer and length. -/
theorem exists_assignFrom (src : Source lim χ) : ∃ ptr : List χ,
    src.text.length ≤ ptr.length ∧ ptr.take src.text.length = src.text ∧
      (assignFrom src : SubMethod lim ι χ PUnit) = assign ptr src.text.length := by
  cases src with
  | string str => exact ⟨str.data, str.length_le_data, str.take_data, rfl⟩
  | pointer cptr => exact ⟨cptr.data, cptr.length_le_data, cptr.take_data, rfl⟩
  | char ch => exact ⟨[ch], le_rfl, rfl, rfl⟩

end

end SubString
end KssUtil.Strings

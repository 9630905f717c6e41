import KssUtil.Strings.SubStringWrites

/-!
# Windows of substrings (substring.hpp)

What the constructors make of a beginning that is not in the string, and what the
assignment of a substring to a substring writes.
-/

namespace KssUtil.Strings.SubString

open KssUtil.Foundation

variable {lim : Limits} {ι χ : Type} [DecidableEq ι] [Zero χ]

/-! ## Construction -/

section

variable [LinearOrder χ]

/-- The empty C string -/
def emptyCString : CString χ := ⟨[], fun _ h => absurd h List.not_mem_nil⟩

/-- The substring is empty in every respect, and cannot be assigned to. -/
structure Inert (strs : ι → BasicString lim χ) (sub : SubString ι χ) : Prop where
  size : sub.size = 0
  empty : sub.empty = true
  string : sub.toBasicString strs = emptyString
  equalString : sub.equalString strs emptyString = .ok true
  equalPointer : sub.equalPointer strs emptyCString = .ok true
  assignFrom : ∀ src : Source lim χ,
    assignFrom src ⟨strs, sub⟩ = .error .outOfRange ⟨strs, sub⟩
  assignSub : ∀ b, assignSub b ⟨strs, sub⟩ = .error .outOfRange ⟨strs, sub⟩

/-- The substring is the part of `x` from `i` on that has `n` characters. -/
structure IsWindow (strs : ι → BasicString lim χ) (x : ι) (i n : ℕ) (sub : SubString ι χ) :
    Prop where
  str : sub.str = x
  begins : sub.i = i
  size : sub.size = n
  text : sub.text strs = ((strs x).chars.drop i).take n

/-- `SubString(x, i, n)` is constructed, and is a window or inert. -/
def ConstructsWindow (strs : ι → BasicString lim χ) (x : ι) (i n : ℕ) : Prop :=
  ∃ sub, construct strs x i n = .ok sub ∧
    if i < (strs x).length then IsWindow strs x i (min n ((strs x).length - i)) sub
    else Inert strs sub

/-- `SubString(x, pattern, i)` is constructed, and is the first occurrence or, if there is
none, inert. -/
def SearchesWindow (strs : ι → BasicString lim χ) (x : ι) (pattern : BasicString lim χ)
    (i : ℕ) : Prop :=
  ∃ sub, constructSearching strs x pattern i = .ok sub ∧
    ((i ≤ sub.i ∧ OccursAt (strs x).chars pattern.chars sub.i ∧
        (∀ p, i ≤ p → OccursAt (strs x).chars pattern.chars p → sub.i ≤ p) ∧
        IsWindow strs x sub.i pattern.length sub ∧ sub.text strs = pattern.chars) ∨
      (∀ p, i ≤ p → ¬ OccursAt (strs x).chars pattern.chars p) ∧ Inert strs sub)

section

variable {strs : ι → BasicString lim χ} {x : ι}

/-- A beginning behind the string makes a substring inert if its size is 0. -/
theorem inert_of_size {sub : SubString ι χ} (hout : ¬ sub.InRange strs) (hsize : sub.n = 0)
    (hcstr : sub.cstr = none) : Inert strs sub := by
  have hequal : ∀ q : List χ, equalChars (sub.cells strs) sub.size q 0 = .ok true := by
    intro q
    have hsizes : sub.size = 0 := hsize
    rw [hsizes, equalChars_eq (Nat.zero_le _) (Nat.zero_le _), List.take_zero, List.take_zero,
      decide_eq_true rfl]
  constructor
  · exact hsize
  · exact decide_eq_true hsize
  · exact if_pos (Or.inr hsize)
  · exact hequal _
  · exact hequal _
  · intro src
    obtain ⟨ptr, -, -, hassign⟩ := exists_assignFrom ι src
    rw [hassign]
    exact assign_outOfRange hcstr hout
  · intro b
    exact assign_outOfRange hcstr hout

theorem constructsWindow_of_lt {i : ℕ} (hi : i < (strs x).length) (n : ℕ) :
    ConstructsWindow strs x i n := by
  refine ⟨_, construct_of_lt hi n, ?_⟩
  rw [if_pos hi]
  exact ⟨rfl, rfl, rfl, rfl⟩

theorem searchesWindow (strs : ι → BasicString lim χ) (x : ι) (pattern : BasicString lim χ)
    {i : ℕ} (hi : i ≤ npos) : SearchesWindow strs x pattern i := by
  by_cases hfind : (strs x).find pattern i = npos
  · refine ⟨⟨x, npos, 0, none⟩, ?_, Or.inr ⟨BasicString.find_eq_npos.mp hfind, ?_⟩⟩
    · rw [constructSearching, hfind, if_neg (not_not.mpr rfl)]
      exact if_pos ⟨hi, Or.inr rfl⟩
    · exact inert_of_size (not_inRange_npos strs x 0) rfl rfl
  · obtain ⟨hle, hoccurs, hfirst⟩ := BasicString.find_spec hfind
    have htext : ((strs x).chars.drop ((strs x).find pattern i)).take pattern.length =
        pattern.chars := (List.prefix_iff_eq_take.mp hoccurs.2).symm
    refine ⟨⟨x, (strs x).find pattern i, pattern.length, none⟩, ?_, Or.inl ?_⟩
    · rw [constructSearching, if_pos hfind]
      exact if_pos ⟨hle, Or.inl rfl⟩
    · exact ⟨hle, hoccurs, hfirst, ⟨rfl, rfl, rfl, rfl⟩, htext⟩

end

/-- **When the constructors yield a window.**  A search always yields one, or an inert
substring.  A beginning and a size do so just when the beginning is in the string, or is
`npos` and the size is 0. -/
theorem constructors_yield_window_iff (strs : ι → BasicString lim χ) (x : ι) :
    (∀ i n, ConstructsWindow strs x i n ↔ i < (strs x).length ∨ i = npos ∧ n = 0) ∧
      ∀ pattern, ∀ i ≤ npos, SearchesWindow strs x pattern i := by
  refine ⟨?_, fun pattern i hi => searchesWindow strs x pattern hi⟩
  intro i n
  constructor
  · rintro ⟨sub, hsub, hkind⟩
    by_cases hi : i < (strs x).length
    · exact Or.inl hi
    · right
      rw [construct_of_ge (not_lt.mp hi)] at hsub
      rw [if_neg hi] at hkind
      split at hsub
      · rename_i hnpos
        refine ⟨hnpos, ?_⟩
        have hsize := hkind.size
        rw [← Except.ok.inj hsub, size] at hsize
        dsimp only at hsize
        omega
      · cases hsub
  · rintro (hi | ⟨rfl, rfl⟩)
    · exact constructsWindow_of_lt hi n
    · have hout : ¬ npos < (strs x).length := not_lt.mpr (le_of_lt (strs x).length_lt)
      refine ⟨⟨x, npos, 0, none⟩, ?_, ?_⟩
      · rw [construct_of_ge (not_lt.mp hout), if_pos rfl, Nat.zero_min]
      · rw [if_neg hout]
        exact inert_of_size (not_inRange_npos strs x 0) rfl rfl

/-- `SubString(s, 3)` on "abc" ends the program. -/
theorem construct_abc_terminates :
    ¬ ConstructsWindow (fun _ : Unit => abc) () 3 npos := by
  rintro ⟨sub, hsub, -⟩
  rw [construct_of_ge (by decide), if_neg (by decide)] at hsub
  cases hsub

end

/-! ## Assignment of a substring -/

/-- `a = b` gives `a` the text of `b`, as `a = std::string(b)` does. -/
def Copies (strs : ι → BasicString lim χ) (a b : SubString ι χ) : Prop :=
  Returns (assignSub b) ⟨strs, a⟩ (fun _ st =>
    st.sub.text st.strs = b.text strs ∧
      (st.strs a.str).chars = (strs a.str).chars.take a.i ++ b.text strs ++
        (strs a.str).chars.drop (a.i + a.n) ∧
      st.strs b.str = strs b.str ∧ b.text st.strs = b.text strs) ∧
    assignSub b ⟨strs, a⟩ = assignFrom (.string (b.toBasicString strs)) ⟨strs, a⟩

section

variable {strs : ι → BasicString lim χ} {a b : SubString ι χ}

theorem copies_of_size (ha : a.Valid strs) (hb : b.Valid strs) (hne : a.str ≠ b.str)
    (hcstr : a.cstr = none) (hsize : a.n = b.n) : Copies strs a b := by
  have hread : a.n ≤ (b.cells strs).length := by
    rw [hsize]
    exact hb.size_le_cells
  have htake : (b.cells strs).take a.n = b.text strs := by
    rw [hsize]
    exact hb.take_cells
  have hlen : (b.text strs).length = (a.text strs).length := by
    rw [ha.length_text, hb.length_text, hsize]
  have hrange : (b.cells strs).take a.n ++ (strs a.str).chars.drop (a.i + a.n) ≠ [] := by
    rw [htake, ← List.length_pos_iff, List.length_append, hlen, ← List.length_append,
      List.length_pos_iff]
    exact ha.window.inRange
  constructor
  · refine (ha.window.assign hcstr hread hrange).mono ?_ ?_
    · rintro _ st ⟨hwindow, -⟩
      rw [htake] at hwindow
      have hother : st.strs b.str = strs b.str := hwindow.others b.str (Ne.symm hne)
      refine ⟨hwindow.text, hwindow.chars, hother, ?_⟩
      rw [text, text, hother]
    · rintro e st ⟨-, hlong, -⟩
      rw [htake, List.length_append, List.length_append, hlen, ← List.length_append,
        ← List.length_append, ← ha.window.chars] at hlong
      exact absurd (strs a.str).length_le (not_le.mpr hlong)
  · have hstring : (b.toBasicString strs).length = a.n := by
      rw [BasicString.length, hb.toBasicString, hb.length_text, hsize]
    have hcells : readChars (b.cells strs) a.n = .ok (b.text strs) := by
      rw [readChars, if_pos hread, htake]
      rfl
    have hdata : readChars (b.toBasicString strs).data a.n = .ok (b.text strs) := by
      have hle := (b.toBasicString strs).length_le_data
      have htaken := (b.toBasicString strs).take_data
      rw [hstring] at hle htaken
      rw [readChars, if_pos hle, htaken, hb.toBasicString]
      rfl
    show (assign (b.cells strs) a.n : SubMethod lim ι χ PUnit) ⟨strs, a⟩ =
      assign (b.toBasicString strs).data (b.toBasicString strs).length ⟨strs, a⟩
    rw [hstring, assign_congr (hcells.trans hdata.symm)]

/-- The text of the target keeps its length, so it can only be that of a source of the
same size. -/
theorem size_of_copies (ha : a.Valid strs) (hb : b.Valid strs) (h : Copies strs a b) :
    a.cstr = none ∧ a.n = b.n := by
  have hassign : Returns (assign (b.cells strs) a.n : SubMethod lim ι χ PUnit) ⟨strs, a⟩
      fun _ st => st.sub.text st.strs = b.text strs :=
    Returns.mono h.1 fun _ _ h => h.1
  have hcstr : a.cstr = none := by
    rw [← Option.not_isSome_iff_eq_none]
    intro hsome
    have hterminated : (assign (b.cells strs) a.n : SubMethod lim ι χ PUnit) ⟨strs, a⟩ =
        .error .terminated ⟨strs, a⟩ := assign_terminated hsome
    rw [Returns, Runs, hterminated] at hassign
    exact hassign
  have hnone : (⟨strs, a⟩ : SubState lim ι χ).sub.cstr = none := hcstr
  refine ⟨hcstr, ?_⟩
  by_cases hread : a.n ≤ (b.cells strs).length
  · rcases assign_cases hnone ha.inRange hread with ⟨str, hchars, hrun⟩ | ⟨-, hrun⟩
    · rw [Returns, Runs, hrun] at hassign
      have hlen := congrArg List.length hassign
      have hreplaced := congrArg List.length hchars
      have hinside : a.i + a.n ≤ (strs a.str).chars.length := ha.le
      rw [hb.length_text, text, List.length_take, List.length_drop] at hlen
      dsimp only at hlen
      rw [Function.update_self] at hlen
      rw [replaced, List.length_append, List.length_append, List.length_take_of_le hread,
        List.length_take, List.length_drop] at hreplaced
      dsimp only at hreplaced
      omega
    · rw [Returns, Runs, hrun] at hassign
      exact hassign.elim
  · rw [Returns, Runs, assign_undefined hnone ha.inRange (not_le.mp hread)] at hassign
    exact hassign.elim

/-- **When `a = b` copies.**  The number of characters that are read is that of the target:
`a` gets the text of `b` just when the two have one size, and no C string of `a` has been
asked for. -/
theorem assignSub_copies_iff (ha : a.Valid strs) (hb : b.Valid strs) (hne : a.str ≠ b.str) :
    Copies strs a b ↔ a.cstr = none ∧ a.n = b.n := by
  constructor
  · exact size_of_copies ha hb
  · rintro ⟨hcstr, hsize⟩
    exact copies_of_size ha hb hne hcstr hsize

end

/-- Two strings, "abc" and "yz" -/
def abcAndYz : Bool → BasicString Limits.gnu (Fin 256)
  | false => abc
  | true => yz

/-- The "b" of the one gets the "y" of the other. -/
theorem assignSub_copies_one :
    Copies abcAndYz ⟨false, 1, 1, none⟩ ⟨true, 0, 1, none⟩ :=
  (assignSub_copies_iff ⟨by decide, by decide⟩ ⟨by decide, by decide⟩ (by decide)).mpr ⟨rfl, rfl⟩

/-- The "b" of the one does not get the "yz" of the other. -/
theorem assignSub_two_to_one :
    ¬ Copies abcAndYz ⟨false, 1, 1, none⟩ ⟨true, 0, 2, none⟩ := by
  intro h
  have hsize := (size_of_copies ⟨by decide, by decide⟩ ⟨by decide, by decide⟩ h).2
  exact absurd hsize (by decide)
end KssUtil.Strings.SubString

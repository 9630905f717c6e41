import KssUtil.Strings.SubString
import Mathlib.Data.ZMod.Defs
import Mathlib.Order.Fin.Basic

/-!
# Writing through a substring (substring.hpp)

Whatever is assigned, the substring is the text that was written last, between what
was around it from the beginning.
-/

namespace KssUtil.Strings.SubString

open KssUtil.Foundation

variable {lim : Limits} {ι χ : Type}

/-- Assignments, one after the other. -/
def assignAll [DecidableEq ι] [Zero χ] : List (Source lim χ) → SubMethod lim ι χ PUnit
  | [] => pure ⟨⟩
  | src :: sources => do
      assignFrom src
      assignAll sources

/-- Whatever looks at the substring sees the text `t`. -/
structure Sees [Zero χ] [LinearOrder χ] (strs : ι → BasicString lim χ) (sub : SubString ι χ)
    (t : List χ) : Prop where
  size : sub.size = t.length
  string : (sub.toBasicString strs).chars = t
  data : ∃ cells, sub.data strs = some cells ∧ cells.take sub.size = t
  equal : ∀ (rhs : SubString ι χ) (same : Bool), rhs.Valid strs → (same = true → rhs = sub) →
    sub.equal strs rhs same = .ok (decide (t = rhs.text strs))
  less : ∀ (rhs : SubString ι χ) (same : Bool), rhs.Valid strs → (same = true → rhs = sub) →
    sub.less strs rhs same = .ok (decide (t < rhs.text strs))
  equalString : ∀ s, sub.equalString strs s = .ok (decide (t = s.chars))
  lessString : ∀ s, sub.lessString strs s = .ok (decide (t < s.chars))
  stringLess : ∀ s, sub.stringLess strs s = .ok (decide (s.chars < t))
  equalPointer : ∀ cptr, sub.equalPointer strs cptr = .ok (decide (t = cptr.text))
  lessPointer : ∀ cptr, sub.lessPointer strs cptr = .ok (decide (t < cptr.text))

/-- The string `x` is `p ++ t ++ q`, and the substring is the `t` in it; the other
strings are those of `strs`. -/
structure Window (strs : ι → BasicString lim χ) (x : ι) (p t q : List χ)
    (st : SubState lim ι χ) : Prop where
  str : st.sub.str = x
  chars : (st.strs x).chars = p ++ t ++ q
  begins : st.sub.i = p.length
  size : st.sub.n = t.length
  inRange : t ++ q ≠ []
  others : ∀ y ≠ x, st.strs y = strs y

section

variable {strs : ι → BasicString lim χ} {x : ι} {p t q : List χ} {st : SubState lim ι χ}

theorem Window.valid (h : Window strs x p t q st) : st.sub.Valid st.strs := by
  have hlen : (st.strs st.sub.str).length = p.length + (t ++ q).length := by
    rw [BasicString.length, h.str, h.chars, List.append_assoc, List.length_append]
  have hpos : 0 < (t ++ q).length := List.length_pos_iff.mpr h.inRange
  constructor
  · rw [InRange, hlen, h.begins]
    omega
  · rw [hlen, h.begins, h.size, List.length_append]
    omega

theorem Window.text (h : Window strs x p t q st) : st.sub.text st.strs = t := by
  rw [SubString.text, h.str, h.chars, h.begins, h.size, List.append_assoc, List.drop_left,
    List.take_left]

/-- What the string becomes if `chars` is written. -/
theorem Window.replaced (h : Window strs x p t q st) (chars : List χ) :
    SubString.replaced st chars = p ++ chars ++ q := by
  have hend : st.sub.i + st.sub.n = (p ++ t).length := by
    rw [h.begins, h.size, List.length_append]
  have htake : (p ++ t ++ q).take p.length = p := by
    rw [List.append_assoc, List.take_left]
  rw [SubString.replaced, h.str, h.chars, hend, List.drop_left, h.begins, htake]

theorem Window.sees [Zero χ] [LinearOrder χ] (h : Window strs x p t q st) :
    Sees st.strs st.sub t := by
  have hvalid := h.valid
  have htext := h.text
  constructor
  · exact h.size
  · rw [hvalid.toBasicString, htext]
  · refine ⟨_, data_of_inRange hvalid.inRange, ?_⟩
    rw [← cells_of_inRange hvalid.inRange, hvalid.take_cells, htext]
  · intro rhs same hrhs hsame
    rw [hvalid.equal hrhs hsame, htext]
  · intro rhs same hrhs hsame
    rw [hvalid.less hrhs hsame, htext]
  · intro s
    rw [hvalid.equalString, htext]
  · intro s
    rw [hvalid.lessString, htext]
  · intro s
    rw [hvalid.stringLess, htext]
  · intro cptr
    rw [hvalid.equalPointer, htext]
  · intro cptr
    rw [hvalid.lessPointer, htext]

variable [DecidableEq ι]

/-- What is written takes the place of the text of the substring. -/
theorem Window.assign {ptr : List χ} {newN : ℕ} (h : Window strs x p t q st)
    (hcstr : st.sub.cstr = none) (hread : newN ≤ ptr.length) (hrange : ptr.take newN ++ q ≠ []) :
    Runs (assign ptr newN) st
      (fun _ st' => Window strs x p (ptr.take newN) q st' ∧ st'.sub.cstr = none)
      fun e st' => e = .lengthError ∧ lim.maxSize < (p ++ ptr.take newN ++ q).length ∧
        st' = st := by
  rcases assign_cases hcstr h.valid.inRange hread with ⟨str, hchars, hrun⟩ | ⟨hlong, hrun⟩
  · rw [h.replaced] at hchars
    rw [Runs, hrun]
    refine ⟨⟨h.str, ?_, h.begins, (List.length_take_of_le hread).symm, hrange, ?_⟩, hcstr⟩
    · dsimp only
      rw [h.str, Function.update_self, hchars]
    · intro y hy
      dsimp only
      rw [h.str, Function.update_of_ne hy]
      exact h.others y hy
  · rw [h.replaced] at hlong
    rw [Runs, hrun]
    exact ⟨rfl, hlong, rfl⟩

variable [Zero χ]

/-- **One write.** -/
theorem Window.assignFrom (h : Window strs x p t q st) (hcstr : st.sub.cstr = none)
    (src : Source lim χ) (htext : src.text ≠ []) :
    Runs (assignFrom src) st
      (fun _ st' => Window strs x p src.text q st' ∧ st'.sub.cstr = none)
      fun e st' => e = .lengthError ∧ lim.maxSize < (p ++ src.text ++ q).length ∧ st' = st := by
  obtain ⟨ptr, hread, htake, hassign⟩ := exists_assignFrom ι src
  have hrange : ptr.take src.text.length ++ q ≠ [] := by
    rw [htake]
    exact List.append_ne_nil_of_left_ne_nil htext q
  have hwrite := h.assign hcstr hread hrange
  rw [htake] at hwrite
  rw [hassign]
  exact hwrite

/-- Any number of writes: the last one counts. -/
theorem Window.assignAll {sources : List (Source lim χ)} (htexts : ∀ src ∈ sources, src.text ≠ []) :
    ∀ {t : List χ} {st : SubState lim ι χ}, Window strs x p t q st → st.sub.cstr = none →
      Runs (assignAll sources) st
        (fun _ st' => Window strs x p ((sources.getLast?.map Source.text).getD t) q st')
        fun e _ => e = .lengthError ∧
          ∃ src ∈ sources, lim.maxSize < (p ++ src.text ++ q).length := by
  induction sources with
  | nil =>
      intro t st h _
      exact h
  | cons src sources ih =>
      intro t st h hcstr
      obtain ⟨htext, htexts⟩ := List.forall_mem_cons.mp htexts
      rw [SubString.assignAll, runs_bind]
      refine (h.assignFrom hcstr src htext).mono ?_ ?_
      · rintro _ st' ⟨h', hcstr'⟩
        refine (ih htexts h' hcstr').mono ?_ ?_
        · intro _ st'' hlast
          cases sources with
          | nil => exact hlast
          | cons src' sources => exact hlast
        · rintro e _ ⟨he, src', hmem, hlong⟩
          exact ⟨he, src', List.mem_cons_of_mem src hmem, hlong⟩
      · rintro e _ ⟨he, hlong, -⟩
        exact ⟨he, src, List.mem_cons_self, hlong⟩

end

/-! ## From the construction on -/

section

variable {strs : ι → BasicString lim χ} {x : ι} {i n : ℕ}

/-- A beginning inside the string is kept. -/
theorem construct_of_lt (hi : i < (strs x).length) (n : ℕ) :
    construct strs x i n = .ok ⟨x, i, min n ((strs x).length - i), none⟩ := by
  have hlt := (strs x).length_lt
  have hdiff : sizeDifference (strs x).length i = (strs x).length - i := by
    unfold sizeDifference
    unfold npos at hlt
    omega
  rw [construct, if_neg (not_le.mpr hi), hdiff]
  exact if_pos ⟨Or.inl rfl, Nat.min_le_left _ _⟩

/-- What is behind the end of the string keeps a size, which is that of the requested
substring or one more than the length of the string. -/
theorem construct_of_ge {i : ℕ} (hi : (strs x).length ≤ i) (n : ℕ) :
    construct strs x i n = if i = npos then .ok ⟨x, npos, min n ((strs x).length + 1), none⟩
      else .error .terminated := by
  have hlt := (strs x).length_lt
  have hdiff : sizeDifference (strs x).length npos = (strs x).length + 1 := by
    unfold sizeDifference
    unfold npos at hlt ⊢
    omega
  rw [construct, if_pos hi, hdiff]
  by_cases hnpos : i = npos
  · rw [if_pos hnpos]
    exact if_pos ⟨Or.inr hnpos, Nat.min_le_left _ _⟩
  · rw [if_neg hnpos]
    refine if_neg ?_
    rintro ⟨hfirst | hfirst, -⟩
    · exact hnpos hfirst.symm
    · exact hnpos hfirst

theorem not_inRange_npos (strs : ι → BasicString lim χ) (x : ι) (n : ℕ) :
    ¬ InRange strs (⟨x, npos, n, none⟩ : SubString ι χ) :=
  not_lt.mpr (le_of_lt (strs x).length_lt)

/-- What is around a valid substring. -/
theorem Valid.window {sub : SubString ι χ} (h : sub.Valid strs) :
    Window strs sub.str ((strs sub.str).chars.take sub.i) (sub.text strs)
      ((strs sub.str).chars.drop (sub.i + sub.n)) ⟨strs, sub⟩ := by
  have hlen : sub.i < (strs sub.str).chars.length := h.inRange
  have hrest : sub.text strs ++ (strs sub.str).chars.drop (sub.i + sub.n) =
      (strs sub.str).chars.drop sub.i := by
    rw [text, ← List.drop_drop, List.take_append_drop]
  constructor
  · rfl
  · rw [List.append_assoc, hrest, List.take_append_drop]
  · rw [List.length_take_of_le hlen.le]
  · exact h.length_text.symm
  · rw [hrest]
    intro hnil
    exact absurd (List.drop_eq_nil_iff.mp hnil) (not_le.mpr hlen)
  · intro y _
    rfl

theorem valid_of_construct (hi : i < (strs x).length) (n : ℕ) :
    Valid strs (⟨x, i, min n ((strs x).length - i), none⟩ : SubString ι χ) := by
  constructor
  · exact hi
  · dsimp only
    omega

variable [DecidableEq ι] [Zero χ] [LinearOrder χ]

/-- **Write-through.**  After any number of assignments, of which there is at least one, the
string is what was in front of the substring, the text that was assigned last, and what was
behind; and whatever looks at the substring sees that text.  Only a string that gets too
long is an error. -/
theorem assignments_write_through (hi : i < (strs x).length) (n : ℕ)
    (sources : List (Source lim χ)) (hne : sources ≠ [])
    (htexts : ∀ src ∈ sources, src.text ≠ []) :
    ∃ sub, construct strs x i n = .ok sub ∧
      sub.text strs = ((strs x).chars.drop i).take (min n ((strs x).length - i)) ∧
      let p := (strs x).chars.take i
      let q := (strs x).chars.drop (i + min n ((strs x).length - i))
      let t := (sources.getLast hne).text
      Runs (assignAll sources) ⟨strs, sub⟩
        (fun _ st => (st.strs x).chars = p ++ t ++ q ∧ (∀ y ≠ x, st.strs y = strs y) ∧
          Sees st.strs st.sub t)
        fun e _ => e = .lengthError ∧
          ∃ src ∈ sources, lim.maxSize < (p ++ src.text ++ q).length := by
  refine ⟨_, construct_of_lt hi n, rfl, ?_⟩
  refine ((valid_of_construct hi n).window.assignAll htexts rfl).mono ?_ fun _ _ h => h
  intro _ st h
  rw [List.getLast?_eq_getLast_of_ne_nil hne] at h
  exact ⟨h.chars, h.others, h.sees⟩

/-- The "b" of "abc" becomes "x", and then "yz". -/
theorem assignments_write_through_abc :
    let strs : Unit → BasicString Limits.gnu (Fin 256) := fun _ => abc
    ∃ sub, construct strs () 1 1 = .ok sub ∧
      Returns (assignAll [.char 120, .string yz]) ⟨strs, sub⟩
        fun _ st => (st.strs ()).chars = [97, 121, 122, 99] := by
  intro strs
  have hi : 1 < (strs ()).length := by decide
  obtain ⟨sub, hsub, -, hruns⟩ :=
    @assignments_write_through Limits.gnu Unit (Fin 256) strs () 1 _ _ _ hi 1
      [.char 120, .string yz] (List.cons_ne_nil _ _) (by simp [Source.text, yz])
  refine ⟨sub, hsub, hruns.mono (fun _ st h => h.1) ?_⟩
  rintro e _ ⟨-, src, hsrc, hlong⟩
  have hshort : src.text.length ≤ 2 := by
    rcases List.mem_cons.mp hsrc with rfl | hsrc
    · decide
    · rw [List.mem_singleton.mp hsrc]
      decide
  have hmax : Limits.gnu.maxSize = 2 ^ 62 - 1 := rfl
  rw [List.length_append, List.length_append, List.length_take, List.length_drop, hmax] at hlong
  have hlen : (strs ()).chars.length = 3 := rfl
  omega

end
end KssUtil.Strings.SubString

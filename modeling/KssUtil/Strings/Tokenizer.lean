import KssUtil.Iterators.ForwardIterator
import Mathlib.Algebra.Group.Nat.Defs
import Mathlib.Data.List.Basic
import Mathlib.Tactic.Common

/-!
# Tokenizer (tokenizer.hpp, tokenizer.cpp)

A string is cut at the characters of a set of delimiters.
-/

namespace KssUtil.Strings

open KssUtil.Libc KssUtil.Iterators

/-! ## Strings -/

/-- The largest `std::string::size_type` -/
def npos : ℕ := 2 ^ 64 - 1

/-- One more, as a `size_type`. -/
def sizeIncrement (n : ℕ) : ℕ := (n + 1) % 2 ^ 64

/-- `std::string`; no position in it is `npos`. -/
structure StdString where
  chars : List Char
  length_lt : chars.length < npos

namespace StdString

def length (s : StdString) : ℕ := s.chars.length

/-- The first position from `pos` on that has one of the characters. -/
def findFirstOf (s : StdString) (delim : List Char) (pos : ℕ) : ℕ :=
  match (s.chars.drop pos).findIdx? (delim.contains ·) with
  | some i => pos + i
  | none => npos

/-- `pos` is not behind the end of the string. -/
def substr (s : StdString) (pos count : ℕ) : List Char := (s.chars.drop pos).take count

/-- `s[start, end)` -/
def window (s : StdString) (start stop : ℕ) : List Char := (s.chars.take stop).drop start

end StdString

/-! ## Tokenizer -/

/-- `endPos` is `_end`. -/
structure Tokenizer where
  s : StdString
  delim : List Char
  lastPos : ℕ
  endPos : ℕ

namespace Tokenizer

/-- Both constructors copy the string. -/
def construct (s : StdString) (delim : List Char) (start stop : ℕ) : Except Exn Tokenizer :=
  if delim.isEmpty then throw .invalidArgument
  else
    let endPos := min stop s.length
    let lastPos := if start = endPos then sizeIncrement endPos else start
    if (lastPos = start ∨ lastPos = sizeIncrement endPos) ∧ endPos ≤ stop then
      return { s, delim, lastPos, endPos }
    else throw .aborted

def hasAnother (t : Tokenizer) : Bool := t.lastPos ≤ t.endPos

def next (t : Tokenizer) : Except Exn (Tokenizer × List Char) :=
  if ¬t.hasAnother then throw .aborted
  else
    let pos := t.s.findFirstOf t.delim t.lastPos
    if pos ≥ t.endPos then
      -- the final token
      return ({ t with lastPos := sizeIncrement t.endPos },
        if t.lastPos < t.endPos then t.s.substr t.lastPos (t.endPos - t.lastPos) else [])
    else if pos = t.lastPos then return ({ t with lastPos := sizeIncrement t.lastPos }, [])
    else return ({ t with lastPos := sizeIncrement pos }, t.s.substr t.lastPos (pos - t.lastPos))

/-- `Tokenizer` as a container of a `ForwardIterator`. -/
def container : Container Tokenizer (List Char) := ⟨hasAnother, next⟩

/-- What is still to be cut. -/
def rest (t : Tokenizer) : List Char := t.s.window t.lastPos t.endPos

/-- The pieces between the delimiters, or none once the last has been handed out. -/
def tokens (t : Tokenizer) : List (List Char) :=
  if t.hasAnother then t.rest.splitOnP (t.delim.contains ·) else []

/-- The end of the window is in the string. -/
def Valid (t : Tokenizer) : Prop := t.endPos ≤ t.s.length

end Tokenizer

/-! ## Pieces -/

section

variable {α : Type} {p : α → Bool}

/-- A piece, a delimiter, the next piece, and so on up to the last piece. -/
def interleave (pieces : List (List α)) (delims : List α) : List α :=
  (pieces.zipWith (· ++ ·) (delims.map (fun c => [c]) ++ [[]])).flatten

/-- There is one piece more than there are delimiters. -/
theorem length_splitOnP (xs : List α) : (xs.splitOnP p).length = xs.countP p + 1 := by
  induction xs with
  | nil => rfl
  | cons x xs ih =>
      rw [List.splitOnP_cons_eq_if_modifyHead, List.countP_cons]
      split
      · rw [List.length_cons, ih]
      · rw [List.length_modifyHead, ih, Nat.add_zero]

/-- No piece has a delimiter. -/
theorem not_delim_of_mem_splitOnP {xs ys : List α} (h : ys ∈ xs.splitOnP p) :
    ∀ y ∈ ys, p y = false := by
  induction xs generalizing ys with
  | nil =>
      rw [List.splitOnP_nil, List.mem_singleton] at h
      rw [h]
      intro y hy
      exact absurd hy List.not_mem_nil
  | cons x xs ih =>
      rw [List.splitOnP_cons_eq_if_modifyHead] at h
      split at h
      · rcases List.mem_cons.mp h with rfl | h
        · intro y hy
          exact absurd hy List.not_mem_nil
        · exact ih h
      · rename_i hx
        cases hpieces : xs.splitOnP p with
        | nil => exact absurd hpieces (List.splitOnP_ne_nil p xs)
        | cons piece pieces =>
            rw [hpieces, List.modifyHead_cons] at h
            rcases List.mem_cons.mp h with rfl | h
            · intro y hy
              rcases List.mem_cons.mp hy with rfl | hy
              · exact Bool.eq_false_iff.mpr hx
              · exact ih (hpieces ▸ List.mem_cons_self) y hy
            · exact ih (hpieces ▸ List.mem_cons_of_mem _ h)

end

/-! ## Positions -/

section

variable {s : StdString} {delim : List Char} {pos stop : ℕ}

theorem sizeIncrement_of_le (h : pos ≤ s.length) : sizeIncrement pos = pos + 1 := by
  have hlt := Nat.lt_of_le_of_lt h s.length_lt
  rw [sizeIncrement, Nat.mod_eq_of_lt]
  unfold npos at hlt
  omega

theorem StdString.window_self (s : StdString) (pos : ℕ) : s.window pos pos = [] := by
  rw [window, List.drop_eq_nil_iff]
  exact List.length_take_le _ _

theorem StdString.window_eq (s : StdString) (pos stop : ℕ) :
    s.window pos stop = s.substr pos (stop - pos) := List.drop_take

/-- Either there is a delimiter in the window, or the search ends behind it. -/
theorem StdString.findFirstOf_cases (s : StdString) (delim : List Char) (pos : ℕ)
    (h : stop ≤ s.length) :
    (stop ≤ s.findFirstOf delim pos ∧ ∀ c ∈ s.window pos stop, delim.contains c = false) ∨
    ∃ k c, s.findFirstOf delim pos = pos + k ∧ pos + k < stop ∧ delim.contains c = true ∧
      (∀ c ∈ s.substr pos k, delim.contains c = false) ∧
      s.window pos stop = s.substr pos k ++ c :: s.window (pos + k + 1) stop := by
  cases hfind : (s.chars.drop pos).findIdx? (delim.contains ·) with
  | none =>
      left
      have hclean := List.findIdx?_eq_none_iff.mp hfind
      have hpos : s.findFirstOf delim pos = npos := by rw [findFirstOf, hfind]
      refine ⟨?_, ?_⟩
      · rw [hpos]
        exact Nat.le_trans h (Nat.le_of_lt s.length_lt)
      · intro c hc
        rw [window_eq] at hc
        exact hclean c (List.mem_of_mem_take hc)
  | some k =>
      obtain ⟨hk, hdelim, hbefore⟩ := List.findIdx?_eq_some_iff_getElem.mp hfind
      have hpos : s.findFirstOf delim pos = pos + k := by rw [findFirstOf, hfind]
      have hclean : ∀ c ∈ s.substr pos k, delim.contains c = false := by
        intro c hc
        obtain ⟨j, hj, rfl⟩ := List.mem_take_iff_getElem.mp hc
        exact Bool.eq_false_iff.mpr (hbefore j (Nat.lt_of_lt_of_le hj (Nat.min_le_left _ _)))
      -- the search does not know the window: the delimiter may be behind it
      rcases Nat.lt_or_ge (pos + k) stop with hlt | hge
      · right
        obtain ⟨m, hm⟩ : ∃ m, stop - pos = k + (m + 1) := ⟨stop - pos - k - 1, by omega⟩
        have hm' : stop - (pos + k + 1) = m := by omega
        refine ⟨k, (s.chars.drop pos)[k], hpos, hlt, hdelim, hclean, ?_⟩
        rw [window_eq, window_eq, hm, hm', substr, List.take_add, List.drop_eq_getElem_cons hk,
          List.take_succ_cons, List.drop_drop]
        rfl
      · left
        refine ⟨hpos ▸ hge, ?_⟩
        intro c hc
        rw [window_eq] at hc
        exact hclean c ((List.take_prefix_take_left (Nat.sub_le_iff_le_add'.mpr hge)).subset hc)

end

/-! ## Steps -/

namespace Tokenizer

section

variable {t : Tokenizer}

/-- Past the last piece there is nothing. -/
theorem tokens_of_done (h : ¬t.hasAnother = true) : t.tokens = [] := if_neg h

theorem tokens_of_lt (h : t.endPos < t.lastPos) : t.tokens = [] := by
  apply tokens_of_done
  rw [hasAnother, decide_eq_true_eq]
  exact Nat.not_le.mpr h

/-- One call of `next` hands out the first of the pieces that are left. -/
theorem next_tokens (hvalid : t.Valid) (h : t.hasAnother = true) :
    ∃ t' token, t.next = .ok (t', token) ∧ t'.Valid ∧ t.tokens = token :: t'.tokens := by
  have hle : t.lastPos ≤ t.endPos := of_decide_eq_true h
  have hlast : sizeIncrement t.endPos = t.endPos + 1 := sizeIncrement_of_le hvalid
  have hdone : ∀ t' : Tokenizer, t'.lastPos = t'.endPos + 1 → t'.tokens = [] := by
    intro t' ht'
    apply tokens_of_lt
    rw [ht']
    exact Nat.lt_succ_self _
  rw [tokens, if_pos h, next, if_neg (not_not.mpr h)]
  dsimp only
  rcases t.s.findFirstOf_cases t.delim t.lastPos hvalid with
    ⟨hend, hclean⟩ | ⟨k, c, hpos, hlt, hdelim, hclean, hwindow⟩
  · rw [if_pos hend]
    refine ⟨_, _, rfl, hvalid, ?_⟩
    rw [hdone { t with lastPos := sizeIncrement t.endPos } hlast, rest,
      List.splitOnP_eq_singleton hclean]
    split
    · rw [StdString.window_eq]
    · rename_i hnot
      have hsame : t.lastPos = t.endPos := Nat.le_antisymm hle (Nat.not_lt.mp hnot)
      rw [hsame, StdString.window_self]
  · have hle' : t.lastPos + k + 1 ≤ t.endPos := hlt
    have hnext : sizeIncrement (t.lastPos + k) = t.lastPos + k + 1 :=
      sizeIncrement_of_le (Nat.le_trans (Nat.le_of_lt hlt) hvalid)
    have hrest : ∀ token : List Char, token = t.s.substr t.lastPos k →
        t.rest.splitOnP (t.delim.contains ·) =
          token :: Tokenizer.tokens { t with lastPos := t.lastPos + k + 1 } := by
      rintro token rfl
      have hanother : Tokenizer.hasAnother { t with lastPos := t.lastPos + k + 1 } = true :=
        decide_eq_true hle'
      rw [tokens, if_pos hanother, rest, hwindow,
        List.splitOnP_append_cons_of_forall_mem hclean c hdelim]
      rfl
    rw [hpos, if_neg (Nat.not_le.mpr hlt)]
    split
    · rename_i hempty
      have hk : k = 0 := Nat.add_eq_left.mp hempty
      subst hk
      refine ⟨_, _, rfl, hvalid, ?_⟩
      rw [hrest [] (List.take_zero).symm, ← hnext]
      rfl
    · refine ⟨_, _, rfl, hvalid, ?_⟩
      rw [Nat.add_sub_cancel_left, hrest _ rfl, hnext]

theorem hasAnother_iff (t : Tokenizer) : t.hasAnother = true ↔ t.tokens ≠ [] := by
  constructor
  · intro h
    rw [tokens, if_pos h]
    exact List.splitOnP_ne_nil _ _
  · intro h
    by_contra hdone
    exact h (tokens_of_done hdone)

theorem drain_done (h : ¬t.hasAnother = true) (fuel : ℕ) :
    drain container fuel t = some (.ok []) := by
  cases fuel with
  | zero => exact if_neg h
  | succ fuel => exact if_neg h

/-- The loop hands out all the pieces, one in each call. -/
theorem drain_tokens (hvalid : t.Valid) (fuel : ℕ) :
    drain container fuel t = if t.tokens.length ≤ fuel then some (.ok t.tokens) else none := by
  induction fuel generalizing t with
  | zero =>
      by_cases h : t.hasAnother = true
      · have hlong : ¬t.tokens.length ≤ 0 := by
          rw [Nat.le_zero, List.length_eq_zero_iff]
          exact (hasAnother_iff t).mp h
        rw [if_neg hlong]
        exact if_pos h
      · rw [drain_done h, tokens_of_done h, List.length_nil, if_pos (Nat.le_refl 0)]
  | succ fuel ih =>
      by_cases h : t.hasAnother = true
      · obtain ⟨t', token, hnext, hvalid', htokens⟩ := next_tokens hvalid h
        have hstep : container.next t = .ok (t', token) := hnext
        rw [drain, if_pos (show container.hasAnother t = true from h), hstep]
        dsimp only
        rw [ih hvalid', htokens, List.length_cons]
        by_cases hfuel : t'.tokens.length ≤ fuel
        · rw [if_pos hfuel, if_pos (Nat.succ_le_succ hfuel)]
          rfl
        · rw [if_neg hfuel, if_neg fun hle => hfuel (Nat.le_of_succ_le_succ hle)]
          rfl
      · rw [drain_done h, tokens_of_done h, List.length_nil, if_pos (Nat.zero_le _)]

end

/-! ## Whole strings -/

/-- The pieces of `s[start, min(stop, length s))`. -/
def pieces (s : StdString) (delim : List Char) (start stop : ℕ) : List (List Char) :=
  if start < min stop s.length then
    (s.window start (min stop s.length)).splitOnP (delim.contains ·)
  else []

/-- A new tokenizer has all the pieces before it. -/
theorem construct_tokens (s : StdString) {delim : List Char} (hdelim : delim ≠ [])
    (start stop : ℕ) :
    ∃ t, construct s delim start stop = .ok t ∧ t.Valid ∧
      t.tokens = pieces s delim start stop := by
  have hend : min stop s.length ≤ s.length := Nat.min_le_right _ _
  have hmin : min stop s.length ≤ stop := Nat.min_le_left _ _
  have hincrement := sizeIncrement_of_le hend
  have hsome : delim.isEmpty = false := List.isEmpty_eq_false_iff.mpr hdelim
  unfold construct
  rw [hsome, if_neg Bool.false_ne_true]
  dsimp only
  by_cases hstart : start = min stop s.length
  · -- an empty window has no piece, not an empty one
    rw [if_pos hstart, if_pos ⟨Or.inr rfl, hmin⟩]
    refine ⟨_, rfl, hend, ?_⟩
    rw [pieces, if_neg (Nat.not_lt.mpr (Nat.le_of_eq hstart.symm))]
    apply tokens_of_lt
    dsimp only
    rw [hincrement]
    exact Nat.lt_succ_self _
  · rw [if_neg hstart, if_pos ⟨Or.inl rfl, hmin⟩]
    refine ⟨_, rfl, hend, ?_⟩
    by_cases hlt : start < min stop s.length
    · rw [pieces, if_pos hlt]
      exact if_pos (decide_eq_true (Nat.le_of_lt hlt))
    · rw [pieces, if_neg hlt]
      apply tokens_of_lt
      exact Nat.lt_of_le_of_ne (Nat.not_lt.mp hlt) fun heq => hstart heq.symm

/-- **The tokenizer cuts a string at its delimiters.**  The loop over `hasAnother` and
`next` ends after as many calls as there are pieces, and has read them in order; so has
a loop from `begin` to `end`. -/
theorem tokens_are_pieces (s : StdString) {delim : List Char} (hdelim : delim ≠ [])
    (start stop address : ℕ) :
    ∃ t, construct s delim start stop = .ok t ∧
      (∀ fuel, drain container fuel t =
        if (pieces s delim start stop).length ≤ fuel then some (.ok (pieces s delim start stop))
        else none) ∧
      (∀ fuel ≥ (pieces s delim start stop).length,
        ForwardIterator.rangeFor container address fuel t =
          some (.ok (pieces s delim start stop))) ∧
      (min stop s.length ≤ start → pieces s delim start stop = []) ∧
      (start < min stop s.length →
        pieces s delim start stop =
          (s.window start (min stop s.length)).splitOnP (delim.contains ·) ∧
        (∀ piece ∈ pieces s delim start stop, ∀ c ∈ piece, c ∉ delim) ∧
        (pieces s delim start stop).length =
          (s.window start (min stop s.length)).countP (delim.contains ·) + 1 ∧
        interleave (pieces s delim start stop)
            ((s.window start (min stop s.length)).filter (delim.contains ·)) =
          s.window start (min stop s.length)) := by
  obtain ⟨t, hconstruct, hvalid, htokens⟩ := construct_tokens s hdelim start stop
  have hdrain : ∀ fuel, drain container fuel t =
      if (pieces s delim start stop).length ≤ fuel then some (.ok (pieces s delim start stop))
      else none := by
    intro fuel
    rw [drain_tokens hvalid, htokens]
  refine ⟨t, hconstruct, hdrain, ?_, ?_, ?_⟩
  · intro fuel hfuel
    apply ForwardIterator.rangeFor_of_drain
    rw [hdrain, if_pos hfuel]
  · intro hle
    exact if_neg (Nat.not_lt.mpr hle)
  · intro hlt
    have hpieces : pieces s delim start stop =
        (s.window start (min stop s.length)).splitOnP (delim.contains ·) := if_pos hlt
    rw [hpieces]
    refine ⟨rfl, ?_, length_splitOnP _, List.splitOnP_spec _⟩
    intro piece hpiece c hc hmem
    have hclean := not_delim_of_mem_splitOnP hpiece c hc
    rw [List.contains_iff_mem.mpr hmem] at hclean
    cases hclean

/-- An empty piece at the front, between two delimiters and at the end. -/
theorem tokens_are_pieces_commas :
    ∃ t, construct ⟨",a,,b,".toList, by decide⟩ [','] 0 npos = .ok t ∧
      drain container 5 t = some (.ok [[], ['a'], [], ['b'], []]) := by
  obtain ⟨t, hconstruct, hdrain, _⟩ :=
    tokens_are_pieces ⟨",a,,b,".toList, by decide⟩ (List.cons_ne_nil ',' []) 0 npos 0
  exact ⟨t, hconstruct, hdrain 5⟩

end Tokenizer
end KssUtil.Strings

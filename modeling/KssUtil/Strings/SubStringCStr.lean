import KssUtil.Strings.SubStringWrites

/-!
# The C string of a substring (substring.hpp)

`c_str()` keeps its copy until the substring is destroyed: an assignment that finds one
ends the program.
-/

namespace KssUtil.Strings.SubString

open KssUtil.Foundation

variable {lim : Limits} {ι χ : Type}

/-- The substring has been made by a constructor. -/
def Constructed [DecidableEq χ] (strs : ι → BasicString lim χ) (sub : SubString ι χ) : Prop :=
  (∃ x i n, construct strs x i n = .ok sub) ∨
    ∃ x str2 i, constructSearching strs x str2 i = .ok sub

theorem Constructed.cstr [DecidableEq χ] {strs : ι → BasicString lim χ} {sub : SubString ι χ}
    (h : Constructed strs sub) : sub.cstr = none ∧ (sub.InRange strs → sub.Valid strs) := by
  rcases h with ⟨x, i, n, hsub⟩ | ⟨x, str2, i, hsub⟩
  · by_cases hi : i < (strs x).length
    · rw [construct_of_lt hi] at hsub
      obtain rfl := Except.ok.inj hsub
      exact ⟨rfl, fun _ => valid_of_construct hi n⟩
    · rw [construct_of_ge (not_lt.mp hi)] at hsub
      split at hsub
      · obtain rfl := Except.ok.inj hsub
        exact ⟨rfl, fun hin => absurd hin (not_inRange_npos strs x _)⟩
      · cases hsub
  · by_cases hfind : (strs x).find str2 i = npos
    · rw [constructSearching, hfind, if_neg (not_not.mpr rfl)] at hsub
      split at hsub
      · obtain rfl := Except.ok.inj hsub
        exact ⟨rfl, fun hin => absurd hin (not_inRange_npos strs x 0)⟩
      · cases hsub
    · rw [constructSearching, if_pos hfind] at hsub
      split at hsub
      · obtain rfl := Except.ok.inj hsub
        exact ⟨rfl, fun hin => ⟨hin, (BasicString.find_spec hfind).2.1.add_length_le⟩⟩
      · cases hsub

/-! ## Calls -/

/-- A call of `c_str()`, or an assignment. -/
inductive Call (lim : Limits) (χ : Type) [Zero χ] where
  | cStr
  | assign (src : Source lim χ)

variable [DecidableEq ι] [Zero χ]

/-- No call ends the program, and every `c_str()` returns a copy of the text of that moment
with a null behind it.  Exceptions are caught.  In the end the copy is given back. -/
def Coherent : List (Call lim χ) → SubState lim ι χ → Prop
  | [], st => Returns freeCStr st fun _ _ => True
  | .cStr :: calls, st =>
      Runs cStr st (fun r st' => r = some (st.sub.text st.strs ++ [0]) ∧ Coherent calls st')
        fun e st' => e ≠ .terminated ∧ e ≠ .undefined ∧ Coherent calls st'
  | .assign src :: calls, st =>
      Runs (assignFrom src) st (fun _ st' => Coherent calls st')
        fun e st' => e ≠ .terminated ∧ e ≠ .undefined ∧ Coherent calls st'

/-- A text that is assigned is not empty. -/
def Call.Nonempty : Call lim χ → Prop
  | .cStr => True
  | .assign src => src.text ≠ []

/-- For a substring in range, no assignment comes after a `c_str()`; for another, there is
no `c_str()`. -/
def CopiedLast (calls : List (Call lim χ)) (inRange : Prop) : Prop :=
  (inRange → calls.Pairwise fun c d => c = .cStr → d = .cStr) ∧ (¬ inRange → .cStr ∉ calls)

section

variable {st : SubState lim ι χ}

/-- With a copy in place only `c_str()` may be called. -/
theorem coherent_copied (hvalid : st.sub.Valid st.strs)
    (hcstr : st.sub.cstr = some (st.sub.text st.strs ++ [0])) (calls : List (Call lim χ)) :
    Coherent calls st ↔ ∀ c ∈ calls, c = .cStr := by
  induction calls with
  | nil =>
      refine iff_of_true ?_ fun c hc => absurd hc List.not_mem_nil
      have hlen : (st.sub.text st.strs ++ [0]).length = st.sub.n + 1 := by
        rw [List.length_append, hvalid.length_text]
        rfl
      rw [Coherent]
      simp only [freeCStr, runs_bind, runs_get, hcstr, hlen]
      simp
  | cons c calls ih =>
      rw [List.forall_mem_cons]
      cases c with
      | cStr =>
          rw [Coherent, Runs, cStr_of_some hcstr]
          dsimp only
          rw [ih]
          exact ⟨fun h => ⟨rfl, h.2⟩, fun h => ⟨rfl, h.2⟩⟩
      | assign src =>
          have hsome : st.sub.cstr.isSome = true := by
            rw [hcstr]
            rfl
          obtain ⟨ptr, -, -, hassign⟩ := exists_assignFrom ι src
          rw [Coherent, hassign, Runs, assign_terminated hsome]
          refine iff_of_false (fun h => h.1 rfl) ?_
          rintro ⟨heq, -⟩
          cases heq

/-- Behind the end of the string only assignments may be tried. -/
theorem coherent_outOfRange (hout : ¬ st.sub.InRange st.strs) (hcstr : st.sub.cstr = none)
    (calls : List (Call lim χ)) : Coherent calls st ↔ .cStr ∉ calls := by
  induction calls with
  | nil =>
      refine iff_of_true ?_ List.not_mem_nil
      rw [Coherent, Returns, runs_freeCStr hcstr]
      trivial
  | cons c calls ih =>
      rw [List.mem_cons, not_or]
      cases c with
      | cStr =>
          rw [Coherent, Runs, cStr_of_not_inRange hout, hcstr]
          refine iff_of_false ?_ fun h => h.1 rfl
          rintro ⟨heq, -⟩
          cases heq
      | assign src =>
          obtain ⟨ptr, -, -, hassign⟩ := exists_assignFrom ι src
          rw [Coherent, hassign, Runs, assign_outOfRange hcstr hout]
          dsimp only
          rw [ih]
          constructor
          · rintro ⟨-, -, h⟩
            refine ⟨?_, h⟩
            intro heq
            cases heq
          · rintro ⟨-, h⟩
            refine ⟨?_, ?_, h⟩ <;> (intro heq; cases heq)

/-- In the string, assignments may come before a `c_str()`. -/
theorem coherent_inRange : ∀ (calls : List (Call lim χ)), (∀ c ∈ calls, c.Nonempty) →
    ∀ {st : SubState lim ι χ}, st.sub.Valid st.strs → st.sub.cstr = none →
      (Coherent calls st ↔ calls.Pairwise fun c d => c = .cStr → d = .cStr) := by
  intro calls
  induction calls with
  | nil =>
      intro _ st _ hcstr
      refine iff_of_true ?_ List.Pairwise.nil
      rw [Coherent, Returns, runs_freeCStr hcstr]
      trivial
  | cons c calls ih =>
      intro htexts st hvalid hcstr
      obtain ⟨htext, hrest⟩ := List.forall_mem_cons.mp htexts
      rw [List.pairwise_cons]
      cases c with
      | cStr =>
          have hcopied : (copied st).sub.Valid (copied st).strs := ⟨hvalid.inRange, hvalid.le⟩
          rw [Coherent, Runs, cStr_of_none hvalid hcstr]
          dsimp only
          rw [coherent_copied hcopied rfl]
          constructor
          · rintro ⟨-, h⟩
            refine ⟨fun d hd _ => h d hd, ?_⟩
            exact List.pairwise_of_forall_mem_list fun _ _ d hd _ => h d hd
          · rintro ⟨h, -⟩
            exact ⟨rfl, fun d hd => h d hd rfl⟩
      | assign src =>
          have hfirst : (∀ d ∈ calls, (Call.assign src : Call lim χ) = .cStr → d = .cStr) := by
            intro d _ heq
            cases heq
          rw [and_iff_right hfirst, Coherent]
          have hwrite := hvalid.window.assignFrom hcstr src htext
          rw [Runs] at hwrite ⊢
          cases hrun : (assignFrom src : SubMethod lim ι χ PUnit) st with
          | ok _ st' =>
              rw [hrun] at hwrite
              exact ih hrest hwrite.1.valid hwrite.2
          | error e st' =>
              rw [hrun] at hwrite
              obtain ⟨rfl, -, rfl⟩ := hwrite
              dsimp only
              rw [ih hrest hvalid hcstr, and_iff_right, and_iff_right]
              · intro heq
                cases heq
              · intro heq
                cases heq

end

/-- **When the C string stays coherent.**  It does just when no `c_str()` is called on a
substring that is out of range, and no assignment is made after a `c_str()`. -/
theorem calls_coherent_iff [DecidableEq χ] {strs : ι → BasicString lim χ} {sub : SubString ι χ}
    (h : Constructed strs sub) {calls : List (Call lim χ)} (htexts : ∀ c ∈ calls, c.Nonempty) :
    Coherent calls ⟨strs, sub⟩ ↔ CopiedLast calls (sub.InRange strs) := by
  obtain ⟨hcstr, hvalid⟩ := h.cstr
  by_cases hin : sub.InRange strs
  · rw [coherent_inRange calls htexts (hvalid hin) hcstr]
    exact ⟨fun h => ⟨fun _ => h, fun hout => absurd hin hout⟩, fun h => h.1 hin⟩
  · rw [coherent_outOfRange hin hcstr]
    exact ⟨fun h => ⟨fun hin' => absurd hin' hin, fun _ => h⟩, fun h => h.2 hin⟩

theorem constructed_abc : Constructed (fun _ : Unit => abc) ⟨(), 0, 1, none⟩ :=
  Or.inl ⟨(), 0, 1, construct_of_lt (by decide) 1⟩

/-- An assignment, and then `c_str()` twice. -/
theorem calls_coherent_read_last :
    Coherent [.assign (.char 120), .cStr, .cStr] ⟨fun _ : Unit => abc, ⟨(), 0, 1, none⟩⟩ := by
  refine (calls_coherent_iff constructed_abc ?_).mpr ⟨?_, ?_⟩
  · simp [Call.Nonempty, Source.text]
  · intro _
    simp
  · intro hout
    exact absurd (by decide) hout

/-- An assignment after `c_str()` ends the program. -/
theorem assign_after_cStr_terminates :
    Constructed (fun _ : Unit => abc) ⟨(), 0, 1, none⟩ ∧
      ¬ Coherent [.cStr, .assign (.char 120)] ⟨fun _ : Unit => abc, ⟨(), 0, 1, none⟩⟩ := by
  refine ⟨constructed_abc, ?_⟩
  rw [coherent_inRange _ _ ⟨by decide, by decide⟩ rfl]
  · simp
  · simp [Call.Nonempty, Source.text]

end KssUtil.Strings.SubString

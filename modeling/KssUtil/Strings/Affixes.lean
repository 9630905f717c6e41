import KssUtil.Strings.Convert

/-!
# Prefixes and suffixes (stringutil.cpp)

`startsWith` and `endsWith` take strings and decide on the C strings in them.  They are the
relations of prefix and suffix on text without NUL characters, and disagree with them on
some strings that have one.
-/

namespace KssUtil.Strings

open KssUtil.Libc

/-- `kss_starts_with`, of C strings -/
def kssStartsWith (str pre : List Char) : Bool :=
  if pre.length = 0 then true
  else if str.length < pre.length then false
  else str.take pre.length = pre

def startsWith (str pre : List Char) : Bool := kssStartsWith (cstr str) (cstr pre)

/-- The characters behind the first NUL, which the functions never read. -/
def behindNul (s : List Char) : List Char := s.drop ((cstr s).length + 1)

section

variable {s u : List Char}

theorem kssStartsWith_iff {str pre : List Char} :
    kssStartsWith str pre = true ↔ pre <+: str := by
  unfold kssStartsWith
  split
  · rename_i hlen
    rw [List.length_eq_zero_iff.mp hlen]
    exact iff_of_true rfl List.nil_prefix
  · split
    · rename_i hlen
      refine iff_of_false Bool.false_ne_true ?_
      intro h
      exact absurd h.length_le (Nat.not_le_of_lt hlen)
    · rw [decide_eq_true_eq, eq_comm]
      exact List.prefix_iff_eq_take.symm

/-! ## The C string in a string -/

theorem ne_nul_of_mem_cstr : ∀ c ∈ cstr s, c ≠ nul := by
  intro c hc
  simpa using List.mem_takeWhile_imp hc

theorem cstr_of_not_mem (h : nul ∉ s) : cstr s = s := by
  apply cstr_of_ne
  rintro c hc rfl
  exact h hc

theorem cstr_append_nul {a b : List Char} (h : ∀ c ∈ a, c ≠ nul) : cstr (a ++ nul :: b) = a := by
  rw [cstr_append h, cstr, List.takeWhile_cons_of_neg (by simp), List.append_nil]

theorem behindNul_append_nul {a b : List Char} (h : ∀ c ∈ a, c ≠ nul) :
    behindNul (a ++ nul :: b) = b := by
  rw [behindNul, cstr_append_nul h]
  simp

/-- A string with a NUL is its C string, the NUL and the rest. -/
theorem eq_cstr_append (h : nul ∈ s) : s = cstr s ++ nul :: behindNul s := by
  obtain ⟨a, b, rfl, ha⟩ := List.eq_append_cons_of_mem h
  have hne : ∀ c ∈ a, c ≠ nul := fun c hc heq => ha (heq ▸ hc)
  rw [cstr_append_nul hne, behindNul_append_nul hne]

theorem cstr_starts (s : List Char) : cstr s <+: s := List.takeWhile_prefix _

/-- A prefix without NUL characters stands in the C string. -/
theorem prefix_cstr_iff {pre : List Char} (h : ∀ c ∈ pre, c ≠ nul) :
    pre <+: cstr s ↔ pre <+: s := by
  constructor
  · intro hpre
    exact hpre.trans (cstr_starts s)
  · rintro ⟨t, rfl⟩
    rw [cstr_append h]
    exact List.prefix_append pre _

/-- A suffix that reaches over an element ends in all that follows it. -/
theorem suffix_append_cons_iff {α : Type} {x : α} {u b : List α} : ∀ a : List α,
    u <:+ a ++ x :: b ↔ u <:+ b ∨ ∃ p, p <:+ a ∧ u = p ++ x :: b := by
  intro a
  induction a with
  | nil =>
      rw [List.nil_append, List.suffix_cons_iff, or_comm]
      simp
  | cons y a ih =>
      rw [List.cons_append, List.suffix_cons_iff, ih]
      constructor
      · rintro (rfl | hb | ⟨p, hp, rfl⟩)
        · exact Or.inr ⟨y :: a, List.suffix_rfl, rfl⟩
        · exact Or.inl hb
        · exact Or.inr ⟨p, hp.trans (List.suffix_cons y a), rfl⟩
      · rintro (hb | ⟨p, hp, rfl⟩)
        · exact Or.inr (Or.inl hb)
        · rcases List.suffix_cons_iff.mp hp with rfl | hp
          · exact Or.inl rfl
          · exact Or.inr (Or.inr ⟨p, hp, rfl⟩)

/-! ## What the functions decide -/

theorem startsWith_iff : startsWith s u = true ↔ cstr u <+: s := by
  rw [startsWith, kssStartsWith_iff, prefix_cstr_iff ne_nul_of_mem_cstr]

theorem endsWith_iff : endsWith s u = true ↔ cstr u <:+ cstr s := kssEndsWith_iff

/-- The suffixes of a string with a NUL, for a text without one. -/
theorem suffix_iff_of_not_mem (hs : nul ∈ s) (hu : nul ∉ u) : u <:+ s ↔ u <:+ behindNul s := by
  conv_lhs => rw [eq_cstr_append hs]
  rw [suffix_append_cons_iff]
  constructor
  · rintro (hb | ⟨p, _, rfl⟩)
    · exact hb
    · exact absurd (List.mem_append_right p List.mem_cons_self) hu
  · exact Or.inl

/-- The same for a text with one: its C string comes last in that of the string, or it stands
behind the NUL as a whole. -/
theorem suffix_iff_of_mem (hs : nul ∈ s) (hu : nul ∈ u) :
    u <:+ s ↔ u <:+ behindNul s ∨ cstr u <:+ cstr s ∧ behindNul u = behindNul s := by
  conv_lhs => rw [eq_cstr_append hs]
  rw [suffix_append_cons_iff]
  apply or_congr_right
  constructor
  · rintro ⟨p, hp, hup⟩
    have hpne : ∀ c ∈ p, c ≠ nul := fun c hc => ne_nul_of_mem_cstr c (hp.subset hc)
    rw [hup, cstr_append_nul hpne, behindNul_append_nul hpne]
    exact ⟨hp, rfl⟩
  · rintro ⟨hp, hb⟩
    refine ⟨cstr u, hp, ?_⟩
    rw [← hb]
    exact eq_cstr_append hu

/-- A string without a NUL has no suffix with one. -/
theorem not_suffix_of_not_mem (hs : nul ∉ s) (hu : nul ∈ u) : ¬ u <:+ s :=
  fun h => hs (h.subset hu)

/-- Where `startsWith` goes by the strings: of a prefix with a NUL it reads the part in front
of it only. -/
def StartsAgree (s u : List Char) : Prop := nul ∈ u → cstr u <+: s → u <+: s

/-- Where `endsWith` goes by the strings.  What stands behind the first NUL of either string
has to make no difference. -/
structure EndsAgree (s u : List Char) : Prop where
  text : nul ∉ s → nul ∈ u → ¬ cstr u <:+ s
  string : nul ∈ s → nul ∉ u → (u <:+ cstr s ↔ u <:+ behindNul s)
  last : nul ∈ s → nul ∈ u → cstr u <:+ cstr s → behindNul u ≠ behindNul s → u <:+ behindNul s
  inner : nul ∈ s → nul ∈ u → u <:+ behindNul s → cstr u <:+ cstr s

/-- Text without NUL characters meets both conditions. -/
theorem agree_of_not_mem (hs : nul ∉ s) (hu : nul ∉ u) : StartsAgree s u ∧ EndsAgree s u :=
  ⟨fun hmem => absurd hmem hu, ⟨fun _ hmem => absurd hmem hu, fun hmem => absurd hmem hs,
    fun hmem => absurd hmem hs, fun hmem => absurd hmem hs⟩⟩

theorem startsWith_prefix_iff : (startsWith s u = true ↔ u <+: s) ↔ StartsAgree s u := by
  rw [startsWith_iff]
  constructor
  · intro h _
    exact h.mp
  · intro h
    constructor
    · intro hcstr
      by_cases hu : nul ∈ u
      · exact h hu hcstr
      · rwa [cstr_of_not_mem hu] at hcstr
    · exact (cstr_starts u).trans

theorem endsWith_suffix_iff : (endsWith s u = true ↔ u <:+ s) ↔ EndsAgree s u := by
  rw [endsWith_iff]
  by_cases hs : nul ∈ s
  · by_cases hu : nul ∈ u
    · rw [suffix_iff_of_mem hs hu]
      constructor
      · intro h
        refine ⟨fun hns => absurd hs hns, fun _ hnu => absurd hu hnu, ?_, ?_⟩
        · intro _ _ hcstr hne
          exact (h.mp hcstr).resolve_right fun hb => hne hb.2
        · intro _ _ hb
          exact h.mpr (Or.inl hb)
      · intro h
        constructor
        · intro hcstr
          by_cases hb : behindNul u = behindNul s
          · exact Or.inr ⟨hcstr, hb⟩
          · exact Or.inl (h.last hs hu hcstr hb)
        · rintro (hb | hb)
          · exact h.inner hs hu hb
          · exact hb.1
    · rw [suffix_iff_of_not_mem hs hu, cstr_of_not_mem hu]
      constructor
      · intro h
        exact ⟨fun hns => absurd hs hns, fun _ _ => h, fun _ hmem => absurd hmem hu,
          fun _ hmem => absurd hmem hu⟩
      · intro h
        exact h.string hs hu
  · rw [cstr_of_not_mem hs]
    by_cases hu : nul ∈ u
    · constructor
      · intro h
        refine ⟨fun _ _ hcstr => not_suffix_of_not_mem hs hu (h.mp hcstr), fun hmem => ?_,
          fun hmem => ?_, fun hmem => ?_⟩ <;>
          exact absurd hmem hs
      · intro h
        exact iff_of_false (h.text hs hu) (not_suffix_of_not_mem hs hu)
    · rw [cstr_of_not_mem hu]
      exact iff_of_true Iff.rfl (agree_of_not_mem hs hu).2

end

/-- **Prefix and suffix.**  The exact inputs on which each function decides the relation of
the strings. -/
theorem affixes_iff (s u : List Char) :
    ((startsWith s u = true ↔ ∃ r, s = u ++ r) ↔ StartsAgree s u) ∧
      ((endsWith s u = true ↔ ∃ r, s = r ++ u) ↔ EndsAgree s u) := by
  have hpre : (∃ r, s = u ++ r) ↔ u <+: s := exists_congr fun _ => eq_comm
  have hsuf : (∃ r, s = r ++ u) ↔ u <:+ s := exists_congr fun _ => eq_comm
  rw [hpre, hsuf]
  exact ⟨startsWith_prefix_iff, endsWith_suffix_iff⟩

/-- The empty string starts and ends with a NUL and an `x`. -/
theorem affixes_disagree :
    ¬ ((startsWith [] [nul, 'x'] = true ↔ ∃ r, ([] : List Char) = [nul, 'x'] ++ r) ∧
      (endsWith [] [nul, 'x'] = true ↔ ∃ r, ([] : List Char) = r ++ [nul, 'x'])) := by
  rintro ⟨h, _⟩
  obtain ⟨r, hr⟩ := h.mp rfl
  cases hr

end KssUtil.Strings

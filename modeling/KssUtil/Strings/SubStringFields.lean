import KssUtil.Strings.SubStringWrites

/-!
# Many substrings of one string (substring.hpp)

Substrings that do not overlap are written in any order.  Each of them keeps its position, so it
is in place as long as what is in front of it has the length that it had when the substring was
made.
-/

namespace KssUtil.Strings.SubString

open KssUtil.Foundation

/-! ## Fields -/

/-- What a substring stands for, and what is between it and the one in front. -/
structure Field (χ : Type) where
  gap : List χ
  text : List χ

namespace Field

variable {χ : Type}

def joined (fs : List (Field χ)) : List χ := fs.flatMap fun f => f.gap ++ f.text

/-- Where the text of the field `k` begins. -/
def position : List (Field χ) → ℕ → ℕ
  | [], _ => 0
  | f :: _, 0 => f.gap.length
  | f :: fs, k + 1 => (f.gap ++ f.text).length + position fs k

def setText (text : List χ) (fs : List (Field χ)) (k : ℕ) : List (Field χ) :=
  fs.modify k fun f => { f with text }

section

variable {fs gs : List (Field χ)} {f : Field χ} {k : ℕ}

theorem joined_append (fs gs : List (Field χ)) : joined (fs ++ gs) = joined fs ++ joined gs :=
  List.flatMap_append

/-- A field with what is in front of it and what is behind it. -/
theorem split (h : fs[k]? = some f) :
    ∃ front back, fs = front ++ f :: back ∧ front.length = k := by
  obtain ⟨hk, rfl⟩ := List.getElem?_eq_some_iff.mp h
  refine ⟨fs.take k, fs.drop (k + 1), ?_, List.length_take_of_le hk.le⟩
  rw [← List.drop_eq_getElem_cons hk, List.take_append_drop]

theorem position_append (front : List (Field χ)) (f : Field χ) (back : List (Field χ)) :
    position (front ++ f :: back) front.length = (joined front ++ f.gap).length := by
  induction front with
  | nil => rfl
  | cons g front ih =>
      show (g.gap ++ g.text).length + position (front ++ f :: back) front.length = _
      rw [ih, ← List.length_append, ← List.append_assoc]
      rfl

theorem setText_append (text : List χ) (front : List (Field χ)) (f : Field χ)
    (back : List (Field χ)) :
    setText text (front ++ f :: back) front.length = front ++ { f with text } :: back := by
  induction front with
  | nil => rfl
  | cons g front ih => exact congrArg (g :: ·) ih

/-- What is at a number after a write. -/
theorem getElem?_setText (text : List χ) (fs : List (Field χ)) (k j : ℕ) :
    (setText text fs k)[j]? =
      if j = k then fs[j]?.map fun f => { f with text } else fs[j]? := by
  by_cases hjk : j = k
  · subst hjk
    rw [if_pos rfl]
    exact List.getElem?_modify_eq ..
  · rw [if_neg hjk]
    exact List.getElem?_modify_ne _ _ (Ne.symm hjk)

/-- The position of a field depends on the lengths in front of it. -/
theorem position_congr {fs : List (Field χ)} : ∀ {gs : List (Field χ)} {k : ℕ},
    (∀ j : ℕ, fs[j]?.map (fun f => f.gap.length) = gs[j]?.map fun f => f.gap.length) →
      (∀ j < k, fs[j]?.map (fun f => f.text.length) = gs[j]?.map fun f => f.text.length) →
      position fs k = position gs k := by
  induction fs with
  | nil =>
      intro gs k hgaps _
      cases gs with
      | nil => rfl
      | cons g gs => cases hgaps 0
  | cons f fs ih =>
      intro gs k hgaps htexts
      cases gs with
      | nil => cases hgaps 0
      | cons g gs =>
          have hgap : f.gap.length = g.gap.length := Option.some.inj (hgaps 0)
          cases k with
          | zero => exact hgap
          | succ k =>
              have htext : f.text.length = g.text.length :=
                Option.some.inj (htexts 0 (Nat.succ_pos k))
              have hrest : position fs k = position gs k :=
                ih (fun j => hgaps (j + 1)) fun j hj => htexts (j + 1) (Nat.succ_lt_succ hj)
              rw [position, position, List.length_append, List.length_append, hgap, htext, hrest]

end

end Field

/-! ## Writers -/

section

variable {lim : Limits} {ι χ : Type}

/-- The strings, and the substrings by their numbers. -/
structure Writers (lim : Limits) (ι χ : Type) where
  strs : ι → BasicString lim χ
  subs : ℕ → SubString ι χ

/-- What is in front of the field `k` has the length that it had in `start`. -/
def InPlace (start now : List (Field χ)) (k : ℕ) : Prop :=
  Field.position now k = Field.position start k

/-- The fields are those of `now`, and the substrings are where they were made. -/
structure Laid (strs : ι → BasicString lim χ) (x : ι) (start : List (Field χ)) (tail : List χ)
    (now : List (Field χ)) (s : Writers lim ι χ) : Prop where
  chars : (s.strs x).chars = Field.joined now ++ tail
  others : ∀ y ≠ x, s.strs y = strs y
  subs : ∀ k f, now[k]? = some f →
    s.subs k = ⟨x, Field.position start k, f.text.length, none⟩
  nonempty : ∀ f ∈ now, f.text ≠ []

variable {strs : ι → BasicString lim χ} {x : ι} {start now : List (Field χ)} {tail : List χ}
  {s : Writers lim ι χ} {k : ℕ} {f : Field χ}

/-- A field that is in place is a window. -/
theorem Laid.window {front back : List (Field χ)}
    (h : Laid strs x start tail (front ++ f :: back) s)
    (hplace : InPlace start (front ++ f :: back) front.length) :
    Window strs x (Field.joined front ++ f.gap) f.text (Field.joined back ++ tail)
      ⟨s.strs, s.subs front.length⟩ := by
  have hsub := h.subs front.length f (by simp)
  rw [← hplace, Field.position_append] at hsub
  constructor
  · rw [hsub]
  · rw [h.chars, Field.joined_append]
    show _ ++ ((f.gap ++ f.text) ++ Field.joined back) ++ tail = _
    simp only [List.append_assoc]
  · rw [hsub]
  · rw [hsub]
  · exact List.append_ne_nil_of_left_ne_nil (h.nonempty f (by simp)) _
  · exact h.others

/-- The substrings as they are made. -/
def madeAt (x : ι) (start : List (Field χ)) (k : ℕ) : SubString ι χ :=
  ⟨x, Field.position start k, (start[k]?.map fun f => f.text.length).getD 0, none⟩

theorem construct_field (hchars : (strs x).chars = Field.joined start ++ tail)
    (hne : ∀ f ∈ start, f.text ≠ []) (hf : start[k]? = some f) :
    construct strs x (Field.position start k) f.text.length = .ok (madeAt x start k) := by
  have hmade : madeAt x start k = ⟨x, Field.position start k, f.text.length, none⟩ := by
    rw [madeAt, hf]
    rfl
  have hpos := List.length_pos_iff.mpr (hne f (List.mem_of_getElem? hf))
  obtain ⟨front, back, rfl, rfl⟩ := Field.split hf
  have hlen : (strs x).length = (Field.joined front ++ f.gap).length +
      (f.text.length + (Field.joined back ++ tail).length) := by
    rw [BasicString.length, hchars, Field.joined_append]
    show (_ ++ ((f.gap ++ f.text) ++ Field.joined back) ++ tail).length = _
    simp only [List.length_append]
    omega
  rw [hmade, Field.position_append, construct_of_lt (by omega), Nat.min_eq_left (by omega)]

theorem laid_start (hchars : (strs x).chars = Field.joined start ++ tail)
    (hne : ∀ f ∈ start, f.text ≠ []) :
    Laid strs x start tail start ⟨strs, madeAt x start⟩ := by
  refine ⟨hchars, fun _ _ => rfl, fun k f hf => ?_, hne⟩
  dsimp only
  rw [madeAt, hf]
  rfl

/-! ## Writing -/

variable [DecidableEq ι] [Zero χ]

/-- `sub[k] = src` -/
def writeField (k : ℕ) (src : Source lim χ) : EStateM Fault (Writers lim ι χ) PUnit := fun s =>
  match assignFrom src ⟨s.strs, s.subs k⟩ with
  | .ok _ st => .ok ⟨⟩ ⟨st.strs, Function.update s.subs k st.sub⟩
  | .error e st => .error e ⟨st.strs, Function.update s.subs k st.sub⟩

def writeFields : List (ℕ × Source lim χ) → EStateM Fault (Writers lim ι χ) PUnit
  | [] => pure ⟨⟩
  | w :: ws => do
      writeField w.1 w.2
      writeFields ws

/-- What the fields are meant to be after the writes. -/
def afterWrites (fs : List (Field χ)) (ws : List (ℕ × Source lim χ)) : List (Field χ) :=
  ws.foldl (fun fs w => Field.setText w.2.text fs w.1) fs

/-- Every write is to a field that is in place. -/
def WritesInPlace (start : List (Field χ)) : List (Field χ) → List (ℕ × Source lim χ) → Prop
  | _, [] => True
  | now, w :: ws => w.1 < now.length ∧ InPlace start now w.1 ∧ w.2.text ≠ [] ∧
      WritesInPlace start (Field.setText w.2.text now w.1) ws

theorem runs_writeField {src : Source lim χ} {Q : PUnit → Writers lim ι χ → Prop}
    {E : Fault → Writers lim ι χ → Prop}
    (h : Runs (assignFrom src) ⟨s.strs, s.subs k⟩
      (fun _ st => Q ⟨⟩ ⟨st.strs, Function.update s.subs k st.sub⟩)
      fun e st => E e ⟨st.strs, Function.update s.subs k st.sub⟩) :
    Runs (writeField k src) s Q E := by
  unfold Runs at h ⊢
  unfold writeField
  cases hrun : assignFrom src ⟨s.strs, s.subs k⟩ with
  | ok _ st =>
      rw [hrun] at h
      exact h
  | error e st =>
      rw [hrun] at h
      exact h

/-- **One write.** -/
theorem Laid.write (h : Laid strs x start tail now s) (hf : now[k]? = some f)
    (hplace : InPlace start now k) {src : Source lim χ} (htext : src.text ≠ []) :
    Runs (writeField k src) s
      (fun _ s' => Laid strs x start tail (Field.setText src.text now k) s')
      fun e s' => e = .lengthError ∧ s' = s ∧
        lim.maxSize < (Field.joined (Field.setText src.text now k) ++ tail).length := by
  obtain ⟨front, back, rfl, rfl⟩ := Field.split hf
  have hsub := h.subs front.length f hf
  have hjoined : Field.joined (Field.setText src.text (front ++ f :: back) front.length) ++ tail =
      Field.joined front ++ f.gap ++ src.text ++ (Field.joined back ++ tail) := by
    rw [Field.setText_append, Field.joined_append]
    show _ ++ ((f.gap ++ src.text) ++ Field.joined back) ++ tail = _
    simp only [List.append_assoc]
  refine runs_writeField ((h.window hplace).assignFrom (by rw [hsub]) src htext |>.mono ?_ ?_)
  · rintro _ st ⟨hwindow, hcstr⟩
    constructor
    · rw [hjoined, hwindow.chars]
    · exact hwindow.others
    · intro j g hg
      rw [Field.getElem?_setText] at hg
      by_cases hj : j = front.length
      · subst hj
        rw [if_pos rfl, hf] at hg
        obtain rfl := Option.some.inj hg
        obtain ⟨hstr, -, hbegins, hsize, -, -⟩ := hwindow
        dsimp only
        rw [Function.update_self, ← hplace, Field.position_append, ← hbegins, ← hstr, ← hsize,
          ← hcstr]
      · rw [if_neg hj] at hg
        dsimp only
        rw [Function.update_of_ne hj]
        exact h.subs j g hg
    · rw [Field.setText_append]
      intro g hg
      rcases List.mem_append.mp hg with hg | hg
      · exact h.nonempty g (List.mem_append_left _ hg)
      · rcases List.mem_cons.mp hg with rfl | hg
        · exact htext
        · exact h.nonempty g (List.mem_append_right _ (List.mem_cons_of_mem _ hg))
  · rintro e st ⟨he, hlong, rfl⟩
    refine ⟨he, ?_, ?_⟩
    · rw [Function.update_eq_self]
    · rwa [hjoined]

/-- What a run leaves behind, and when it throws. -/
structure FailsTooLong (strs : ι → BasicString lim χ) (x : ι) (start : List (Field χ))
    (tail : List χ) (now : List (Field χ)) (ws : List (ℕ × Source lim χ)) (e : Fault)
    (s : Writers lim ι χ) : Prop where
  fault : e = .lengthError
  write : ∃ before w after, ws = before ++ w :: after ∧
    Laid strs x start tail (afterWrites now before) s ∧
    lim.maxSize < (Field.joined (afterWrites now (before ++ [w])) ++ tail).length

/-- **Any number of writes.** -/
theorem Laid.writes {ws : List (ℕ × Source lim χ)} :
    ∀ {now : List (Field χ)} {s : Writers lim ι χ}, Laid strs x start tail now s →
      WritesInPlace start now ws →
      Runs (writeFields ws) s (fun _ s' => Laid strs x start tail (afterWrites now ws) s')
        (FailsTooLong strs x start tail now ws) := by
  induction ws with
  | nil =>
      intro now s h _
      exact h
  | cons w ws ih =>
      intro now s h hws
      obtain ⟨hlt, hplace, htext, hws⟩ := hws
      rw [writeFields, runs_bind]
      refine (h.write (List.getElem?_eq_getElem hlt) hplace htext).mono ?_ ?_
      · intro _ s' h'
        refine (ih h' hws).mono (fun _ _ hlast => hlast) ?_
        rintro e s'' ⟨he, before, w', after, hsplit, hlaid, hlong⟩
        exact ⟨he, w :: before, w', after, congrArg (w :: ·) hsplit, hlaid, hlong⟩
      · rintro e s' ⟨he, rfl, hlong⟩
        exact ⟨he, [], w, ws, rfl, h, hlong⟩

/-! ## Orders of writing -/

/-- The field has the length that it had in `start`. -/
def KeepsLength (start : List (Field χ)) (w : ℕ × Source lim χ) : Prop :=
  start[w.1]?.map (fun f => f.text.length) = some w.2.text.length

/-- Whoever changes a length must not come back to a field behind it. -/
theorem writesInPlace_of_pairwise {ws : List (ℕ × Source lim χ)} :
    ∀ {now : List (Field χ)},
      (∀ j : ℕ, now[j]?.map (fun f => f.gap.length) = start[j]?.map fun f => f.gap.length) →
      (∀ w ∈ ws, ∀ j < w.1,
        now[j]?.map (fun f => f.text.length) = start[j]?.map fun f => f.text.length) →
      (∀ w ∈ ws, w.1 < start.length ∧ w.2.text ≠ []) →
      (ws.Pairwise fun w w' => KeepsLength start w ∨ w'.1 ≤ w.1) →
      WritesInPlace start now ws := by
  induction ws with
  | nil => exact fun _ _ _ _ => trivial
  | cons w ws ih =>
      intro now hgaps htexts hws hpairwise
      obtain ⟨hfirst, hpairwise⟩ := List.pairwise_cons.mp hpairwise
      obtain ⟨htext, htexts⟩ := List.forall_mem_cons.mp htexts
      obtain ⟨⟨hlt, hne⟩, hws⟩ := List.forall_mem_cons.mp hws
      obtain ⟨g, hg, -⟩ : ∃ g, now[w.1]? = some g ∧ g.gap.length = start[w.1].gap.length := by
        rw [← Option.map_eq_some_iff, hgaps, List.getElem?_eq_getElem hlt]
        rfl
      refine ⟨(List.getElem?_eq_some_iff.mp hg).1, Field.position_congr hgaps htext, hne,
        ih ?_ ?_ hws hpairwise⟩
      · intro j
        rw [Field.getElem?_setText, ← hgaps j]
        split
        · rw [Option.map_map]
          rfl
        · rfl
      · intro w' hw' j hj
        rw [Field.getElem?_setText]
        split
        · rename_i hjw
          subst hjw
          have hkeeps := (hfirst w' hw').resolve_right (Nat.not_le.mpr hj)
          rw [hkeeps, hg]
          rfl
        · exact htexts w' hw' j hj

/-- **Many substrings of one string.**  Substrings are made that do not overlap, and are written
in any order in which every one is in place when it is written.  Then the string has the texts
that were written last between what was there from the beginning, other strings are as they were,
and whatever looks at a substring that is in place sees its text.  Only a string that gets too
long is an error, and it is then as the writes before have left it. -/
theorem fields_write_through [LinearOrder χ]
    (hchars : (strs x).chars = Field.joined start ++ tail) (hne : ∀ f ∈ start, f.text ≠ [])
    {ws : List (ℕ × Source lim χ)} (hws : WritesInPlace start start ws) :
    ∃ subs : ℕ → SubString ι χ,
      (∀ k f, start[k]? = some f →
        construct strs x (Field.position start k) f.text.length = .ok (subs k)) ∧
      Runs (writeFields ws) ⟨strs, subs⟩
        (fun _ s => (s.strs x).chars = Field.joined (afterWrites start ws) ++ tail ∧
          (∀ y ≠ x, s.strs y = strs y) ∧
          ∀ k f, (afterWrites start ws)[k]? = some f → InPlace start (afterWrites start ws) k →
            Sees s.strs (s.subs k) f.text)
        fun e s => e = .lengthError ∧ ∃ before w after, ws = before ++ w :: after ∧
          (s.strs x).chars = Field.joined (afterWrites start before) ++ tail ∧
          lim.maxSize < (Field.joined (afterWrites start (before ++ [w])) ++ tail).length := by
  refine ⟨madeAt x start, fun k f hf => construct_field hchars hne hf, ?_⟩
  refine ((laid_start hchars hne).writes hws).mono ?_ ?_
  · intro _ s h
    refine ⟨h.chars, h.others, fun k f hf hplace => ?_⟩
    obtain ⟨front, back, hsplit, rfl⟩ := Field.split hf
    rw [hsplit] at h hplace
    exact (h.window hplace).sees
  · rintro e s ⟨he, before, w, after, hsplit, hlaid, hlong⟩
    exact ⟨he, before, w, after, hsplit, hlaid.chars, hlong⟩

end

/-- The "b" and the "c" of "abc" -/
def bAndC : List (Field (Fin 256)) :=
  [⟨abc.chars.take 1, (abc.chars.drop 1).take 1⟩, ⟨[], abc.chars.drop 2⟩]

/-- The "c" becomes "yz", and then the "b" becomes "abc". -/
theorem fields_write_through_abc :
    let strs : Unit → BasicString Limits.gnu (Fin 256) := fun _ => abc
    ∃ subs : ℕ → SubString Unit (Fin 256), construct strs () 1 1 = .ok (subs 0) ∧
      construct strs () 2 1 = .ok (subs 1) ∧
      Returns (writeFields [(1, .string yz), (0, .string abc)]) ⟨strs, subs⟩
        fun _ s => (s.strs ()).chars = [97, 97, 98, 99, 121, 122] := by
  intro strs
  have hplaces : WritesInPlace bAndC bAndC [(1, .string yz), (0, .string abc)] := by
    refine writesInPlace_of_pairwise (fun _ => rfl) (fun _ _ _ _ => rfl) ?_ ?_
    · simp [bAndC, Source.text, yz, abc]
    · simp
  obtain ⟨subs, hmade, hruns⟩ := @fields_write_through Limits.gnu Unit (Fin 256) strs () bAndC []
    _ _ _ rfl (by simp [bAndC, abc]) _ hplaces
  have hb := hmade 0 ⟨abc.chars.take 1, (abc.chars.drop 1).take 1⟩ rfl
  have hc := hmade 1 ⟨[], abc.chars.drop 2⟩ rfl
  refine ⟨subs, hb, hc, hruns.mono (fun _ s h => h.1) ?_⟩
  rintro e s ⟨-, before, w, after, hsplit, -, hlong⟩
  have hmax : Limits.gnu.maxSize = 2 ^ 62 - 1 := rfl
  rw [hmax] at hlong
  cases before with
  | nil =>
      obtain ⟨rfl, -⟩ := List.cons.inj hsplit
      exact absurd hlong (by decide)
  | cons w₁ before =>
      obtain ⟨rfl, hrest⟩ := List.cons.inj hsplit
      cases before with
      | nil =>
          obtain ⟨rfl, -⟩ := List.cons.inj hrest
          exact absurd hlong (by decide)
      | cons w₂ before =>
          have hnil : [] = before ++ w :: after := (List.cons.inj hrest).2
          exact absurd hnil.symm (List.append_ne_nil_of_right_ne_nil _ (List.cons_ne_nil _ _))

end KssUtil.Strings.SubString

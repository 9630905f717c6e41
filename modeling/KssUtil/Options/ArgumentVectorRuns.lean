import KssUtil.Options.ArgumentVector
import Mathlib.Algebra.Order.Ring.Int
import Mathlib.Logic.Function.Basic

/-!
# Several argument vectors (argumentvector.hpp, argumentvector.cpp)

Any number of objects, and any calls on them.  Wherever the strings are placed by the calls,
the pointers of an object are those to its own strings; and they are not followed by a null.
-/

namespace KssUtil.Options

open KssUtil.Libc

/-- A constructor or a member function, for the objects of `ι` -/
inductive ArgumentCall (ι : Type) where
  | construct (i : ι) (args : List (List Char))
  | add (i : ι) (arg : List Char)
  | addList (i : ι) (args : List (List Char))
  | addRange (i : ι) (args : List (List Char))
  | copy (i j : ι)
  | assign (i j : ι)
  | move (i j : ι)
  | moveAssign (i j : ι)

/-- The objects; one that is not in use is empty. -/
abbrev ArgumentObjects (ι : Type) := ι → ArgumentVector

namespace ArgumentObjects

variable {ι : Type} [DecidableEq ι]

/-- A move carries both vectors over, and leaves none. -/
def moved (w : ArgumentObjects ι) (i j : ι) : ArgumentObjects ι :=
  Function.update (Function.update w i (w j)) j .empty

/-- One call; `place` is where the strings of the object then stand. -/
def step (w : ArgumentObjects ι) (call : ArgumentCall ι) (place : List ℕ) :
    Except Exn (ArgumentObjects ι) := do
  match call with
  | .construct i args => return Function.update w i (← ArgumentVector.construct args place)
  | .add i arg => return Function.update w i (← (w i).add arg place)
  | .addList i args => return Function.update w i (← (w i).addList args place)
  | .addRange i args => return Function.update w i (← (w i).addRange args place)
  | .copy i j => return Function.update w i (← (w j).copy place)
  | .assign i j => return Function.update w i (← (w i).assign (w j) (i = j) place)
  | .move i j => return moved w i j
  | .moveAssign i j => return moved w i j

/-- The objects after the calls.  Exceptions are caught; a contract that fails ends the
program. -/
def after : List (ArgumentCall ι × List ℕ) → ArgumentObjects ι → ArgumentObjects ι
  | [], w => w
  | (call, place) :: calls, w =>
      match step w call place with
      | .ok w' => after calls w'
      | .error e => if e = .aborted then w else after calls w

/-! ## What the calls are for -/

/-- The strings that an object should have. -/
def intended (texts : ι → List (List Char)) : ArgumentCall ι → ι → List (List Char)
  | .construct i args => Function.update texts i args
  | .add i arg => Function.update texts i (texts i ++ [arg])
  | .addList i args | .addRange i args => Function.update texts i (texts i ++ args)
  | .copy i j | .assign i j => Function.update texts i (texts j)
  | .move i j | .moveAssign i j => Function.update (Function.update texts i (texts j)) j []

def intendedAfter : List (ArgumentCall ι × List ℕ) → (ι → List (List Char)) →
    ι → List (List Char)
  | [], texts => texts
  | (call, _) :: calls, texts => intendedAfter calls (intended texts call)

/-- A place for the strings of `i`: no two of them and no string of another object share it. -/
structure Fits (w : ArgumentObjects ι) (i : ι) (texts : List (List Char)) (place : List ℕ) :
    Prop where
  length : place.length = texts.length
  nodup : place.Nodup
  ne_zero : ∀ p ∈ place, p ≠ 0
  apart : ∀ j, j ≠ i → ∀ p ∈ (w j).addrs, p ∉ place

/-- The places that an implementation can choose in a call. -/
def CanPlace (w : ArgumentObjects ι) (place : List ℕ) : ArgumentCall ι → Prop
  | .construct i args => Fits w i args place
  | .add i arg => Fits w i ((w i).texts ++ [arg]) place
  | .addList i args | .addRange i args => args ≠ [] → Fits w i ((w i).texts ++ args) place
  | .copy i j => Fits w i (w j).texts place
  | .assign i j => i ≠ j → Fits w i (w j).texts place
  | .move _ _ | .moveAssign _ _ => True

/-- All calls of a run have found a place. -/
def Placed : List (ArgumentCall ι × List ℕ) → ArgumentObjects ι → Prop
  | [], _ => True
  | (call, place) :: calls, w =>
      CanPlace w place call ∧
        match step w call place with
        | .ok w' => Placed calls w'
        | .error _ => Placed calls w

/-! ## The invariant -/

structure Sound (w : ArgumentObjects ι) : Prop where
  mirrors : ∀ i, (w i).Mirrors
  nodup : ∀ i, (w i).addrs.Nodup
  ne_zero : ∀ i, ∀ p ∈ (w i).addrs, p ≠ 0
  apart : ∀ i j, i ≠ j → ∀ p ∈ (w i).addrs, p ∉ (w j).addrs

def contents (w : ArgumentObjects ι) (i : ι) : List (List Char) := (w i).texts

section

variable {w : ArgumentObjects ι} {i j : ι} {place : List ℕ} {strs : List (List Char)}

omit [DecidableEq ι] in
theorem sound_empty : Sound (fun _ : ι => ArgumentVector.empty) where
  mirrors _ := ArgumentVector.empty_mirrors
  nodup _ := List.nodup_nil
  ne_zero _ _ hp := absurd hp List.not_mem_nil
  apart _ _ _ _ hp := absurd hp List.not_mem_nil

/-- One object is exchanged for a vector whose strings are apart from those of the others. -/
theorem Sound.update (h : Sound w) {av : ArgumentVector} (hmirrors : av.Mirrors)
    (hnodup : av.addrs.Nodup) (hne : ∀ p ∈ av.addrs, p ≠ 0)
    (hapart : ∀ j, j ≠ i → ∀ p ∈ (w j).addrs, p ∉ av.addrs) :
    Sound (Function.update w i av) where
  mirrors := (Function.forall_update_iff w fun _ => ArgumentVector.Mirrors).mpr
    ⟨hmirrors, fun k _ => h.mirrors k⟩
  nodup := (Function.forall_update_iff w fun _ a => a.addrs.Nodup).mpr
    ⟨hnodup, fun k _ => h.nodup k⟩
  ne_zero := (Function.forall_update_iff w fun _ a => ∀ p ∈ a.addrs, p ≠ 0).mpr
    ⟨hne, fun k _ => h.ne_zero k⟩
  apart k l hkl p hp := by
    by_cases hk : k = i
    · subst hk
      rw [Function.update_self] at hp
      rw [Function.update_of_ne (Ne.symm hkl)]
      exact fun hl => hapart l (Ne.symm hkl) p hl hp
    · rw [Function.update_of_ne hk] at hp
      by_cases hl : l = i
      · subst hl
        rw [Function.update_self]
        exact hapart k hk p hp
      · rw [Function.update_of_ne hl]
        exact h.apart k l hkl p hp

theorem Sound.update_made (h : Sound w) (hfits : Fits w i strs place) :
    Sound (Function.update w i (.made place strs)) := by
  have haddrs := ArgumentVector.addrs_made hfits.length
  apply h.update (ArgumentVector.made_mirrors hfits.length) <;> rw [haddrs]
  · exact hfits.nodup
  · exact hfits.ne_zero
  · exact hfits.apart

theorem Sound.update_empty (h : Sound w) (i : ι) : Sound (Function.update w i .empty) :=
  h.update ArgumentVector.empty_mirrors List.nodup_nil (fun _ hp => absurd hp List.not_mem_nil)
    fun _ _ _ _ => List.not_mem_nil

/-- The strings of a moved vector stay where they are. -/
theorem Sound.moved (h : Sound w) (i j : ι) : Sound (moved w i j) := by
  unfold ArgumentObjects.moved
  by_cases hij : i = j
  · subst hij
    rw [Function.update_idem]
    exact h.update_empty i
  · rw [Function.update_comm hij]
    apply (h.update_empty j).update (h.mirrors j) (h.nodup j) (h.ne_zero j)
    intro k hk p hp
    by_cases hkj : k = j
    · subst hkj
      rw [Function.update_self] at hp
      exact absurd hp List.not_mem_nil
    · rw [Function.update_of_ne hkj] at hp
      exact h.apart k j hkj p hp

omit [DecidableEq ι] in
theorem contents_empty : contents (fun _ : ι => ArgumentVector.empty) = fun _ => [] := rfl

theorem contents_update (w : ArgumentObjects ι) (i : ι) (av : ArgumentVector) :
    contents (Function.update w i av) = Function.update (contents w) i av.texts :=
  Function.comp_update ArgumentVector.texts w i av

theorem contents_moved (w : ArgumentObjects ι) (i j : ι) :
    contents (moved w i j) =
      Function.update (Function.update (contents w) i (contents w j)) j [] := by
  rw [moved, contents_update, contents_update]
  rfl

/-! ## The calls -/

/-- What one call does: the objects are sound again, with the strings intended; or it is
refused, and intends nothing. -/
def StepResult (w : ArgumentObjects ι) (call : ArgumentCall ι) (place : List ℕ) : Prop :=
  (∃ w', step w call place = .ok w' ∧ Sound w' ∧ contents w' = intended (contents w) call) ∨
    step w call place = .error .invalidArgument ∧ intended (contents w) call = contents w

/-- A call that places the strings of `i` anew. -/
theorem stepResult_of_made {call : ArgumentCall ι} (h : Sound w) (hfits : Fits w i strs place)
    (hstep : step w call place = .ok (Function.update w i (.made place strs)))
    (hintended : intended (contents w) call = Function.update (contents w) i strs) :
    StepResult w call place := by
  refine Or.inl ⟨_, hstep, h.update_made hfits, ?_⟩
  rw [contents_update, ArgumentVector.texts_made hfits.length, hintended]

/-- Adding several strings, in either way. -/
theorem stepResult_of_adds {call : ArgumentCall ι} (h : Sound w) {args : List (List Char)}
    (hplace : args ≠ [] → Fits w i ((w i).texts ++ args) place)
    (hadds : args ≠ [] → place.length = ((w i).texts ++ args).length →
      step w call place = .ok (Function.update w i (.made place ((w i).texts ++ args))))
    (hnil : args = [] → step w call place = .error .invalidArgument)
    (hintended : intended (contents w) call =
      Function.update (contents w) i ((w i).texts ++ args)) :
    StepResult w call place := by
  by_cases hargs : args = []
  · refine Or.inr ⟨hnil hargs, ?_⟩
    rw [hintended, hargs, List.append_nil]
    exact Function.update_eq_self i (contents w)
  · have hfits := hplace hargs
    exact stepResult_of_made h hfits (hadds hargs hfits.length) hintended

/-- **One call.**  There is a case for each of them. -/
theorem Sound.step (h : Sound w) (call : ArgumentCall ι) (hplace : CanPlace w place call) :
    StepResult w call place := by
  cases call with
  | construct i args =>
      refine stepResult_of_made h hplace ?_ rfl
      rw [ArgumentObjects.step, ArgumentVector.construct_eq hplace.length]
      rfl
  | add i arg =>
      refine stepResult_of_made h hplace ?_ rfl
      rw [ArgumentObjects.step, ArgumentVector.add_eq (h.mirrors i) hplace.length hplace.nodup]
      rfl
  | addList i args =>
      refine stepResult_of_adds h hplace ?_ ?_ rfl
      · intro hargs hlen
        rw [ArgumentObjects.step, ArgumentVector.addList_eq hargs hlen]
        rfl
      · rintro rfl
        rw [ArgumentObjects.step, ArgumentVector.addList_nil]
        rfl
  | addRange i args =>
      refine stepResult_of_adds h hplace ?_ ?_ rfl
      · intro hargs hlen
        rw [ArgumentObjects.step, ArgumentVector.addRange_eq hargs hlen]
        rfl
      · rintro rfl
        rw [ArgumentObjects.step, ArgumentVector.addRange_nil]
        rfl
  | copy i j =>
      refine stepResult_of_made h hplace ?_ rfl
      rw [ArgumentObjects.step, ArgumentVector.copy_eq hplace.length]
      rfl
  | assign i j =>
      by_cases hij : i = j
      · subst hij
        refine Or.inl ⟨w, ?_, h, (Function.update_eq_self i (contents w)).symm⟩
        rw [ArgumentObjects.step, decide_eq_true rfl, ArgumentVector.assign_self (h.mirrors i)]
        exact congrArg Except.ok (Function.update_eq_self i w)
      · refine stepResult_of_made h (hplace hij) ?_ rfl
        rw [ArgumentObjects.step, decide_eq_false hij,
          ArgumentVector.assign_eq (hplace hij).length]
        rfl
  | move i j => exact Or.inl ⟨_, rfl, h.moved i j, contents_moved w i j⟩
  | moveAssign i j => exact Or.inl ⟨_, rfl, h.moved i j, contents_moved w i j⟩

/-- **All calls.**  No contract fails, and the objects have the strings intended. -/
theorem Sound.after (calls : List (ArgumentCall ι × List ℕ)) :
    ∀ {w : ArgumentObjects ι}, Sound w → Placed calls w →
      Sound (after calls w) ∧ contents (ArgumentObjects.after calls w) =
        intendedAfter calls (contents w) := by
  induction calls with
  | nil =>
      intro w h _
      exact ⟨h, rfl⟩
  | cons c calls ih =>
      obtain ⟨call, place⟩ := c
      rintro w h ⟨hplace, hrest⟩
      rw [ArgumentObjects.after, intendedAfter]
      rcases h.step call hplace with ⟨w', hstep, hsound, hcontents⟩ | ⟨hstep, hsame⟩
      · rw [hstep] at hrest
        rw [hstep, ← hcontents]
        exact ih hsound hrest
      · rw [hstep] at hrest
        rw [hstep, hsame]
        exact ih h hrest

/-! ## What a consumer sees -/

/-- The string `k` of the object `i` stands at `p`. -/
def StandsAt (w : ArgumentObjects ι) (p : ℕ) (i : ι) (k : ℕ) : Prop :=
  (w i).addrs[k]? = some p

/-- The object has the strings `texts`, and `argv` the pointers to them and no others. -/
structure Mirrored (w : ArgumentObjects ι) (i : ι) (texts : List (List Char)) : Prop where
  contents : (w i).texts = texts
  argc : texts.length < 2 ^ 31 → (w i).argc = .ok texts.length
  argv : ∀ k < texts.length, ∃ ps p, (w i).argv = .ok (some ps) ∧ ps[k]? = some p ∧
    StandsAt w p i k ∧ ∀ j l, StandsAt w p j l → j = i ∧ l = k

/-- The same, with a null pointer behind the others: what `execv` needs. -/
structure Faithful (w : ArgumentObjects ι) (i : ι) (texts : List (List Char)) : Prop
    extends Mirrored w i texts where
  count : (w i).argc = .ok texts.length
  terminated : texts ≠ [] → ∃ ps, (w i).argv = .ok (some ps) ∧ ps[texts.length]? = some 0

omit [DecidableEq ι] in
theorem Sound.mirrored (h : Sound w) (i : ι) : Mirrored w i (w i).texts where
  contents := rfl
  argc hlt := ArgumentVector.argc_eq (h.mirrors i) hlt
  argv k hk := by
    have hlen : (w i).addrs.length = (w i).texts.length := by
      rw [ArgumentVector.addrs, ArgumentVector.texts, List.length_map, List.length_map]
    have hk' : k < (w i).addrs.length := hlen ▸ hk
    have hne : (w i).texts ≠ [] := List.ne_nil_of_length_pos (Nat.zero_lt_of_lt hk)
    refine ⟨(w i).addrs, (w i).addrs[k], ?_, List.getElem?_eq_getElem hk',
      List.getElem?_eq_getElem hk', ?_⟩
    · rw [ArgumentVector.argv_eq (h.mirrors i), if_neg hne]
    · intro j l hstands
      obtain ⟨hl, heq⟩ := List.getElem?_eq_some_iff.mp hstands
      have hij : j = i := by
        by_contra hji
        exact h.apart j i hji _ (heq ▸ List.getElem_mem hl) (List.getElem_mem hk')
      subst hij
      exact ⟨rfl, (List.Nodup.getElem_inj_iff (h.nodup j)).mp heq⟩

omit [DecidableEq ι] in
/-- There are no more pointers than strings, so that none is left for the terminator. -/
theorem Sound.not_terminated (h : Sound w) {ps : List ℕ} (hargv : (w i).argv = .ok (some ps)) :
    ps[(w i).texts.length]? = none := by
  rw [ArgumentVector.argv_eq (h.mirrors i)] at hargv
  split at hargv
  · cases hargv
  · cases hargv
    rw [List.getElem?_eq_none_iff, ArgumentVector.addrs, ArgumentVector.texts, List.length_map,
      List.length_map]

omit [DecidableEq ι] in
theorem Sound.faithful_iff (h : Sound w) (i : ι) : Faithful w i (w i).texts ↔ (w i).texts = [] := by
  constructor
  · intro hfaithful
    by_contra hne
    obtain ⟨ps, hargv, hnull⟩ := hfaithful.terminated hne
    rw [h.not_terminated hargv] at hnull
    cases hnull
  · intro hnil
    refine ⟨h.mirrored i, ?_, fun hne => absurd hnil hne⟩
    rw [ArgumentVector.argc_eq (h.mirrors i) (by rw [hnil]; decide)]

end

/-- **Argument vectors as `argv`.**  In every run, wherever its strings are placed, an object
has the strings added to it, and its pointers are those to them.  They are followed by a null
in no object that has a string. -/
theorem argumentVector_runs {calls : List (ArgumentCall ι × List ℕ)}
    (hplaced : Placed calls fun _ : ι => .empty) (i : ι) :
    let w := after calls fun _ => .empty
    let texts := intendedAfter calls (fun _ => []) i
    Mirrored w i texts ∧ (Faithful w i texts ↔ texts = []) := by
  obtain ⟨hsound, hcontents⟩ := Sound.after calls sound_empty hplaced
  have htexts : (after calls (fun _ => .empty) i).texts = intendedAfter calls (fun _ => []) i := by
    rw [← contents_empty, ← hcontents]
    rfl
  dsimp only
  rw [← htexts]
  exact ⟨hsound.mirrored i, hsound.faithful_iff i⟩

/-- A vector with one string, and a copy of it. -/
def listAndCopy : List (ArgumentCall Bool × List ℕ) :=
  [(.add false ['l', 's'], [16]), (.copy true false, [48])]

theorem placed_listAndCopy : Placed listAndCopy fun _ : Bool => .empty := by
  refine ⟨⟨rfl, by decide, by decide, fun _ _ _ hp => absurd hp List.not_mem_nil⟩, ?_⟩
  refine ⟨⟨rfl, by decide, by decide, ?_⟩, trivial⟩
  intro j hj
  cases j with
  | false => decide
  | true => exact absurd rfl hj

theorem argumentVector_runs_copy :
    Mirrored (after listAndCopy fun _ => .empty) true
      (intendedAfter listAndCopy (fun _ => []) true) :=
  (argumentVector_runs placed_listAndCopy true).1

/-- The pointers of a vector with one string are that to the string. -/
theorem argumentVector_no_null :
    ¬ Faithful (after [(.add () ['l', 's'], [16])] fun _ => .empty) () [['l', 's']] := by
  intro h
  obtain ⟨ps, hargv, hnull⟩ := h.terminated (List.cons_ne_nil _ _)
  have hone : (after [(.add () ['l', 's'], [16])] fun _ => .empty) () =
      ⟨[⟨16, ['l', 's']⟩], [16]⟩ := by decide
  rw [hone] at hargv
  cases hargv
  cases hnull

end ArgumentObjects
end KssUtil.Options

import KssUtil.Foundation.Interleaving
import KssUtil.Iterators.ForwardIterator
import Mathlib.Logic.Function.Iterate

/-!
# Iterators that share a container (iterator.hpp)

A `ForwardIterator` has no place of its own: what it reads is gone from its container, and so
from all other iterators on it and from the calls of `next` beside them.
-/

namespace KssUtil.Iterators

open KssUtil.Foundation KssUtil.Libc

/-- What containers have still to hand out, first item first. -/
structure Container.Yields {C T : Type} (k : Container C T) (Valid : C → Prop)
    (items : C → List T) : Prop where
  hasAnother : ∀ c, Valid c → (k.hasAnother c = true ↔ items c ≠ [])
  next : ∀ c, Valid c → k.hasAnother c = true →
    ∃ c' t, k.next c = .ok (c', t) ∧ Valid c' ∧ items c = t :: items c'
  refuses : ∀ c, k.hasAnother c = false → ∃ e, k.next c = .error e

/-- The container together with the items that it has handed out. -/
def Container.recorded {C T : Type} (k : Container C T) : Container (C × List T) T where
  hasAnother c := k.hasAnother c.1
  next c := do
    let r ← k.next c.1
    return ((r.1, c.2 ++ [r.2]), r.2)

/-- The containers at their addresses, with what they have handed out, and the iterators. -/
structure Readers (C T : Type) where
  container : ℕ → C × List T
  iterators : List (ForwardIterator T)

/-- What can be done with containers and iterators.  An iterator that is made is put behind
the others. -/
inductive Use where
  | next (address : ℕ)
  | begin (address : ℕ)
  | finish
  | copy (i : ℕ)
  | move (i : ℕ)
  | increment (i : ℕ)
  | postIncrement (i : ℕ)
  | assign (i j : ℕ)
  | moveAssign (i j : ℕ)
  | swap (i j : ℕ)
deriving DecidableEq, Repr

namespace ForwardIterator

variable {T : Type}

/-- What the move constructor leaves behind. -/
def movedFrom (moved : T → T) (it : ForwardIterator T) : ForwardIterator T :=
  ⟨none, moved it.value⟩

/-- What the move assignment leaves behind: it keeps its container. -/
def assignedFrom (moved : T → T) (it : ForwardIterator T) : ForwardIterator T :=
  { it with value := moved it.value }

end ForwardIterator

namespace Readers

variable {C T : Type} (k : Container C T) (moved : T → T)

def setContainer (s : Readers C T) (address : ℕ) (c : C × List T) : Readers C T :=
  { s with container := Function.update s.container address c }

def push (s : Readers C T) (it : ForwardIterator T) : Readers C T :=
  { s with iterators := s.iterators ++ [it] }

def put (s : Readers C T) (i : ℕ) (it : ForwardIterator T) : Readers C T :=
  { s with iterators := s.iterators.set i it }

/-- `++it` for the iterator `i`; `none` if it is an end. -/
def increment (s : Readers C T) (i : ℕ) : Option (Readers C T) := do
  let it ← s.iterators[i]?
  let address ← it.cont
  let r ← (ForwardIterator.increment k.recorded (s.container address) it).toOption
  return (s.setContainer address r.1).put i r.2

/-- `none` if there is no such iterator, or if the program ends. -/
def step [Inhabited T] (s : Readers C T) : Use → Option (Readers C T)
  | .next address => do
      let r ← (k.recorded.next (s.container address)).toOption
      return s.setContainer address r.1
  | .begin address => do
      let r ← (ForwardIterator.ofContainer k.recorded address (s.container address)).toOption
      return (s.setContainer address r.1).push r.2
  | .finish => return s.push (.done default)
  | .copy i => do
      let it ← s.iterators[i]?
      return s.push it
  | .move i => do
      let it ← s.iterators[i]?
      return (s.put i (it.movedFrom moved)).push it
  | .increment i => increment k s i
  | .postIncrement i => do
      let it ← s.iterators[i]?
      let s ← increment k s i
      return s.push it
  | .assign i j => do
      let _ ← s.iterators[i]?
      let it ← s.iterators[j]?
      return s.put i it
  | .moveAssign i j => do
      let _ ← s.iterators[i]?
      let it ← s.iterators[j]?
      return if i = j then s else (s.put j (it.assignedFrom moved)).put i it
  | .swap i j => do
      let it ← s.iterators[i]?
      let jt ← s.iterators[j]?
      return (s.put i jt).put j it

/-- The containers as they are given, and no iterators. -/
def start (c : ℕ → C) : Readers C T := ⟨fun address => (c address, []), []⟩

/-! ## What has been read -/

/-- A value that has been read from the container, and moved from any number of times. -/
def Seen (moved : T → T) (ts : List T) (t : T) : Prop := ∃ r ∈ ts, ∃ n : ℕ, moved^[n] r = t

/-- Nothing is lost and nothing is read twice; an iterator that is not at its end has a value
that it has read. -/
structure Shared (Valid : C → Prop) (items : C → List T) (moved : T → T) (all : ℕ → List T)
    (s : Readers C T) : Prop where
  valid : ∀ a, Valid (s.container a).1
  items : ∀ a, (s.container a).2 ++ items (s.container a).1 = all a
  seen : ∀ it ∈ s.iterators, ∀ a, it.cont = some a → Seen moved (s.container a).2 it.value

section

variable {k : Container C T} {Valid : C → Prop} {items : C → List T} {moved : T → T}
  {all : ℕ → List T} {s s' : Readers C T}

theorem Seen.append {ts : List T} {t : T} (h : Seen moved ts t) (us : List T) :
    Seen moved (ts ++ us) t := by
  obtain ⟨r, hr, hn⟩ := h
  exact ⟨r, List.mem_append_left us hr, hn⟩

theorem Seen.movedFrom {ts : List T} {t : T} (h : Seen moved ts t) : Seen moved ts (moved t) := by
  obtain ⟨r, hr, n, rfl⟩ := h
  exact ⟨r, hr, n + 1, Function.iterate_succ_apply' moved n r⟩

theorem Shared.push (h : s.Shared Valid items moved all) {it : ForwardIterator T}
    (hit : ∀ a, it.cont = some a → Seen moved (s.container a).2 it.value) :
    (s.push it).Shared Valid items moved all := by
  refine ⟨h.valid, h.items, fun jt hjt => ?_⟩
  rcases List.mem_append.mp hjt with hjt | hjt
  · exact h.seen jt hjt
  · rw [List.mem_singleton.mp hjt]
    exact hit

theorem Shared.put (h : s.Shared Valid items moved all) (i : ℕ) {it : ForwardIterator T}
    (hit : ∀ a, it.cont = some a → Seen moved (s.container a).2 it.value) :
    (s.put i it).Shared Valid items moved all := by
  refine ⟨h.valid, h.items, fun jt hjt => ?_⟩
  rcases List.mem_or_eq_of_mem_set hjt with hjt | rfl
  · exact h.seen jt hjt
  · exact hit

/-- An item is read: it is behind those that have been read, and in front of the rest no more. -/
theorem Shared.setContainer (h : s.Shared Valid items moved all) {address : ℕ} {c : C} {t : T}
    (hc : Valid c) (hitems : items (s.container address).1 = t :: items c) :
    (s.setContainer address (c, (s.container address).2 ++ [t])).Shared Valid items moved all := by
  have hself : (s.setContainer address (c, (s.container address).2 ++ [t])).container address =
      (c, (s.container address).2 ++ [t]) := Function.update_self ..
  have hother : ∀ a ≠ address, (s.setContainer address
      (c, (s.container address).2 ++ [t])).container a = s.container a :=
    fun a ha => Function.update_of_ne ha ..
  refine ⟨fun a => ?_, fun a => ?_, fun it hit a ha => ?_⟩
  · rcases Decidable.em (a = address) with rfl | hne
    · rw [hself]
      exact hc
    · rw [hother a hne]
      exact h.valid a
  · rcases Decidable.em (a = address) with rfl | hne
    · rw [hself, ← h.items a, hitems, List.append_assoc]
      rfl
    · rw [hother a hne]
      exact h.items a
  · have hseen := h.seen it hit a ha
    rcases Decidable.em (a = address) with rfl | hne
    · rw [hself]
      exact hseen.append [t]
    · rw [hother a hne]
      exact hseen

/-- A call of `next` that returns has handed out the first item. -/
theorem recorded_next (hk : k.Yields Valid items) {c : C × List T} (hc : Valid c.1)
    {r : (C × List T) × T} (h : k.recorded.next c = .ok r) :
    Valid r.1.1 ∧ items c.1 = r.2 :: items r.1.1 ∧ r.1 = (r.1.1, c.2 ++ [r.2]) := by
  cases hanother : k.hasAnother c.1 with
  | false =>
      obtain ⟨e, he⟩ := hk.refuses c.1 hanother
      unfold Container.recorded at h
      dsimp only at h
      rw [he] at h
      cases h
  | true =>
      obtain ⟨c', t, hnext, hvalid, hitems⟩ := hk.next c.1 hc hanother
      unfold Container.recorded at h
      dsimp only at h
      rw [hnext] at h
      cases h
      exact ⟨hvalid, hitems, rfl⟩

/-- An increment reads an item, or finds that there is none and comes to the end. -/
theorem increment_cases {address : ℕ} {c : C × List T} {it : ForwardIterator T}
    (hit : it.cont = some address) {r : (C × List T) × ForwardIterator T}
    (h : ForwardIterator.increment k.recorded c it = .ok r) :
    (r.1 = c ∧ r.2.cont = none) ∨
      ∃ t, k.recorded.next c = .ok (r.1, t) ∧ r.2 = ⟨some address, t⟩ := by
  unfold ForwardIterator.increment at h
  rw [if_neg (by rw [hit]; exact Option.some_ne_none _)] at h
  split at h
  · right
    cases hnext : k.recorded.next c with
    | error e =>
        rw [hnext] at h
        cases h
    | ok r' =>
        rw [hnext] at h
        cases h
        refine ⟨r'.2, rfl, ?_⟩
        rw [← hit]
  · left
    cases h
    exact ⟨rfl, rfl⟩

theorem eq_ok_of_toOption {ε α : Type} {x : Except ε α} {a : α} (h : x.toOption = some a) :
    x = .ok a := by
  cases x with
  | error e => cases h
  | ok b => rw [Option.some.inj h]

/-- A call of `next` is kept account of. -/
theorem Shared.read (hk : k.Yields Valid items) (h : s.Shared Valid items moved all)
    {address : ℕ} {r : (C × List T) × T} (hr : k.recorded.next (s.container address) = .ok r) :
    (s.setContainer address r.1).Shared Valid items moved all ∧
      Seen moved ((s.setContainer address r.1).container address).2 r.2 := by
  obtain ⟨hvalid, hitems, hrecord⟩ := recorded_next hk (h.valid address) hr
  rw [hrecord]
  refine ⟨h.setContainer hvalid hitems, r.2, ?_, 0, rfl⟩
  have hself : (s.setContainer address (r.1.1, (s.container address).2 ++ [r.2])).container
      address = (r.1.1, (s.container address).2 ++ [r.2]) := Function.update_self ..
  rw [hself]
  exact List.mem_append_right _ List.mem_cons_self

/-- A step of an iterator leaves the containers in order, and a value that has been read. -/
theorem Shared.stepped (hk : k.Yields Valid items) (h : s.Shared Valid items moved all)
    {address : ℕ} {it : ForwardIterator T} (hit : it.cont = some address)
    {r : (C × List T) × ForwardIterator T}
    (hr : ForwardIterator.increment k.recorded (s.container address) it = .ok r) :
    (s.setContainer address r.1).Shared Valid items moved all ∧
      ∀ a, r.2.cont = some a →
        Seen moved ((s.setContainer address r.1).container a).2 r.2.value := by
  rcases increment_cases hit hr with ⟨hsame, hend⟩ | ⟨t, hnext, hread⟩
  · have hkept : s.setContainer address r.1 = s := by
      rw [hsame]
      unfold Readers.setContainer
      rw [Function.update_eq_self]
    rw [hkept]
    refine ⟨h, fun a ha => ?_⟩
    rw [hend] at ha
    cases ha
  · obtain ⟨hshared, hseen⟩ := h.read hk hnext
    refine ⟨hshared, fun a ha => ?_⟩
    rw [hread] at ha ⊢
    obtain rfl := Option.some.inj ha
    exact hseen

theorem Shared.increment (hk : k.Yields Valid items) (h : s.Shared Valid items moved all) {i : ℕ}
    (hstep : s.increment k i = some s') : s'.Shared Valid items moved all := by
  obtain ⟨it, -, hstep⟩ := Option.bind_eq_some_iff.mp hstep
  obtain ⟨address, hit, hstep⟩ := Option.bind_eq_some_iff.mp hstep
  obtain ⟨r, hr, hstep⟩ := Option.bind_eq_some_iff.mp hstep
  obtain rfl := Option.some.inj hstep
  obtain ⟨hshared, hseen⟩ := h.stepped hk hit (eq_ok_of_toOption hr)
  exact hshared.put i hseen

/-- What has been read stays read. -/
theorem Seen.increment (hk : k.Yields Valid items) (h : s.Shared Valid items moved all) {i : ℕ}
    (hstep : s.increment k i = some s') {a : ℕ} {t : T}
    (hseen : Seen moved (s.container a).2 t) : Seen moved (s'.container a).2 t := by
  obtain ⟨it, -, hstep⟩ := Option.bind_eq_some_iff.mp hstep
  obtain ⟨address, hit, hstep⟩ := Option.bind_eq_some_iff.mp hstep
  obtain ⟨r, hr, hstep⟩ := Option.bind_eq_some_iff.mp hstep
  obtain rfl := Option.some.inj hstep
  show Seen moved ((s.setContainer address r.1).container a).2 t
  rcases Decidable.em (a = address) with rfl | hne
  · have hself : (s.setContainer a r.1).container a = r.1 := Function.update_self ..
    rw [hself]
    rcases increment_cases hit (eq_ok_of_toOption hr) with ⟨hsame, -⟩ | ⟨t', hnext, -⟩
    · rw [hsame]
      exact hseen
    · rw [(recorded_next hk (h.valid a) hnext).2.2]
      exact hseen.append _
  · have hother : (s.setContainer address r.1).container a = s.container a :=
      Function.update_of_ne hne ..
    rw [hother]
    exact hseen

/-- **The step lemma**: nothing is lost, whatever is done with the iterators. -/
theorem Shared.step [Inhabited T] (hk : k.Yields Valid items) (h : s.Shared Valid items moved all)
    {use : Use} (hstep : s.step k moved use = some s') : s'.Shared Valid items moved all := by
  have hseen : ∀ {i : ℕ} {it : ForwardIterator T}, s.iterators[i]? = some it →
      ∀ a, it.cont = some a → Seen moved (s.container a).2 it.value :=
    fun hi => h.seen _ (List.mem_of_getElem? hi)
  cases use with
  | next address =>
      obtain ⟨r, hr, hstep⟩ := Option.bind_eq_some_iff.mp hstep
      obtain rfl := Option.some.inj hstep
      exact (h.read hk (eq_ok_of_toOption hr)).1
  | begin address =>
      obtain ⟨r, hr, hstep⟩ := Option.bind_eq_some_iff.mp hstep
      obtain rfl := Option.some.inj hstep
      have hr := eq_ok_of_toOption hr
      unfold ForwardIterator.ofContainer at hr
      split at hr
      · obtain ⟨hshared, hread⟩ := h.stepped hk rfl hr
        exact hshared.push hread
      · cases hr
        have hkept : s.setContainer address (s.container address) = s := by
          unfold Readers.setContainer
          rw [Function.update_eq_self]
        dsimp only
        rw [hkept]
        exact h.push fun a ha => by cases ha
  | finish =>
      obtain rfl := Option.some.inj hstep
      exact h.push fun a ha => by cases ha
  | copy i =>
      obtain ⟨it, hi, hstep⟩ := Option.bind_eq_some_iff.mp hstep
      obtain rfl := Option.some.inj hstep
      exact h.push (hseen hi)
  | move i =>
      obtain ⟨it, hi, hstep⟩ := Option.bind_eq_some_iff.mp hstep
      obtain rfl := Option.some.inj hstep
      exact (h.put i fun a ha => by cases ha).push (hseen hi)
  | increment i => exact h.increment hk hstep
  | postIncrement i =>
      obtain ⟨it, hi, hstep⟩ := Option.bind_eq_some_iff.mp hstep
      obtain ⟨t, hincrement, hstep⟩ := Option.bind_eq_some_iff.mp hstep
      obtain rfl := Option.some.inj hstep
      exact (h.increment hk hincrement).push fun a ha =>
        (hseen hi a ha).increment hk h hincrement
  | assign i j =>
      obtain ⟨-, -, hstep⟩ := Option.bind_eq_some_iff.mp hstep
      obtain ⟨it, hj, hstep⟩ := Option.bind_eq_some_iff.mp hstep
      obtain rfl := Option.some.inj hstep
      exact h.put i (hseen hj)
  | moveAssign i j =>
      obtain ⟨-, -, hstep⟩ := Option.bind_eq_some_iff.mp hstep
      obtain ⟨it, hj, hstep⟩ := Option.bind_eq_some_iff.mp hstep
      obtain rfl := Option.some.inj hstep
      have hleft : ∀ a, (it.assignedFrom moved).cont = some a →
          Seen moved (s.container a).2 (it.assignedFrom moved).value :=
        fun a ha => (hseen hj a ha).movedFrom
      split
      · exact h
      · exact (h.put j hleft).put i (hseen hj)
  | swap i j =>
      obtain ⟨it, hi, hstep⟩ := Option.bind_eq_some_iff.mp hstep
      obtain ⟨jt, hj, hstep⟩ := Option.bind_eq_some_iff.mp hstep
      obtain rfl := Option.some.inj hstep
      exact (h.put i (hseen hj)).put j (hseen hi)

/-! ## What can be done -/

/-- The iterators are there, one that is incremented is not an end, and a container that is
read has another item. -/
def Allowed (k : Container C T) (s : Readers C T) : Use → Prop
  | .next address => k.hasAnother (s.container address).1 = true
  | .begin _ => True
  | .finish => True
  | .copy i => i < s.iterators.length
  | .move i => i < s.iterators.length
  | .increment i => ∃ it ∈ s.iterators[i]?, it.cont ≠ none
  | .postIncrement i => ∃ it ∈ s.iterators[i]?, it.cont ≠ none
  | .assign i j => i < s.iterators.length ∧ j < s.iterators.length
  | .moveAssign i j => i < s.iterators.length ∧ j < s.iterators.length
  | .swap i j => i < s.iterators.length ∧ j < s.iterators.length

theorem isSome_recorded_next (hk : k.Yields Valid items) {c : C × List T} (hc : Valid c.1) :
    (k.recorded.next c).toOption.isSome = true ↔ k.hasAnother c.1 = true := by
  unfold Container.recorded
  dsimp only
  cases hanother : k.hasAnother c.1 with
  | false =>
      obtain ⟨e, he⟩ := hk.refuses c.1 hanother
      rw [he]
      exact Iff.rfl
  | true =>
      obtain ⟨c', t, hnext, -⟩ := hk.next c.1 hc hanother
      rw [hnext]
      exact iff_of_true rfl rfl

/-- An iterator that is not at its end can be incremented. -/
theorem isSome_increment (hk : k.Yields Valid items) {c : C × List T} (hc : Valid c.1)
    {it : ForwardIterator T} (hit : it.cont ≠ none) :
    (ForwardIterator.increment k.recorded c it).toOption.isSome = true := by
  unfold ForwardIterator.increment
  rw [if_neg hit]
  split
  · rename_i hanother
    have hnext := (isSome_recorded_next hk hc).mpr hanother
    cases hread : k.recorded.next c with
    | error e =>
        rw [hread] at hnext
        cases hnext
    | ok r => rfl
  · rfl

theorem isSome_bind {α β : Type} {x : Option α} {f : α → β} :
    (x.bind fun a => some (f a)).isSome = true ↔ x.isSome = true := by
  cases x with
  | none => exact Iff.rfl
  | some a => exact iff_of_true rfl rfl

theorem isSome_readers_increment (hk : k.Yields Valid items)
    (h : s.Shared Valid items moved all) {i : ℕ} :
    (s.increment k i).isSome = true ↔ ∃ it ∈ s.iterators[i]?, it.cont ≠ none := by
  unfold Readers.increment
  cases hi : s.iterators[i]? with
  | none => exact iff_of_false Bool.false_ne_true nofun
  | some it =>
      cases hit : it.cont with
      | none =>
          refine iff_of_false ?_ ?_
          · show ¬(it.cont.bind _).isSome = true
            rw [hit]
            exact Bool.false_ne_true
          · rintro ⟨jt, hjt, hne⟩
            obtain rfl := Option.some.inj hjt
            exact hne hit
      | some address =>
          refine iff_of_true ?_ ⟨it, rfl, by rw [hit]; exact Option.some_ne_none _⟩
          show (it.cont.bind _).isSome = true
          rw [hit]
          refine isSome_bind.mpr (isSome_increment hk (h.valid address) ?_)
          rw [hit]
          exact Option.some_ne_none _

/-- **What ends the program** is to increment an end, or to read a container that is
exhausted. -/
theorem isSome_step_iff [Inhabited T] (hk : k.Yields Valid items)
    (h : s.Shared Valid items moved all) (use : Use) :
    (s.step k moved use).isSome = true ↔ s.Allowed k use := by
  have hget : ∀ i, (s.iterators[i]?).isSome = true ↔ i < s.iterators.length := by
    intro i
    rw [isSome_getElem?]
  have htwo : ∀ {f : ForwardIterator T → ForwardIterator T → Readers C T} (i j : ℕ),
      ((s.iterators[i]?).bind fun it => (s.iterators[j]?).bind fun jt =>
        some (f it jt)).isSome = true ↔
          i < s.iterators.length ∧ j < s.iterators.length := by
    intro f i j
    rw [← hget, ← hget]
    cases s.iterators[i]? with
    | none => exact iff_of_false Bool.false_ne_true fun h => Bool.false_ne_true h.1
    | some it => exact isSome_bind.trans ⟨fun h => ⟨rfl, h⟩, fun h => h.2⟩
  cases use with
  | next address => exact isSome_bind.trans (isSome_recorded_next hk (h.valid address))
  | begin address =>
      refine iff_of_true (isSome_bind.mpr ?_) trivial
      unfold ForwardIterator.ofContainer
      split
      · exact isSome_increment hk (h.valid address) (Option.some_ne_none _)
      · rfl
  | finish => exact iff_of_true rfl trivial
  | copy i => exact isSome_bind.trans (hget i)
  | move i => exact isSome_bind.trans (hget i)
  | increment i => exact isSome_readers_increment hk h
  | postIncrement i =>
      have hincrement := isSome_readers_increment hk h (i := i)
      refine Iff.trans ?_ hincrement
      show ((s.iterators[i]?).bind fun it => (s.increment k i).bind fun t =>
        some (t.push it)).isSome = true ↔ _
      cases hi : s.iterators[i]? with
      | none =>
          rw [hincrement, hi]
          exact iff_of_false Bool.false_ne_true nofun
      | some it => exact isSome_bind
  | assign i j => exact htwo i j
  | moveAssign i j => exact htwo i j
  | swap i j => exact htwo i j

end
end Readers
end KssUtil.Iterators

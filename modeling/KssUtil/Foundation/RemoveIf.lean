import Mathlib.Data.List.Pairwise
import Mathlib.Data.List.TakeWhile
import Mathlib.Tactic.Common

/-!
# `std::remove_if`

The algorithm works in place: kept items are moved to the front, and what is behind
them is whatever those moves left there.  `movedFrom` is what an item is after it has
been moved from.
-/

namespace KssUtil.Foundation

variable {α : Type} (p : α → Bool) (movedFrom : α → α)

/-- The sequence is `kept ++ gap ++ rest`: the write position is at the front of the
gap, the read position behind it. -/
def removeIfLoop : (kept gap rest : List α) → List α × List α
  | kept, gap, [] => (kept, gap)
  | kept, gap, e :: rest =>
      if p e then removeIfLoop kept (gap ++ [e]) rest
      else removeIfLoop (kept ++ [e]) (gap.tail ++ [movedFrom e]) rest

/-- What is in front of the new end, and what is behind it. -/
def removeIf (xs : List α) : List α × List α :=
  let kept := xs.takeWhile fun e => !p e
  match xs.dropWhile fun e => !p e with
  | [] => (kept, [])
  | e :: rest => removeIfLoop p movedFrom kept [e] rest

section

variable {p : α → Bool} {movedFrom : α → α}

theorem removeIfLoop_fst (rest : List α) : ∀ kept gap,
    (removeIfLoop p movedFrom kept gap rest).1 = kept ++ rest.filter fun e => !p e := by
  induction rest with
  | nil => simp [removeIfLoop]
  | cons e rest ih =>
      intro kept gap
      cases he : p e <;> simp [removeIfLoop, he, ih]

/-- Removed items go to the gap. -/
theorem removeIfLoop_removed {ds : List α} (h : ∀ e ∈ ds, p e = true) (rest : List α) :
    ∀ kept gap, removeIfLoop p movedFrom kept gap (ds ++ rest) =
      removeIfLoop p movedFrom kept (gap ++ ds) rest := by
  induction ds with
  | nil => simp
  | cons e ds ih =>
      intro kept gap
      obtain ⟨he, hds⟩ := List.forall_mem_cons.mp h
      simp [removeIfLoop, he, ih hds]

/-- Nothing is moved if nothing more is kept. -/
theorem removeIfLoop_of_all {rest : List α} (h : ∀ e ∈ rest, p e = true) (kept gap : List α) :
    removeIfLoop p movedFrom kept gap rest = (kept, gap ++ rest) := by
  have hremoved : removeIfLoop p movedFrom kept gap (rest ++ []) =
      removeIfLoop p movedFrom kept (gap ++ rest) [] := removeIfLoop_removed h [] kept gap
  rw [List.append_nil] at hremoved
  rw [hremoved, removeIfLoop]

/-- Where the items behind the new end come from. -/
theorem mem_removeIfLoop {d : α} (rest : List α) : ∀ kept gap,
    d ∈ (removeIfLoop p movedFrom kept gap rest).2 →
      d ∈ gap ∨ (d ∈ rest ∧ p d = true) ∨ ∃ e ∈ rest, p e = false ∧ movedFrom e = d := by
  induction rest with
  | nil =>
      intro kept gap h
      exact Or.inl h
  | cons e rest ih =>
      intro kept gap h
      cases he : p e with
      | true =>
          simp only [removeIfLoop, he, if_true] at h
          rcases ih _ _ h with h | ⟨h, hd⟩ | ⟨c, hc, hpc, rfl⟩
          · rcases List.mem_append.mp h with h | h
            · exact Or.inl h
            · rw [List.mem_singleton.mp h]
              exact Or.inr (Or.inl ⟨List.mem_cons_self, he⟩)
          · exact Or.inr (Or.inl ⟨List.mem_cons_of_mem e h, hd⟩)
          · exact Or.inr (Or.inr ⟨c, List.mem_cons_of_mem e hc, hpc, rfl⟩)
      | false =>
          simp only [removeIfLoop, he, Bool.false_eq_true, if_false] at h
          rcases ih _ _ h with h | ⟨h, hd⟩ | ⟨c, hc, hpc, rfl⟩
          · rcases List.mem_append.mp h with h | h
            · exact Or.inl (List.mem_of_mem_tail h)
            · rw [List.mem_singleton.mp h]
              exact Or.inr (Or.inr ⟨e, List.mem_cons_self, he, rfl⟩)
          · exact Or.inr (Or.inl ⟨List.mem_cons_of_mem e h, hd⟩)
          · exact Or.inr (Or.inr ⟨c, List.mem_cons_of_mem e hc, hpc, rfl⟩)

/-- The first item of the gap is overwritten as soon as one more is kept. -/
theorem mem_removeIfLoop_of_kept {d r : α} {rest : List α} (hkept : ∃ e ∈ rest, p e = false)
    {kept gap : List α} (h : d ∈ (removeIfLoop p movedFrom kept (r :: gap) rest).2) :
    d ∈ gap ∨ (d ∈ rest ∧ p d = true) ∨ ∃ e ∈ rest, p e = false ∧ movedFrom e = d := by
  -- up to the first item that is kept, the gap only grows
  have hfind : (rest.find? fun e => !p e).isSome = true := by
    rw [List.find?_isSome]
    simpa using hkept
  obtain ⟨e, he⟩ := Option.isSome_iff_exists.mp hfind
  obtain ⟨hpe, ds, rest', rfl, hds⟩ := List.find?_eq_some_iff_append.mp he
  have hpe : p e = false := by simpa using hpe
  have hds : ∀ d ∈ ds, p d = true := fun d hd => by simpa using hds d hd
  rw [removeIfLoop_removed hds, removeIfLoop, if_neg (by rw [hpe]; exact Bool.false_ne_true)] at h
  rcases mem_removeIfLoop rest' _ _ h with h | ⟨h, hd⟩ | ⟨c, hc, hpc, rfl⟩
  · rcases List.mem_append.mp h with h | h
    · rcases List.mem_append.mp h with h | h
      · exact Or.inl h
      · exact Or.inr (Or.inl ⟨List.mem_append_left _ h, hds d h⟩)
    · rw [List.mem_singleton.mp h]
      exact Or.inr (Or.inr ⟨e, List.mem_append_right ds List.mem_cons_self, hpe, rfl⟩)
  · exact Or.inr (Or.inl ⟨List.mem_append_right ds (List.mem_cons_of_mem e h), hd⟩)
  · exact Or.inr (Or.inr ⟨c, List.mem_append_right ds (List.mem_cons_of_mem e hc), hpc, rfl⟩)

/-- What is removed is at the end of the sequence. -/
def RemovedLast (p : α → Bool) (xs : List α) : Prop :=
  xs.Pairwise fun d e => p d = true → p e = true

instance (p : α → Bool) (xs : List α) : Decidable (RemovedLast p xs) :=
  inferInstanceAs (Decidable (List.Pairwise _ _))

theorem takeWhile_kept (xs : List α) : ∀ e ∈ xs.takeWhile (fun e => !p e), p e = false := by
  intro e he
  have hp := List.mem_takeWhile_imp he
  simpa using hp

theorem dropWhile_removed {xs rest : List α} {e : α}
    (h : xs.dropWhile (fun e => !p e) = e :: rest) : p e = true := by
  have hnot := List.head_dropWhile_not (fun e => !p e) (by rw [h]; exact List.cons_ne_nil e rest)
  simp only [h, List.head_cons] at hnot
  simpa using hnot

/-- The sequence, split at the first item that is removed. -/
theorem eq_takeWhile_append {xs rest : List α} {e : α}
    (h : xs.dropWhile (fun e => !p e) = e :: rest) :
    xs = xs.takeWhile (fun e => !p e) ++ e :: rest := by
  rw [← h, List.takeWhile_append_dropWhile]

theorem removedLast_iff {xs rest : List α} {e : α}
    (h : xs.dropWhile (fun e => !p e) = e :: rest) :
    RemovedLast p xs ↔ ∀ d ∈ rest, p d = true := by
  have he := dropWhile_removed h
  have hkept := takeWhile_kept (p := p) xs
  unfold RemovedLast
  rw [eq_takeWhile_append h, List.pairwise_append, List.pairwise_cons]
  constructor
  · rintro ⟨-, ⟨hrest, -⟩, -⟩ d hd
    exact hrest d hd he
  · intro hrest
    refine ⟨?_, ⟨fun d hd _ => hrest d hd, ?_⟩, ?_⟩
    · refine List.Pairwise.imp_of_mem ?_ (List.pairwise_of_forall fun _ _ => trivial)
      intro c d hc _ _ hpc
      rw [hkept c hc] at hpc
      cases hpc
    · refine List.Pairwise.imp_of_mem ?_ (List.pairwise_of_forall fun _ _ => trivial)
      intro c d _ hd _ _
      exact hrest d hd
    · intro c hc d _ hpc
      rw [hkept c hc] at hpc
      cases hpc

/-- The kept items are in front of the new end, in order. -/
theorem removeIf_fst (xs : List α) : (removeIf p movedFrom xs).1 = xs.filter fun e => !p e := by
  rw [removeIf]
  cases h : xs.dropWhile fun e => !p e with
  | nil =>
      have hall : xs.takeWhile (fun e => !p e) = xs := by
        conv_rhs => rw [← List.takeWhile_append_dropWhile (p := fun e => !p e) (l := xs), h,
          List.append_nil]
      dsimp only
      rw [hall, eq_comm, List.filter_eq_self]
      intro e he
      rw [← hall] at he
      simp [takeWhile_kept xs e he]
  | cons e rest =>
      have he := dropWhile_removed h
      have hkept : (xs.takeWhile fun e => !p e).filter (fun e => !p e) =
          xs.takeWhile fun e => !p e := by
        rw [List.filter_eq_self]
        intro d hd
        simp [takeWhile_kept xs d hd]
      dsimp only
      rw [removeIfLoop_fst]
      conv_rhs => rw [eq_takeWhile_append h]
      simp [hkept, he]

/-- Nothing is moved if what is removed is last. -/
theorem removeIf_append_of_removedLast {xs : List α} (hlast : RemovedLast p xs) :
    (removeIf p movedFrom xs).1 ++ (removeIf p movedFrom xs).2 = xs := by
  rw [removeIf]
  cases h : xs.dropWhile fun e => !p e with
  | nil =>
      dsimp only
      conv_rhs => rw [← List.takeWhile_append_dropWhile (p := fun e => !p e) (l := xs), h]
  | cons e rest =>
      dsimp only
      rw [removeIfLoop_of_all ((removedLast_iff h).mp hlast)]
      exact (eq_takeWhile_append h).symm

/-- Otherwise the first item that is removed is overwritten: nothing behind the new end
is that item, only others that are removed and items that were moved from. -/
theorem exists_overwritten {xs : List α} (hlast : ¬ RemovedLast p xs) :
    ∃ front r rest, xs = front ++ r :: rest ∧ p r = true ∧
      ∀ d ∈ (removeIf p movedFrom xs).2, (d ∈ rest ∧ p d = true) ∨
        ∃ e ∈ rest, p e = false ∧ movedFrom e = d := by
  cases h : xs.dropWhile fun e => !p e with
  | nil =>
      refine absurd ?_ hlast
      have hall := List.dropWhile_eq_nil_iff.mp h
      refine List.Pairwise.imp_of_mem ?_ (List.pairwise_of_forall fun _ _ => trivial)
      intro c d hc _ _ hpc
      have := hall c hc
      rw [hpc] at this
      cases this
  | cons r rest =>
      refine ⟨_, r, rest, eq_takeWhile_append h, dropWhile_removed h, ?_⟩
      have hkept : ∃ e ∈ rest, p e = false := by
        by_contra hnone
        apply hlast
        rw [removedLast_iff h]
        intro d hd
        by_contra hpd
        exact hnone ⟨d, hd, Bool.not_eq_true _ ▸ hpd⟩
      intro d hd
      rw [removeIf, h] at hd
      exact (mem_removeIfLoop_of_kept hkept hd).resolve_left List.not_mem_nil

end
end KssUtil.Foundation

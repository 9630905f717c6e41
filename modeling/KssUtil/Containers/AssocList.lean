import KssUtil.Foundation.OrderedMap

/-!
# Insertion-ordered association lists

What a sequential map is for: pairs in the order their keys were first inserted,
no two keys equivalent.  The keys are identified by an order `o`.
-/

namespace KssUtil.Containers

open KssUtil.Foundation

namespace AssocList

variable {K T : Type} (o : StrictWeakOrder K) (l : List (K × T))

/-- Where the pair for `k` is; the length of the list if there is none. -/
def position (k : K) : ℕ := l.findIdx fun e => o.equiv e.1 k

def has (k : K) : Bool := l.any fun e => o.equiv e.1 k

def lookup (k : K) : Option T := (l.find? fun e => o.equiv e.1 k).map Prod.snd

def insert (e : K × T) : List (K × T) := if has o l e.1 then l else l ++ [e]

def insertRange (es : List (K × T)) : List (K × T) := es.foldl (insert o) l

def assign [Inhabited T] (k : K) (v : T) : List (K × T) :=
  (insert o l (k, default)).map fun e => if o.equiv e.1 k then (e.1, v) else e

def eraseRange (i j : ℕ) : List (K × T) := l.take i ++ l.drop j

def erase (k : K) : List (K × T) := l.filter fun e => !o.equiv e.1 k

/-- The first pair of each class of equivalent keys, in order. -/
def firsts : List (K × T) → List (K × T)
  | [] => []
  | e :: es => e :: (firsts es).filter fun d => !o.equiv e.1 d.1

section Laws

variable {o : StrictWeakOrder K} {l : List (K × T)} {k : K}

theorem has_iff : has o l k = true ↔ position o l k < l.length := by
  rw [has, List.any_eq_true, position, List.findIdx_lt_length]

theorem position_eq_length (h : has o l k = false) : position o l k = l.length := by
  apply List.findIdx_eq_length.mpr
  intro e he
  rw [has, List.any_eq_false] at h
  exact Bool.not_eq_true _ ▸ h e he

theorem getElem?_position : l[position o l k]? = l.find? fun e => o.equiv e.1 k :=
  List.find?_eq_getElem?_findIdx.symm

theorem lookup_eq : lookup o l k = (l[position o l k]?).map Prod.snd := by
  rw [lookup, getElem?_position]

theorem has_insert (e : K × T) : has o (insert o l e) e.1 = true := by
  rw [insert]
  split
  · assumption
  · rw [has, List.any_append, Bool.or_eq_true]
    right
    rw [List.any_cons, StrictWeakOrder.equiv_refl, Bool.true_or]

/-- The pair for a key stays where it was when that key is inserted. -/
theorem position_insert (e : K × T) : position o (insert o l e) e.1 = position o l e.1 := by
  rw [insert]
  split
  · rfl
  · rename_i h
    have habsent : position o l e.1 = l.length := position_eq_length (Bool.not_eq_true _ ▸ h)
    have hnot : ¬ l.findIdx (fun d => o.equiv d.1 e.1) < l.length :=
      Nat.not_lt_of_le (Nat.le_of_eq habsent.symm)
    rw [habsent, position, List.findIdx_append, if_neg hnot, List.findIdx_cons,
      StrictWeakOrder.equiv_refl, cond_true, Nat.zero_add]

/-- Inserting a key gives it its value, unless it has one. -/
theorem lookup_insert (e : K × T) :
    lookup o (insert o l e) e.1 = some ((lookup o l e.1).getD e.2) := by
  rw [insert]
  split
  · rename_i h
    have hlt := has_iff.mp h
    rw [lookup_eq, List.getElem?_eq_getElem hlt]
    rfl
  · rename_i h
    have hnone : l.find? (fun d => o.equiv d.1 e.1) = none := by
      rw [List.find?_eq_none]
      intro d hd hk
      apply h
      rw [has, List.any_eq_true]
      exact ⟨d, hd, hk⟩
    have hself : (fun d : K × T => o.equiv d.1 e.1) e = true := StrictWeakOrder.equiv_refl e.1
    have hlast : [e].find? (fun d => o.equiv d.1 e.1) = some e := List.find?_cons_of_pos hself
    rw [lookup, lookup, List.find?_append, hnone, Option.none_or, hlast]
    rfl

/-- A key equivalent to that of a pair in the list is in the list. -/
theorem has_of_equiv {e : K × T} (h : has o l e.1 = true) (hk : o.equiv e.1 k = true) :
    has o l k = true := by
  rw [has, List.any_eq_true] at h ⊢
  obtain ⟨d, hd, hde⟩ := h
  exact ⟨d, hd, StrictWeakOrder.equiv_trans hde hk⟩

theorem insertRange_eq (es : List (K × T)) :
    insertRange o l es = l ++ (firsts o es).filter fun d => !has o l d.1 := by
  induction es generalizing l with
  | nil => exact (List.append_nil l).symm
  | cons e es ih =>
      show insertRange o (insert o l e) es = _
      rw [ih, firsts, insert]
      cases hhas : has o l e.1 with
      | true =>
          -- what is equivalent to `e` is in the list already
          have hsame : ∀ d ∈ firsts o es,
              (!has o l d.1 && !o.equiv e.1 d.1) = !has o l d.1 := by
            intro d _
            cases hde : o.equiv e.1 d.1 with
            | true => rw [has_of_equiv hhas hde, Bool.not_true, Bool.false_and]
            | false => rw [Bool.not_false, Bool.and_true]
          rw [if_pos rfl, List.filter_cons_of_neg (by rw [hhas]; decide), List.filter_filter,
            List.filter_congr hsame]
      | false =>
          have hmore : ∀ d ∈ firsts o es,
              (!has o (l ++ [e]) d.1) = (!has o l d.1 && !o.equiv e.1 d.1) := by
            intro d _
            rw [has, has, List.any_append, List.any_cons, List.any_nil, Bool.or_false, Bool.not_or]
          rw [if_neg Bool.false_ne_true, List.filter_cons_of_pos (by rw [hhas]; rfl),
            List.filter_filter, List.filter_congr hmore, List.append_assoc]
          rfl

/-- Pairs inserted into the empty list: the first of each class stays. -/
theorem insertRange_nil (es : List (K × T)) : insertRange o [] es = firsts o es := by
  rw [insertRange_eq, List.nil_append]
  exact List.filter_eq_self.mpr fun _ _ => rfl

end Laws
end AssocList

end KssUtil.Containers

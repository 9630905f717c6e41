import KssUtil.Containers.SequentialMap
import KssUtil.Containers.AssocList
import Mathlib.Data.List.Nodup
import Mathlib.Data.List.Perm.Basic

/-!
# The two members of a sequential map

The index repeats what the pairs say.  `Agrees` is that redundancy; a pair that
is appended and a range that is erased keep it.
-/

namespace KssUtil.Containers

open KssUtil.Foundation

namespace SequentialMap

variable {K T : Type}

/-! ## Agreement of the two members -/

/-- The index holds exactly the positions of the pairs. -/
def Agrees (m : SequentialMap K T) : Prop :=
  ∀ k i, (k, i) ∈ m.map.entries ↔ (m.vec[i]?).map Prod.fst = some k

namespace Agrees

variable {m : SequentialMap K T}

theorem mem_of_getElem? (h : Agrees m) {i : ℕ} {e : K × T} (he : m.vec[i]? = some e) :
    (e.1, i) ∈ m.map.entries := by
  rw [h, he]
  rfl

/-- Equivalent keys are at one position. -/
theorem eq_of_equiv (h : Agrees m) {i j : ℕ} {e d : K × T} (he : m.vec[i]? = some e)
    (hd : m.vec[j]? = some d) (heq : m.map.order.equiv e.1 d.1 = true) : i = j := by
  have hpair := OrderedMap.eq_of_equiv (h.mem_of_getElem? he) (h.mem_of_getElem? hd) heq
  exact (Prod.mk.inj hpair).2

theorem size_eq (h : Agrees m) : m.map.size = m.vec.length := by
  have hnodup : (m.vec.mapIdx fun i e => (e.1, i)).Nodup := by
    refine List.Nodup.of_map Prod.snd ?_
    have hrange : (m.vec.mapIdx fun i e => (e.1, i)).map Prod.snd = List.range m.vec.length := by
      refine List.ext_getElem (by simp) fun i _ _ => by simp
    rw [hrange]
    exact List.nodup_range
  have hperm : m.map.entries.Perm (m.vec.mapIdx fun i e => (e.1, i)) := by
    rw [List.perm_ext_iff_of_nodup m.map.nodup hnodup]
    rintro ⟨k, i⟩
    rw [h, List.mem_mapIdx, Option.map_eq_some_iff]
    constructor
    · rintro ⟨e, he, rfl⟩
      obtain ⟨hi, rfl⟩ := List.getElem?_eq_some_iff.mp he
      exact ⟨i, hi, rfl⟩
    · rintro ⟨j, hj, heq⟩
      obtain ⟨rfl, rfl⟩ := Prod.mk.inj heq
      exact ⟨m.vec[j], List.getElem?_eq_getElem hj, rfl⟩
  rw [OrderedMap.size, hperm.length_eq, List.length_mapIdx]

/-- What the index says about a key. -/
theorem find?_eq_some (h : Agrees m) {k : K} {i : ℕ} :
    m.map.find? k = some i ↔ ∃ e, m.vec[i]? = some e ∧ m.map.order.equiv e.1 k = true := by
  rw [OrderedMap.find?_eq_some]
  constructor
  · rintro ⟨k', hmem, hk⟩
    rw [h, Option.map_eq_some_iff] at hmem
    obtain ⟨e, he, rfl⟩ := hmem
    exact ⟨e, he, hk⟩
  · rintro ⟨e, he, hk⟩
    exact ⟨e.1, h.mem_of_getElem? he, hk⟩

/-- Lookup in the index is lookup in the pairs. -/
theorem find?_eq (h : Agrees m) (k : K) :
    m.map.find? k = if AssocList.has m.map.order m.vec k
      then some (AssocList.position m.map.order m.vec k) else none := by
  split
  · rename_i hhas
    have hlt := AssocList.has_iff.mp hhas
    rw [h.find?_eq_some]
    have hget := List.getElem?_eq_getElem hlt
    rw [AssocList.getElem?_position] at hget
    have hk := List.find?_some (p := fun e : K × T => m.map.order.equiv e.1 k) hget
    exact ⟨m.vec[AssocList.position m.map.order m.vec k], List.getElem?_eq_getElem hlt, hk⟩
  · rename_i hhas
    rw [OrderedMap.find?_eq_none]
    rintro ⟨k', i⟩ hmem hk
    rw [h, Option.map_eq_some_iff] at hmem
    obtain ⟨e, he, rfl⟩ := hmem
    apply hhas
    rw [AssocList.has, List.any_eq_true]
    exact ⟨e, List.mem_of_getElem? he, hk⟩

/-- The pair for a key is found where that pair is. -/
theorem position_eq (h : Agrees m) {i : ℕ} {e : K × T} {k : K} (he : m.vec[i]? = some e)
    (hk : m.map.order.equiv e.1 k = true) : AssocList.position m.map.order m.vec k = i := by
  have hfind := h.find?_eq_some.mpr ⟨e, he, hk⟩
  rw [h.find?_eq] at hfind
  split at hfind
  · exact Option.some.inj hfind
  · exact absurd hfind.symm (Option.some_ne_none i)

/-- Only the pair at its position has a key. -/
theorem equiv_iff_position (h : Agrees m) {i : ℕ} {e : K × T} {k : K} (he : m.vec[i]? = some e) :
    m.map.order.equiv e.1 k = true ↔ AssocList.position m.map.order m.vec k = i := by
  refine ⟨h.position_eq he, ?_⟩
  rintro rfl
  rw [AssocList.getElem?_position] at he
  exact List.find?_some (p := fun e : K × T => m.map.order.equiv e.1 k) he

theorem modify_position (h : Agrees m) (k : K) (f : K × T → K × T) :
    m.vec.modify (AssocList.position m.map.order m.vec k) f =
      m.vec.map fun e => if m.map.order.equiv e.1 k then f e else e := by
  ext1 i
  rw [List.getElem?_modify, List.getElem?_map]
  cases he : m.vec[i]? with
  | none => split <;> rfl
  | some e =>
      have hiff := h.equiv_iff_position (k := k) he
      split
      · rename_i hpos
        show some (f e) = some (if m.map.order.equiv e.1 k then f e else e)
        rw [if_pos (hiff.mpr hpos)]
      · rename_i hpos
        show some e = some (if m.map.order.equiv e.1 k then f e else e)
        rw [if_neg fun hk => hpos (hiff.mp hk)]

/-- Erasing a key erases the one pair at its position. -/
theorem erase_eq (h : Agrees m) {k : K} (hhas : AssocList.has m.map.order m.vec k = true) :
    AssocList.erase m.map.order m.vec k =
      AssocList.eraseRange m.vec (AssocList.position m.map.order m.vec k)
        (AssocList.position m.map.order m.vec k + 1) := by
  have hlt := AssocList.has_iff.mp hhas
  generalize hp : AssocList.position m.map.order m.vec k = p at hlt
  have hother : ∀ i e, m.vec[i]? = some e → i ≠ p → (!m.map.order.equiv e.1 k) = true := by
    intro i e he hne
    rw [Bool.not_eq_true', ← Bool.not_eq_true, h.equiv_iff_position he, hp]
    exact hne.symm
  have hself : m.map.order.equiv m.vec[p].1 k = true :=
    (h.equiv_iff_position (List.getElem?_eq_getElem hlt)).mpr hp
  have hsplit : m.vec = m.vec.take p ++ m.vec[p] :: m.vec.drop (p + 1) := by
    rw [← List.drop_eq_getElem_cons hlt, List.take_append_drop]
  rw [AssocList.erase, AssocList.eraseRange]
  conv_lhs => rw [hsplit]
  rw [List.filter_append, List.filter_cons_of_neg (by rw [hself]; decide)]
  congr 1
  · apply List.filter_eq_self.mpr
    intro e he
    obtain ⟨i, hi, rfl⟩ := List.mem_take_iff_getElem.mp he
    exact hother i _ (List.getElem?_eq_getElem (by omega)) (by omega)
  · apply List.filter_eq_self.mpr
    intro e he
    obtain ⟨i, hi, rfl⟩ := List.mem_drop_iff_getElem.mp he
    exact hother (p + 1 + i) _ (List.getElem?_eq_getElem (by omega)) (by omega)

/-- Only the keys of the pairs matter. -/
theorem of_keys (h : Agrees m) {vec : List (K × T)}
    (hkeys : vec.map Prod.fst = m.vec.map Prod.fst) : Agrees { m with vec := vec } := by
  intro k i
  show (k, i) ∈ m.map.entries ↔ (vec[i]?).map Prod.fst = some k
  rw [h, ← List.getElem?_map, ← List.getElem?_map, hkeys]

theorem insert (h : Agrees m) {e : K × T} (hnew : AssocList.has m.map.order m.vec e.1 = false) :
    Agrees ⟨m.vec ++ [e], m.map.insert e.1 m.vec.length⟩ := by
  have hfind : m.map.find? e.1 = none := by
    rw [h.find?_eq, hnew, if_neg Bool.false_ne_true]
  intro k i
  rw [OrderedMap.mem_insert (OrderedMap.find?_eq_none.mp hfind), h]
  rcases Nat.lt_trichotomy i m.vec.length with hi | hi | hi
  · rw [List.getElem?_append_left hi, or_iff_right]
    intro heq
    exact absurd (Prod.mk.inj heq).2 (Nat.ne_of_lt hi)
  · rw [hi, List.getElem?_append_right (Nat.le_refl _), Nat.sub_self,
      List.getElem?_eq_none (Nat.le_refl _)]
    constructor
    · rintro (heq | heq)
      · rw [(Prod.mk.inj heq).1]
        rfl
      · exact absurd heq.symm (Option.some_ne_none k)
    · intro heq
      left
      rw [Option.some.inj heq]
  · have hlen : (m.vec ++ [e]).length ≤ i := by
      rw [List.length_append]
      exact hi
    rw [List.getElem?_eq_none hlen, List.getElem?_eq_none (Nat.le_of_lt hi), or_iff_right]
    intro heq
    exact absurd (Prod.mk.inj heq).2 (Nat.ne_of_gt hi)

/-- The pairs `i ≤ · < j` are dropped, and so are their entries in the index;
the positions from `j` on move down. -/
theorem eraseRange (h : Agrees m) {i j : ℕ} (hij : i ≤ j) (hj : j ≤ m.vec.length)
    {map : OrderedMap K ℕ}
    (hmap : ∀ k p, (k, p) ∈ map.entries ↔ (k, p) ∈ m.map.entries ∧ ¬(i ≤ p ∧ p < j)) :
    Agrees ⟨AssocList.eraseRange m.vec i j,
      map.mapValues fun v => if v ≥ i then v - (j - i) else v⟩ := by
  intro k q
  rw [OrderedMap.mem_mapValues]
  have hlen : (m.vec.take i).length = i := by
    rw [List.length_take]
    exact Nat.min_eq_left (Nat.le_trans hij hj)
  rcases Nat.lt_or_ge q i with hq | hq
  · -- below the gap nothing moves
    have hget : (AssocList.eraseRange m.vec i j)[q]? = m.vec[q]? := by
      rw [AssocList.eraseRange, List.getElem?_append_left (by rw [hlen]; exact hq),
        List.getElem?_take_of_lt hq]
    show _ ↔ ((AssocList.eraseRange m.vec i j)[q]?).map Prod.fst = some k
    rw [hget, ← h]
    constructor
    · rintro ⟨v, hmem, hv⟩
      obtain ⟨hmem, hout⟩ := (hmap k v).mp hmem
      have hvq : v = q := by
        dsimp only at hv
        split at hv <;> omega
      rw [← hvq]
      exact hmem
    · intro hmem
      refine ⟨q, (hmap k q).mpr ⟨hmem, fun hin => ?_⟩, if_neg (by omega)⟩
      exact absurd hin.1 (Nat.not_le_of_lt hq)
  · -- above it, position `q` was position `q + (j - i)`
    have hget : (AssocList.eraseRange m.vec i j)[q]? = m.vec[q + (j - i)]? := by
      have hsum : j + (q - i) = q + (j - i) := by omega
      rw [AssocList.eraseRange, List.getElem?_append_right (by rw [hlen]; exact hq), hlen,
        List.getElem?_drop, hsum]
    show _ ↔ ((AssocList.eraseRange m.vec i j)[q]?).map Prod.fst = some k
    rw [hget, ← h]
    constructor
    · rintro ⟨v, hmem, hv⟩
      obtain ⟨hmem, hout⟩ := (hmap k v).mp hmem
      have hvq : v = q + (j - i) := by
        dsimp only at hv
        split at hv <;> omega
      rw [← hvq]
      exact hmem
    · intro hmem
      refine ⟨q + (j - i), (hmap k _).mpr ⟨hmem, fun hin => ?_⟩, ?_⟩
      · omega
      · show (if q + (j - i) ≥ i then q + (j - i) - (j - i) else q + (j - i)) = q
        rw [if_pos (by omega), Nat.add_sub_cancel]

theorem keys (h : Agrees m) (k : K) :
    (∃ i, (k, i) ∈ m.map.entries) ↔ ∃ v, (k, v) ∈ m.vec := by
  constructor
  · rintro ⟨i, hmem⟩
    rw [h, Option.map_eq_some_iff] at hmem
    obtain ⟨⟨k', v⟩, he, rfl⟩ := hmem
    exact ⟨v, List.mem_of_getElem? he⟩
  · rintro ⟨v, hmem⟩
    obtain ⟨i, hi⟩ := List.getElem?_of_mem hmem
    exact ⟨i, h.mem_of_getElem? hi⟩

theorem inequivalent (h : Agrees m) :
    m.vec.Pairwise fun d e => ¬ m.map.order.equiv d.1 e.1 = true := by
  rw [List.pairwise_iff_getElem]
  intro i j hi hj hij heq
  have := h.eq_of_equiv (List.getElem?_eq_getElem hi) (List.getElem?_eq_getElem hj) heq
  omega

end Agrees

/-- What the two members of a map say, in terms of the list it stands for. -/
structure Coherent (o : StrictWeakOrder K) (m : SequentialMap K T) (l : List (K × T)) : Prop where
  vec : m.vec = l
  keys : ∀ k, (∃ i, (k, i) ∈ m.map.entries) ↔ ∃ v, (k, v) ∈ m.vec
  inequivalent : m.vec.Pairwise fun d e => ¬ o.equiv d.1 e.1 = true
  index : ∀ k i, m.map.find? k = some i ↔ ∃ e, m.vec[i]? = some e ∧ o.equiv e.1 k = true

end SequentialMap
end KssUtil.Containers

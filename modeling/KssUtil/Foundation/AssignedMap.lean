import KssUtil.Foundation.OrderedMap
import Mathlib.Data.List.Induction
import Mathlib.Data.List.Sort

/-!
# Assigning the values of an ordered map

What `m[key] = value` makes of a map.  Where equivalent keys are equal, the entries of a map
are determined by what it finds, so a run of assignments has one outcome for each meaning.
-/

namespace KssUtil.Foundation

/-- The order of a type that is linearly ordered. -/
def StrictWeakOrder.ofLinear (K : Type) [LinearOrder K] : StrictWeakOrder K where
  less a b := decide (a < b)
  lawful :=
    { irrefl := fun a h => lt_irrefl a (of_decide_eq_true h)
      trans := fun a b c hab hbc =>
        decide_eq_true (lt_trans (of_decide_eq_true hab) (of_decide_eq_true hbc))
      incomp_trans := by
        simp only [decide_eq_true_eq, not_lt]
        intro a b c hab hbc
        exact ⟨hbc.1.trans hab.1, hab.2.trans hbc.2⟩ }

theorem StrictWeakOrder.less_ofLinear {K : Type} [LinearOrder K] {a b : K} :
    (ofLinear K).less a b = true ↔ a < b := decide_eq_true_iff

theorem StrictWeakOrder.eq_of_equiv_ofLinear {K : Type} [LinearOrder K] {a b : K}
    (h : (ofLinear K).equiv a b = true) : a = b := by
  obtain ⟨hab, hba⟩ := equiv_iff.mp h
  rw [less_ofLinear, not_lt] at hab hba
  exact le_antisymm hba hab

namespace OrderedMap

variable {K V : Type}

/-- `m[k]`, which makes an entry with the value `default` if there is none. -/
def touch (m : OrderedMap K V) (k : K) (default : V) : OrderedMap K V :=
  if (m.find? k).isSome then m else m.insert k default

/-- Give the entry for a key equivalent to `k` a new value. -/
def setValue (m : OrderedMap K V) (k : K) (v : V) : OrderedMap K V :=
  ⟨m.order, m.entries.map fun e => if m.order.equiv e.1 k then (e.1, v) else e, by
    rw [List.pairwise_map]
    refine m.sorted.imp fun {a b} hless => ?_
    split <;> split <;> exact hless⟩

/-- `m[k] = v` -/
def assign (m : OrderedMap K V) (k : K) (v default : V) : OrderedMap K V :=
  (m.touch k default).setValue k v

def keys (m : OrderedMap K V) : List K := m.entries.map Prod.fst

/-- The assignments of a run, in order. -/
def assignAll (m : OrderedMap K V) (default : V) (entries : List (K × V)) : OrderedMap K V :=
  entries.foldl (fun m e => m.assign e.1 e.2 default) m

/-- What the last assignment to a key has been. -/
def lastOf (o : StrictWeakOrder K) (entries : List (K × V)) (k : K) : Option V :=
  (entries.reverse.find? fun e => o.equiv e.1 k).map Prod.snd

section

variable {m m' : OrderedMap K V} {k k' : K} {v default : V}

@[simp]
theorem order_touch : (m.touch k default).order = m.order := by
  unfold touch
  split
  · rfl
  · rfl

@[simp]
theorem order_assign : (m.assign k v default).order = m.order := order_touch

theorem find?_congr_key (h : m.order.equiv k k' = true) : m.find? k = m.find? k' := by
  have hsame : ∀ a, m.order.equiv a k = m.order.equiv a k' := by
    intro a
    rw [Bool.eq_iff_iff]
    constructor
    · exact fun ha => StrictWeakOrder.equiv_trans ha h
    · exact fun ha => StrictWeakOrder.equiv_trans ha (StrictWeakOrder.equiv_symm h)
  unfold find?
  simp only [hsame]

/-- There is an entry once the key has been touched. -/
theorem isSome_find?_touch : ((m.touch k default).find? k).isSome = true := by
  unfold touch
  split
  · rename_i h
    exact h
  · rename_i h
    have hnone : m.find? k = none := Option.not_isSome_iff_eq_none.mp h
    rw [Option.isSome_iff_exists]
    refine ⟨default, find?_eq_some.mpr ⟨k, ?_, StrictWeakOrder.equiv_refl k⟩⟩
    exact (mem_insert (find?_eq_none.mp hnone)).mpr (Or.inl rfl)

theorem find?_touch_of_not (h : ¬ m.order.equiv k k' = true) :
    (m.touch k default).find? k' = m.find? k' := by
  unfold touch
  split
  · rfl
  · rename_i hnone
    have hnew := find?_eq_none.mp (Option.not_isSome_iff_eq_none.mp hnone)
    ext v'
    rw [find?_eq_some, find?_eq_some]
    constructor
    · rintro ⟨a, ha, hak⟩
      rcases (mem_insert hnew).mp ha with heq | ha
      · rw [(Prod.mk.inj heq).1] at hak
        exact absurd hak h
      · exact ⟨a, ha, hak⟩
    · rintro ⟨a, ha, hak⟩
      exact ⟨a, (mem_insert hnew).mpr (Or.inr ha), hak⟩

theorem mem_setValue {e : K × V} : e ∈ (m.setValue k v).entries ↔
    (∃ v', (e.1, v') ∈ m.entries ∧ m.order.equiv e.1 k = true ∧ e.2 = v) ∨
      (e ∈ m.entries ∧ ¬ m.order.equiv e.1 k = true) := by
  rw [setValue, List.mem_map]
  constructor
  · rintro ⟨d, hd, rfl⟩
    split
    · rename_i hk
      exact Or.inl ⟨d.2, hd, hk, rfl⟩
    · rename_i hk
      exact Or.inr ⟨hd, hk⟩
  · rintro (⟨v', hv', hk, rfl⟩ | ⟨he, hk⟩)
    · exact ⟨(e.1, v'), hv', if_pos hk⟩
    · exact ⟨e, he, if_neg hk⟩

theorem find?_setValue : (m.setValue k v).find? k' =
    if m.order.equiv k k' = true then (m.find? k').map fun _ => v else m.find? k' := by
  ext w
  rw [find?_eq_some]
  show (∃ a, (a, w) ∈ (m.setValue k v).entries ∧ m.order.equiv a k' = true) ↔ _
  split
  · rename_i hk
    rw [Option.map_eq_some_iff]
    constructor
    · rintro ⟨a, ha, hak⟩
      rcases mem_setValue.mp ha with ⟨v', hv', -, rfl⟩ | ⟨-, hne⟩
      · exact ⟨v', find?_eq_some.mpr ⟨a, hv', hak⟩, rfl⟩
      · exact absurd (StrictWeakOrder.equiv_trans hak (StrictWeakOrder.equiv_symm hk)) hne
    · rintro ⟨v', hv', rfl⟩
      obtain ⟨a, ha, hak⟩ := find?_eq_some.mp hv'
      have hkey := StrictWeakOrder.equiv_trans hak (StrictWeakOrder.equiv_symm hk)
      exact ⟨a, mem_setValue.mpr (Or.inl ⟨v', ha, hkey, rfl⟩), hak⟩
  · rename_i hk
    rw [find?_eq_some]
    constructor
    · rintro ⟨a, ha, hak⟩
      rcases mem_setValue.mp ha with ⟨v', -, hkey, -⟩ | ⟨hmem, -⟩
      · exact absurd (StrictWeakOrder.equiv_trans (StrictWeakOrder.equiv_symm hkey) hak) hk
      · exact ⟨a, hmem, hak⟩
    · rintro ⟨a, ha, hak⟩
      refine ⟨a, mem_setValue.mpr (Or.inr ⟨ha, fun hkey => ?_⟩), hak⟩
      exact hk (StrictWeakOrder.equiv_trans (StrictWeakOrder.equiv_symm hkey) hak)

/-- **Assigning a value.** -/
theorem find?_assign : (m.assign k v default).find? k' =
    if m.order.equiv k k' = true then some v else m.find? k' := by
  have horder : (m.touch k default).order = m.order := order_touch
  rw [assign, find?_setValue, horder]
  split
  · rename_i hk
    rw [← find?_congr_key (horder ▸ hk)]
    obtain ⟨v', hv'⟩ := Option.isSome_iff_exists.mp
      (isSome_find?_touch : ((m.touch k default).find? k).isSome = true)
    rw [hv']
    rfl
  · rename_i hk
    exact find?_touch_of_not hk

@[simp]
theorem order_assignAll (entries : List (K × V)) :
    (m.assignAll default entries).order = m.order := by
  induction entries generalizing m with
  | nil => rfl
  | cons e entries ih => exact ih.trans order_assign

/-- **A run of assignments.**  The last one to a key is what is found. -/
theorem find?_assignAll (entries : List (K × V)) : (m.assignAll default entries).find? k =
    (lastOf m.order entries k).or (m.find? k) := by
  induction entries using List.reverseRecOn with
  | nil => rfl
  | append_singleton entries e ih =>
      have hsnoc : m.assignAll default (entries ++ [e]) =
          (m.assignAll default entries).assign e.1 e.2 default := by
        rw [assignAll, List.foldl_append]
        rfl
      rw [hsnoc, find?_assign, order_assignAll, ih]
      unfold lastOf
      rw [List.reverse_append, List.reverse_singleton, List.singleton_append, List.find?_cons]
      by_cases hk : m.order.equiv e.1 k = true
      · rw [if_pos hk, hk]
        rfl
      · rw [if_neg hk, Bool.eq_false_iff.mpr hk]

/-- The keys are in order. -/
theorem sorted_keys (m : OrderedMap K V) :
    m.keys.Pairwise fun a b => m.order.less a b = true :=
  List.pairwise_map.mpr m.sorted

theorem mem_keys (h : ∀ a b, m.order.equiv a b = true → a = b) :
    k ∈ m.keys ↔ (m.find? k).isSome = true := by
  rw [keys, List.mem_map, Option.isSome_iff_exists]
  constructor
  · rintro ⟨e, he, rfl⟩
    exact ⟨e.2, find?_eq_some.mpr ⟨e.1, he, StrictWeakOrder.equiv_refl _⟩⟩
  · rintro ⟨v, hv⟩
    obtain ⟨a, ha, hak⟩ := find?_eq_some.mp hv
    exact ⟨(a, v), ha, h a k hak⟩

/-- **Maps are determined by what they find**, where equivalent keys are equal. -/
theorem ext_find? (horder : m.order = m'.order) (h : ∀ a b, m.order.equiv a b = true → a = b)
    (hfind : ∀ k, m.find? k = m'.find? k) : m = m' := by
  obtain ⟨o, entries, hsorted⟩ := m
  obtain ⟨o', entries', hsorted'⟩ := m'
  obtain rfl : o = o' := horder
  have hmem : ∀ {es : List (K × V)} (hs : es.Pairwise fun a b => o.less a.1 b.1 = true)
      (e : K × V), e ∈ es ↔ find? ⟨o, es, hs⟩ e.1 = some e.2 := by
    intro es hs e
    rw [find?_eq_some]
    constructor
    · exact fun he => ⟨e.1, he, StrictWeakOrder.equiv_refl _⟩
    · rintro ⟨a, ha, hae⟩
      obtain rfl : a = e.1 := h a e.1 hae
      exact ha
  have : Std.Irrefl fun a b : K × V => o.less a.1 b.1 = true :=
    ⟨fun a => StrictWeakOrder.irrefl a.1⟩
  have : Std.Antisymm fun a b : K × V => o.less a.1 b.1 = true :=
    ⟨fun a b hab hba => absurd (StrictWeakOrder.less_trans hab hba) (StrictWeakOrder.irrefl a.1)⟩
  obtain rfl : entries = entries' := by
    refine List.Pairwise.eq_of_mem_iff hsorted hsorted' fun e => ?_
    rw [hmem hsorted, hmem hsorted', hfind]
  rfl

end
end OrderedMap
end KssUtil.Foundation

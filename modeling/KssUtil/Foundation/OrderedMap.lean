import Mathlib.Data.List.Pairwise
import Mathlib.Order.Defs.Unbundled
import Mathlib.Tactic.Common

/-!
# Maps ordered by a strict weak order

A map keeps its entries in strictly increasing key order, so two of its keys are
never equivalent.  Lookup, insertion and removal identify keys by equivalence:
neither is less than the other.
-/

namespace KssUtil.Foundation

/-- A comparator, with the laws a map relies on. -/
structure StrictWeakOrder (K : Type) where
  less : K → K → Bool
  lawful : IsStrictWeakOrder K fun a b => less a b = true

namespace StrictWeakOrder

variable {K : Type} (o : StrictWeakOrder K)

def equiv (a b : K) : Bool := !o.less a b && !o.less b a

variable {o} {a b c : K}

theorem equiv_iff : o.equiv a b = true ↔ ¬ o.less a b = true ∧ ¬ o.less b a = true := by
  simp [equiv]

theorem irrefl (a : K) : ¬ o.less a a = true := o.lawful.toIsStrictOrder.toIrrefl.irrefl a

theorem less_trans (hab : o.less a b = true) (hbc : o.less b c = true) : o.less a c = true :=
  o.lawful.toIsStrictOrder.toIsTrans.trans a b c hab hbc

theorem equiv_refl (a : K) : o.equiv a a = true := equiv_iff.mpr ⟨irrefl a, irrefl a⟩

theorem equiv_symm (h : o.equiv a b = true) : o.equiv b a = true :=
  equiv_iff.mpr (equiv_iff.mp h).symm

theorem equiv_trans (hab : o.equiv a b = true) (hbc : o.equiv b c = true) :
    o.equiv a c = true :=
  equiv_iff.mpr (o.lawful.incomp_trans a b c (equiv_iff.mp hab) (equiv_iff.mp hbc))

theorem not_equiv_of_less (h : o.less a b = true) : ¬ o.equiv a b = true :=
  fun he => (equiv_iff.mp he).1 h

end StrictWeakOrder

/-- `std::map`. -/
structure OrderedMap (K V : Type) where
  order : StrictWeakOrder K
  entries : List (K × V)
  sorted : entries.Pairwise fun a b => order.less a.1 b.1 = true

namespace OrderedMap

variable {K V : Type}

def empty (o : StrictWeakOrder K) : OrderedMap K V := ⟨o, [], List.Pairwise.nil⟩

def size (m : OrderedMap K V) : ℕ := m.entries.length

def find? (m : OrderedMap K V) (k : K) : Option V :=
  (m.entries.find? fun e => m.order.equiv e.1 k).map Prod.snd

/-- Put an entry in its place, unless there is one for an equivalent key. -/
def insertEntry (o : StrictWeakOrder K) (e : K × V) : List (K × V) → List (K × V)
  | [] => [e]
  | d :: ds =>
      if o.less e.1 d.1 then e :: d :: ds
      else if o.less d.1 e.1 then d :: insertEntry o e ds
      else d :: ds

theorem mem_insertEntry_of {o : StrictWeakOrder K} {e d : K × V} {ds : List (K × V)}
    (h : d ∈ insertEntry o e ds) : d = e ∨ d ∈ ds := by
  induction ds with
  | nil =>
      rw [insertEntry, List.mem_singleton] at h
      exact Or.inl h
  | cons c ds ih =>
      rw [insertEntry] at h
      split at h
      · exact List.mem_cons.mp h
      · split at h
        · rcases List.mem_cons.mp h with rfl | h
          · exact Or.inr List.mem_cons_self
          · exact (ih h).imp_right (List.mem_cons_of_mem c)
        · exact Or.inr h

theorem sorted_insertEntry {o : StrictWeakOrder K} (e : K × V) {ds : List (K × V)}
    (h : ds.Pairwise fun a b => o.less a.1 b.1 = true) :
    (insertEntry o e ds).Pairwise fun a b => o.less a.1 b.1 = true := by
  induction ds with
  | nil => exact List.pairwise_singleton _ e
  | cons d ds ih =>
      obtain ⟨hd, hds⟩ := List.pairwise_cons.mp h
      rw [insertEntry]
      split
      · rename_i hed
        refine List.pairwise_cons.mpr ⟨fun c hc => ?_, h⟩
        rcases List.mem_cons.mp hc with rfl | hc
        · exact hed
        · exact StrictWeakOrder.less_trans hed (hd c hc)
      · split
        · rename_i hde
          refine List.pairwise_cons.mpr ⟨fun c hc => ?_, ih hds⟩
          rcases mem_insertEntry_of hc with rfl | hc
          · exact hde
          · exact hd c hc
        · exact h

def insert (m : OrderedMap K V) (k : K) (v : V) : OrderedMap K V :=
  ⟨m.order, insertEntry m.order (k, v) m.entries, sorted_insertEntry _ m.sorted⟩

/-- Remove the entry for a key equivalent to `k`. -/
def erase (m : OrderedMap K V) (k : K) : OrderedMap K V :=
  ⟨m.order, m.entries.filter fun e => !m.order.equiv e.1 k, m.sorted.filter _⟩

def mapValues (m : OrderedMap K V) (f : V → V) : OrderedMap K V :=
  ⟨m.order, m.entries.map fun e => (e.1, f e.2), by
    rw [List.pairwise_map]
    exact m.sorted⟩

def clear (m : OrderedMap K V) : OrderedMap K V := empty m.order

/-! ## Laws -/

section

variable {m : OrderedMap K V} {k : K} {v : V} {e d : K × V}

/-- Two entries for equivalent keys are the same entry. -/
theorem eq_of_equiv (he : e ∈ m.entries) (hd : d ∈ m.entries)
    (h : m.order.equiv e.1 d.1 = true) : e = d := by
  have hpair : m.entries.Pairwise fun a b => m.order.equiv a.1 b.1 = true → a = b :=
    m.sorted.imp fun hless heq => absurd heq (StrictWeakOrder.not_equiv_of_less hless)
  have hflip : m.entries.Pairwise fun a b => m.order.equiv b.1 a.1 = true → b = a :=
    hpair.imp fun hab heq => (hab (StrictWeakOrder.equiv_symm heq)).symm
  exact List.Pairwise.forall_of_forall_of_flip (fun _ _ _ => rfl) hpair hflip he hd h

theorem nodup (m : OrderedMap K V) : m.entries.Nodup := by
  refine List.Pairwise.imp ?_ m.sorted
  rintro a _ hless rfl
  exact StrictWeakOrder.irrefl a.1 hless

theorem find?_eq_some :
    m.find? k = some v ↔ ∃ k', (k', v) ∈ m.entries ∧ m.order.equiv k' k = true := by
  constructor
  · intro h
    obtain ⟨⟨k', v'⟩, hfind, rfl⟩ := Option.map_eq_some_iff.mp h
    have hk : m.order.equiv (k', v').1 k = true :=
      List.find?_some (p := fun e : K × V => m.order.equiv e.1 k) hfind
    exact ⟨k', List.mem_of_find?_eq_some hfind, hk⟩
  · rintro ⟨k', hmem, hk⟩
    cases hfind : m.entries.find? fun e => m.order.equiv e.1 k with
    | none => exact absurd hk (List.find?_eq_none.mp hfind _ hmem)
    | some e =>
        have he : m.order.equiv e.1 k = true :=
      List.find?_some (p := fun e : K × V => m.order.equiv e.1 k) hfind
        have heq : e = (k', v) := eq_of_equiv (List.mem_of_find?_eq_some hfind) hmem
          (StrictWeakOrder.equiv_trans he (StrictWeakOrder.equiv_symm hk))
        rw [find?, hfind, heq]
        rfl

theorem find?_eq_none :
    m.find? k = none ↔ ∀ e ∈ m.entries, ¬ m.order.equiv e.1 k = true := by
  rw [find?, Option.map_eq_none_iff, List.find?_eq_none]

theorem mem_insert (hnew : ∀ e ∈ m.entries, ¬ m.order.equiv e.1 k = true) :
    e ∈ (m.insert k v).entries ↔ e = (k, v) ∨ e ∈ m.entries := by
  refine ⟨mem_insertEntry_of, ?_⟩
  show _ → e ∈ insertEntry m.order (k, v) m.entries
  generalize m.entries = ds at hnew
  induction ds with
  | nil =>
      intro h
      rw [insertEntry, List.mem_singleton]
      exact h.resolve_right List.not_mem_nil
  | cons d ds ih =>
      intro h
      rw [insertEntry]
      split
      · exact List.mem_cons.mpr h
      · rename_i hkd
        have hdk : m.order.less d.1 k = true := by
          by_contra hdk
          exact hnew d List.mem_cons_self (StrictWeakOrder.equiv_iff.mpr ⟨hdk, hkd⟩)
        rw [if_pos hdk, List.mem_cons]
        rcases h with h | h
        · exact Or.inr (ih (fun c hc => hnew c (List.mem_cons_of_mem d hc)) (Or.inl h))
        · rcases List.mem_cons.mp h with h | h
          · exact Or.inl h
          · exact Or.inr (ih (fun c hc => hnew c (List.mem_cons_of_mem d hc)) (Or.inr h))

theorem mem_erase :
    e ∈ (m.erase k).entries ↔ e ∈ m.entries ∧ ¬ m.order.equiv e.1 k = true := by
  rw [erase, List.mem_filter, Bool.not_eq_true', Bool.not_eq_true]

theorem mem_mapValues {f : V → V} :
    e ∈ (m.mapValues f).entries ↔ ∃ v, (e.1, v) ∈ m.entries ∧ f v = e.2 := by
  rw [mapValues, List.mem_map]
  constructor
  · rintro ⟨d, hd, rfl⟩
    exact ⟨d.2, hd, rfl⟩
  · rintro ⟨v, hv, hf⟩
    exact ⟨(e.1, v), hv, by rw [hf]⟩

end
end OrderedMap
end KssUtil.Foundation

import KssUtil.Foundation.TextOrder
import KssUtil.Identifiers.Uuid

/-!
# The order of UUIDs (uuid.hpp, add_rel_ops.hpp)

`UUID` has `==` and `<` from `uuid_compare`, and the other operators from `AddRelOps`.  They
agree with the comparison of texts, so that UUIDs and their texts are sorted alike.
-/

namespace KssUtil.Identifiers

open KssUtil.Foundation

/-! ## `AddRelOps` -/

namespace AddRelOps

variable {T : Type} (eq lt : T → T → Bool)

def operatorNe (self t : T) : Bool := !eq self t

def operatorLe (self t : T) : Bool := lt self t || eq self t

def operatorGt (self t : T) : Bool := !eq self t && !lt self t

def operatorGe (self t : T) : Bool := !lt self t

/-- The two operators of the class compare the keys. -/
structure ByKey {κ : Type} [LT κ] (key : T → κ) : Prop where
  eq_iff : ∀ a b, eq a b = true ↔ key a = key b
  lt_iff : ∀ a b, lt a b = true ↔ key a < key b

variable {eq lt} {κ : Type} [LinearOrder κ] {key : T → κ}

/-- Then so do the four that are added. -/
theorem ByKey.operators (h : ByKey eq lt key) (a b : T) :
    (operatorNe eq a b = true ↔ key a ≠ key b) ∧ (operatorLe eq lt a b = true ↔ key a ≤ key b) ∧
      (operatorGt eq lt a b = true ↔ key b < key a) ∧
      (operatorGe lt a b = true ↔ key b ≤ key a) := by
  have heq := h.eq_iff a b
  have hlt := h.lt_iff a b
  refine ⟨?_, ?_, ?_, ?_⟩
  · rw [operatorNe, Bool.not_eq_true', ← Bool.not_eq_true, heq]
  · rw [operatorLe, Bool.or_eq_true, heq, hlt, le_iff_lt_or_eq]
  · rw [operatorGt, Bool.and_eq_true, Bool.not_eq_true', Bool.not_eq_true', ← Bool.not_eq_true,
      ← Bool.not_eq_true, heq, hlt, not_lt]
    exact ⟨fun h => lt_of_le_of_ne h.2 (Ne.symm h.1), fun h => ⟨h.ne', h.le⟩⟩
  · rw [operatorGe, Bool.not_eq_true', ← Bool.not_eq_true, hlt, not_lt]

end AddRelOps

/-! ## Bytes -/

/-- What the library documents of its texts and its comparison. -/
structure UuidLibrary.Ordered (lib : UuidLibrary) : Prop where
  unparse_eq : ∀ u, lib.unparseLower u = canonicalText u
  compare_lt_zero : ∀ u v, lib.compare u v < 0 ↔ u.bytes < v.bytes

local instance uint8Order : LinearOrder UInt8 where
  le_refl := UInt8.le_refl
  le_trans _ _ _ := UInt8.le_trans
  le_antisymm _ _ := UInt8.le_antisymm
  le_total := UInt8.le_total
  lt_iff_le_not_ge a b := by
    rw [UInt8.not_le]
    exact ⟨fun h => ⟨UInt8.le_of_lt h, h⟩, And.right⟩
  toDecidableLE := inferInstance

theorem digitChar_lt_iff : ∀ m n : Fin 16, Nat.digitChar m < Nat.digitChar n ↔ m < n := by decide

theorem digitChar_inj : ∀ m n : Fin 16, Nat.digitChar m = Nat.digitChar n ↔ m = n := by decide

/-- The higher digit is compared first. -/
theorem hexByte_lt_iff (a b : UInt8) : hexByte a < hexByte b ↔ a < b := by
  have ha := a.toNat_lt
  have hb := b.toNat_lt
  have hhigh := digitChar_lt_iff ⟨a.toNat / 16, by omega⟩ ⟨b.toNat / 16, by omega⟩
  have hsame := digitChar_inj ⟨a.toNat / 16, by omega⟩ ⟨b.toNat / 16, by omega⟩
  have hlow := digitChar_lt_iff ⟨a.toNat % 16, by omega⟩ ⟨b.toNat % 16, by omega⟩
  rw [Fin.lt_def] at hhigh hlow
  rw [Fin.ext_iff] at hsame
  rw [hexByte, hexByte, List.cons_lt_cons_iff, List.cons_lt_cons_iff, hhigh, hsame, hlow,
    UInt8.lt_iff_toNat_lt]
  simp only [List.not_lt_nil, and_false, or_false]
  omega

theorem hexByte_inj {a b : UInt8} : hexByte a = hexByte b ↔ a = b := by
  refine ⟨fun h => ?_, congrArg hexByte⟩
  rcases lt_trichotomy a b with hlt | heq | hgt
  · exact absurd h ((hexByte_lt_iff a b).mpr hlt).ne
  · exact heq
  · exact absurd h ((hexByte_lt_iff b a).mpr hgt).ne'

theorem hexText_lt_iff {as bs : List UInt8} (hlen : as.length = bs.length) :
    hexText as < hexText bs ↔ as < bs := by
  induction as generalizing bs with
  | nil =>
      rw [List.length_nil, eq_comm, List.length_eq_zero_iff] at hlen
      subst hlen
      exact iff_of_false (lt_irrefl _) (lt_irrefl _)
  | cons a as ih =>
      cases bs with
      | nil => cases hlen
      | cons b bs =>
          have htails := ih (Nat.succ.inj hlen)
          have hwidth : (hexByte a).length = (hexByte b).length := rfl
          rw [hexText, hexText, List.flatMap_cons, List.flatMap_cons, append_lt_append_iff hwidth,
            hexByte_lt_iff, hexByte_inj, List.cons_lt_cons_iff]
          exact or_congr_right (and_congr_right fun _ => htails)

theorem hexText_inj {as bs : List UInt8} : hexText as = hexText bs ↔ as = bs := by
  refine ⟨fun h => ?_, congrArg hexText⟩
  have hread := congrArg readBytes h
  rw [readBytes_hexText, readBytes_hexText] at hread
  exact Option.some.inj hread

/-! ## Texts -/

/-- A group and a hyphen in front of texts that are in the order of the rest of the bytes -/
theorem group_lt_iff {as bs : List UInt8} {xs ys : List Char} (n : ℕ)
    (hlen : as.length = bs.length) (hrest : xs < ys ↔ as.drop n < bs.drop n) :
    hexText (as.take n) ++ '-' :: xs < hexText (bs.take n) ++ '-' :: ys ↔ as < bs := by
  have htake : (as.take n).length = (bs.take n).length := by
    rw [List.length_take, List.length_take, hlen]
  have hwidth : (hexText (as.take n)).length = (hexText (bs.take n)).length := by
    rw [length_hexText, length_hexText, htake]
  have hhyphen : '-' :: xs < '-' :: ys ↔ as.drop n < bs.drop n := by
    rw [List.cons_lt_cons_iff, hrest]
    simp
  calc hexText (as.take n) ++ '-' :: xs < hexText (bs.take n) ++ '-' :: ys
      ↔ as.take n < bs.take n ∨ as.take n = bs.take n ∧ as.drop n < bs.drop n := by
        rw [append_lt_append_iff hwidth, hexText_lt_iff htake, hexText_inj, hhyphen]
    _ ↔ as.take n ++ as.drop n < bs.take n ++ bs.drop n := (append_lt_append_iff htake).symm
    _ ↔ as < bs := by rw [List.take_append_drop, List.take_append_drop]

/-- The texts of the library are in the order of the bytes. -/
theorem canonicalText_lt_iff (u v : Uuid) :
    canonicalText u < canonicalText v ↔ u.bytes < v.bytes := by
  have hlen : ∀ n, (u.bytes.drop n).length = (v.bytes.drop n).length := by
    intro n
    rw [List.length_drop, List.length_drop, u.length_eq, v.length_eq]
  have hfourth : hexText ((u.bytes.drop 8).take 2) ++ '-' :: hexText (u.bytes.drop 10) <
      hexText ((v.bytes.drop 8).take 2) ++ '-' :: hexText (v.bytes.drop 10) ↔
        u.bytes.drop 8 < v.bytes.drop 8 :=
    group_lt_iff 2 (hlen 8) (by rw [List.drop_drop, List.drop_drop, hexText_lt_iff (hlen 10)])
  have hthird := group_lt_iff 2 (hlen 6)
    (by rw [List.drop_drop, List.drop_drop]; exact hfourth)
  have hsecond := group_lt_iff 2 (hlen 4)
    (by rw [List.drop_drop, List.drop_drop]; exact hthird)
  exact group_lt_iff 4 (hlen 0) hsecond

/-- Null is the least value. -/
theorem clear_lt_iff (u : Uuid) : uuidClear.bytes < u.bytes ↔ u ≠ uuidClear := by
  have hleast : ¬ u.bytes < uuidClear.bytes := by
    have hbelow : ¬ u.bytes < List.replicate u.bytes.length 0 :=
      not_lt_replicate fun b _ => UInt8.zero_le
    rwa [u.length_eq] at hbelow
  have hbytes : u = uuidClear ↔ u.bytes = uuidClear.bytes := by
    cases u
    rw [uuidClear, Uuid.mk.injEq]
  rw [Ne, hbytes]
  rcases lt_trichotomy u.bytes uuidClear.bytes with hlt | heq | hgt
  · exact absurd hlt hleast
  · exact iff_of_false (heq ▸ lt_irrefl _) (not_not.mpr heq)
  · exact iff_of_true hgt hgt.ne'

/-! ## Operators -/

def operatorLt (lib : UuidLibrary) (u uid : Uuid) : Bool := lib.compare u uid < 0

section

variable {lib : UuidLibrary}

theorem operatorString_lt_iff (hlib : lib.Lawful) (hordered : lib.Ordered) (u v : Uuid) :
    operatorString lib u < operatorString lib v ↔ u.bytes < v.bytes := by
  have hnot_clear : ¬ u.bytes < uuidClear.bytes := by
    rcases eq_or_ne u uuidClear with rfl | hu
    · exact lt_irrefl _
    · exact ((clear_lt_iff u).mpr hu).not_gt
  have htext : ∀ {w}, w ≠ uuidClear → operatorString lib w = canonicalText w := fun hw =>
    (operatorString_of_ne hlib hw).trans (hordered.unparse_eq _)
  by_cases hv : v = uuidClear
  · rw [hv, operatorString_clear]
    exact iff_of_false (List.not_lt_nil _) hnot_clear
  · by_cases hu : u = uuidClear
    · have hne : canonicalText v ≠ [] :=
        List.append_ne_nil_of_right_ne_nil _ (List.cons_ne_nil _ _)
      rw [hu, operatorString_clear, htext hv]
      exact iff_of_true ((not_lt.mp (List.not_lt_nil _)).lt_of_ne hne.symm)
        ((clear_lt_iff v).mpr hv)
    · rw [htext hu, htext hv, canonicalText_lt_iff]

theorem operatorString_inj (hlib : lib.Lawful) (hordered : lib.Ordered) {u v : Uuid} :
    operatorString lib u = operatorString lib v ↔ u = v := by
  refine ⟨fun h => ?_, congrArg _⟩
  have hu := operatorString_lt_iff hlib hordered u v
  have hv := operatorString_lt_iff hlib hordered v u
  rw [h] at hu hv
  have hbytes : u.bytes = v.bytes :=
    le_antisymm (not_lt.mp fun hlt => lt_irrefl _ (hv.mpr hlt))
      (not_lt.mp fun hlt => lt_irrefl _ (hu.mpr hlt))
  cases u
  cases v
  exact Uuid.mk.injEq .. |>.mpr hbytes

/-- `==` and `<` compare the texts. -/
theorem byKey_operatorString (hlib : lib.Lawful) (hordered : lib.Ordered) :
    AddRelOps.ByKey (operatorEq lib) (operatorLt lib) (operatorString lib) where
  eq_iff u v := by rw [operatorEq_iff hlib, operatorString_inj hlib hordered]
  lt_iff u v := by
    rw [operatorLt, decide_eq_true_eq, hordered.compare_lt_zero,
      operatorString_lt_iff hlib hordered]

/-- **UUIDs and texts.**  All six operators compare UUIDs as their texts are compared, the empty
text of null included: null is the least value. -/
theorem uuid_order (hlib : lib.Lawful) (hordered : lib.Ordered) (u v : Uuid) :
    ((operatorEq lib u v = true ↔ operatorString lib u = operatorString lib v) ∧
      (operatorLt lib u v = true ↔ operatorString lib u < operatorString lib v)) ∧
    ((AddRelOps.operatorNe (operatorEq lib) u v = true ↔
        operatorString lib u ≠ operatorString lib v) ∧
      (AddRelOps.operatorLe (operatorEq lib) (operatorLt lib) u v = true ↔
        operatorString lib u ≤ operatorString lib v) ∧
      (AddRelOps.operatorGt (operatorEq lib) (operatorLt lib) u v = true ↔
        operatorString lib v < operatorString lib u) ∧
      (AddRelOps.operatorGe (operatorLt lib) u v = true ↔
        operatorString lib v ≤ operatorString lib u)) ∧
    AddRelOps.operatorGe (operatorLt lib) u uuidClear = true := by
  have hkey := byKey_operatorString hlib hordered
  refine ⟨⟨hkey.eq_iff u v, hkey.lt_iff u v⟩, hkey.operators u v, ?_⟩
  have hleast := (hkey.operators u uuidClear).2.2.2
  rw [hleast, operatorString_clear]
  exact not_lt.mp (List.not_lt_nil _)

end

theorem canonicalLibrary_ordered : canonicalLibrary.Ordered where
  unparse_eq _ := rfl
  compare_lt_zero u v := by
    show (if u = v then (0 : ℤ) else if u.bytes < v.bytes then -1 else 1) < 0 ↔ u.bytes < v.bytes
    split
    · rename_i h
      rw [h]
      exact iff_of_false (by decide) (lt_irrefl _)
    · split
      · rename_i h
        exact iff_of_true (by decide) h
      · rename_i h
        exact iff_of_false (by decide) h

/-- The value with 1 in every byte is behind null. -/
theorem uuid_order_ones :
    operatorLt canonicalLibrary uuidClear onesUuid = true ∧
      operatorString canonicalLibrary uuidClear < operatorString canonicalLibrary onesUuid := by
  have horder := uuid_order canonicalLibrary_lawful canonicalLibrary_ordered uuidClear onesUuid
  have hlt : operatorLt canonicalLibrary uuidClear onesUuid = true := by decide
  exact ⟨hlt, horder.1.2.mp hlt⟩

end KssUtil.Identifiers

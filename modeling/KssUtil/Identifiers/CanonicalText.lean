import KssUtil.Libc.Numbers

/-!
# The canonical text of a UUID

Sixteen bytes as hexadecimal digits in groups of 8, 4, 4, 4 and 12, the way `libuuid` writes
and reads them.
-/

namespace KssUtil.Identifiers

open KssUtil.Libc

/-- `uuid_t` -/
structure Uuid where
  bytes : List UInt8
  length_eq : bytes.length = 16
deriving DecidableEq

def hexByte (b : UInt8) : List Char :=
  [Nat.digitChar (b.toNat / 16), Nat.digitChar (b.toNat % 16)]

def hexText (bytes : List UInt8) : List Char := bytes.flatMap hexByte

/-- `%08x-%04x-%04x-%04x-%012x` -/
def canonicalText (u : Uuid) : List Char :=
  hexText (u.bytes.take 4) ++ '-' ::
    (hexText ((u.bytes.drop 4).take 2) ++ '-' ::
      (hexText ((u.bytes.drop 6).take 2) ++ '-' ::
        (hexText ((u.bytes.drop 8).take 2) ++ '-' :: hexText (u.bytes.drop 10))))

def hexValue (c : Char) : Option ℕ :=
  if '0' ≤ c ∧ c ≤ '9' then some (c.toNat - '0'.toNat)
  else if 'a' ≤ c ∧ c ≤ 'f' then some (c.toNat - 'a'.toNat + 10)
  else if 'A' ≤ c ∧ c ≤ 'F' then some (c.toNat - 'A'.toNat + 10)
  else none

def readBytes : List Char → Option (List UInt8)
  | [] => some []
  | [_] => none
  | c :: d :: cs => do
      let high ← hexValue c
      let low ← hexValue d
      let bytes ← readBytes cs
      return UInt8.ofNat (16 * high + low) :: bytes

/-- A text of 36 characters, with hyphens at four places and digits at the others. -/
def parseCanonical (s : List Char) : Option Uuid :=
  if s.length = 36 ∧ s[8]? = some '-' ∧ s[13]? = some '-' ∧ s[18]? = some '-' ∧
      s[23]? = some '-' then
    match readBytes (s.take 8 ++ (s.drop 9).take 4 ++ (s.drop 14).take 4 ++
        (s.drop 19).take 4 ++ s.drop 24) with
    | some bytes => if h : bytes.length = 16 then some ⟨bytes, h⟩ else none
    | none => none
  else none

/-! ## Round trip -/

theorem length_hexText (bytes : List UInt8) : (hexText bytes).length = 2 * bytes.length := by
  induction bytes with
  | nil => rfl
  | cons b bytes ih =>
      rw [hexText, List.flatMap_cons, List.length_append, ← hexText, ih, List.length_cons, hexByte]
      simp only [List.length_cons, List.length_nil]
      omega

theorem hexText_append (a b : List UInt8) : hexText (a ++ b) = hexText a ++ hexText b :=
  List.flatMap_append

theorem hexValue_digitChar : ∀ n : Fin 16, hexValue (Nat.digitChar n) = some n.1 := by decide

theorem digitChar_ne_nul : ∀ n : Fin 16, Nat.digitChar n ≠ nul := by decide

theorem readBytes_hexByte (b : UInt8) (cs : List Char) :
    readBytes (hexByte b ++ cs) = (readBytes cs).map (b :: ·) := by
  have hb := b.toNat_lt
  have hhigh := hexValue_digitChar ⟨b.toNat / 16, by omega⟩
  have hlow := hexValue_digitChar ⟨b.toNat % 16, by omega⟩
  have hbyte : UInt8.ofNat (16 * (b.toNat / 16) + b.toNat % 16) = b := by
    rw [Nat.div_add_mod]
    exact UInt8.ofNat_toNat
  rw [hexByte, List.cons_append, List.singleton_append, readBytes, hhigh, hlow]
  cases readBytes cs with
  | none => rfl
  | some bytes =>
      show some (_ :: bytes) = some (b :: bytes)
      rw [hbyte]

theorem readBytes_hexText (bytes : List UInt8) : readBytes (hexText bytes) = some bytes := by
  induction bytes with
  | nil => rfl
  | cons b bytes ih =>
      rw [hexText, List.flatMap_cons, readBytes_hexByte, ← hexText, ih]
      rfl

theorem ne_nul_of_mem_hexText {bytes : List UInt8} : ∀ c ∈ hexText bytes, c ≠ nul := by
  intro c hc
  obtain ⟨b, _, hcb⟩ := List.mem_flatMap.mp hc
  have hb := b.toNat_lt
  simp only [hexByte, List.mem_cons, List.not_mem_nil, or_false] at hcb
  rcases hcb with rfl | rfl
  · exact digitChar_ne_nul ⟨b.toNat / 16, by omega⟩
  · exact digitChar_ne_nul ⟨b.toNat % 16, by omega⟩

theorem ne_nul_of_mem_canonicalText (u : Uuid) : ∀ c ∈ canonicalText u, c ≠ nul := by
  intro c hc
  simp only [canonicalText, List.mem_append, List.mem_cons] at hc
  rcases hc with h | rfl | h | rfl | h | rfl | h | rfl | h
  · exact ne_nul_of_mem_hexText c h
  · decide
  · exact ne_nul_of_mem_hexText c h
  · decide
  · exact ne_nul_of_mem_hexText c h
  · decide
  · exact ne_nul_of_mem_hexText c h
  · decide
  · exact ne_nul_of_mem_hexText c h

theorem length_of_parseCanonical {s : List Char} {u : Uuid} (h : parseCanonical s = some u) :
    s.length = 36 := by
  unfold parseCanonical at h
  split at h
  · rename_i hform
    exact hform.1
  · cases h

/-- The five groups of a text, apart. -/
theorem parseCanonical_groups {a b c d e : List Char} (ha : a.length = 8) (hb : b.length = 4)
    (hc : c.length = 4) (hd : d.length = 4) (he : e.length = 12) :
    parseCanonical (a ++ '-' :: (b ++ '-' :: (c ++ '-' :: (d ++ '-' :: e)))) =
      match readBytes (a ++ b ++ c ++ d ++ e) with
      | some bytes => if h : bytes.length = 16 then some ⟨bytes, h⟩ else none
      | none => none := by
  unfold parseCanonical
  rw [if_pos]
  · simp (disch := omega) [List.drop_append, List.drop_eq_nil_of_le, ha, hb, hc,
      hd]
  · simp [ha, hb, hc, hd, he]

theorem take_append_drop_add {l : List UInt8} (n k : ℕ) :
    (l.drop n).take k ++ l.drop (n + k) = l.drop n := by
  rw [← List.drop_drop, List.take_append_drop]

theorem parseCanonical_canonicalText (u : Uuid) : parseCanonical (canonicalText u) = some u := by
  have hlen := u.length_eq
  have hbytes : hexText (u.bytes.take 4) ++ hexText ((u.bytes.drop 4).take 2) ++
      hexText ((u.bytes.drop 6).take 2) ++ hexText ((u.bytes.drop 8).take 2) ++
      hexText (u.bytes.drop 10) = hexText u.bytes := by
    rw [← hexText_append, ← hexText_append, ← hexText_append, ← hexText_append, List.append_assoc,
      List.append_assoc, List.append_assoc, take_append_drop_add 8 2, take_append_drop_add 6 2,
      take_append_drop_add 4 2, List.take_append_drop]
  rw [canonicalText, parseCanonical_groups, hbytes, readBytes_hexText]
  · dsimp only
    rw [dif_pos hlen]
  all_goals
    rw [length_hexText]
    simp [hlen]

end KssUtil.Identifiers

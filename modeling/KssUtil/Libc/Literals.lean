import KssUtil.Libc.Numbers

/-!
# Integer literals

What an integer literal of C is, apart from how it is read, and that in base 0 the
readers take the longest one a text begins with.  `strtoul`.
-/

namespace KssUtil.Libc

open KssUtil.Foundation

/-! ## `strtoul` -/

def ulongMax : ℤ := 18446744073709551615

/-- A number after a minus is negated in the type. -/
def strtoul (cs : List Char) (base : ℕ) : Strtol :=
  match scanInteger base cs with
  | none => ⟨0, cs, false⟩
  | some (v, rest) =>
      if v < -ulongMax ∨ v > ulongMax then ⟨ulongMax, rest, true⟩
      else ⟨v % (ulongMax + 1), rest, false⟩

theorem strtoul_of_none {cs : List Char} {base : ℕ} (h : scanInteger base cs = none) :
    strtoul cs base = ⟨0, cs, false⟩ := by
  rw [strtoul, h]

theorem strtoul_of_nonneg {cs rest : List Char} {base : ℕ} {v : ℤ}
    (h : scanInteger base cs = some (v, rest)) (hv : 0 ≤ v) :
    strtoul cs base = if v ≤ ulongMax then ⟨v, rest, false⟩ else ⟨ulongMax, rest, true⟩ := by
  rw [strtoul, h]
  dsimp only
  by_cases hmax : v ≤ ulongMax
  · have hin : ¬(v < -ulongMax ∨ v > ulongMax) := by
      unfold ulongMax at hmax ⊢
      omega
    rw [if_pos hmax, if_neg hin, Int.emod_eq_of_lt hv (Int.lt_add_one_of_le hmax)]
  · rw [if_neg hmax, if_pos (Or.inr (not_le.mp hmax))]

/-! ## Literals -/

/-- A literal without a sign, and its value: in hexadecimal after `0x`, in octal after
another `0`, and in decimal otherwise. -/
inductive Magnitude : List Char → ℕ → Prop where
  | decimal {d : Char} {ds : List Char} (hd : d ≠ '0') (hds : Digits (d :: ds)) :
      Magnitude (d :: ds) (value (d :: ds))
  | octal {ds : List Char} (hds : ∀ c ∈ ds, isDigitIn 8 c = true) :
      Magnitude ('0' :: ds) (valueIn 8 ds)
  | hexadecimal {x : Char} {ds : List Char} (hx : x = 'x' ∨ x = 'X') (hne : ds ≠ [])
      (hds : ∀ c ∈ ds, isDigitIn 16 c = true) : Magnitude ('0' :: x :: ds) (valueIn 16 ds)

/-- White space, a sign and a literal, and nothing else. -/
def IsLiteral (cs : List Char) (v : ℤ) : Prop :=
  ∃ ws sg negative body m, cs = ws ++ (sg ++ body) ∧ (∀ c ∈ ws, isspace c = true) ∧
    IsSign sg negative ∧ Magnitude body m ∧ v = negateIf negative m

/-- The longest literal that the text begins with has the value `v`. -/
def Denotes (s : List Char) (v : ℤ) : Prop :=
  ∃ pre, pre <+: s ∧ IsLiteral pre v ∧
    ∀ pre' v', pre' <+: s → IsLiteral pre' v' → pre'.length ≤ pre.length

section

variable {cs pre body rest s t : List Char} {v v' : ℤ} {m : ℕ}

theorem Magnitude.head (h : Magnitude body m) : ∃ d ds, body = d :: ds ∧ d.isDigit = true := by
  cases h with
  | decimal hd hds => exact ⟨_, _, rfl, (digits_cons.mp hds).1⟩
  | octal hds => exact ⟨_, _, rfl, by decide⟩
  | hexadecimal hx hne hds => exact ⟨_, _, rfl, by decide⟩

/-! ### What is read is a literal -/

theorem valueIn_zero_cons (base : ℕ) (ds : List Char) :
    valueIn base ('0' :: ds) = valueIn base ds := by
  rw [valueIn, List.foldl_cons, Nat.zero_mul]
  rfl

/-- The digits after `scanBase` are a literal with what comes before them. -/
theorem magnitude_scanBase
    (hne : (scanBase 0 cs).2.takeWhile (isDigitIn (scanBase 0 cs).1) ≠ []) :
    ∃ body, cs = body ++ (scanBase 0 cs).2.dropWhile (isDigitIn (scanBase 0 cs).1) ∧
      Magnitude body (valueIn (scanBase 0 cs).1
        ((scanBase 0 cs).2.takeWhile (isDigitIn (scanBase 0 cs).1))) := by
  rcases scanBase_zero_cases cs with hbase | ⟨x, d, ds, rfl, hx, hd, hbase⟩
  · obtain ⟨d, ds, rfl, hdigit⟩ := (takeWhile_scanBase_iff cs).mp hne
    rw [hbase] at hne ⊢
    dsimp only at hne ⊢
    refine ⟨_, List.takeWhile_append_dropWhile.symm, ?_⟩
    by_cases hzero : d = '0'
    · subst hzero
      have hoct : isDigitIn 8 '0' = true := by decide
      rw [if_pos (show ('0' :: ds).head? = some '0' from rfl), List.takeWhile_cons_of_pos hoct,
        valueIn_zero_cons]
      exact Magnitude.octal fun c hc => List.mem_takeWhile_imp hc
    · have hhead : ¬ (d :: ds).head? = some '0' := fun h => hzero (Option.some.inj h)
      have hds : Digits ((d :: ds).takeWhile Char.isDigit) := fun c hc => List.mem_takeWhile_imp hc
      rw [if_neg hhead, isDigitIn_ten, valueIn_ten hds]
      rw [List.takeWhile_cons_of_pos hdigit] at hds ⊢
      exact Magnitude.decimal hzero hds
  · rw [hbase] at hne ⊢
    dsimp only at hne ⊢
    refine ⟨'0' :: x :: (d :: ds).takeWhile (isDigitIn 16), ?_, ?_⟩
    · rw [List.cons_append, List.cons_append, List.takeWhile_append_dropWhile]
    · exact Magnitude.hexadecimal hx hne fun c hc => List.mem_takeWhile_imp hc

theorem isLiteral_of_scan (h : scanInteger 0 cs = some (v, rest)) :
    ∃ pre, cs = pre ++ rest ∧ IsLiteral pre v := by
  unfold scanInteger at h
  dsimp only at h
  split at h
  · cases h
  · rename_i hne
    obtain ⟨rfl, rfl⟩ := Prod.mk.inj (Option.some.inj h)
    obtain ⟨sg, hsg, htext⟩ := scanSign_sound (cs.dropWhile isspace)
    obtain ⟨body, hbody, hm⟩ := magnitude_scanBase hne
    refine ⟨cs.takeWhile isspace ++ (sg ++ body), ?_, _, sg, _, body, _, rfl,
      fun c hc => List.mem_takeWhile_imp hc, hsg, hm, rfl⟩
    rw [List.append_assoc, List.append_assoc, ← hbody, ← htext, List.takeWhile_append_dropWhile]

/-! ### Nothing longer is a literal -/

/-- The digits are those of the literal and whatever follows, but a lone zero may turn
out to begin a `0x`. -/
theorem Magnitude.scanBase_append (h : Magnitude body m) (t : List Char) :
    (∃ base ds, scanBase 0 (body ++ t) = (base, ds ++ t) ∧ (∀ c ∈ ds, isDigitIn base c = true) ∧
      valueIn base ds = m) ∨
    ∃ x ts, t = x :: ts ∧ (scanBase 0 (body ++ t)).2 = ts := by
  cases h with
  | decimal hd hds =>
      rename_i d ds
      refine Or.inl ⟨10, d :: ds, ?_, by rw [isDigitIn_ten]; exact hds, valueIn_ten hds⟩
      have hhead : ¬ (d :: ds ++ t).head? = some '0' := fun h => hd (Option.some.inj h)
      rcases scanBase_zero_cases (d :: ds ++ t) with hbase | ⟨x, d', ds', htext, -⟩
      · rw [hbase, if_neg hhead]
      · exact absurd (List.cons.inj htext).1 hd
  | octal hds =>
      rename_i ds
      rcases scanBase_zero_cases ('0' :: ds ++ t) with hbase | ⟨x, d, ds', htext, hx, hd, hbase⟩
      · rw [if_pos (show ('0' :: ds ++ t).head? = some '0' from rfl)] at hbase
        exact Or.inl ⟨8, '0' :: ds, hbase, List.forall_mem_cons.mpr ⟨by decide, hds⟩,
          valueIn_zero_cons 8 ds⟩
      · -- an `x` is no octal digit, so it is not in the literal
        obtain ⟨-, htail⟩ := List.cons.inj htext
        cases ds with
        | nil => exact Or.inr ⟨x, d :: ds', htail, by rw [hbase]⟩
        | cons c ds =>
            obtain ⟨rfl, -⟩ := List.cons.inj htail
            have hoct := hds _ List.mem_cons_self
            rcases hx with rfl | rfl <;> exact absurd hoct (by decide)
  | hexadecimal hx hne hds =>
      rename_i x ds
      obtain ⟨d, ds, rfl⟩ := List.exists_cons_of_ne_nil hne
      exact Or.inl ⟨16, d :: ds, if_pos ⟨Or.inl rfl, hx, hds d List.mem_cons_self⟩, hds, rfl⟩

/-- A literal without a sign is read to its end at least. -/
theorem Magnitude.scanned (h : Magnitude body m) (t : List Char) :
    ((scanBase 0 (body ++ t)).2.dropWhile (isDigitIn (scanBase 0 (body ++ t)).1)).length ≤
      t.length := by
  rcases h.scanBase_append t with ⟨base, ds, hbase, hds, -⟩ | ⟨x, ts, rfl, hts⟩
  · rw [hbase]
    dsimp only
    rw [List.dropWhile_append_of_pos hds]
    exact List.length_dropWhile_le _ _
  · rw [hts]
    exact (List.length_dropWhile_le _ _).trans (Nat.le_succ _)

theorem Magnitude.literalValue (h : Magnitude body m) : literalValue body = m := by
  rcases h.scanBase_append [] with ⟨base, ds, hbase, hds, hvalue⟩ | ⟨x, ts, hnil, -⟩
  · rw [List.append_nil] at hbase
    rw [Libc.literalValue, hbase]
    dsimp only
    rw [List.takeWhile_append_of_pos hds, List.takeWhile_nil, List.append_nil, hvalue]
  · exact absurd hnil.symm (List.cons_ne_nil x ts)

theorem scan_of_isLiteral (h : IsLiteral pre v) (t : List Char) :
    ∃ v' rest, scanInteger 0 (pre ++ t) = some (v', rest) ∧ rest.length ≤ t.length := by
  obtain ⟨ws, sg, negative, body, m, rfl, hws, hsg, hm, -⟩ := h
  have hlen := hm.scanned t
  obtain ⟨d, ds, rfl, hd⟩ := hm.head
  have hskip : (ws ++ (sg ++ d :: ds) ++ t).dropWhile isspace = sg ++ d :: (ds ++ t) := by
    rw [List.append_assoc, List.append_assoc]
    exact dropWhile_append_stops hws (isspace_of_sign hsg hd _)
  have hdigits := (takeWhile_scanBase_iff (d :: (ds ++ t))).mpr ⟨d, ds ++ t, rfl, hd⟩
  unfold scanInteger
  dsimp only
  rw [hskip, scanSign_complete hsg hd]
  dsimp only
  rw [if_neg hdigits]
  exact ⟨_, _, rfl, hlen⟩

/-! ### C strings -/

theorem IsLiteral.ne_nul (h : IsLiteral pre v) : ∀ c ∈ pre, c ≠ nul := by
  have hdigit : ∀ {base : ℕ} {ds : List Char}, base ≤ 16 → (∀ c ∈ ds, isDigitIn base c = true) →
      nul ∉ ds := by
    intro base ds hbase hds hmem
    have hnul := hds nul hmem
    have hlarge : digitOf nul = 36 := by decide
    rw [isDigitIn, hlarge, decide_eq_true_eq] at hnul
    omega
  obtain ⟨ws, sg, negative, body, m, rfl, hws, hsg, hm, -⟩ := h
  rintro c hc rfl
  rcases List.mem_append.mp hc with hc | hc
  · exact absurd (hws nul hc) (by decide)
  · rcases List.mem_append.mp hc with hc | hc
    · rcases hsg with ⟨rfl, -⟩ | ⟨rfl, -⟩ | ⟨rfl, -⟩ <;> exact absurd hc (by decide)
    · cases hm with
      | decimal hd hds => exact ne_nul_of_digits hds nul hc rfl
      | octal hds =>
          rcases List.mem_cons.mp hc with hc | hc
          · exact absurd hc (by decide)
          · exact hdigit (by decide) hds hc
      | hexadecimal hx hne hds =>
          rcases List.mem_cons.mp hc with hc | hc
          · exact absurd hc (by decide)
          · rcases List.mem_cons.mp hc with hc | hc
            · rcases hx with rfl | rfl <;> exact absurd hc (by decide)
            · exact hdigit (Nat.le_refl _) hds hc

/-- The literals that a text begins with are those of its C string. -/
theorem IsLiteral.prefix_cstr (h : IsLiteral pre v) (hpre : pre <+: s) :
    ∃ t, cstr s = pre ++ t := by
  obtain ⟨t, rfl⟩ := hpre
  exact ⟨cstr t, cstr_append h.ne_nul⟩

/-- **The readers take the longest literal.** -/
theorem denotes_of_scan (h : scanInteger 0 (cstr s) = some (v, rest)) : Denotes s v := by
  obtain ⟨pre, htext, hliteral⟩ := isLiteral_of_scan h
  have hpre : pre <+: s := (List.prefix_append pre rest).trans (htext ▸ List.takeWhile_prefix _)
  refine ⟨pre, hpre, hliteral, ?_⟩
  intro pre' v' hpre' hliteral'
  obtain ⟨t, ht⟩ := hliteral'.prefix_cstr hpre'
  obtain ⟨v'', rest', hscan, hlen⟩ := scan_of_isLiteral hliteral' t
  rw [← ht, h] at hscan
  obtain ⟨-, rfl⟩ := Prod.mk.inj (Option.some.inj hscan)
  have hsum := congrArg List.length (htext.symm.trans ht)
  rw [List.length_append, List.length_append] at hsum
  omega

/-- A literal has one value. -/
theorem IsLiteral.scan (h : IsLiteral pre v) : ∃ rest, scanInteger 0 pre = some (v, rest) := by
  obtain ⟨ws, sg, negative, body, m, rfl, hws, hsg, hm, rfl⟩ := h
  have hvalue := hm.literalValue
  obtain ⟨d, ds, rfl, hd⟩ := hm.head
  exact scanInteger_zero.mpr ⟨ws, sg, negative, d, ds, rfl, hws, hsg, hd, by rw [hvalue]⟩

theorem scan_of_denotes (h : Denotes s v) : ∃ rest, scanInteger 0 (cstr s) = some (v, rest) := by
  obtain ⟨pre, hpre, hliteral, hlongest⟩ := h
  obtain ⟨t, ht⟩ := hliteral.prefix_cstr hpre
  obtain ⟨v', rest, hscan, -⟩ := scan_of_isLiteral hliteral t
  rw [← ht] at hscan
  obtain ⟨pre', hpre', hliteral', hlongest'⟩ := denotes_of_scan hscan
  -- both are the longest, so they are the same
  have hsame : pre' = pre := by
    have hle := hlongest pre' v' hpre' hliteral'
    have hge := hlongest' pre v hpre hliteral
    exact (List.prefix_of_prefix_length_le hpre' hpre hle).eq_of_length (Nat.le_antisymm hle hge)
  subst hsame
  obtain ⟨r, hr⟩ := hliteral.scan
  obtain ⟨r', hr'⟩ := hliteral'.scan
  rw [hr] at hr'
  obtain ⟨rfl, -⟩ := Prod.mk.inj (Option.some.inj hr')
  exact ⟨rest, hscan⟩

theorem scan_none_iff : scanInteger 0 (cstr s) = none ↔ ¬ ∃ v, Denotes s v := by
  constructor
  · rintro hnone ⟨v, h⟩
    obtain ⟨rest, hscan⟩ := scan_of_denotes h
    rw [hnone] at hscan
    cases hscan
  · intro h
    cases hscan : scanInteger 0 (cstr s) with
    | none => rfl
    | some r => exact absurd ⟨r.1, denotes_of_scan hscan⟩ h

end
end KssUtil.Libc

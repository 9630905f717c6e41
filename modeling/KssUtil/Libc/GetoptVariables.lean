import KssUtil.Libc.Getopt

/-!
# The variables of `getopt`

What a call of `getopt_long_only` leaves in the static variables.
-/

namespace KssUtil.Libc

open KssUtil.Foundation

namespace Getopt

/-- What holds between two calls, whatever command lines have been read. -/
structure Placed (g : Getopt) : Prop where
  optind : 1 ≤ g.optind
  firstNonopt : g.initialized = true → 1 ≤ g.firstNonopt
  lastNonopt : g.initialized = true → 1 ≤ g.lastNonopt

/-- An option has been read: its code is not the one for the end of the options, and
the scan has not gone back. -/
structure Reads (g : Getopt) (a : Answer) : Prop where
  code : 0 ≤ a.code
  optind : g.optind ≤ a.vars.optind
  initialized : a.vars.initialized = g.initialized
  firstNonopt : a.vars.firstNonopt = g.firstNonopt
  lastNonopt : a.vars.lastNonopt = g.lastNonopt

theorem Reads.placed {g : Getopt} {a : Answer} (h : Reads g a) (hg : Placed g) : Placed a.vars := by
  constructor
  · exact hg.optind.trans h.optind
  · rw [h.initialized, h.firstNonopt]
    exact hg.firstNonopt
  · rw [h.initialized, h.lastNonopt]
    exact hg.lastNonopt

end Getopt

theorem unknownCode_nonneg : 0 ≤ unknownCode := by decide

theorem missingCode_nonneg (optstring : List Char) : 0 ≤ missingCode optstring := by
  unfold missingCode
  split <;> decide

section

variable {argv : List (List Char)} {optstring : List Char} {longopts : List LongOption} {g : Getopt}

theorem foundLong_reads {p : LongOption} (hp : 0 ≤ p.val) (i : ℕ) (nameend : List Char) :
    g.Reads (foundLong argv optstring p i nameend g) := by
  have hnext : g.optind ≤ g.optind + 1 := Nat.le_succ _
  unfold foundLong
  dsimp only
  cases nameend with
  | cons c value =>
      dsimp only
      split
      · exact ⟨unknownCode_nonneg, hnext, rfl, rfl, rfl⟩
      · exact ⟨hp, hnext, rfl, rfl, rfl⟩
  | nil =>
      dsimp only
      split
      · split
        · exact ⟨hp, hnext.trans (Nat.le_succ _), rfl, rfl, rfl⟩
        · exact ⟨missingCode_nonneg _, hnext, rfl, rfl, rfl⟩
      · exact ⟨hp, hnext, rfl, rfl, rfl⟩

theorem processLongOption_reads {longOnly : Bool} {a : Answer} (hval : ∀ p ∈ longopts, 0 ≤ p.val)
    (h : processLongOption argv optstring longopts longOnly g = some a) : g.Reads a := by
  have hfailed : g.Reads
      { code := unknownCode, vars := { g with optind := g.optind + 1, nextchar := [] } } :=
    ⟨unknownCode_nonneg, Nat.le_succ _, rfl, rfl, rfl⟩
  unfold processLongOption at h
  dsimp only at h
  split at h
  · rename_i p i hmatch
    rw [← Option.some.inj h]
    exact foundLong_reads (hval p (List.mem_of_getElem? (matchLong_found hmatch))) i _
  · rw [← Option.some.inj h]
    exact hfailed
  · split at h
    · rw [← Option.some.inj h]
      exact hfailed
    · cases h

/-- Only what begins with one dash can be read as short options. -/
theorem processLongOption_some (argv : List (List Char)) (optstring : List Char)
    (longopts : List LongOption) (longOnly : Bool) (g : Getopt)
    (hdash : longOnly = false ∨ (argv.getD g.optind []).getD 1 nul = '-') :
    ∃ a, processLongOption argv optstring longopts longOnly g = some a := by
  have hlong : ¬longOnly = true ∨ (argv.getD g.optind []).getD 1 nul = '-' ∨
      ¬strchr optstring (g.nextchar.headD nul) = true := by
    rcases hdash with rfl | hdash
    · exact Or.inl Bool.false_ne_true
    · exact Or.inr (Or.inl hdash)
  unfold processLongOption
  dsimp only
  split
  · exact ⟨_, rfl⟩
  · exact ⟨_, rfl⟩
  · rw [if_pos hlong]
    exact ⟨_, rfl⟩

theorem code_nonneg (c : Char) : (0 : ℤ) ≤ c.toNat := Int.natCast_nonneg _

theorem shortArgument_reads (c : Char) (optional : Bool) :
    g.Reads (shortArgument argv optstring c optional g) := by
  unfold shortArgument
  split
  · exact ⟨code_nonneg c, Nat.le_succ _, rfl, rfl, rfl⟩
  · split
    · exact ⟨code_nonneg c, Nat.le_refl _, rfl, rfl, rfl⟩
    · split
      · exact ⟨missingCode_nonneg _, Nat.le_refl _, rfl, rfl, rfl⟩
      · exact ⟨code_nonneg c, Nat.le_succ _, rfl, rfl, rfl⟩

theorem dashW_reads (hval : ∀ p ∈ longopts, 0 ≤ p.val) :
    g.Reads (dashW argv optstring longopts g) := by
  unfold dashW
  split
  · exact ⟨missingCode_nonneg _, Nat.le_refl _, rfl, rfl, rfl⟩
  · dsimp only
    obtain ⟨a, ha⟩ := processLongOption_some argv optstring longopts false
      { g with nextchar := if g.nextchar = [] then argv.getD g.optind [] else g.nextchar,
               optarg := none } (Or.inl rfl)
    rw [ha]
    obtain ⟨hcode, hoptind, hinit, hfirst, hlast⟩ := processLongOption_reads hval ha
    exact ⟨hcode, hoptind, hinit, hfirst, hlast⟩

theorem processShortOption_reads (argv : List (List Char)) (optstring : List Char)
    (g : Getopt) (hval : ∀ p ∈ longopts, 0 ≤ p.val) :
    g.Reads (processShortOption argv optstring longopts g) := by
  have hnext : g.optind ≤ if g.nextchar.tail = [] then g.optind + 1 else g.optind := by
    split
    · exact Nat.le_succ _
    · exact Nat.le_refl _
  unfold processShortOption
  dsimp only
  split
  · exact ⟨unknownCode_nonneg, hnext, rfl, rfl, rfl⟩
  · split
    · obtain ⟨hcode, hoptind, hinit, hfirst, hlast⟩ := dashW_reads hval
      exact ⟨hcode, hnext.trans hoptind, hinit, hfirst, hlast⟩
    · split
      · obtain ⟨hcode, hoptind, hinit, hfirst, hlast⟩ := shortArgument_reads _ _
        exact ⟨hcode, hnext.trans hoptind, hinit, hfirst, hlast⟩
      · exact ⟨code_nonneg _, hnext, rfl, rfl, rfl⟩

theorem optionElement_reads (argv : List (List Char)) (optstring : List Char) (g : Getopt)
    (hval : ∀ p ∈ longopts, 0 ≤ p.val) : g.Reads (optionElement argv optstring longopts g) := by
  unfold optionElement
  dsimp only
  split
  · rename_i hdash
    obtain ⟨a, ha⟩ := processLongOption_some argv optstring longopts true
      { g with nextchar := (argv.getD g.optind []).drop 2 } (Or.inr hdash)
    rw [ha]
    obtain ⟨hcode, hoptind, hinit, hfirst, hlast⟩ := processLongOption_reads hval ha
    exact ⟨hcode, hoptind, hinit, hfirst, hlast⟩
  · obtain ⟨hcode, hoptind, hinit, hfirst, hlast⟩ := processShortOption_reads argv optstring
      { g with nextchar := (argv.getD g.optind []).drop 1 } hval
    split
    · cases hlong : processLongOption argv optstring longopts true
        { g with nextchar := (argv.getD g.optind []).drop 1 } with
      | none => exact ⟨hcode, hoptind, hinit, hfirst, hlast⟩
      | some a =>
          obtain ⟨hcode, hoptind, hinit, hfirst, hlast⟩ := processLongOption_reads hval hlong
          exact ⟨hcode, hoptind, hinit, hfirst, hlast⟩
    · exact ⟨hcode, hoptind, hinit, hfirst, hlast⟩

/-! ## Elements -/

/-- The scan has begun. -/
structure Getopt.Begun (g : Getopt) : Prop where
  initialized : g.initialized = true
  optind : 1 ≤ g.optind
  firstNonopt : 1 ≤ g.firstNonopt
  lastNonopt : 1 ≤ g.lastNonopt

theorem Getopt.Begun.placed (h : g.Begun) : g.Placed :=
  ⟨h.optind, fun _ => h.firstNonopt, fun _ => h.lastNonopt⟩

theorem exchange_begun (argv : List (List Char)) (h : g.Begun) : (exchange argv g).2.Begun := by
  constructor
  · exact h.initialized
  · exact h.optind
  · exact h.firstNonopt.trans (Nat.le_add_right _ _)
  · exact h.optind

theorem settle_begun (argv : List (List Char)) (h : g.Begun) :
    (settle argv g).2.Begun ∧ (settle argv g).2.nextchar = g.nextchar := by
  have hclipped : Getopt.Begun { g with lastNonopt := min g.lastNonopt g.optind,
                                        firstNonopt := min g.firstNonopt g.optind } :=
    ⟨h.initialized, h.optind, Nat.le_min.mpr ⟨h.firstNonopt, h.optind⟩,
      Nat.le_min.mpr ⟨h.lastNonopt, h.optind⟩⟩
  -- the elements that are skipped only move `optind` on
  have hskip : ∀ {g' : Getopt}, g'.Begun → ∀ n,
      Getopt.Begun { g' with optind := g'.optind + n, lastNonopt := g'.optind + n } := by
    intro g' h' n
    have hoptind := h'.optind.trans (Nat.le_add_right g'.optind n)
    exact ⟨h'.initialized, hoptind, h'.firstNonopt, hoptind⟩
  unfold settle
  dsimp only
  split
  · split
    · exact ⟨hskip (exchange_begun argv hclipped) _, rfl⟩
    · split
      · refine ⟨hskip ?_ _, rfl⟩
        exact ⟨h.initialized, h.optind, h.optind, hclipped.lastNonopt⟩
      · exact ⟨hskip hclipped _, rfl⟩
  · exact ⟨hclipped, rfl⟩

theorem endMarker_begun (argv : List (List Char)) (h : g.Begun) :
    (endMarker argv g).2.Begun ∧ (endMarker argv g).2.nextchar = g.nextchar := by
  have hnext : Getopt.Begun { g with optind := g.optind + 1 } :=
    ⟨h.initialized, Nat.le_add_left 1 _, h.firstNonopt, h.lastNonopt⟩
  unfold endMarker
  split
  · rename_i hmarker
    have hlength : 1 ≤ argv.length :=
      h.optind.trans (Nat.le_of_lt (List.getElem?_eq_some_iff.mp hmarker).1)
    dsimp only
    split
    · exact ⟨⟨h.initialized, hlength, (exchange_begun argv hnext).firstNonopt, hlength⟩, rfl⟩
    · split
      · exact ⟨⟨h.initialized, hlength, hnext.optind, hlength⟩, rfl⟩
      · exact ⟨⟨h.initialized, hlength, h.firstNonopt, hlength⟩, rfl⟩
  · exact ⟨h, rfl⟩

/-- At the end of the options no element is half read. -/
theorem nextElement_placed (argv : List (List Char)) (optstring : List Char)
    (hval : ∀ p ∈ longopts, 0 ≤ p.val) (h : g.Begun) (hnext : g.nextchar = []) :
    (nextElement argv optstring longopts g).2.vars.Placed ∧
      ((nextElement argv optstring longopts g).2.code = -1 →
        (nextElement argv optstring longopts g).2.vars.nextchar = []) := by
  obtain ⟨hsettled, hsame⟩ := settle_begun argv h
  obtain ⟨hmarked, hsame'⟩ := endMarker_begun (settle argv g).1 hsettled
  have hnil := hsame'.trans (hsame.trans hnext)
  unfold nextElement
  dsimp only
  split
  · -- the end of the options: `optind` goes back to the elements that are none
    refine ⟨⟨?_, fun _ => hmarked.firstNonopt, fun _ => hmarked.lastNonopt⟩, fun _ => hnil⟩
    dsimp only
    split
    · exact hmarked.firstNonopt
    · exact hmarked.optind
  · split
    · split
      · exact ⟨hmarked.placed, fun _ => hnil⟩
      · exact ⟨⟨Nat.le_add_left 1 _, fun _ => hmarked.firstNonopt, fun _ => hmarked.lastNonopt⟩,
          fun _ => hnil⟩
    · have hreads := optionElement_reads (endMarker (settle argv g).1 (settle argv g).2).1
        optstring (endMarker (settle argv g).1 (settle argv g).2).2 hval
      refine ⟨hreads.placed hmarked.placed, ?_⟩
      intro hcode
      have hnonneg := hreads.code
      rw [hcode] at hnonneg
      exact absurd hnonneg (by decide)

/-! ## Calls -/

theorem beginCall_begun (posixlyCorrect : Bool) (optstring : List Char) (h : g.Placed) :
    (beginCall posixlyCorrect optstring g).Begun := by
  unfold beginCall
  split
  · dsimp only
    rw [if_neg (Nat.one_le_iff_ne_zero.mp h.optind)]
    exact ⟨rfl, h.optind, h.optind, h.optind⟩
  · rename_i hbegun
    have hinit : g.initialized = true := not_not.mp (not_or.mp hbegun).2
    exact ⟨hinit, h.optind, h.firstNonopt hinit, h.lastNonopt hinit⟩

theorem getoptLongOnly_placed (posixlyCorrect : Bool) (argv : List (List Char))
    (optstring : List Char) (hval : ∀ p ∈ longopts, 0 ≤ p.val) (h : g.Placed) :
    (getoptLongOnly posixlyCorrect argv optstring longopts g).2.vars.Placed ∧
      ((getoptLongOnly posixlyCorrect argv optstring longopts g).2.code = -1 →
        (getoptLongOnly posixlyCorrect argv optstring longopts g).2.vars.nextchar = []) := by
  have hbegun := beginCall_begun posixlyCorrect optstring h
  unfold getoptLongOnly
  dsimp only
  split
  · rename_i hnext
    exact nextElement_placed argv _ hval hbegun hnext
  · have hreads := processShortOption_reads argv (optionChars optstring)
      (beginCall posixlyCorrect optstring g) hval
    refine ⟨hreads.placed hbegun.placed, ?_⟩
    intro hcode
    have hnonneg := hreads.code
    rw [hcode] at hnonneg
    exact absurd hnonneg (by decide)

end
end KssUtil.Libc

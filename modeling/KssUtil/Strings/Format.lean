import KssUtil.Strings.Affixes
import KssUtil.Strings.ConvertInteger

/-!
# Formatting (stringutil.cpp)

`vformat` prints into a buffer of a likely size, and once more into a larger one if that was
too short.  What `printf` makes of the pattern and the arguments is given as the whole output.
-/

namespace KssUtil.Strings

open KssUtil.Libc
open KssUtil.Strings.Integer (intMax)

/-- What `vsnprintf(buffer, n, …)` leaves in the buffer, and what it returns.  The length of a
longer output is no `int`, which is an error. -/
def vsnprintf (buffer : List Char) (n : ℕ) (output : List Char) : List Char × ℤ :=
  let written := output.take (n - 1) ++ [nul]
  (if n = 0 then buffer else written ++ buffer.drop written.length,
    if output.length ≤ intMax then output.length else -1)

/-- `vformat(pattern, ap)`; `output` is all that the pattern gives for the arguments. -/
def vformat (pattern output : List Char) : Except Exn (List Char) :=
  if pattern.isEmpty then throw .invalidArgument
  else
    let maxlen := pattern.length + 1024
    let r := vsnprintf (List.replicate maxlen nul) maxlen output
    if r.2 < 0 then throw .systemError
    else if r.2.toNat ≥ maxlen then
      let maxlen := r.2.toNat + 1
      let buffer := r.1 ++ List.replicate (maxlen - r.1.length) nul
      return cstr (vsnprintf buffer maxlen output).1
    else return cstr r.1

/-- `format(pattern, ...)` -/
def format (pattern output : List Char) : Except Exn (List Char) := vformat pattern output

section

variable {pattern output buffer : List Char} {n : ℕ}

/-- The C string at the terminator is the one of the output. -/
theorem cstr_terminated (output rest : List Char) : cstr (output ++ nul :: rest) = cstr output := by
  by_cases h : nul ∈ output
  · conv_lhs => rw [eq_cstr_append h]
    rw [List.append_assoc, List.cons_append, cstr_append_nul ne_nul_of_mem_cstr]
  · rw [cstr_append_nul fun c hc heq => h (heq ▸ hc), cstr_of_not_mem h]

theorem cstr_eq_self_iff : cstr output = output ↔ nul ∉ output := by
  constructor
  · intro h hmem
    exact ne_nul_of_mem_cstr nul (h.symm ▸ hmem) rfl
  · exact cstr_of_not_mem

/-- A buffer with room for the terminator holds the whole output. -/
theorem cstr_vsnprintf (h : output.length < n) :
    cstr (vsnprintf buffer n output).1 = cstr output := by
  have htake : output.take (n - 1) = output := List.take_of_length_le (Nat.le_sub_one_of_lt h)
  unfold vsnprintf
  dsimp only
  rw [if_neg (Nat.ne_of_gt (Nat.zero_lt_of_lt h)), htake, List.append_assoc,
    List.singleton_append, cstr_terminated]

theorem vsnprintf_of_le (h : output.length ≤ intMax) :
    (vsnprintf buffer n output).2 = output.length := if_pos h

theorem vsnprintf_of_lt (h : ¬ output.length ≤ intMax) : (vsnprintf buffer n output).2 = -1 :=
  if_neg h

/-- Both passes come to the same result: the output up to its first NUL. -/
theorem vformat_eq (hpattern : pattern ≠ []) :
    vformat pattern output =
      if output.length ≤ intMax then .ok (cstr output) else .error .systemError := by
  rw [vformat, if_neg fun h => hpattern (List.isEmpty_iff.mp h)]
  dsimp only
  by_cases hlen : output.length ≤ intMax
  · rw [vsnprintf_of_le hlen, if_neg (Int.not_lt.mpr (Int.natCast_nonneg _)), if_pos hlen,
      Int.toNat_natCast]
    split
    · rw [cstr_vsnprintf (Nat.lt_succ_self _)]
      rfl
    · rename_i hfits
      rw [cstr_vsnprintf (Nat.lt_of_not_le hfits)]
      rfl
  · rw [vsnprintf_of_lt hlen, if_neg hlen]
    rfl

end

/-- **The formatted text.**  The output is returned as it is if and only if no NUL is in it,
as long as its length is an `int`. -/
theorem vformat_eq_output_iff {pattern : List Char} (hpattern : pattern ≠ [])
    (output : List Char) :
    vformat pattern output = .ok output ↔ nul ∉ output ∧ output.length ≤ intMax := by
  rw [vformat_eq hpattern]
  split
  · rename_i hlen
    rw [Except.ok.injEq, cstr_eq_self_iff, and_iff_left hlen]
  · rename_i hlen
    exact iff_of_false (fun h => by cases h) fun h => hlen h.2

theorem vformat_eq_output_text :
    vformat ['%', 's'] ['a', 'b'] = .ok ['a', 'b'] ↔
      nul ∉ ['a', 'b'] ∧ ((['a', 'b'] : List Char).length : ℤ) ≤ intMax :=
  vformat_eq_output_iff (by decide) ['a', 'b']

/-- The pattern `%c` with the character 0 gives the empty string. -/
theorem vformat_nul : vformat ['%', 'c'] [nul] ≠ .ok [nul] := by
  rw [vformat_eq (by decide)]
  decide

end KssUtil.Strings

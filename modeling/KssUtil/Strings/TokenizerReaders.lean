import KssUtil.Iterators.SharedContainer
import KssUtil.Strings.Tokenizer

/-!
# Readers of tokenizers (tokenizer.hpp)

Calls of `next` and iterators on the same tokenizers, in any order.
-/

namespace KssUtil.Strings

open KssUtil.Foundation KssUtil.Iterators KssUtil.Libc

namespace Tokenizer

/-- A tokenizer hands out its pieces. -/
theorem yields_tokens : container.Yields Valid tokens where
  hasAnother t _ := hasAnother_iff t
  next t hvalid h := by
    obtain ⟨t', token, hnext, hvalid', htokens⟩ := next_tokens hvalid h
    exact ⟨t', token, hnext, hvalid', htokens⟩
  refuses t h := by
    refine ⟨.aborted, ?_⟩
    show t.next = _
    unfold next
    rw [if_pos]
    · rfl
    · rw [show t.hasAnother = false from h]
      exact Bool.false_ne_true

theorem start_shared {tokenizer : ℕ → Tokenizer} (hvalid : ∀ a, (tokenizer a).Valid)
    (moved : List Char → List Char) :
    (Readers.start tokenizer).Shared Valid tokens moved fun a => (tokenizer a).tokens :=
  ⟨hvalid, fun _ => rfl, fun _ hit => absurd hit List.not_mem_nil⟩

/-- **No token is lost or read twice.**  However the calls of `next` and the iterators on any
number of tokenizers take turns, what has been read from a tokenizer and what is left are the
pieces of its text; an iterator that is not at its end has a token of its tokenizer; and the
program ends only where an end is incremented, or an exhausted tokenizer read. -/
theorem tokens_shared (moved : List Char → List Char) {text : ℕ → StdString}
    {delim : ℕ → List Char} {first last : ℕ → ℕ} {tokenizer : ℕ → Tokenizer}
    (hconstruct : ∀ a, construct (text a) (delim a) (first a) (last a) = .ok (tokenizer a))
    {s : Readers Tokenizer (List Char)}
    (hrun : Interleaves (Readers.step container moved) (Readers.start tokenizer) s) :
    (∀ a, (s.container a).2 ++ (s.container a).1.tokens =
      pieces (text a) (delim a) (first a) (last a)) ∧
    (∀ it ∈ s.iterators, ∀ a, it.cont = some a → Readers.Seen moved (s.container a).2 it.value) ∧
    ∀ use, (s.step container moved use).isSome = true ↔ s.Allowed container use := by
  have hstart : ∀ a, (tokenizer a).Valid ∧
      (tokenizer a).tokens = pieces (text a) (delim a) (first a) (last a) := by
    intro a
    have hdelim : delim a ≠ [] := by
      intro hnil
      have hthrows := hconstruct a
      rw [hnil] at hthrows
      cases hthrows
    obtain ⟨t, ht, hvalid, htokens⟩ := construct_tokens (text a) hdelim (first a) (last a)
    rw [hconstruct a] at ht
    obtain rfl := Except.ok.inj ht
    exact ⟨hvalid, htokens⟩
  have hshared : s.Shared Valid tokens moved fun a => (tokenizer a).tokens :=
    hrun.invariant (start_shared (fun a => (hstart a).1) moved)
      fun _ _ _ h hstep => h.step yields_tokens hstep
  refine ⟨fun a => ?_, hshared.seen, fun use => Readers.isSome_step_iff yields_tokens hshared use⟩
  rw [hshared.items a]
  exact (hstart a).2

/-- `a,b,,c`, at every address -/
def letters : StdString := ⟨"a,b,,c".toList, by decide⟩

def letterTokenizer : Tokenizer := ⟨letters, [','], 0, 6⟩

/-- Two iterators on one tokenizer and a call of `next` between them. -/
def letterUses : List Use :=
  [.begin 0, .copy 0, .increment 1, .next 0, .postIncrement 0, .begin 1, .swap 0 3, .increment 1]

def letterReaders : Readers Tokenizer (List Char) :=
  (runSchedule (Readers.step container id) letterUses
    (Readers.start fun _ => letterTokenizer)).getD (Readers.start fun _ => letterTokenizer)

theorem tokens_shared_letters :
    (∀ a, (letterReaders.container a).2 ++ (letterReaders.container a).1.tokens =
      pieces letters [','] 0 npos) ∧
    (∀ it ∈ letterReaders.iterators, ∀ a, it.cont = some a →
      Readers.Seen id (letterReaders.container a).2 it.value) ∧
    ∀ use, (letterReaders.step container id use).isSome = true ↔
      letterReaders.Allowed container use :=
  @tokens_shared id (fun _ => letters) (fun _ => [',']) (fun _ => 0) (fun _ => npos)
    (fun _ => letterTokenizer) (fun _ => rfl) letterReaders ⟨letterUses, rfl⟩

end Tokenizer
end KssUtil.Strings

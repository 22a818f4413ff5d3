import ClassLang.Proofs.Token.Reads

/-!
Which tokens a line can hold: no marks, no reserved word as a name, no number below zero and no
character that is no token by itself. A line with content holds at least one.
-/

namespace ClassLang

open Lexeme

/-- Holds of the kinds of tokens that a line can hold. -/
def Kind.IsLexeme : Kind → Prop
  | .keyword _ | .string _ | .equal | .notEqual | .lessOrEqual | .greaterOrEqual => True
  | .number n => 0 ≤ n.toInt
  | .word name => isWordText name.toList = true ∧ Keyword.ofText? name = none
  | .symbol c => c ∈ symbols
  | .comment | .newline | .indent | .dedent | .eof => False

instance : DecidablePred Kind.IsLexeme
  | .keyword _ | .string _ | .equal | .notEqual | .lessOrEqual | .greaterOrEqual => .isTrue trivial
  | .number n => inferInstanceAs (Decidable (0 ≤ n.toInt))
  | .word name =>
    inferInstanceAs (Decidable (isWordText name.toList = true ∧ Keyword.ofText? name = none))
  | .symbol c => inferInstanceAs (Decidable (c ∈ symbols))
  | .comment | .newline | .indent | .dedent | .eof => .isFalse id

namespace Lexeme

variable {cs : List Char} {k : Kind}

theorem Denotes.isLexeme (h : Denotes cs k) : k.IsLexeme := by
  cases h with
  | keyword => trivial
  | word hw hfree =>
    refine ⟨?_, ofText?_eq_none hfree⟩
    rw [String.toList_ofList]
    exact hw
  | number _ hvalue =>
    rw [Kind.IsLexeme, hvalue]
    exact Int.natCast_nonneg _
  | string => trivial
  | double hk => cases hk <;> trivial
  | symbol hc => exact hc

end Lexeme

namespace Line

/-- What is read can be on a line. -/
theorem Reads.isLexeme {number column : Nat} {cs : List Char} {ts : List Token}
    (h : Reads number column cs ts) : ∀ t ∈ ts, t.kind.IsLexeme :=
  fun _ ht => (h.token_of_mem ht).1.isLexeme

/-- A line with content, as it is read. -/
structure WellFormed (l : Line) : Prop where
  tokens_ne_nil : l.tokens ≠ []
  isLexeme : ∀ t ∈ l.tokens, t.kind.IsLexeme

theorem wellFormed_of_read {number : Nat} {text : List Char} {l : Line}
    (h : Line.read number text = .ok (some l)) : l.WellFormed := by
  obtain ⟨hbare, -, ts, hts, rfl⟩ := read_eq_some_iff.1 h
  refine ⟨?_, (reads_of_read h).1.isLexeme⟩
  rintro rfl
  rw [isBare, (scan_eq_ok_iff.1 hts).isIdle] at hbare
  cases hbare

end Line

end ClassLang

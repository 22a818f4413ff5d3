import ClassLang.Proofs.Grammar.Complete.Statement
import ClassLang.Proofs.Grammar.Sound.Statement
import ClassLang.Proofs.Token.Layout

/-!
A source text is read as a program exactly where the tokens of its lines spell that program.
-/

namespace ClassLang.Program

open Grammar Token

variable {classes : ClassTable} {ls : List Line} {last : Nat} {p : Program}

theorem spellsProgram_of_lines (h : ∀ l ∈ ls, l.WellFormed) :
    program ⟨last, 0⟩ classes (laidOut last 0 ls) = .ok p ↔
      SpellsProgram classes (laidOut last 0 ls) p.statements p.classes := by
  constructor
  · exact spellsProgram_of_program _ classes _ (laid_laidOut h) (lexed_laidOut h)
      (head_laidOut_ne_newline h)
  · exact program_of_spells _

theorem ofSource_eq_ok {source : String} :
    ofSource classes source = .ok p ↔
      ∃ ls, readLines 1 (Text.sourceLines source.toList) = .ok ls ∧
        SpellsProgram classes (laidOut (Text.sourceLines source.toList).length 0 ls)
          p.statements p.classes := by
  rw [ofSource, bind_eq_ok]
  constructor
  · rintro ⟨ts, hts, h⟩
    obtain ⟨ls, hls, rfl⟩ := Token.ofSource_eq_ok.1 hts
    have hwell := wellFormed_of_readLines hls
    rw [ofTokens_layout classes hwell] at h
    exact ⟨ls, hls, (spellsProgram_of_lines hwell).1 h⟩
  · rintro ⟨ls, hls, h⟩
    have hwell := wellFormed_of_readLines hls
    refine ⟨_, Token.ofSource_eq_ok.2 ⟨ls, hls, rfl⟩, ?_⟩
    rw [ofTokens_layout classes hwell]
    exact (spellsProgram_of_lines hwell).2 h

end ClassLang.Program

import ClassLang.Proofs.Excerpt
import ClassLang.Proofs.Grammar.Faults

/-!
The excerpts of sources that are refused. The reading of a source fails at a line with content or at
its last line, where the dedents and the end of the file stand. The lines that a report shows do not
count an empty part at the end of a source, so a failure there comes without an excerpt.
-/

namespace ClassLang

/-- Holds of the numbers of the texts with content and of the last one. -/
def Text.HasContentOrEnds (texts : List (List Char)) (line : Nat) : Prop :=
  Text.HasContent texts line ∨ line = texts.length

namespace Program

open Grammar Token Text

variable {classes : ClassTable} {source : String} {e : Error}

/-- A source is refused at a line with content or at its last line. -/
theorem failsOn_ofSource (classes : ClassTable) (source : String) :
    FailsOn (HasContentOrEnds (sourceLines source.toList)) (ofSource classes source) := by
  have hlines : FailsOn (HasContentOrEnds (sourceLines source.toList)) (Token.ofSource source) := by
    refine Token.failsOn_ofSource fun i text hi hbare => .inl ?_
    exact ⟨i, text, Nat.add_comm 1 i, hi, hbare⟩
  refine hlines.bind fun ts hts => ?_
  obtain ⟨ls, hls, rfl⟩ := Token.ofSource_eq_ok.1 hts
  rw [ofTokens_layout classes (wellFormed_of_readLines hls)]
  refine failsOn_program (.inr rfl) classes fun t ht => ?_
  exact (hasContent_of_mem_laidOut hls ht).imp_right And.right

/-- Every failure to read a source belongs to one of its lines, either a line with content or the
last one. Its excerpt shows this line between the lines next to it, save for one case. Where the
source is empty or ends with a line feed, its last line is empty and has no excerpt. -/
theorem excerpt_of_ofSource (h : ofSource classes source = .error e) :
    ∃ i part, e.line? = some (i + 1) ∧ (splitOn '\n' source.toList)[i]? = some part ∧
      (Line.isBare (dropReturn part) = false ∨
        i + 1 = (splitOn '\n' source.toList).length) ∧
      ((∃ text, (part = text ∨ part = text ++ ['\r']) ∧ Excerpt.Shows source i text) ∨
        part = [] ∧ i + 1 = (splitOn '\n' source.toList).length ∧
          Excerpt.around source (i + 1) = "") := by
  obtain ⟨-, line, hline, hwhere⟩ := failsOn_ofSource classes source e h
  have hlength : (sourceLines source.toList).length = (splitOn '\n' source.toList).length :=
    List.length_map ..
  have hpart : ∃ i part, line = i + 1 ∧ (splitOn '\n' source.toList)[i]? = some part ∧
      (Line.isBare (dropReturn part) = false ∨
        i + 1 = (splitOn '\n' source.toList).length) := by
    obtain ⟨i, text, hi, htext, hbare⟩ | hlast := hwhere
    · rw [sourceLines, List.getElem?_map, Option.map_eq_some_iff] at htext
      obtain ⟨part, hpart, rfl⟩ := htext
      exact ⟨i, part, hi, hpart, .inl hbare⟩
    · have hsome : (splitOn '\n' source.toList).getLast?.isSome = true :=
        List.getLast?_isSome.2 (splitOn_ne_nil _ _)
      obtain ⟨part, hpart⟩ := Option.isSome_iff_exists.1 hsome
      rw [List.getLast?_eq_getElem?] at hpart
      have hpos := List.length_pos_iff.2 (splitOn_ne_nil '\n' source.toList)
      exact ⟨_, part, by omega, hpart, .inr (by omega)⟩
  obtain ⟨i, part, rfl, hpart, hcontent⟩ := hpart
  refine ⟨i, part, hline, hpart, hcontent, ?_⟩
  obtain ⟨text, htext, heq⟩ | ⟨hempty, hlast, hnone⟩ := getElem?_lines_of_part hpart
  · refine .inl ⟨text, ?_, Excerpt.shows_of_line htext⟩
    obtain rfl | rfl := heq
    · exact eq_dropReturn_or part
    · exact .inl rfl
  · exact .inr ⟨hempty, hlast, Excerpt.around_eq_empty hnone⟩

/-- A block that is opened and left out at the end of the source. -/
def openSource : String := "if True:\n"

theorem excerpt_of_openSource : ∃ e, ofSource .empty openSource = .error e ∧
    ∃ i part, e.line? = some (i + 1) ∧ (splitOn '\n' openSource.toList)[i]? = some part ∧
      (Line.isBare (dropReturn part) = false ∨
        i + 1 = (splitOn '\n' openSource.toList).length) ∧
      ((∃ text, (part = text ∨ part = text ++ ['\r']) ∧ Excerpt.Shows openSource i text) ∨
        part = [] ∧ i + 1 = (splitOn '\n' openSource.toList).length ∧
          Excerpt.around openSource (i + 1) = "") := by
  have hfails : (ofSource .empty openSource).isOk = false := by decide +kernel
  cases h : ofSource .empty openSource with
  | error e => exact ⟨e, rfl, excerpt_of_ofSource h⟩
  | ok p =>
    rw [h] at hfails
    cases hfails

/-- Not every failure to read a source has an excerpt that shows its line. -/
theorem not_forall_ofSource_shows : ¬ ∀ source e line, ofSource .empty source = .error e →
    e.line? = some line → Excerpt.around source line ≠ "" ∧
      ∃ i text, line = i + 1 ∧ Excerpt.Shows source i text := by
  intro hall
  have hfails : (match ofSource .empty openSource with
      | .ok _ => none
      | .error e => e.line?) = some 2 := by
    decide +kernel
  split at hfails
  · cases hfails
  · rename_i e he
    exact (hall openSource e 2 he hfails).1 (by decide +kernel)

end Program

end ClassLang

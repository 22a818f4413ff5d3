import ClassLang.Error.Excerpt
import ClassLang.Proofs.Text.Lines
import ClassLang.Proofs.Writing.Text

/-!
What an excerpt shows. It is empty unless it shows its line: marked, with its number, between the
lines next to it.
-/

namespace ClassLang.Excerpt

open Text

/-- A row of an excerpt, without the end of its line. -/
def shown (mark : String) (number : Nat) (text : List Char) : List Char :=
  (mark ++ " " ++ toString number ++ " | ").toList ++ text

theorem shown_eq (mark : String) (number : Nat) (text : List Char) :
    shown mark number text =
      mark.toList ++ ' ' :: ((toString number).toList ++ " | ".toList ++ text) := by
  simp [shown]

theorem toList_row (mark : String) (number : Nat) (text : List Char) :
    (row mark number text).toList = shown mark number text ++ ['\n'] := by
  simp only [row, shown, String.toList_append, String.toList_ofList, toString]
  rfl

variable {source : String} {i : Nat} {text : List Char}

theorem not_mem_shown {mark : String} (hmark : '\n' ∉ mark.toList) (number : Nat)
    (htext : '\n' ∉ text) : '\n' ∉ shown mark number text := by
  have hnumber : '\n' ∉ (toString number).toList := by
    intro hmem
    rw [Nat.toString_eq_ofList_toDigits, String.toList_ofList] at hmem
    cases Lexeme.isDigit_of_mem_toDigits hmem
  simp only [shown, String.toList_append, List.mem_append, not_or]
  exact ⟨⟨⟨⟨hmark, by decide⟩, hnumber⟩, by decide⟩, htext⟩

/-- The line before another one, by the number of lines before that, counted from none. -/
def previous? (lines : List (List Char)) : Nat → Option (List Char)
  | 0 => none
  | i + 1 => lines[i]?

/-- The rows around a line, without the ends of their lines. -/
def rowsAround (lines : List (List Char)) (i : Nat) (text : List Char) : List (List Char) :=
  ((previous? lines i).map (shown " " i)).toList ++ [shown ">" (i + 1) text] ++
    (lines[i + 1]?.map (shown " " (i + 2))).toList

theorem rows_of_line {lines : List (List Char)} (h : lines[i]? = some text) :
    rows lines (i + 1) = ((previous? lines i).map (row " " i)).toList ++ [row ">" (i + 1) text] ++
      (lines[i + 1]?.map (row " " (i + 2))).toList := by
  unfold rows
  simp only [Nat.add_sub_cancel, h]
  cases i with
  | zero => rfl
  | succ i => rfl

theorem toList_around (h : (lines source.toList)[i]? = some text) :
    (around source (i + 1)).toList =
      (rowsAround (lines source.toList) i text).flatMap (· ++ ['\n']) := by
  have option (mark : String) (number : Nat) (line? : Option (List Char)) :
      (line?.map (row mark number)).toList.flatMap String.toList =
        (line?.map (shown mark number)).toList.flatMap (· ++ ['\n']) := by
    cases line? with
    | none => rfl
    | some line =>
      simp only [Option.map_some, Option.toList_some, List.flatMap_singleton, toList_row]
  rw [around, String.toList_join, rows_of_line h, rowsAround]
  simp only [List.flatMap_append, option, List.flatMap_singleton, toList_row]

theorem mem_of_previous? {lines : List (List Char)} {line : List Char}
    (h : previous? lines i = some line) : line ∈ lines := by
  cases i with
  | zero => cases h
  | succ i => exact List.mem_of_getElem? h

/-- Each row shows a line, the marked one its own. -/
theorem eq_shown_of_mem_rowsAround {lines : List (List Char)} {shownRow : List Char} (hrow : shownRow ∈ rowsAround lines i text) :
    shownRow = shown ">" (i + 1) text ∨
      ∃ number, ∃ line ∈ lines, shownRow = shown " " number line := by
  simp only [rowsAround, List.mem_append, Option.mem_toList, Option.map_eq_some_iff,
    List.mem_singleton] at hrow
  obtain (⟨line, hline, rfl⟩ | rfl) | ⟨line, hline, rfl⟩ := hrow
  · exact .inr ⟨i, line, mem_of_previous? hline, rfl⟩
  · exact .inl rfl
  · exact .inr ⟨i + 2, line, List.mem_of_getElem? hline, rfl⟩

/-- An excerpt shows its line between the lines next to it. -/
theorem splitOn_around (h : (lines source.toList)[i]? = some text) :
    splitOn '\n' (around source (i + 1)).toList =
      rowsAround (lines source.toList) i text ++ [[]] := by
  rw [toList_around h]
  refine splitOn_flatMap fun shownRow hrow => ?_
  obtain rfl | ⟨number, line, hline, rfl⟩ := eq_shown_of_mem_rowsAround hrow
  · exact not_mem_shown (by decide) _ (not_mem_of_mem_lines (List.mem_of_getElem? h))
  · exact not_mem_shown (by decide) _ (not_mem_of_mem_lines hline)

/-- The marked row alone begins with the mark. -/
theorem marked_iff (h : (lines source.toList)[i]? = some text) :
    ∀ shownRow ∈ splitOn '\n' (around source (i + 1)).toList,
      ['>', ' '] <+: shownRow ↔ shownRow = shown ">" (i + 1) text := by
  intro shownRow hrow
  rw [splitOn_around h, List.mem_append, List.mem_singleton] at hrow
  refine ⟨fun hmark => ?_, ?_⟩
  · obtain hrow | rfl := hrow
    · obtain rfl | ⟨number, line, -, rfl⟩ := eq_shown_of_mem_rowsAround hrow
      · rfl
      · rw [shown_eq] at hmark
        cases (List.cons_prefix_cons.1 hmark).1
    · exact absurd (List.prefix_nil.1 hmark) (by decide)
  · rintro rfl
    rw [shown_eq]
    exact List.prefix_append ['>', ' '] _

/-- Holds of a line of a source, by the number of lines before it, that its excerpt shows. Row by row
the excerpt is that line, marked, between the lines next to it, so far as they exist. -/
structure Shows (source : String) (i : Nat) (text : List Char) : Prop where
  line : (lines source.toList)[i]? = some text
  ne_empty : around source (i + 1) ≠ ""
  rows : splitOn '\n' (around source (i + 1)).toList =
    rowsAround (lines source.toList) i text ++ [[]]
  marked : ∀ shownRow ∈ splitOn '\n' (around source (i + 1)).toList,
    ['>', ' '] <+: shownRow ↔ shownRow = shown ">" (i + 1) text

/-- No other line is shown. -/
theorem around_eq_empty (h : (lines source.toList)[i]? = none) : around source (i + 1) = "" := by
  unfold around rows
  simp only [Nat.add_sub_cancel, h]
  rfl

/-- Every line that a source has is shown. -/
theorem shows_of_line (h : (lines source.toList)[i]? = some text) : Shows source i text := by
  refine ⟨h, fun hempty => ?_, splitOn_around h, marked_iff h⟩
  have hlength := congrArg List.length (splitOn_around h)
  rw [hempty, rowsAround] at hlength
  simp only [String.toList_empty, splitOn_nil, List.length_append, List.length_singleton] at hlength
  omega

example : around "a\nb\nc\n" 2 = "  1 | a\n> 2 | b\n  3 | c\n" := by decide +kernel

end ClassLang.Excerpt

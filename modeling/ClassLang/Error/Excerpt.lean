import ClassLang.Text.Lines

/-!
The excerpt of a report: the line at fault between its neighbours.
-/

namespace ClassLang.Excerpt

/-- A line of the source with its number, behind a mark of one character. -/
def row (mark : String) (number : Nat) (text : List Char) : String :=
  s!"{mark} {number} | " ++ String.ofList text ++ "\n"

/-- The rows for a line: the line before, the line itself, marked, and the line after, so far as
they exist. A line that is not in the source has no rows. -/
def rows (lines : List (List Char)) (line : Nat) : List String :=
  match line, lines[line - 1]? with
  | 0, _ | _, none => []
  | n + 1, some text =>
    (match n with
      | 0 => []
      | m + 1 => (lines[m]?.map (row " " n)).toList) ++
    [row ">" (n + 1) text] ++
    (lines[n + 1]?.map (row " " (n + 2))).toList

/-- The excerpt of a source around a line. -/
def around (source : String) (line : Nat) : String :=
  String.join (rows (Text.lines source.toList) line)

end ClassLang.Excerpt

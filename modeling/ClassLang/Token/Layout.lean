import ClassLang.Token.Line

/-!
From a source text to its tokens. The lines are read one by one; the layout then puts marks
between them: an indent or dedent for each level that a line opens or closes, a newline after each
line, and at the end the dedents that are left and one mark for the end of the file.
-/

namespace ClassLang

/-- The marks that lead from one level to another at the head of a line. -/
def levelMarks (number : Nat) (level next : Nat) : List Token :=
  List.replicate (next - level) (.mark .indent ⟨number, 1⟩) ++
    List.replicate (level - next) (.mark .dedent ⟨number, 1⟩)

/-- A line's tokens with its marks, after a line of a given level. -/
def Line.group (level : Nat) (l : Line) : List Token :=
  levelMarks l.number level l.level ++ l.tokens ++ [.mark .newline ⟨l.number, l.stop⟩]

/-- The tokens of lines that follow a line of a given level, in a source whose last line has the
number `last`. -/
def layout (last : Nat) : Nat → List Line → List Token
  | level, [] => levelMarks last level 0 ++ [.mark .eof ⟨last, 0⟩]
  | level, l :: ls => l.group level ++ layout last l.level ls

namespace Token

/-- The lines with content among texts that are numbered from `number` on. The first line that
cannot be read is the failure. -/
def readLines (number : Nat) : List (List Char) → Except Error (List Line)
  | [] => .ok []
  | text :: texts => do
    let line ← Line.read number text
    let lines ← readLines (number + 1) texts
    return line.toList ++ lines

/-- The tokens of a source text. -/
def ofSource (source : String) : Except Error (List Token) := do
  let texts := Text.sourceLines source.toList
  let lines ← readLines 1 texts
  return layout texts.length 0 lines

end Token

end ClassLang

import ClassLang.Program
import ClassLang.Style
import ClassLang.Tree.Dump

/-!
Listings of tokens and of syntax trees.
-/

namespace ClassLang.Listing

/-- A rule under a heading. -/
def rule : String := Text.times 50 "─"

/-- A lexeme as a styled text in the notation of a dump. -/
def lexeme (s : String) : String :=
  Dump.node "ColoredString" [("input", Text.quoted s), ("fgcolor", "None"), ("bgcolor", "None"),
    ("style", "Style(64)")]

/-- A token on a line: its place, its kind and its lexeme. -/
def token (p : Palette) (t : Token) : String :=
  Text.padLeft 4 (toString t.pos.line) ++ ":" ++ Text.padLeft 2 (toString t.pos.column) ++ "  " ++
    p.paintWide .green 20 t.kind.text ++ " " ++ lexeme t.lexeme

/-- The listing of tokens. -/
def tokens (p : Palette) (ts : List Token) : List String :=
  [p.paint (.bold .cyan) "Tokens:", rule] ++ ts.map (token p) ++
    [rule, s!"Total: {ts.length} tokens"]

/-- A statement on two lines, with its number. -/
def statement (p : Palette) (number : Nat) (s : Stmt) : List String :=
  [s!"{number}. [line {s.pos.line}] " ++ p.paint .green s.kind, "   " ++ Dump.stmt s]

/-- The listing of a syntax tree. -/
def tree (p : Palette) (program : Program) : List String :=
  let total := program.statements.length
  [p.paint (.bold .cyan) "AST:", rule] ++
    ((program.statements.zipIdx 1).flatMap fun s => statement p s.2 s.1) ++
    [rule, s!"Total: {total} top-level statements, classes: " ++
      ", ".intercalate program.classes.keys]

end ClassLang.Listing

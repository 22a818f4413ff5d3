import ClassLang.Grammar.Class
import ClassLang.Token.Layout

/-!
Programs from tokens and from source text. Tokens after the first mark for the end of the file
count for nothing, and a list without that mark ends on the line of its last token.
-/

namespace ClassLang.Program

/-- The place where a list of tokens ends: that of the first mark for the end of the file, or
else the first column of the last token's line. -/
def stop (ts : List Token) : Pos :=
  match ts.find? (·.kind == .eof) with
  | some t => t.pos
  | none => ⟨(ts.getLast?.map (·.line)).getD 1, 1⟩

/-- The program that a list of tokens is, where `classes` are known beforehand. -/
def ofTokens (classes : ClassTable) (ts : List Token) : Except Error Program :=
  Grammar.program (stop ts) classes (ts.takeWhile (·.kind != .eof))

/-- The program that a source text is, where `classes` are known beforehand. -/
def ofSource (classes : ClassTable) (source : String) : Except Error Program := do
  let ts ← Token.ofSource source
  ofTokens classes ts

end ClassLang.Program

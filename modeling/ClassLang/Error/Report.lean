import ClassLang.Error.Excerpt
import ClassLang.Error.Hint
import ClassLang.Style

/-!
The report of a failure: its message, the stage that failed, the excerpt of the source, and a hint
if there is one.
-/

namespace ClassLang.Error

/-- The stage in which a failure arose. -/
def stage (e : Error) : String := if e.isSyntax then "while parsing" else "while running"

/-- The report of a failure of a source. -/
def report (p : Palette) (source : String) (e : Error) : String :=
  let head := e.message ++ " (" ++ p.paint .dim e.stage ++ ")"
  let excerpt := match e.line? with
    | some line => "\n\n" ++ Excerpt.around source line
    | none => ""
  let hint := match e.hint? with
    | some hint => "\n" ++ p.paint .cyan "hint:" ++ " " ++ hint
    | none => ""
  head ++ excerpt ++ hint

end ClassLang.Error

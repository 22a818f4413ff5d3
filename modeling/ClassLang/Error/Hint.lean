import ClassLang.Error
import ClassLang.Text.Search

/-!
Hints for the commonest slips. A hint for a token or a type is chosen by the wording of the
message, since a host may word a fault itself.
-/

namespace ClassLang

/-- The hint for a name that is not bound: another language's spelling, or a missing receiver. -/
def nameHint (name : String) : String :=
  if name = "true" ∨ name = "false" then "Booleans are spelled 'True' and 'False'"
  else if name = "null" ∨ name = "nil" ∨ name = "none" ∨ name = "undefined" then
    "The empty value is spelled 'None'"
  else if name = "this" then "Inside a method the receiver is called 'self'"
  else if name = "self" then "'self' is only bound inside a method body"
  else if name = "len" ∨ name = "int" ∨ name = "range" ∨ name = "input" then
    "Mython has no built-in functions besides 'print' and 'str'"
  else "Methods only see 'self' and their own parameters, not global variables"

/-- The hint for values of the wrong type, by the wording of the fault. -/
def typeHint? (text : String) : Option String :=
  if Text.contains text "'+'" && Text.contains text "str" then
    some "Use str(x) to convert a value before concatenating it to a string"
  else if Text.contains text "compare" then
    some "Define __eq__ or __lt__ on the class to make its instances comparable"
  else none

/-- The hint for a token out of place, by what was expected and what was found. -/
def tokenHint? (expected found : String) : Option String :=
  if found = "=" && Text.contains expected "expression" then
    some "Did you mean '==' for comparison? Single '=' is for assignment"
  else if Text.contains expected "':'" then
    some "Block headers like 'if', 'else', 'def' and 'class' end with ':'"
  else none

/-- The hint for a cause, if there is one. -/
def Cause.hint? : Cause → Option String
  | .unboundName name => some (nameHint name)
  | .methodNotFound .. =>
    some "Check the method name and the number of arguments; there are no default parameters"
  | .typeMismatch fault => typeHint? fault.text
  | .divisionByZero => some "Check the divisor with an 'if' before dividing"
  | .recursionLimit _ =>
    some "Make sure the recursive method has a case that returns without calling itself"
  | .invalidIndentation _ =>
    some "Indent blocks with two spaces per level; tabs are not allowed"
  | .unterminatedString =>
    some "Close the string with the same quote it was opened with, on the same line"
  | .unexpectedToken expected found => tokenHint? expected.text found
  | .returnOutsideMethod => some "'return' only works inside a method defined with 'def'"
  | _ => none

/-- The hint for a failure, if there is one. -/
def Error.hint? : Error → Option String
  | .located cause _ => cause.hint?
  | .unreadable .. => none

end ClassLang

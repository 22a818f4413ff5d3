import ClassLang.Operator

/-!
What can go wrong while a program is read or run. A failure is a cause at a line; its wording is
written in one place, `Error.message`. Each family of causes has a member `stated`, a fault that a
host words itself.
-/

namespace ClassLang

/-- How a line's indentation can be wrong. -/
inductive IndentFault where
  | tab
  | uneven (spaces : Nat)
  | stated (text : String)
deriving DecidableEq, Repr

/-- What the grammar allows at a place. -/
inductive Expected where
  | symbol (c : Char)
  | newline
  | classBody
  | block
  | className
  | parentName
  | methodName
  | parameterName
  | name
  | fieldName
  | expression
  | argumentList
  | conditionEnd
  | statementEnd
  | stated (text : String)
deriving DecidableEq, Repr

/-- What a statement assigns to when it is no dotted name. -/
inductive Target where
  | literal
  | methodCall
  | construction
  | conversion
  | expression
deriving DecidableEq, Repr

/-- Programs that the grammar admits and the language does not. -/
inductive SyntaxFault where
  | nestedClass
  | classTaken (name : String)
  | notAMethod (cls found : String)
  | parameterTaken (parameter method : String)
  | badTarget (target : Target)
  | conversionArity (given : Nat)
  | notCallable (name : String)
  | stated (text : String)
deriving DecidableEq, Repr

/-- Attributes that an object does not have. The owner is a type or a class. -/
inductive AttributeFault where
  | noMethod (owner method : String)
  | noField (owner field : String)
  | stated (text : String)
deriving DecidableEq, Repr

/-- Operations that do not apply to the values at hand. -/
inductive TypeFault where
  | operands (op : ArithOp) (left right : TypeName)
  | equality (left right : TypeName)
  | ordering (left right : TypeName)
  | fieldTarget (field : String) (target : TypeName)
  | notAClass (name : String)
  | stated (text : String)
deriving DecidableEq, Repr

/-- The causes of failures that belong to a line. -/
inductive Cause where
  | unexpectedCharacter (text : String) (column : Nat)
  | unterminatedString
  | invalidEscape (escape : Char)
  | invalidNumber (digits : String)
  | invalidIndentation (fault : IndentFault)
  | unexpectedToken (expected : Expected) (found : String)
  | invalidProgram (fault : SyntaxFault)
  | unknownClass (name : String)
  | returnOutsideMethod
  | unboundName (name : String)
  | noAttribute (fault : AttributeFault)
  | methodNotFound (cls method : String) (arity : Nat)
  | typeMismatch (fault : TypeFault)
  | divisionByZero
  | integerOverflow
  | recursionLimit (limit : Nat)
  | outputFailed (reason : String)
deriving DecidableEq, Repr

/-- A failure: a cause at a line, or a file that cannot be read. -/
inductive Error where
  | located (cause : Cause) (line : Nat)
  | unreadable (path reason : String)
deriving DecidableEq, Repr

/-- An indentation fault in words. -/
def IndentFault.text : IndentFault → String
  | .tab => "tabs are not allowed in indentation"
  | .uneven spaces => s!"indentation of {spaces} spaces is not a multiple of 2"
  | .stated text => text

/-- What was expected, in words. -/
def Expected.text : Expected → String
  | .symbol c => s!"'{c}'"
  | .newline => "newline"
  | .classBody => "indented class body"
  | .block => "indented block"
  | .className => "class name"
  | .parentName => "parent class name"
  | .methodName => "method name"
  | .parameterName => "parameter name"
  | .name => "name"
  | .fieldName => "field name"
  | .expression => "expression"
  | .argumentList => "'(' after method name"
  | .conditionEnd => "':' after the if expression"
  | .statementEnd => "end of statement"
  | .stated text => text

/-- A wrong target of an assignment in words. -/
def Target.text : Target → String
  | .literal => "a literal"
  | .methodCall => "a method call"
  | .construction => "a constructor call"
  | .conversion => "str()"
  | .expression => "an expression"

/-- A fault of a program in words. -/
def SyntaxFault.text : SyntaxFault → String
  | .nestedClass => "class definitions are only allowed at the top level"
  | .classTaken name => s!"class '{name}' is already defined"
  | .notAMethod cls found => s!"expected method definition in class '{cls}', found '{found}'"
  | .parameterTaken parameter method => s!"duplicate parameter '{parameter}' in method '{method}'"
  | .badTarget target => "cannot assign to " ++ target.text
  | .conversionArity given => s!"str() takes exactly one argument ({given} given)"
  | .notCallable name => s!"'{name}' is not a class; only classes and str() can be called"
  | .stated text => text

/-- A missing attribute in words. -/
def AttributeFault.text : AttributeFault → String
  | .noMethod owner method => s!"'{owner}' object has no method '{method}'"
  | .noField owner field => s!"'{owner}' object has no attribute '{field}'"
  | .stated text => text

/-- A type fault in words. -/
def TypeFault.text : TypeFault → String
  | .operands op left right =>
    s!"unsupported operand types for '{op.symbol}': '{left.text}' and '{right.text}'"
  | .equality left right => s!"cannot compare '{left.text}' and '{right.text}' for equality"
  | .ordering left right => s!"cannot compare '{left.text}' and '{right.text}' for ordering"
  | .fieldTarget field target => s!"cannot set field '{field}' on a value of type '{target.text}'"
  | .notAClass name => s!"'{name}' is not a class"
  | .stated text => text

/-- A cause in words, with its kind in front and the line at which it arose behind. -/
def Cause.message (line : Nat) : Cause → String
  | .unexpectedCharacter text column =>
    s!"SyntaxError: unexpected character '{text}' at line {line}, column {column}"
  | .unterminatedString => s!"SyntaxError: unterminated string literal at line {line}"
  | .invalidEscape escape => s!"SyntaxError: invalid escape sequence '\\{escape}' at line {line}"
  | .invalidNumber digits => s!"SyntaxError: invalid number literal '{digits}' at line {line}"
  | .invalidIndentation fault => s!"IndentationError: {fault.text} at line {line}"
  | .unexpectedToken expected found =>
    s!"SyntaxError: expected {expected.text} but found '{found}' at line {line}"
  | .invalidProgram fault => s!"SyntaxError: {fault.text} at line {line}"
  | .unknownClass name => s!"NameError: class '{name}' is not defined at line {line}"
  | .returnOutsideMethod => s!"SyntaxError: 'return' outside method at line {line}"
  | .unboundName name => s!"NameError: name '{name}' is not defined at line {line}"
  | .noAttribute fault => s!"AttributeError: {fault.text} at line {line}"
  | .methodNotFound cls method arity =>
    s!"AttributeError: class '{cls}' has no method '{method}' taking {arity} argument(s) " ++
      s!"at line {line}"
  | .typeMismatch fault => s!"TypeError: {fault.text} at line {line}"
  | .divisionByZero => s!"ZeroDivisionError: division by zero at line {line}"
  | .integerOverflow => s!"OverflowError: integer result out of range at line {line}"
  | .recursionLimit limit =>
    s!"RecursionError: maximum call depth of {limit} exceeded at line {line}"
  | .outputFailed reason => s!"OSError: cannot write output: {reason} at line {line}"

/-- Holds of the causes that arise while a program is read. -/
def Cause.isSyntax : Cause → Bool
  | .unexpectedCharacter .. | .unterminatedString | .invalidEscape _ | .invalidNumber _
  | .invalidIndentation _ | .unexpectedToken .. | .invalidProgram _ | .unknownClass _
  | .returnOutsideMethod => true
  | _ => false

namespace Error

/-- The whole message of a failure. -/
def message : Error → String
  | .located cause line => cause.message line
  | .unreadable path reason => s!"Cannot read file '{path}': {reason}"

/-- The line to which a failure belongs. -/
def line? : Error → Option Nat
  | .located _ line => some line
  | .unreadable .. => none

/-- Holds of failures to read a program, as against failures to run it. -/
def isSyntax : Error → Bool
  | .located cause _ => cause.isSyntax
  | .unreadable .. => false

end Error

end ClassLang

/-!
The operators of expressions and their spellings.
-/

namespace ClassLang

/-- The arithmetic operators. -/
inductive ArithOp where
  | add
  | sub
  | mul
  | div
deriving DecidableEq, Repr, Inhabited

/-- An arithmetic operator as it is written. -/
def ArithOp.symbol : ArithOp → String
  | .add => "+"
  | .sub => "-"
  | .mul => "*"
  | .div => "/"

/-- The connectives. The right operand is evaluated only where the left one does not decide. -/
inductive LogicOp where
  | and
  | or
deriving DecidableEq, Repr, Inhabited

/-- A connective as it is written. -/
def LogicOp.symbol : LogicOp → String
  | .and => "and"
  | .or => "or"

/-- The six comparisons. -/
inductive Comparison where
  | equal
  | notEqual
  | less
  | greater
  | lessOrEqual
  | greaterOrEqual
deriving DecidableEq, Repr, Inhabited

/-- A comparison as it is written. -/
def Comparison.symbol : Comparison → String
  | .equal => "=="
  | .notEqual => "!="
  | .less => "<"
  | .greater => ">"
  | .lessOrEqual => "<="
  | .greaterOrEqual => ">="

/-- The kinds of values, by which errors name an operand. -/
inductive TypeName where
  | none
  | bool
  | int
  | str
  | cls
  | object
deriving DecidableEq, Repr, Inhabited

/-- The name of a kind of values in messages. -/
def TypeName.text : TypeName → String
  | .none => "NoneType"
  | .bool => "bool"
  | .int => "int"
  | .str => "str"
  | .cls => "class"
  | .object => "instance"

end ClassLang

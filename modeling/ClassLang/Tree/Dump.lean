import ClassLang.Text.Quoted
import ClassLang.Tree

/-!
The dump of a syntax tree: every node as its name and its fields, on one line.
-/

namespace ClassLang

/-- A literal in the notation of the language, with strings between double quotes. -/
def Literal.text : Literal → String
  | .none => "None"
  | .bool true => "True"
  | .bool false => "False"
  | .number n => toString n.toInt
  | .string s => Text.quoted s

namespace Dump

/-- A node with named fields. -/
def node (name : String) (fields : List (String × String)) : String :=
  name ++ " \x7b " ++ ", ".intercalate (fields.map fun f => f.1 ++ ": " ++ f.2) ++ " \x7d"

/-- A node with one nameless field. -/
def wrapped (name field : String) : String := name ++ "(" ++ field ++ ")"

/-- A list. -/
def list (items : List String) : String := "[" ++ ", ".intercalate items ++ "]"

/-- A place. -/
def pos (p : Pos) : String :=
  node "Span" [("line", toString p.line), ("column", toString p.column)]

/-- A literal. -/
def literal : Literal → String
  | .none => "None"
  | .bool b => wrapped "Bool" (if b then "true" else "false")
  | .number n => wrapped "Number" (toString n.toInt)
  | .string s => wrapped "String" (Text.quoted s)

/-- An arithmetic operator. -/
def arithOp : ArithOp → String
  | .add => "Add"
  | .sub => "Sub"
  | .mul => "Mult"
  | .div => "Div"

/-- A connective. -/
def logicOp : LogicOp → String
  | .and => "And"
  | .or => "Or"

/-- A comparison. -/
def comparison : Comparison → String
  | .equal => "Equal"
  | .notEqual => "NotEqual"
  | .less => "Less"
  | .greater => "Greater"
  | .lessOrEqual => "LessOrEqual"
  | .greaterOrEqual => "GreaterOrEqual"

mutual

/-- An expression. -/
def expr : Expr → String
  | .literal l p => node "Literal" [("value", literal l), ("span", pos p)]
  | .name path p => node "Variable" [("path", list (path.map Text.quoted)), ("span", pos p)]
  | .call receiver method args p =>
    node "MethodCall" [("object", expr receiver), ("method", Text.quoted method),
      ("args", list (exprs args)), ("span", pos p)]
  | .toText operand p => node "Stringify" [("operand", expr operand), ("span", pos p)]
  | .arith op left right p =>
    node "Binary" [("left", expr left), ("operator", arithOp op), ("right", expr right),
      ("span", pos p)]
  | .logic op left right p =>
    node "Logical" [("left", expr left), ("operator", logicOp op), ("right", expr right),
      ("span", pos p)]
  | .negation operand p => node "Not" [("operand", expr operand), ("span", pos p)]
  | .compare op left right p =>
    node "Comparison" [("left", expr left), ("comparator", comparison op), ("right", expr right),
      ("span", pos p)]
  | .construct cls args p =>
    node "NewInstance" [("class_name", Text.quoted cls), ("args", list (exprs args)),
      ("span", pos p)]

/-- Expressions, each by itself. -/
def exprs : List Expr → List String
  | [] => []
  | e :: es => expr e :: exprs es

end

mutual

/-- A statement. -/
def stmt : Stmt → String
  | .assign name value p =>
    node "Assignment" [("name", Text.quoted name), ("value", expr value), ("span", pos p)]
  | .assignField object field value p =>
    node "FieldAssignment" [("object", expr object), ("field", Text.quoted field),
      ("value", expr value), ("span", pos p)]
  | .print args p => node "Print" [("args", list (exprs args)), ("span", pos p)]
  | .classDef c p => node "ClassDefinition" [("class", cls c), ("span", pos p)]
  | .branch condition yes no p =>
    node "IfElse" [("condition", expr condition), ("then_branch", stmt yes),
      ("else_branch", stmt? no), ("span", pos p)]
  | .block body p => node "Compound" [("statements", list (stmts body)), ("span", pos p)]
  | .give value p => node "Return" [("value", expr value), ("span", pos p)]
  | .methodBody body p => node "MethodBody" [("body", stmt body), ("span", pos p)]
  | .expr value p => node "Expression" [("expr", expr value), ("span", pos p)]

/-- A statement that may be missing. -/
def stmt? : Option Stmt → String
  | none => "None"
  | some s => wrapped "Some" (stmt s)

/-- Statements, each by itself. -/
def stmts : List Stmt → List String
  | [] => []
  | s :: ss => stmt s :: stmts ss

/-- A class. -/
def cls : Class → String
  | ⟨name, ms, parent⟩ =>
    node "Class" [("name", Text.quoted name), ("methods", list (methods ms)),
      ("parent", cls? parent)]

/-- A class that may be missing. -/
def cls? : Option Class → String
  | none => "None"
  | some c => wrapped "Some" (cls c)

/-- A method. -/
def method : Method → String
  | ⟨name, params, body⟩ =>
    node "Method" [("name", Text.quoted name), ("params", list (params.map Text.quoted)),
      ("body", stmt body)]

/-- Methods, each by itself. -/
def methods : List Method → List String
  | [] => []
  | m :: ms => method m :: methods ms

end

end Dump

end ClassLang

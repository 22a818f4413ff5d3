import ClassLang.Dict
import ClassLang.Operator
import ClassLang.Pos

/-!
The syntax tree. A class holds its methods and its parent, so a tree is closed: no name in it has
to be looked up to know a class's ancestors.
-/

namespace ClassLang

/-- The literals. -/
inductive Literal where
  | none
  | bool (value : Bool)
  | number (value : Int64)
  | string (value : String)
deriving DecidableEq, Inhabited

/-- Expressions, each with the place that its errors name. -/
inductive Expr where
  | literal (value : Literal) (pos : Pos)
  /-- A dotted name: a variable, then fields. -/
  | name (path : List String) (pos : Pos)
  | call (receiver : Expr) (method : String) (args : List Expr) (pos : Pos)
  /-- The conversion of a value to its text. -/
  | toText (operand : Expr) (pos : Pos)
  | arith (op : ArithOp) (left right : Expr) (pos : Pos)
  | logic (op : LogicOp) (left right : Expr) (pos : Pos)
  | negation (operand : Expr) (pos : Pos)
  | compare (op : Comparison) (left right : Expr) (pos : Pos)
  /-- The construction of an instance of a class. -/
  | construct (cls : String) (args : List Expr) (pos : Pos)

instance : Inhabited Expr := ⟨.literal .none ⟨0, 0⟩⟩

mutual

/-- Statements. -/
inductive Stmt where
  | assign (name : String) (value : Expr) (pos : Pos)
  | assignField (object : Expr) (field : String) (value : Expr) (pos : Pos)
  | print (args : List Expr) (pos : Pos)
  | classDef (cls : Class) (pos : Pos)
  | branch (condition : Expr) (yes : Stmt) (no : Option Stmt) (pos : Pos)
  | block (body : List Stmt) (pos : Pos)
  | give (value : Expr) (pos : Pos)
  /-- The body of a method, at which a returned value stops. -/
  | methodBody (body : Stmt) (pos : Pos)
  | expr (value : Expr) (pos : Pos)

/-- Classes: their own methods, and the class from which they take the others. -/
structure Class where
  name : String
  methods : List Method
  parent : Option Class

/-- Methods. The receiver is no parameter of its own. -/
structure Method where
  name : String
  params : List String
  body : Stmt

end

instance : Inhabited Class := ⟨⟨"", [], none⟩⟩

instance : Inhabited Stmt := ⟨.block [] ⟨0, 0⟩⟩

/-- The place of an expression. -/
def Expr.pos : Expr → Pos
  | .literal _ pos | .name _ pos | .call _ _ _ pos | .toText _ pos | .arith _ _ _ pos
  | .logic _ _ _ pos | .negation _ pos | .compare _ _ _ pos | .construct _ _ pos => pos

namespace Stmt

/-- The place of a statement. -/
def pos : Stmt → Pos
  | .assign _ _ pos | .assignField _ _ _ pos | .print _ pos | .classDef _ pos
  | .branch _ _ _ pos | .block _ pos | .give _ pos | .methodBody _ pos | .expr _ pos => pos

/-- The name of a kind of statement. -/
def kind : Stmt → String
  | .assign .. => "assignment"
  | .assignField .. => "field assignment"
  | .print .. => "print"
  | .classDef .. => "class definition"
  | .branch .. => "if"
  | .block .. => "block"
  | .give .. => "return"
  | .methodBody .. => "method body"
  | .expr .. => "expression"

end Stmt

/-- The number of arguments a method takes. -/
def Method.arity (m : Method) : Nat := m.params.length

namespace Class

/-- The method that a name means: a class's own one, else the one its parent means. -/
def method? (name : String) : Class → Option Method
  | ⟨_, methods, parent⟩ =>
    (methods.find? (·.name == name)).or (match parent with
      | none => none
      | some p => p.method? name)
termination_by structural c => c

/-- Whether a class has a method of this name with this number of arguments. -/
def hasMethod (c : Class) (name : String) (arity : Nat) : Bool :=
  match c.method? name with
  | some m => m.arity == arity
  | none => false

/-- The name of a class's parent. -/
def parentName? (c : Class) : Option String :=
  match c.parent with
  | some p => some p.name
  | none => none

end Class

/-- The classes of a program by name. -/
abbrev ClassTable := Dict Class

/-- Enters a class under its own name. -/
def ClassTable.add (t : ClassTable) (c : Class) : ClassTable := t.insert c.name c

theorem ClassTable.get?_add (t : ClassTable) (c : Class) (name : String) :
    Dict.get? (t.add c) name = if name = c.name then some c else Dict.get? t name :=
  Dict.get?_insert ..

/-- A program: its statements, and every class that it defines or builds on. -/
structure Program where
  statements : List Stmt
  classes : ClassTable

end ClassLang

import ClassLang.Machine
import ClassLang.Number
import ClassLang.Program

/-!
Evaluation. Expressions and statements are evaluated by recursion on the tree, given a way to call
methods; a call evaluates the body of its method, given a way to call with less room. Room is the
number of further calls that may become active, so evaluation ends for every tree.
-/

namespace ClassLang

/-- How a statement ends: it completes, or it returns from the method around it. -/
inductive Outcome where
  | completed (v : Value)
  | returning (v : Value)
deriving DecidableEq, Inhabited

/-- The value of an outcome. -/
def Outcome.value : Outcome → Value
  | .completed v => v
  | .returning v => v

/-- A way to call a method: receiver, name, arguments and line. -/
abbrev Call := Ref → String → List Value → Nat → Run Value

namespace Eval

/-- A number, or the failure of an operation that 64 bits cannot hold the result of. -/
def inRange (n : Int) (line : Nat) : Run Value :=
  match Number.ofInt? n with
  | some a => return .number a
  | none => Run.fail .integerOverflow line

/-- The failure of an operation that does not apply to its operands. -/
def badOperands (op : ArithOp) (left right : Value) (line : Nat) : Run Value :=
  Run.fail (.typeMismatch (.operands op left.typeName right.typeName)) line

/-- The arithmetic of numbers: exact, and division toward zero. -/
def arithNumbers (op : ArithOp) (a b : Int64) (line : Nat) : Run Value :=
  match op with
  | .add => inRange (a.toInt + b.toInt) line
  | .sub => inRange (a.toInt - b.toInt) line
  | .mul => inRange (a.toInt * b.toInt) line
  | .div =>
    if b = 0 then Run.fail .divisionByZero line else inRange (a.toInt.tdiv b.toInt) line

/-- The value of an arithmetic operation. Strings can be added, and so can an instance whose class
says how. -/
def arith (call : Call) (op : ArithOp) (left right : Value) (line : Nat) : Run Value :=
  match left, right with
  | .number a, .number b => arithNumbers op a b line
  | .string a, .string b =>
    if op = .add then return .string (a ++ b) else badOperands op left right line
  | .object r, _ => do
    if op = .add ∧ (← Run.classOf r).hasMethod "__add__" 1 = true then
      call r "__add__" [right] line
    else badOperands op left right line
  | _, _ => badOperands op left right line

/-- Whether two values are equal. -/
def equal (call : Call) (left right : Value) (line : Nat) : Run Bool :=
  let refused : Run Bool :=
    Run.fail (.typeMismatch (.equality left.typeName right.typeName)) line
  match left, right with
  | .none, .none => return true
  | .bool a, .bool b => return a == b
  | .number a, .number b => return a == b
  | .string a, .string b => return a == b
  | .object r, .object _ => do
    if (← Run.classOf r).hasMethod "__eq__" 1 then
      return (← call r "__eq__" [right] line).isTrue
    else refused
  | _, _ => refused

/-- Whether one value is less than another. -/
def less (call : Call) (left right : Value) (line : Nat) : Run Bool :=
  let refused : Run Bool :=
    Run.fail (.typeMismatch (.ordering left.typeName right.typeName)) line
  match left, right with
  | .bool a, .bool b => return !a && b
  | .number a, .number b => return a < b
  | .string a, .string b => return a < b
  | .object r, _ => do
    if (← Run.classOf r).hasMethod "__lt__" 1 then
      return (← call r "__lt__" [right] line).isTrue
    else refused
  | _, _ => refused

/-- Whether two values differ. -/
def notEqual (call : Call) (left right : Value) (line : Nat) : Run Bool :=
  return !(← equal call left right line)

/-- Whether one value is not less than another. -/
def greaterOrEqual (call : Call) (left right : Value) (line : Nat) : Run Bool :=
  return !(← less call left right line)

/-- Whether one value is neither less than another nor equal to it. -/
def greater (call : Call) (left right : Value) (line : Nat) : Run Bool := do
  if ← greaterOrEqual call left right line then notEqual call left right line else return false

/-- Whether one value is less than another or equal to it. -/
def lessOrEqual (call : Call) (left right : Value) (line : Nat) : Run Bool :=
  return !(← greater call left right line)

/-- The answer of a comparison. All six go back to equality and order. -/
def compare (call : Call) : Comparison → Value → Value → Nat → Run Bool
  | .equal => equal call
  | .notEqual => notEqual call
  | .less => less call
  | .greater => greater call
  | .lessOrEqual => lessOrEqual call
  | .greaterOrEqual => greaterOrEqual call

/-- The text of a value in at most so many steps. A step asks an instance that has a method for its
text, and the answer may be an instance again. -/
def renderIn (call : Call) (line : Nat) : Nat → Value → Run String
  | 0, _ => Run.fail (.recursionLimit callLimit) line
  | n + 1, v =>
    match v with
    | .object r => do
      if (← Run.classOf r).hasMethod "__str__" 0 then
        renderIn call line n (← call r "__str__" [] line)
      else Run.display v
    | v => Run.display v

/-- The printed text of a value. -/
def render (call : Call) (v : Value) (line : Nat) : Run String :=
  renderIn call line callLimit v

/-- The value of a field of a value. -/
def field (v : Value) (name : String) (line : Nat) : Run Value := do
  match v with
  | .object r =>
    let o := (← get).heap.get r
    match o.fields.get? name with
    | some w => return w
    | none => Run.fail (.noAttribute (.noField o.cls.name name)) line
  | v => Run.fail (.noAttribute (.noField v.typeName.text name)) line

/-- The value at the end of a row of fields. -/
def fields (line : Nat) : Value → List String → Run Value
  | v, [] => return v
  | v, name :: names => do fields line (← field v name line) names

/-- The value of a dotted name: its first part in the bindings in force, the others as fields. -/
def path (line : Nat) : List String → Run Value
  | [] => Run.fail (.unboundName "") line
  | root :: names => do
    match (Run.scope (← get)).get? root with
    | some v => fields line v names
    | none => Run.fail (.unboundName root) line

mutual

/-- The value of an expression. Operands are evaluated from the left. -/
def expr (call : Call) : Expr → Run Value
  | .literal l _ => return .ofLiteral l
  | .name names pos => path pos.line names
  | .call receiver method args pos => do
    match ← expr call receiver with
    | .object r => do
      let vs ← exprs call args
      call r method vs pos.line
    | v => Run.fail (.noAttribute (.noMethod v.typeName.text method)) pos.line
  | .toText operand pos => do
    let v ← expr call operand
    return .string (← render call v pos.line)
  | .arith op left right pos => do
    let a ← expr call left
    let b ← expr call right
    arith call op a b pos.line
  | .logic .or left right _ => do
    if (← expr call left).isTrue then return .bool true
    else return .bool (← expr call right).isTrue
  | .logic .and left right _ => do
    if (← expr call left).isTrue then return .bool (← expr call right).isTrue
    else return .bool false
  | .negation operand _ => return .bool (!(← expr call operand).isTrue)
  | .compare op left right pos => do
    let a ← expr call left
    let b ← expr call right
    return .bool (← compare call op a b pos.line)
  | .construct name args pos => do
    match (← get).classes.get? name with
    | none => Run.fail (.typeMismatch (.notAClass name)) pos.line
    | some c => do
      let vs ← exprs call args
      let r ← Run.newObject c
      Run.log .trace "interpreter::new" "new instance" pos.line [("class", c.name)]
      if c.hasMethod "__init__" vs.length then
        let _ ← call r "__init__" vs pos.line
      return .object r
termination_by structural e => e

/-- The values of expressions, evaluated in their order. -/
def exprs (call : Call) : List Expr → Run (List Value)
  | [] => return []
  | e :: es => do
    let v ← expr call e
    return v :: (← exprs call es)
termination_by structural es => es

end

/-- Prints the value of an expression and gives that value. -/
def printOne (call : Call) (line : Nat) (e : Expr) : Run Value := do
  let v ← expr call e
  Run.emit (← render call v line) line
  return v

/-- Prints the values of expressions, a space in front of each. -/
def printMore (call : Call) (line : Nat) : List Expr → Run Unit
  | [] => return ()
  | e :: es => do
    Run.emit " " line
    let _ ← printOne call line e
    printMore call line es

/-- Prints the values of expressions on a line and gives the first of them. Each is printed before
the next is evaluated. -/
def print (call : Call) (line : Nat) : List Expr → Run Value
  | [] => do
    Run.emit "\n" line
    return .none
  | e :: es => do
    let v ← printOne call line e
    printMore call line es
    Run.emit "\n" line
    return v

/-- Sets a field of a value, which has to be an instance. -/
def assignField (target : Value) (name : String) (v : Value) (line : Nat) : Run Unit :=
  match target with
  | .object r => do
    Run.setField r name v
    Run.traceValue s!"-> .{name} is now " v
  | target => Run.fail (.typeMismatch (.fieldTarget name target.typeName)) line

/-- Binds a class to its name. -/
def defineClass (c : Class) (line : Nat) : Run Value := do
  Run.log .debug "interpreter::class" "class defined" line
    [("class", c.name), ("parent", c.parentName?.getD ""), ("methods", toString c.methods.length)]
  Run.define c.name (.cls c.name)
  return .cls c.name

mutual

/-- Executes a statement. -/
def stmt (call : Call) : Stmt → Run Outcome
  | .assign name value pos => do
    Run.trace s!"[line {pos.line}] {name} = ..."
    let v ← expr call value
    Run.traceValue s!"-> {name} is now " v
    Run.define name v
    return .completed v
  | .assignField object name value pos => do
    Run.trace s!"[line {pos.line}] field assignment .{name}"
    let target ← expr call object
    let v ← expr call value
    assignField target name v pos.line
    return .completed v
  | .print args pos => do
    Run.trace s!"[line {pos.line}] print"
    return .completed (← print call pos.line args)
  | .classDef c pos => do
    Run.trace s!"[line {pos.line}] class {c.name}"
    return .completed (← defineClass c pos.line)
  | .branch condition yes no pos => do
    Run.trace s!"[line {pos.line}] if"
    let v ← expr call condition
    Run.traceValue "-> condition is " v
    if v.isTrue then stmt call yes else otherwise call pos.line no
  | .block body _ => Run.deeper (block call body)
  | .give value pos => do
    Run.trace s!"[line {pos.line}] return"
    let v ← expr call value
    Run.traceValue "-> returning " v
    return .returning v
  | .methodBody body _ => do
    match ← stmt call body with
    | .returning v => return .completed v
    | .completed _ => return .completed .none
  | .expr value pos => do
    Run.trace s!"[line {pos.line}] expression"
    let v ← expr call value
    Run.traceValue "-> result: " v
    return .completed v
termination_by structural s => s

/-- Executes what stands behind `else`, if anything does. -/
def otherwise (call : Call) (line : Nat) : Option Stmt → Run Outcome
  | none => return .completed .none
  | some s => do
    Run.trace s!"[line {line}] taking else branch"
    stmt call s
termination_by structural s => s

/-- Executes statements in their order, up to the first that returns. -/
def block (call : Call) : List Stmt → Run Outcome
  | [] => return .completed .none
  | s :: ss => do
    match ← stmt call s with
    | .returning v => return .returning v
    | .completed _ => block call ss
termination_by structural ss => ss

end

/-- The frame of a call: the receiver and the arguments, and nothing else. -/
def frame (receiver : Ref) (params : List String) (args : List Value) : Env :=
  ((Dict.empty : Env).insert "self" (.object receiver)).insertAll (params.zip args)

/-- Calls a method while so many further calls may become active. -/
def callIn (room : Nat) : Call := fun receiver method args line => do
  let c ← Run.classOf receiver
  match c.method? method with
  | none => Run.fail (.methodNotFound c.name method args.length) line
  | some m =>
    if m.arity = args.length then
      match room with
      | 0 => Run.fail (.recursionLimit callLimit) line
      | room + 1 => do
        Run.log .trace "interpreter::call" "calling method" line
          [("class", c.name), ("method", method)]
        Run.trace s!"[line {line}] call {c.name}.{method}"
        let outcome ← Run.inFrame (frame receiver m.params args) (stmt (callIn room) m.body)
        return outcome.value
    else Run.fail (.methodNotFound c.name method args.length) line

/-- Calls a method while no call is active. -/
def callMethod : Call := callIn callLimit

end Eval

namespace Machine

/-- Logs a failure of a run. -/
def logAborted (e : Error) (m : Machine) : Machine :=
  m.record .debug "interpreter" ("run aborted: " ++ e.message) (e.line?.getD 0) []

/-- Runs a statement at the top level; a failure is logged. -/
def runOne (s : Stmt) : Run Outcome := fun m =>
  match Eval.stmt Eval.callMethod s m with
  | .ok outcome m' => .ok outcome m'
  | .error e m' => .error e (logAborted e m')

/-- Runs statements at the top level and gives the value of the last one. -/
def runAll (last : Value) : List Stmt → Run Value
  | [] => return last
  | s :: ss => do
    match ← runOne s with
    | .completed v => runAll v ss
    | .returning _ => Run.fail .returnOutsideMethod s.pos.line

/-- Runs a program: its classes join those known, then its statements are run. -/
def interpret (p : Program) : Run Value := do
  modify fun m => { m with classes := m.classes.merge p.classes }
  runAll .none p.statements

/-- Reads a text as a program of the classes known, and runs it. A text that cannot be read
changes nothing. -/
def eval (source : String) : Run Value := do
  match Program.ofSource (← get).classes source with
  | .ok p => interpret p
  | .error e => throw e

end Machine

end ClassLang

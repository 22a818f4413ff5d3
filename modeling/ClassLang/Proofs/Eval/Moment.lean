import ClassLang.Eval
import Mathlib.Logic.Relation

/-!
A run moment by moment. A moment holds the task at hand, what waits for its result, the machine and
a counter of calls; the next moment follows from it alone. Nothing bounds the length of a run: the
counter is compared with the limit where a call begins, the text of a value is asked for in a bounded
number of steps, and all else goes on as long as there is something to do.
-/

namespace ClassLang

/-- What evaluated arguments are for. -/
inductive Moment.Use where
  | method (receiver : Ref) (name : String) (line : Nat)
  | construct (cls : Class) (line : Nat)

/-- What a run has to do, or what came of what it did. -/
inductive Moment.Task where
  | expr (e : Expr)
  /-- The arguments evaluated so far, those still to evaluate, and what they are for. -/
  | args (ready : List Value) (rest : List Expr) (use : Moment.Use)
  | call (receiver : Ref) (method : String) (args : List Value) (line : Nat)
  | arith (op : ArithOp) (left right : Value) (line : Nat)
  | compare (op : Comparison) (left right : Value) (line : Nat)
  /-- The text of a value, in at most so many steps. -/
  | render (steps : Nat) (v : Value) (line : Nat)
  | stmt (s : Stmt)
  | block (ss : List Stmt)
  /-- The statements of a program that are left, after one with a value. -/
  | program (last : Value) (ss : List Stmt)
  | done (o : Outcome)
  | failed (e : Error)

/-- A task that has brought about a value. -/
abbrev Moment.Task.value (v : Value) : Moment.Task := .done (.completed v)

/-- What waits for the result of a task. -/
inductive Moment.Pending where
  | receiver (method : String) (args : List Expr) (line : Nat)
  | argument (ready : List Value) (rest : List Expr) (use : Moment.Use)
  | constructed (r : Ref)
  | toText (line : Nat)
  | arithLeft (op : ArithOp) (right : Expr) (line : Nat)
  | arithRight (op : ArithOp) (left : Value) (line : Nat)
  | logic (op : LogicOp) (right : Expr)
  | truth
  | negation
  | compareLeft (op : Comparison) (right : Expr) (line : Nat)
  | compareRight (op : Comparison) (left : Value) (line : Nat)
  | unlessEqual (left right : Value) (line : Nat)
  | rendered (steps : Nat) (line : Nat)
  /-- The first value printed, if one is, and what is to be printed behind the next one. -/
  | printing (first : Option Value) (rest : List Expr) (line : Nat)
  | emitting (first : Value) (rest : List Expr) (line : Nat)
  | assign (name : String)
  | fieldTarget (name : String) (value : Expr) (line : Nat)
  | fieldValue (target : Value) (name : String) (line : Nat)
  | branch (yes : Stmt) (no : Option Stmt) (line : Nat)
  | give
  | expression
  | methodBody
  | statements (ss : List Stmt)
  | endBlock
  /-- The end of a call. -/
  | leave
  | program (s : Stmt) (ss : List Stmt)

/-- A moment of a run. -/
structure Moment where
  task : Moment.Task
  /-- What waits for the result, the innermost first. -/
  pending : List Moment.Pending
  machine : Machine
  /-- The counter of calls. -/
  active : Nat

namespace Moment

/-- The moment after a part of a run that begins no task of its own. -/
def perform {α : Type} (K : List Pending) (d : Nat) (x : Run α) (go : α → Machine → Moment)
    (m : Machine) : Moment :=
  match x m with
  | .ok a n => go a n
  | .error e n => ⟨.failed e, K, n, d⟩

/-- The moment after a part of a run that brings about a value. -/
def give (K : List Pending) (d : Nat) (x : Run Value) (m : Machine) : Moment :=
  perform K d x (fun v n => ⟨.value v, K, n, d⟩) m

/-- The moment at which a call has begun. -/
def enter (K : List Pending) (d : Nat) (frame : Env) (body : Stmt) (m : Machine) : Moment :=
  ⟨.stmt body, .leave :: K,
    Run.setDepth (· + 1) { m with frames := frame :: m.frames }, d + 1⟩

/-- The moment at which a call has ended. -/
def exit (K : List Pending) (d : Nat) (t : Task) (m : Machine) : Moment :=
  let n := Run.setDepth (· - 1) m
  ⟨t, K, { n with frames := n.frames.tail }, d - 1⟩

/-- The moment after the one at which an expression is to be evaluated. -/
def beginExpr (K : List Pending) (d : Nat) (m : Machine) : Expr → Moment
  | .literal l _ => ⟨.value (.ofLiteral l), K, m, d⟩
  | .name names pos => give K d (Eval.path pos.line names) m
  | .call receiver method args pos =>
    ⟨.expr receiver, .receiver method args pos.line :: K, m, d⟩
  | .toText operand pos => ⟨.expr operand, .toText pos.line :: K, m, d⟩
  | .arith op left right pos => ⟨.expr left, .arithLeft op right pos.line :: K, m, d⟩
  | .logic op left right _ => ⟨.expr left, .logic op right :: K, m, d⟩
  | .negation operand _ => ⟨.expr operand, .negation :: K, m, d⟩
  | .compare op left right pos => ⟨.expr left, .compareLeft op right pos.line :: K, m, d⟩
  | .construct name args pos =>
    match m.classes.get? name with
    | none => ⟨.failed (.located (.typeMismatch (.notAClass name)) pos.line), K, m, d⟩
    | some c => ⟨.args [] args (.construct c pos.line), K, m, d⟩

/-- The moment after the one at which all arguments are evaluated. -/
def beginUse (K : List Pending) (d : Nat) (m : Machine) (vs : List Value) : Use → Moment
  | .method r name line => ⟨.call r name vs line, K, m, d⟩
  | .construct c line =>
    perform K d (Run.newObject c) (fun r n =>
      perform K d (Run.log .trace "interpreter::new" "new instance" line [("class", c.name)])
        (fun _ n =>
          if c.hasMethod "__init__" vs.length then
            ⟨.call r "__init__" vs line, .constructed r :: K, n, d⟩
          else ⟨.value (.object r), K, n, d⟩) n) m

/-- The moment after the one at which a method is to be called. The call is refused where the
counter has reached the limit. -/
def beginCall (K : List Pending) (d : Nat) (m : Machine) (r : Ref) (name : String)
    (args : List Value) (line : Nat) : Moment :=
  let c := (m.heap.get r).cls
  match c.method? name with
  | none => ⟨.failed (.located (.methodNotFound c.name name args.length) line), K, m, d⟩
  | some x =>
    if x.arity = args.length then
      if callLimit ≤ d then ⟨.failed (.located (.recursionLimit callLimit) line), K, m, d⟩
      else
        perform K d (Run.log .trace "interpreter::call" "calling method" line
          [("class", c.name), ("method", name)]) (fun _ n =>
            perform K d (Run.trace s!"[line {line}] call {c.name}.{name}")
              (fun _ n => enter K d (Eval.frame r x.params args) x.body n) n) m
    else ⟨.failed (.located (.methodNotFound c.name name args.length) line), K, m, d⟩

/-- The moment after the one at which two values are to be combined. -/
def beginArith (K : List Pending) (d : Nat) (m : Machine) (op : ArithOp) (left right : Value)
    (line : Nat) : Moment :=
  match left, right with
  | .number a, .number b => give K d (Eval.arithNumbers op a b line) m
  | .string a, .string b =>
    if op = .add then ⟨.value (.string (a ++ b)), K, m, d⟩
    else give K d (Eval.badOperands op left right line) m
  | .object r, _ =>
    if op = .add ∧ (m.heap.get r).cls.hasMethod "__add__" 1 = true then
      ⟨.call r "__add__" [right] line, K, m, d⟩
    else give K d (Eval.badOperands op left right line) m
  | _, _ => give K d (Eval.badOperands op left right line) m

/-- The moment after the one at which two values are to be tested for equality. -/
def beginEqual (K : List Pending) (d : Nat) (m : Machine) (left right : Value) (line : Nat) :
    Moment :=
  let refused : Moment :=
    ⟨.failed (.located (.typeMismatch (.equality left.typeName right.typeName)) line), K, m, d⟩
  match left, right with
  | .none, .none => ⟨.value (.bool true), K, m, d⟩
  | .bool a, .bool b => ⟨.value (.bool (a == b)), K, m, d⟩
  | .number a, .number b => ⟨.value (.bool (a == b)), K, m, d⟩
  | .string a, .string b => ⟨.value (.bool (a == b)), K, m, d⟩
  | .object r, .object _ =>
    if (m.heap.get r).cls.hasMethod "__eq__" 1 then
      ⟨.call r "__eq__" [right] line, .truth :: K, m, d⟩
    else refused
  | _, _ => refused

/-- The moment after the one at which two values are to be put in order. -/
def beginLess (K : List Pending) (d : Nat) (m : Machine) (left right : Value) (line : Nat) :
    Moment :=
  let refused : Moment :=
    ⟨.failed (.located (.typeMismatch (.ordering left.typeName right.typeName)) line), K, m, d⟩
  match left, right with
  | .bool a, .bool b => ⟨.value (.bool (!a && b)), K, m, d⟩
  | .number a, .number b => ⟨.value (.bool (decide (a < b))), K, m, d⟩
  | .string a, .string b => ⟨.value (.bool (decide (a < b))), K, m, d⟩
  | .object r, _ =>
    if (m.heap.get r).cls.hasMethod "__lt__" 1 then
      ⟨.call r "__lt__" [right] line, .truth :: K, m, d⟩
    else refused
  | _, _ => refused

/-- The moment after the one at which the text of a value is to be found. -/
def beginRender (K : List Pending) (d : Nat) (m : Machine) (v : Value) (line : Nat) :
    Nat → Moment
  | 0 => ⟨.failed (.located (.recursionLimit callLimit) line), K, m, d⟩
  | n + 1 =>
    match v with
    | .object r =>
      if (m.heap.get r).cls.hasMethod "__str__" 0 then
        ⟨.call r "__str__" [] line, .rendered n line :: K, m, d⟩
      else ⟨.value (.string (v.display m.heap)), K, m, d⟩
    | v => ⟨.value (.string (v.display m.heap)), K, m, d⟩

/-- The moment after the one at which a value has been printed: the next one is to be printed, or the
line ends. -/
def beginMore (K : List Pending) (d : Nat) (m : Machine) (first : Value) (line : Nat) :
    List Expr → Moment
  | [] => perform K d (Run.emit "\n" line) (fun _ n => ⟨.value first, K, n, d⟩) m
  | e :: es =>
    perform K d (Run.emit " " line)
      (fun _ n => ⟨.expr e, .printing (some first) es line :: K, n, d⟩) m

/-- The moment after the one at which a line is to be printed. -/
def beginPrint (K : List Pending) (d : Nat) (m : Machine) (line : Nat) : List Expr → Moment
  | [] => perform K d (Run.emit "\n" line) (fun _ n => ⟨.value .none, K, n, d⟩) m
  | e :: es => ⟨.expr e, .printing none es line :: K, m, d⟩

/-- The moment after the one at which it is left to execute what stands behind `else`. -/
def beginOtherwise (K : List Pending) (d : Nat) (m : Machine) (line : Nat) :
    Option Stmt → Moment
  | none => ⟨.value .none, K, m, d⟩
  | some s =>
    perform K d (Run.trace s!"[line {line}] taking else branch")
      (fun _ n => ⟨.stmt s, K, n, d⟩) m

/-- The moment after the one at which a statement is to be executed. -/
def beginStmt (K : List Pending) (d : Nat) (m : Machine) : Stmt → Moment
  | .assign name value pos =>
    perform K d (Run.trace s!"[line {pos.line}] {name} = ...")
      (fun _ n => ⟨.expr value, .assign name :: K, n, d⟩) m
  | .assignField object name value pos =>
    perform K d (Run.trace s!"[line {pos.line}] field assignment .{name}")
      (fun _ n => ⟨.expr object, .fieldTarget name value pos.line :: K, n, d⟩) m
  | .print args pos =>
    perform K d (Run.trace s!"[line {pos.line}] print")
      (fun _ n => beginPrint K d n pos.line args) m
  | .classDef c pos =>
    perform K d (Run.trace s!"[line {pos.line}] class {c.name}")
      (fun _ n => give K d (Eval.defineClass c pos.line) n) m
  | .branch condition yes no pos =>
    perform K d (Run.trace s!"[line {pos.line}] if")
      (fun _ n => ⟨.expr condition, .branch yes no pos.line :: K, n, d⟩) m
  | .block body _ => ⟨.block body, .endBlock :: K, Run.setDepth (· + 1) m, d⟩
  | .give value pos =>
    perform K d (Run.trace s!"[line {pos.line}] return")
      (fun _ n => ⟨.expr value, .give :: K, n, d⟩) m
  | .methodBody body _ => ⟨.stmt body, .methodBody :: K, m, d⟩
  | .expr value pos =>
    perform K d (Run.trace s!"[line {pos.line}] expression")
      (fun _ n => ⟨.expr value, .expression :: K, n, d⟩) m

/-- The moment after the one at which what waits gets its result. -/
def resume (K : List Pending) (d : Nat) (m : Machine) (o : Outcome) : Pending → Moment
  | .receiver method args line =>
    match o.value with
    | .object r => ⟨.args [] args (.method r method line), K, m, d⟩
    | v => ⟨.failed (.located (.noAttribute (.noMethod v.typeName.text method)) line), K, m, d⟩
  | .argument ready rest use => ⟨.args (ready ++ [o.value]) rest use, K, m, d⟩
  | .constructed r => ⟨.value (.object r), K, m, d⟩
  | .toText line => ⟨.render callLimit o.value line, K, m, d⟩
  | .arithLeft op right line => ⟨.expr right, .arithRight op o.value line :: K, m, d⟩
  | .arithRight op left line => ⟨.arith op left o.value line, K, m, d⟩
  | .logic .or right =>
    if o.value.isTrue then ⟨.value (.bool true), K, m, d⟩ else ⟨.expr right, .truth :: K, m, d⟩
  | .logic .and right =>
    if o.value.isTrue then ⟨.expr right, .truth :: K, m, d⟩ else ⟨.value (.bool false), K, m, d⟩
  | .truth => ⟨.value (.bool o.value.isTrue), K, m, d⟩
  | .negation => ⟨.value (.bool (!o.value.isTrue)), K, m, d⟩
  | .compareLeft op right line => ⟨.expr right, .compareRight op o.value line :: K, m, d⟩
  | .compareRight op left line => ⟨.compare op left o.value line, K, m, d⟩
  | .unlessEqual left right line =>
    if o.value.isTrue then ⟨.compare .notEqual left right line, K, m, d⟩
    else ⟨.value (.bool false), K, m, d⟩
  | .rendered steps line => ⟨.render steps o.value line, K, m, d⟩
  | .printing first rest line =>
    ⟨.render callLimit o.value line, .emitting (first.getD o.value) rest line :: K, m, d⟩
  | .emitting first rest line =>
    perform K d (Run.emit (o.value.display m.heap) line)
      (fun _ n => beginMore K d n first line rest) m
  | .assign name =>
    perform K d (Run.traceValue s!"-> {name} is now " o.value) (fun _ n =>
      perform K d (Run.define name o.value) (fun _ n => ⟨.value o.value, K, n, d⟩) n) m
  | .fieldTarget name value line => ⟨.expr value, .fieldValue o.value name line :: K, m, d⟩
  | .fieldValue target name line =>
    perform K d (Eval.assignField target name o.value line)
      (fun _ n => ⟨.value o.value, K, n, d⟩) m
  | .branch yes no line =>
    perform K d (Run.traceValue "-> condition is " o.value) (fun _ n =>
      if o.value.isTrue then ⟨.stmt yes, K, n, d⟩ else beginOtherwise K d n line no) m
  | .give =>
    perform K d (Run.traceValue "-> returning " o.value)
      (fun _ n => ⟨.done (.returning o.value), K, n, d⟩) m
  | .expression =>
    perform K d (Run.traceValue "-> result: " o.value) (fun _ n => ⟨.value o.value, K, n, d⟩) m
  | .methodBody =>
    match o with
    | .returning v => ⟨.value v, K, m, d⟩
    | .completed _ => ⟨.value .none, K, m, d⟩
  | .statements ss =>
    match o with
    | .returning v => ⟨.done (.returning v), K, m, d⟩
    | .completed _ => ⟨.block ss, K, m, d⟩
  | .endBlock => ⟨.done o, K, Run.setDepth (· - 1) m, d⟩
  | .leave => exit K d (.value o.value) m
  | .program s ss =>
    match o with
    | .completed v => ⟨.program v ss, K, m, d⟩
    | .returning _ => ⟨.failed (.located .returnOutsideMethod s.pos.line), K, m, d⟩

/-- The moment after the one at which what waits learns of a failure. -/
def abandon (K : List Pending) (d : Nat) (m : Machine) (e : Error) : Pending → Moment
  | .endBlock => ⟨.failed e, K, Run.setDepth (· - 1) m, d⟩
  | .leave => exit K d (.failed e) m
  | .program .. => ⟨.failed e, K, Machine.logAborted e m, d⟩
  | _ => ⟨.failed e, K, m, d⟩

/-- The next moment, if there is one. A run is over when nothing waits for its result. -/
def next : Moment → Option Moment
  | ⟨.expr e, K, m, d⟩ => some (beginExpr K d m e)
  | ⟨.args ready [] use, K, m, d⟩ => some (beginUse K d m ready use)
  | ⟨.args ready (e :: es) use, K, m, d⟩ => some ⟨.expr e, .argument ready es use :: K, m, d⟩
  | ⟨.call r name args line, K, m, d⟩ => some (beginCall K d m r name args line)
  | ⟨.arith op left right line, K, m, d⟩ => some (beginArith K d m op left right line)
  | ⟨.compare .equal left right line, K, m, d⟩ => some (beginEqual K d m left right line)
  | ⟨.compare .notEqual left right line, K, m, d⟩ =>
    some ⟨.compare .equal left right line, .negation :: K, m, d⟩
  | ⟨.compare .less left right line, K, m, d⟩ => some (beginLess K d m left right line)
  | ⟨.compare .greater left right line, K, m, d⟩ =>
    some ⟨.compare .greaterOrEqual left right line, .unlessEqual left right line :: K, m, d⟩
  | ⟨.compare .lessOrEqual left right line, K, m, d⟩ =>
    some ⟨.compare .greater left right line, .negation :: K, m, d⟩
  | ⟨.compare .greaterOrEqual left right line, K, m, d⟩ =>
    some ⟨.compare .less left right line, .negation :: K, m, d⟩
  | ⟨.render steps v line, K, m, d⟩ => some (beginRender K d m v line steps)
  | ⟨.stmt s, K, m, d⟩ => some (beginStmt K d m s)
  | ⟨.block [], K, m, d⟩ => some ⟨.value .none, K, m, d⟩
  | ⟨.block (s :: ss), K, m, d⟩ => some ⟨.stmt s, .statements ss :: K, m, d⟩
  | ⟨.program last [], K, m, d⟩ => some ⟨.value last, K, m, d⟩
  | ⟨.program _ (s :: ss), K, m, d⟩ => some ⟨.stmt s, .program s ss :: K, m, d⟩
  | ⟨.done o, p :: K, m, d⟩ => some (resume K d m o p)
  | ⟨.failed e, p :: K, m, d⟩ => some (abandon K d m e p)
  | ⟨.done _, [], _, _⟩ | ⟨.failed _, [], _, _⟩ => none

/-- One moment leads to another through any number of moments. -/
abbrev Leads : Moment → Moment → Prop := Relation.ReflTransGen fun a b => a.next = some b

end Moment

end ClassLang

import ClassLang.Console
import ClassLang.Error
import ClassLang.Log.Record
import ClassLang.Value

/-!
The state of a run and its elementary steps. A run ends with a value or a failure, and the state it
reached stays in either case. What watches a run, tracing and logging, is a part of the state by
itself that no other part depends on.
-/

namespace ClassLang

/-- The greatest number of calls that may be active at once. -/
def callLimit : Nat := 1000

/-- What is shown of a run while it goes on. -/
inductive TraceMode where
  | off
  /-- Statements and calls. -/
  | statements
  /-- Statements, calls, and the values they produce. -/
  | verbose
deriving DecidableEq, Repr, Inhabited

/-- The name of a trace mode. -/
def TraceMode.name : TraceMode → String
  | .off => "Off"
  | .statements => "Statements"
  | .verbose => "Verbose"

/-- What a watched run leaves behind. -/
inductive Event where
  | trace (line : String)
  /-- A record, with the number of texts that the console had passed on before it. -/
  | record (r : Log.Record) (passed : Nat)

/-- What watches a run. -/
structure Watch where
  filter : Log.Filter
  file : String
  mode : TraceMode
  /-- How far the next trace line is indented. -/
  depth : Nat
  events : Array Event

instance : Inhabited Watch := ⟨⟨default, "<repl>", .off, 0, #[]⟩⟩

namespace Watch

/-- The watch with one more event. -/
def add (w : Watch) (e : Event) : Watch := { w with events := w.events.push e }

/-- The watch after a step, described by a text. -/
def step (w : Watch) (text : String) : Watch :=
  if w.mode = .off then w else w.add (.trace ("[trace] " ++ Text.times w.depth "  " ++ text))

/-- The watch after a step produced a value. The text is formed only if it is shown. -/
def value (w : Watch) (text : Unit → String) : Watch :=
  if w.mode = .verbose then
    w.add (.trace ("[trace]   " ++ Text.times w.depth "  " ++ text ()))
  else w

/-- The watch after something worth a record, which the filter may hold back, the console having
passed on so many texts. -/
def record (w : Watch) (passed : Nat) (level : Log.Level) (target message : String) (line : Nat)
    (fields : List (String × String)) : Watch :=
  if w.filter.enables level target then
    w.add (.record ⟨level, message, target, w.file, line, fields⟩ passed)
  else w

end Watch

/-- The state of a run. -/
structure Machine where
  globals : Env
  /-- The frames of the active calls, the innermost first. -/
  frames : List Env
  classes : ClassTable
  heap : Heap
  console : Console
  watch : Watch

instance : Inhabited Machine := ⟨⟨.empty, [], .empty, .empty, .empty, default⟩⟩

/-- The state after something worth a record. -/
def Machine.record (m : Machine) (level : Log.Level) (target message : String) (line : Nat)
    (fields : List (String × String)) : Machine :=
  { m with watch := m.watch.record m.console.passed.size level target message line fields }

/-- A part of a run. -/
abbrev Run := EStateM Error Machine

namespace Run

/-- Fails at a line. -/
def fail {α : Type} (cause : Cause) (line : Nat) : Run α := throw (.located cause line)

/-- Changes the watch, by what the heap holds. -/
def watch (f : Heap → Watch → Watch) : Run Unit :=
  modify fun m => { m with watch := f m.heap m.watch }

/-- Traces a step. -/
def trace (text : String) : Run Unit := watch fun _ w => w.step text

/-- Traces a value behind a text. -/
def traceValue (lead : String) (v : Value) : Run Unit :=
  watch fun h w => w.value fun _ => lead ++ v.display h

/-- Logs a record. -/
def log (level : Log.Level) (target message : String) (line : Nat)
    (fields : List (String × String)) : Run Unit :=
  modify fun m => m.record level target message line fields

/-- Prints a text. -/
def emit (text : String) (line : Nat) : Run Unit := do
  match (← get).console.write text with
  | .ok console => modify fun m => { m with console }
  | .error reason => fail (.outputFailed reason) line

/-- The bindings in force: those of the innermost call, or the globals. -/
def scope (m : Machine) : Env :=
  match m.frames with
  | [] => m.globals
  | f :: _ => f

/-- Binds a name in the bindings in force. -/
def define (name : String) (v : Value) : Run Unit :=
  modify fun m =>
    match m.frames with
    | [] => { m with globals := m.globals.insert name v }
    | f :: fs => { m with frames := f.insert name v :: fs }

/-- The class of an instance. -/
def classOf (r : Ref) : Run Class := return ((← get).heap.get r).cls

/-- The text of a value, no method being run for it. -/
def display (v : Value) : Run String := return v.display (← get).heap

/-- Makes an instance of a class. -/
def newObject (c : Class) : Run Ref :=
  modifyGet fun m => (m.heap.size, { m with heap := m.heap.alloc c })

/-- Sets a field of an instance. -/
def setField (r : Ref) (field : String) (v : Value) : Run Unit :=
  modify fun m => { m with heap := m.heap.setField r field v }

/-- Runs a part between two changes of the state, of which the second is made however the part
ends. -/
def bracket {α : Type} (enter leave : Machine → Machine) (body : Run α) : Run α := fun m =>
  match body (enter m) with
  | .ok a m' => .ok a (leave m')
  | .error e m' => .error e (leave m')

/-- Changes the indentation of the trace. -/
def setDepth (f : Nat → Nat) (m : Machine) : Machine :=
  { m with watch := { m.watch with depth := f m.watch.depth } }

/-- Runs a part with the trace one step further in. -/
def deeper {α : Type} (body : Run α) : Run α := bracket (setDepth (· + 1)) (setDepth (· - 1)) body

/-- Runs a part in a frame of its own, with the trace one step further in. -/
def inFrame {α : Type} (frame : Env) (body : Run α) : Run α :=
  bracket (fun m => { m with frames := frame :: m.frames })
    (fun m => { m with frames := m.frames.tail }) (deeper body)

end Run

end ClassLang

import ClassLang.Command.Settings
import ClassLang.Error.Report
import ClassLang.Repl.Entry
import ClassLang.Repl.History
import ClassLang.Repl.Typed

/-!
The prompt: lines are gathered into entries, and each complete entry is run in one session. A line
that begins with a colon is a command of the prompt itself.
-/

namespace ClassLang

/-- A session at the prompt. -/
structure Repl where
  settings : Settings
  session : Session
  /-- The lines of the entry that is not complete yet. -/
  buffer : String
  history : History
  finished : Bool

namespace Repl

/-- A rule across the screen. -/
def rule (width : Nat) : String := Text.times width "═"

/-- What is shown when the prompt starts. -/
def banner (p : Palette) : List String :=
  [p.paint .cyan (rule 50), p.paint (.bold .cyan) "  mython REPL", p.paint .cyan (rule 50), "",
    p.paint .dim "Type ':help' for help, ':quit' to exit. Finish a block with an empty line.", ""]

/-- The commands of the prompt with their explanations. -/
def commands : List (String × String) :=
  [(":help", "show this help"), (":quit", "leave the REPL"),
    (":reset", "forget all variables and classes"), (":vars", "list global variables"),
    (":trace", "toggle statement tracing"), (":trace verbose", "toggle verbose tracing")]

/-- What is shown for help. -/
def help (p : Palette) : List String :=
  ["", p.paint (.bold .cyan) "Commands:"] ++
    (commands.map fun c => "  " ++ Text.padRight 16 c.1 ++ " " ++ c.2) ++
    ["", p.paint .dim "Blocks (class, def, if) end with an empty line.", ""]

/-- What is shown of the global variables. -/
def globalLines (p : Palette) (level : Log.Level) (m : Machine) : List String :=
  p.paint .dim ("log level: " ++ level.name) ::
    if m.globals.isEmpty then [p.paint .dim "No variables defined yet."]
    else p.paint (.bold .cyan) "Variables:" :: m.globals.toList.map fun b =>
      "  " ++ b.1 ++ " = " ++ b.2.display m.heap ++ " (" ++ p.paint .dim b.2.typeName.text ++ ")"

/-- The prompt at its start, with the history that is saved. -/
def start (s : Settings) : Repl :=
  let history := match s.host.read s.historyPath with
    | .ok bytes => .ofBytes bytes
    | .error _ => .empty
  ⟨s, s.session "<repl>" .off, "", history, false⟩

/-- Shows lines. -/
def say (r : Repl) (lines : List String) : Repl × Transcript :=
  let said := r.session.say lines
  ({ r with session := said.1 }, said.2)

/-- Switches a trace mode on, or off if it is on. -/
def toggle (r : Repl) (mode : TraceMode) : Repl × Transcript :=
  let next := if r.session.machine.watch.mode = mode then .off else mode
  let m := r.session.machine
  let machine := { m with watch := { m.watch with mode := next } }
  { r with session := { r.session with machine } }.say
    [r.settings.palette.paint .yellow ("Trace mode: " ++ next.name)]

/-- Forgets what was defined. The logger and the console stay. -/
def reset (r : Repl) : Repl :=
  let fresh := r.settings.session "<repl>" .off
  let machine := { fresh.machine with console := r.session.machine.console }
  { r with session := { fresh with machine, logger := r.session.logger } }

/-- Obeys a command of the prompt. -/
def command (r : Repl) (line : String) : Repl × Transcript :=
  let p := r.settings.palette
  match line with
  | ":quit" | ":exit" => ({ r with finished := true }, .empty)
  | ":help" => r.say (help p)
  | ":reset" => r.reset.say [p.paint .green "Interpreter reset."]
  | ":vars" => r.say (globalLines p r.settings.log.level r.session.machine)
  | ":trace" => toggle r .statements
  | ":trace verbose" => toggle r .verbose
  | other => (r, .warn (p.paint .red "Error" ++ ": unknown command '" ++ other ++ "'"))

/-- Shows the value of an entry, unless it is the empty value. -/
def shown (p : Palette) (source : String) (s : Session) (v : Value) : Session × Transcript :=
  if v.isNone then (s, .empty)
  else match s.perform (Eval.render Eval.callMethod v 0) with
    | ⟨.ok text, s, t⟩ =>
      let said := s.say [p.paint .dim "=>" ++ " " ++ p.paint .yellow text]
      (said.1, t ++ said.2)
    | ⟨.error e, s, t⟩ => (s, t ++ .warn (e.report p source))

/-- Runs an entry and shows its value or its failure. -/
def runEntry (p : Palette) (source : String) (s : Session) : Session × Transcript :=
  match s.perform (Machine.eval source) with
  | ⟨.ok v, s, t⟩ =>
    let q := shown p source s v
    (q.1, t ++ q.2)
  | ⟨.error e, s, t⟩ => (s, t ++ .warn (e.report p source))

/-- Takes a line as it was typed, without its line feed. -/
def step (r : Repl) (typed : String) : Repl × Transcript :=
  let line := Typed.correct typed
  let trimmed := String.ofList (Text.trim line.toList)
  if trimmed.isEmpty ∧ r.buffer.isEmpty then (r, .empty)
  else
    let r := if trimmed.isEmpty then r else { r with history := r.history.add line }
    if r.buffer.isEmpty ∧ trimmed.startsWith ":" then command r trimmed
    else
      let entry := r.buffer ++ line ++ "\n"
      if Entry.needsMore entry then ({ r with buffer := entry }, .empty)
      else
        let done := runEntry r.settings.palette entry r.session
        ({ r with session := done.1, buffer := "" }, done.2)

/-- Takes lines until one ends the session. -/
def steps (r : Repl) : List String → Repl × Transcript
  | [] => (r, .empty)
  | line :: lines =>
    if r.finished then (r, .empty)
    else
      let a := r.step line
      let b := steps a.1 lines
      (b.1, a.2 ++ b.2)

/-- The history file to be written at the end, or a warning where that cannot be done. -/
def finish (r : Repl) : List (String × ByteArray) × Transcript :=
  if r.history.unsaved = 0 then ([], .empty)
  else match r.settings.host.write r.settings.historyPath with
    | .ok _ => ([(r.settings.historyPath, r.history.save.toUTF8)], .empty)
    | .error reason =>
      let warning := r.settings.palette.paint .yellow "Warning"
      ([], .warn (warning ++ ": could not save history: " ++ reason))

end Repl

end ClassLang

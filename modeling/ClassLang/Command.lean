import ClassLang.Command.Arguments
import ClassLang.Command.Listing
import ClassLang.Repl

/-!
The commands. A command is a function of its arguments, the environment and the files around it;
its ending says what was shown, which files it leaves and how it ended.
-/

namespace ClassLang

/-- How a command ends. -/
structure Ending where
  code : Nat
  shown : Transcript
  /-- Files that the command leaves, with what they hold. -/
  files : List (String × ByteArray)

namespace Command

/-- The word before a failure. -/
def errorWord (p : Palette) : String := p.paint (.bold .red) "Error"

/-- The ending of a command that failed, after what it showed. -/
def failed (p : Palette) (shown : Transcript) (message : String)
    (files : List (String × ByteArray)) : Ending :=
  ⟨1, shown ++ .warn (errorWord p ++ ": " ++ message), files⟩

/-- A warning for a file whose name does not end as the name of a program should. -/
def nameWarning (p : Palette) (path : String) : Transcript :=
  match Path.extension? path with
  | none | some "my" => .empty
  | some other =>
    .warn (p.paint .yellow "Warning" ++ ": file should have the .my extension, but got ." ++ other)

/-- Goes on with the source text of a file. -/
def withSource (s : Settings) (path : String) (next : Transcript → String → Ending) : Ending :=
  let warned := nameWarning s.palette path
  match s.host.readText path with
  | .error reason => failed s.palette warned (Error.unreadable path reason).message []
  | .ok source => next warned source

/-- Goes on with what was read from a source, or fails with a report. -/
def orReport {α : Type} (s : Settings) (source : String) (shown : Transcript)
    (read : Except Error α) (next : α → Ending) : Ending :=
  match read with
  | .error e => failed s.palette shown (e.report s.palette source) []
  | .ok a => next a

/-- The name by which a program's records call its file. -/
def recordName (path : String) : String := (Path.fileName? path).getD path

/-- Runs a program, something being shown before and something after a run that ends well. -/
def run (s : Settings) (path : String) (mode : TraceMode) (before after : Transcript) : Ending :=
  withSource s path fun warned source =>
    orReport s source warned (Program.ofSource .empty source) fun program =>
      let session := s.session (recordName path) mode
      let p := session.perform (Machine.interpret program)
      let shown := warned ++ before ++ p.shown ++ p.session.rest
      match p.answer with
      | .ok _ => ⟨0, shown ++ after, p.session.logFiles⟩
      | .error e => failed s.palette shown (e.report s.palette source) p.session.logFiles

/-- Runs a program and shows its steps. -/
def trace (s : Settings) (path : String) (verbose : Bool) : Ending :=
  let p := s.palette
  let rule := p.paint .yellow (Repl.rule 60)
  let mode :=
    if verbose then "  Mode: verbose (statements and values)" else "  Mode: statements only"
  run s path (if verbose then .verbose else .statements)
    (.warnAll [rule, p.paint (.bold .yellow) "  mython tracer", p.paint .yellow mode, rule])
    (.warnAll [rule, p.paint (.bold .yellow) "  Trace complete", rule])

/-- Reads a program and says how far that went well. -/
def check (s : Settings) (path : String) : Ending :=
  let tick := s.palette.paint .green "✓"
  withSource s path fun warned source =>
    orReport s source warned (Token.ofSource source) fun ts =>
      let lexed := warned ++ .say (tick ++ s!" Lexing passed ({ts.length} tokens)")
      orReport s source lexed (Program.ofTokens .empty ts) fun program =>
        let statements := program.statements.length
        let parsed := .say (tick ++
          s!" Parsing passed ({statements} statements, {program.classes.size} classes)")
        let fine := .say ("\n" ++ s.palette.paint (.bold .green) "OK" ++ s!" {path} looks fine")
        ⟨0, lexed ++ parsed ++ fine, []⟩

/-- Lists the tokens of a program. -/
def tokens (s : Settings) (path : String) : Ending :=
  withSource s path fun warned source =>
    orReport s source warned (Token.ofSource source) fun ts =>
      ⟨0, warned ++ .sayAll (Listing.tokens s.palette ts), []⟩

/-- Lists the syntax tree of a program. -/
def tree (s : Settings) (path : String) : Ending :=
  withSource s path fun warned source =>
    orReport s source warned (Program.ofSource .empty source) fun program =>
      ⟨0, warned ++ .sayAll (Listing.tree s.palette program), []⟩

/-- The prompt with all its input. -/
def repl (s : Settings) (input : String) : Ending :=
  let lines := (Text.lines input.toList).map String.ofList
  let r := (Repl.start s).steps lines
  let saved := r.1.finish
  ⟨0, .sayAll (Repl.banner s.palette) ++ r.2 ++ saved.2 ++ r.1.session.rest,
    r.1.session.logFiles ++ saved.1⟩

/-- Carries out a task. -/
def perform (s : Settings) (input : String) : Task → Ending
  | .run path => run s path .off .empty .empty
  | .repl => repl s input
  | .check path => check s path
  | .tokens path => tokens s path
  | .tree path => tree s path
  | .trace path verbose => trace s path verbose

/-- How commands are to be carried out, with warnings about the environment, or the ending of a
command line that asks for nothing. -/
def settle (env : Environment) (host : Host) (time : String) (args : List String) :
    Transcript × Except Ending (Settings × Task) :=
  let palette := Settings.paletteFor env.forceColour
  let initial := Log.Setting.initial
  let filtered : Log.Setting × Transcript := match env.logFilter with
    | none => (initial, .empty)
    | some spec => match initial.setFilter spec with
      | .ok setting => (setting, .empty)
      | .error e =>
        (initial, .warn s!"Warning: ignoring MYTHON_LOG='{spec}': {e.message}")
  let format := (env.logFormat.bind Log.Format.ofText?).getD .text
  let settings (setting : Log.Setting) (i : Invocation) : Settings :=
    ⟨palette, setting, format, i.logFile, Settings.historyIn env.home, host, env.noRoom, time⟩
  (filtered.2, match Invocation.ofArgs? args with
    | none => .error ⟨2, ⟨"", Invocation.usage⟩, []⟩
    | some i => match i.logLevel with
      | none => .ok (settings filtered.1 i, i.task)
      | some word => match Log.Level.ofText? word with
        | some level => .ok (settings (filtered.1.setLevel level) i, i.task)
        | none =>
          .error ⟨2, .warn (errorWord palette ++ s!": unknown log level '{word}'"), []⟩)

/-- Carries out a command line with all its input. -/
def carryOut (env : Environment) (host : Host) (time : String) (args : List String)
    (input : String) : Ending :=
  match settle env host time args with
  | (warned, .error ending) => { ending with shown := warned ++ ending.shown }
  | (warned, .ok (settings, task)) =>
    let ending := perform settings input task
    { ending with shown := warned ++ ending.shown }

end Command

end ClassLang

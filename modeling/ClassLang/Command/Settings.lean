import ClassLang.Command.Host
import ClassLang.Session
import ClassLang.Style

/-!
What the environment and the options ask for, and the sessions that follow from it.
-/

namespace ClassLang

/-- The part of the environment that counts. -/
structure Environment where
  /-- The text of a log filter. -/
  logFilter : Option String
  logFormat : Option String
  forceColour : Option String
  home : Option String
  /-- Whether the standard output is a device without room. -/
  noRoom : Bool

/-- How commands are carried out. -/
structure Settings where
  palette : Palette
  log : Log.Setting
  format : Log.Format
  logFile : Option String
  historyPath : String
  host : Host
  noRoom : Bool
  /-- The time that log records bear. -/
  time : String

namespace Settings

/-- Colours are used where they are asked for by anything but a zero. -/
def paletteFor (forceColour : Option String) : Palette :=
  ⟨match forceColour with
    | some s => s != "0"
    | none => false⟩

/-- The home directory where the environment names none. -/
def defaultHome : String := "/root"

/-- The file of the history, in the home directory. -/
def historyIn (home : Option String) : String :=
  let named := home.getD ""
  let dir := if named.isEmpty then defaultHome else named
  if dir.endsWith "/" then dir ++ ".mython_history" else dir ++ "/.mython_history"

/-- The sinks of a session's logger. -/
def sinks (s : Settings) : List Log.Sink :=
  match s.logFile with
  | none => [.errorStream]
  | some path =>
    match s.host.write path with
    | .ok .outputStream => if s.noRoom then [] else [.outputStream]
    | .ok .errorStream => [.errorStream]
    | .ok .nowhere => []
    | .ok (.file before) => [.file ⟨path, true, .ok before, false⟩]
    | .error reason => [.file ⟨path, true, .error reason, false⟩]

/-- A new session that names a file in its records. -/
def session (s : Settings) (file : String) (mode : TraceMode) : Session :=
  let machine : Machine := default
  let watch := { machine.watch with filter := s.log.filter, file, mode }
  let console : Console := if s.noRoom then .full "" else .silent
  ⟨{ machine with watch, console }, ⟨s.format, true, s.sinks⟩, s.time⟩

end Settings

namespace Session

/-- The log files of a session with what they hold now. -/
def logFiles (s : Session) : List (String × ByteArray) :=
  s.logger.sinks.filterMap fun
    | .file f => if f.opened then some (f.path, (f.content.toOption.bind id).getD .empty) else none
    | _ => none

end Session

end ClassLang

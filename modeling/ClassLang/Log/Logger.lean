import ClassLang.Log.Record
import ClassLang.Transcript

/-!
Where records go. A logger writes each record once and hands the text to its sinks in their order:
one of the two streams, a file, or a memory of the last texts.
-/

namespace ClassLang.Log

/-- A log file: what it holds if it exists, or why it cannot be opened. It is opened with the
first record; unless it is appended to, it is emptied then. -/
structure LogFile where
  path : String
  append : Bool
  content : Except String (Option ByteArray)
  opened : Bool

namespace LogFile

/-- The file with one more line. -/
def write (f : LogFile) (line : String) : LogFile :=
  match f.content with
  | .error _ => f
  | .ok old =>
    let kept := if f.append || f.opened then old.getD .empty else .empty
    { f with content := .ok (some (kept ++ (line ++ "\n").toUTF8)), opened := true }

/-- What a record shows: a warning if the file cannot be opened. -/
def shown (f : LogFile) : Transcript :=
  match f.content with
  | .error reason => .warn s!"Warning: could not open log file '{f.path}': {reason}"
  | .ok _ => .empty

end LogFile

/-- A place for written records. -/
inductive Sink where
  | outputStream
  | errorStream
  | file (f : LogFile)
  | memory (bound : Nat) (entries : List String)

namespace Sink

/-- The sink after one more line. A memory forgets its oldest lines beyond its bound. -/
def write (line : String) : Sink → Sink
  | .outputStream => .outputStream
  | .errorStream => .errorStream
  | .file f => .file (f.write line)
  | .memory bound entries =>
    let all := entries ++ [line]
    .memory bound (all.drop (all.length - bound))

/-- What one more line shows. -/
def shown (line : String) : Sink → Transcript
  | .outputStream => .say line
  | .errorStream => .warn line
  | .file f => f.shown
  | .memory .. => .empty

/-- The lines that a memory holds. -/
def entries : Sink → List String
  | .memory _ entries => entries
  | _ => []

end Sink

/-- A way to write records, and the places for them. -/
structure Logger where
  format : Format
  timestamps : Bool
  sinks : List Sink

namespace Logger

/-- A logger that keeps the last texts in memory. -/
def inMemory (format : Format) (bound : Nat) : Logger := ⟨format, false, [.memory bound []]⟩

/-- A record as the logger writes it at a time. -/
def write (l : Logger) (time : String) (r : Record) : String :=
  match l.format with
  | .json => r.json time
  | .compact => r.compact
  | .text => r.text (if l.timestamps then some time else none)

/-- The logger after a record. -/
def log (l : Logger) (time : String) (r : Record) : Logger :=
  { l with sinks := l.sinks.map (Sink.write (l.write time r)) }

/-- What a record shows. -/
def shown (l : Logger) (time : String) (r : Record) : Transcript :=
  l.sinks.foldl (fun t sink => t ++ sink.shown (l.write time r)) .empty

/-- The texts in memory, sink by sink, the oldest first. -/
def entries (l : Logger) : List String := l.sinks.flatMap Sink.entries

end Logger

end ClassLang.Log

import ClassLang.Log.Logger
import Mathlib.Data.List.DropRight

/-!
What the sinks of a logger have after a row of records. Each sink gets the text of every record
once, in their order, whatever the other sinks are: a memory keeps as many of the last texts as its
bound allows, a file has all of them behind what it kept, and a stream shows each of them.
-/

namespace ClassLang.Log

/-! One sink -/

section

variable {texts old : List String} {bound : Nat}

namespace LogFile

/-- What a file keeps of its content when a line is written: all of it if it is appended to or was
opened before, and nothing otherwise. -/
def keeps (f : LogFile) (content : Option ByteArray) : ByteArray :=
  if f.append || f.opened then content.getD .empty else .empty

/-- Lines as a file holds them, each with its end. -/
def bytes (texts : List String) : ByteArray := (String.join (texts.map (· ++ "\n"))).toUTF8

end LogFile

namespace Sink

/-- Whether a sink is the standard output. -/
def isOutput : Sink → Bool
  | .outputStream => true
  | _ => false

/-- Whether a sink is the error stream. -/
def isError : Sink → Bool
  | .errorStream => true
  | _ => false

/-- Whether a sink is no file that cannot be opened. -/
def Opens : Sink → Prop
  | .file f => ∃ content, f.content = .ok content
  | _ => True

/-- A line is shown by a stream, and by no other sink that can be opened. -/
theorem shown_eq {s : Sink} (h : s.Opens) (line : String) : s.shown line =
    ⟨if s.isOutput then line ++ "\n" else "", if s.isError then line ++ "\n" else ""⟩ := by
  cases s with
  | outputStream | errorStream | memory => rfl
  | file f =>
    obtain ⟨content, hcontent⟩ := h
    rw [shown, LogFile.shown, hcontent]
    rfl

end Sink

end

/-! Loggers -/

namespace Logger

/-- The texts of some records. -/
def texts (l : Logger) (es : List (String × Record)) : List String :=
  es.map fun e => l.write e.1 e.2

end Logger

end ClassLang.Log

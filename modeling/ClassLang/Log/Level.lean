import ClassLang.Text.Search

/-!
Log levels, from silence to the finest detail, and the formats of a log.
-/

namespace ClassLang.Log

/-- How much is logged, or how much a record matters. -/
inductive Level where
  | off
  | error
  | warn
  | info
  | debug
  | trace
deriving DecidableEq, Repr, Inhabited

namespace Level

/-- Levels in order; a finer level has a larger number. -/
def toNat : Level → Nat
  | .off => 0
  | .error => 1
  | .warn => 2
  | .info => 3
  | .debug => 4
  | .trace => 5

/-- A level as records show it. -/
def name : Level → String
  | .off => "OFF"
  | .error => "ERROR"
  | .warn => "WARN"
  | .info => "INFO"
  | .debug => "DEBUG"
  | .trace => "TRACE"

/-- The small letters of a text, for the letters of ASCII. -/
def lower (s : String) : String := String.ofList (s.toList.map Char.toLower)

/-- A level as a structured record shows it. -/
def key (l : Level) : String := lower l.name

/-- The level that a word means, in small or capital letters. -/
def ofText? (s : String) : Option Level :=
  match lower s with
  | "off" | "none" => some .off
  | "error" => some .error
  | "warn" | "warning" => some .warn
  | "info" => some .info
  | "debug" => some .debug
  | "trace" => some .trace
  | _ => none

end Level

/-- How a record is written. -/
inductive Format where
  | text
  | json
  | compact
deriving DecidableEq, Repr, Inhabited

namespace Format

/-- The format that a word means, in small or capital letters. -/
def ofText? (s : String) : Option Format :=
  match Level.lower s with
  | "text" => some .text
  | "json" => some .json
  | "compact" => some .compact
  | _ => none

end Format

end ClassLang.Log

import ClassLang.Dict
import ClassLang.Log.Filter
import ClassLang.Text.Json

/-!
Log records and their three written forms. Each form is one line, apart from the line feeds that a
message brings with it into the two plain ones.
-/

namespace ClassLang.Log

/-- Something that happened, with where and at which level. -/
structure Record where
  level : Level
  message : String
  target : String
  file : String
  line : Nat
  fields : List (String × String)
deriving DecidableEq, Repr

namespace Record

/-- The message with its fields behind it. -/
def body (r : Record) : String :=
  if r.fields.isEmpty then r.message
  else r.message ++ " " ++ " ".intercalate (r.fields.map fun f => f.1 ++ "=" ++ f.2)

/-- The plain form: level, time if there is one, target if there is one, place, message. -/
def text (time : Option String) (r : Record) : String :=
  let heads := ["[" ++ Text.padRight 5 r.level.name ++ "]"] ++ time.toList ++
    (if r.target.isEmpty then [] else [r.target]) ++ [s!"{r.file}:{r.line}"]
  " ".intercalate heads ++ " | " ++ r.body

/-- The short form: level and message. -/
def compact (r : Record) : String := "[" ++ r.level.name ++ "] " ++ r.body

/-- The structured form: a JSON object. Of fields with one name the last one stays. -/
def json (time : String) (r : Record) : String :=
  let fields := (Dict.ofList r.fields).toList.map fun f => (f.1, Text.Json.string f.2)
  String.ofList (Text.Json.object [
    ("ts", Text.Json.string time),
    ("level", Text.Json.string r.level.key),
    ("target", Text.Json.string r.target),
    ("file", Text.Json.string r.file),
    ("line", (toString r.line).toList),
    ("msg", Text.Json.string r.message),
    ("fields", Text.Json.object fields)])

end Record

end ClassLang.Log

/-!
Writing JSON: strings with their escapes, and objects. A text so written has no control character
in it, so it stays on one line.
-/

namespace ClassLang.Text.Json

/-- A digit in base sixteen. -/
def hexDigit (n : Nat) : Char := Nat.digitChar (n % 16)

/-- A character inside a JSON string. -/
def escape (c : Char) : List Char :=
  match c with
  | '"' => ['\\', '"']
  | '\\' => ['\\', '\\']
  | '\n' => ['\\', 'n']
  | '\r' => ['\\', 'r']
  | '\t' => ['\\', 't']
  | '\x08' => ['\\', 'b']
  | '\x0c' => ['\\', 'f']
  | c =>
    if c.toNat < 0x20 then ['\\', 'u', '0', '0', hexDigit (c.toNat / 16), hexDigit c.toNat]
    else [c]

/-- A JSON string. -/
def string (s : String) : List Char := '"' :: (s.toList.flatMap escape ++ ['"'])

/-- A JSON object of members that are written already. -/
def object (members : List (String × List Char)) : List Char :=
  '{' :: ((members.map fun m => string m.1 ++ ':' :: m.2).intersperse [',']).flatten ++ ['}']

end ClassLang.Text.Json

import ClassLang.Error
import ClassLang.Number
import ClassLang.Token

/-!
The lexemes: what may stand at a place inside a line, how far it reaches and which token it is.
Of the patterns that fit, the longest wins, and a reserved word wins over a name of its length.
-/

namespace ClassLang.Lexeme

/-- The characters that separate tokens inside a line. -/
def isGap (c : Char) : Bool := c == ' ' || c == '\t' || c == '\r'

/-- The decimal digits. -/
def isDigit (c : Char) : Bool := '0' ≤ c && c ≤ '9'

/-- The characters that begin a word. -/
def isWordStart (c : Char) : Bool := ('a' ≤ c && c ≤ 'z') || ('A' ≤ c && c ≤ 'Z') || c == '_'

/-- The characters that continue a word. -/
def isWordChar (c : Char) : Bool := isWordStart c || isDigit c

/-- The characters that are tokens by themselves. -/
def symbols : List Char := ['=', '.', ',', '(', ')', '+', '-', '*', '/', ':', '<', '>']

/-- The characters up to the closing quote and with it, counted behind the opening quote. A
backslash takes the next character with it. -/
def quotedLength? (quote : Char) : List Char → Option Nat
  | [] => none
  | '\\' :: [] => none
  | '\\' :: _ :: cs => (quotedLength? quote cs).map (· + 2)
  | c :: cs => if c = quote then some 1 else (quotedLength? quote cs).map (· + 1)

/-- The character that an escape stands for, by the character after the backslash. -/
def escaped? : Char → Option Char
  | 'n' => some '\n'
  | 't' => some '\t'
  | 'r' => some '\r'
  | '"' => some '"'
  | '\'' => some '\''
  | '\\' => some '\\'
  | _ => none

/-- The text that stands between two quotes, its escapes resolved from the left. -/
def unescape : List Char → Except Cause (List Char)
  | [] => .ok []
  | '\\' :: [] => .error .unterminatedString
  | '\\' :: c :: cs =>
    match escaped? c with
    | none => .error (.invalidEscape c)
    | some d => (unescape cs).map (d :: ·)
  | c :: cs => (unescape cs).map (c :: ·)

/-- What stands at a place: how many characters follow its first one, and the kind of token, or
why there is none. -/
structure Reading where
  more : Nat
  kind : Except Cause Kind

/-- A row of digits, which must be in range. -/
def number (c : Char) (cs : List Char) : Reading :=
  let ds := cs.takeWhile isDigit
  ⟨ds.length, match Number.ofInt? (Number.ofDigits (c :: ds)) with
    | some n => .ok (.number n)
    | none => .error (.invalidNumber (String.ofList (c :: ds)))⟩

/-- A word, reserved or not. -/
def word (c : Char) (cs : List Char) : Reading :=
  let ws := cs.takeWhile isWordChar
  let text := String.ofList (c :: ws)
  ⟨ws.length, .ok (match Keyword.ofText? text with
    | some k => .keyword k
    | none => .word text)⟩

/-- A string, from its opening quote to the next quote of the same kind. -/
def string (quote : Char) (cs : List Char) : Reading :=
  match quotedLength? quote cs with
  | none => ⟨0, .error .unterminatedString⟩
  | some n => ⟨n, (unescape (cs.take (n - 1))).map fun s => .string (String.ofList s)⟩

/-- An operator of two characters, or a character that is a token by itself. -/
def sign (column : Nat) (c : Char) (cs : List Char) : Reading :=
  match c, cs with
  | '=', '=' :: _ => ⟨1, .ok .equal⟩
  | '!', '=' :: _ => ⟨1, .ok .notEqual⟩
  | '<', '=' :: _ => ⟨1, .ok .lessOrEqual⟩
  | '>', '=' :: _ => ⟨1, .ok .greaterOrEqual⟩
  | c, _ =>
    ⟨0, if symbols.contains c then .ok (.symbol c)
      else .error (.unexpectedCharacter c.toString column)⟩

/-- What stands at a column, where `c` and then `cs` stand, with `c` no gap and no comment. -/
def read (column : Nat) (c : Char) (cs : List Char) : Reading :=
  if isDigit c then number c cs
  else if isWordStart c then word c cs
  else if c = '"' ∨ c = '\'' then string c cs
  else sign column c cs

end ClassLang.Lexeme

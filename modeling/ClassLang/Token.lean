import ClassLang.Pos

/-!
Tokens: the words, numbers, strings and signs of a program, and the marks that carry its line and
block structure.
-/

namespace ClassLang

/-- The reserved words. -/
inductive Keyword where
  | class_
  | return_
  | if_
  | else_
  | def_
  | print
  | and
  | or
  | not
  | none
  | true
  | false
deriving DecidableEq, Repr, Inhabited

namespace Keyword

/-- A reserved word as it is written. -/
def text : Keyword → String
  | .class_ => "class"
  | .return_ => "return"
  | .if_ => "if"
  | .else_ => "else"
  | .def_ => "def"
  | .print => "print"
  | .and => "and"
  | .or => "or"
  | .not => "not"
  | .none => "None"
  | .true => "True"
  | .false => "False"

/-- All reserved words. -/
def all : List Keyword :=
  [.class_, .return_, .if_, .else_, .def_, .print, .and, .or, .not, .none, .true, .false]

/-- The reserved word with a given spelling. -/
def ofText? (s : String) : Option Keyword := all.find? fun k => k.text == s

theorem ofText?_text (k : Keyword) : ofText? k.text = some k := by cases k <;> decide

theorem text_of_ofText? {s : String} {k : Keyword} (h : ofText? s = some k) : k.text = s := by
  simpa using List.find?_some h

end Keyword

/-- What a token is. -/
inductive Kind where
  | keyword (word : Keyword)
  | number (value : Int64)
  | string (value : String)
  | word (name : String)
  | equal
  | notEqual
  | lessOrEqual
  | greaterOrEqual
  | symbol (c : Char)
  | comment
  | newline
  | indent
  | dedent
  | eof
deriving DecidableEq, Inhabited

/-- Whether a kind is no number is decided by the kind, without a look at the numbers. -/
instance (k : Kind) : Decidable (∀ value, k = .number value → False) :=
  match k with
  | .number value => isFalse fun h => h value rfl
  | .keyword _ | .string _ | .word _ | .equal | .notEqual | .lessOrEqual | .greaterOrEqual
  | .symbol _ | .comment | .newline | .indent | .dedent | .eof => isTrue fun _ => Kind.noConfusion

/-- Whether a kind is no symbol is decided by the kind, without a look at the characters. -/
instance (k : Kind) : Decidable (∀ c, k = .symbol c → False) :=
  match k with
  | .symbol c => isFalse fun h => h c rfl
  | .keyword _ | .number _ | .string _ | .word _ | .equal | .notEqual | .lessOrEqual
  | .greaterOrEqual | .comment | .newline | .indent | .dedent | .eof => isTrue fun _ => Kind.noConfusion

/-- The name of a kind of token in messages. -/
def Kind.text : Kind → String
  | .keyword k => k.text
  | .number value => toString value.toInt
  | .string value => "\"" ++ value ++ "\""
  | .word name => name
  | .equal => "=="
  | .notEqual => "!="
  | .lessOrEqual => "<="
  | .greaterOrEqual => ">="
  | .symbol c => c.toString
  | .comment => "comment"
  | .newline => "newline"
  | .indent => "indent"
  | .dedent => "dedent"
  | .eof => "end of file"

/-- A token, the text it was read from and the place of that text. Marks of structure have no text
of their own. -/
structure Token where
  kind : Kind
  lexeme : String
  pos : Pos
deriving DecidableEq, Inhabited

namespace Token

/-- A mark of structure at a place. -/
def mark (kind : Kind) (pos : Pos) : Token := ⟨kind, "", pos⟩

/-- The line of a token. -/
def line (t : Token) : Nat := t.pos.line

/-- A token in words, with its line. -/
def describe (t : Token) : String := s!"{t.kind.text} at line {t.pos.line}"

end Token

end ClassLang

import ClassLang.Error
import ClassLang.Token
import ClassLang.Tree

/-!
Reading tokens one after another. The tokens to come are a list without the mark for the end of
the file; its place is known beforehand. Whatever is read comes with the tokens after it, and
these are fewer than before, so every reader stops.
-/

namespace ClassLang.Grammar

/-- What surrounds a place in a program. -/
structure Scope where
  /-- Where the file ends. -/
  stop : Pos
  /-- The classes defined so far. -/
  classes : ClassTable
  /-- The class whose methods are being read. -/
  current : Option String
  inMethod : Bool

namespace Scope

/-- Whether a name is one of a class here. -/
def constructs (s : Scope) (name : String) : Bool :=
  s.classes.contains name || s.current == some name

/-- The next token. -/
def peek (s : Scope) (ts : List Token) : Token := ts.headD (.mark .eof s.stop)

/-- The failure to find something expected at the next token. -/
def unexpected (s : Scope) (expected : Expected) (ts : List Token) : Error :=
  .located (.unexpectedToken expected (s.peek ts).kind.text) (s.peek ts).line

end Scope

/-- A failure of a program that the grammar admits. -/
def invalid (fault : SyntaxFault) (line : Nat) : Error := .located (.invalidProgram fault) line

/-- Something read from fewer than `bound` tokens, and the tokens after it. -/
structure Parsed (α : Type) (bound : Nat) where
  value : α
  rest : List Token
  shorter : rest.length < bound

namespace Parsed

variable {α β : Type} {m n : Nat}

/-- A value for which no token was read. -/
def nothing (value : α) (ts : List Token) : Parsed α (ts.length + 1) :=
  ⟨value, ts, Nat.lt_succ_self _⟩

/-- A value for which one token was read. -/
def one (value : α) (t : Token) (ts : List Token) : Parsed α (t :: ts).length :=
  ⟨value, ts, Nat.lt_succ_self _⟩

/-- The same reading with another value. -/
def map (f : α → β) (p : Parsed α n) : Parsed β n := ⟨f p.value, p.rest, p.shorter⟩

/-- The same reading under a larger bound. -/
def widen (p : Parsed α m) (h : m ≤ n) : Parsed α n :=
  ⟨p.value, p.rest, Nat.lt_of_lt_of_le p.shorter h⟩

/-- The same reading, from what another one left of its tokens. -/
def after (p : Parsed α m) (h : m < n) : Parsed α n := p.widen (Nat.le_of_lt h)

/-- The same reading with one token in front. -/
def behind {ts : List Token} (p : Parsed α ts.length) (t : Token) : Parsed α (t :: ts).length :=
  p.widen (Nat.le_succ _)

/-- The same reading where it might have been empty. -/
def orNothing (p : Parsed α n) : Parsed α (n + 1) := p.widen (Nat.le_succ n)

end Parsed

/-- A reading of the front of some tokens. -/
abbrev Reads (α : Type) (ts : List Token) := Except Error (Parsed α ts.length)

/-- The token of a given kind at the front, with the tokens after it. -/
def isNext (kind : Kind) : List Token → Bool
  | [] => false
  | t :: _ => t.kind == kind

/-- Reads a token of one kind. -/
def expect (s : Scope) (kind : Kind) (expected : Expected) : (ts : List Token) → Reads Token ts
  | [] => .error (s.unexpected expected [])
  | t :: ts =>
    if t.kind = kind then .ok (.one t t ts)
    else .error (s.unexpected expected (t :: ts))

/-- Reads a character that is a token by itself. -/
def expectSymbol (s : Scope) (c : Char) (ts : List Token) : Reads Token ts :=
  expect s (.symbol c) (.symbol c) ts

/-- Reads a name. -/
def expectWord (s : Scope) (expected : Expected) : (ts : List Token) → Reads String ts
  | [] => .error (s.unexpected expected [])
  | t :: ts =>
    match t.kind with
    | .word name => .ok (.one name t ts)
    | _ => .error (s.unexpected expected (t :: ts))

end ClassLang.Grammar

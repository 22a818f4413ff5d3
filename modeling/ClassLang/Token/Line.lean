import ClassLang.Text.Blank
import ClassLang.Text.Lines
import ClassLang.Token.Lexeme

/-!
A line of source by itself: its level of indentation and its tokens. A line of white space, or of
white space and a comment, has no content. Whether a line can be read depends on no other line.
-/

namespace ClassLang

/-- The content of a line. -/
structure Line where
  number : Nat
  level : Nat
  tokens : List Token
  /-- The column just past the end of the line. -/
  stop : Nat
deriving DecidableEq, Inhabited

namespace Line

/-- Reads tokens from a column on. The first argument counts the characters that still belong to
the token read last. -/
def scan (number : Nat) : Nat → Nat → List Char → Except Error (List Token)
  | _, _, [] => .ok []
  | n + 1, column, _ :: cs => scan number n (column + 1) cs
  | 0, column, c :: cs =>
    if Lexeme.isGap c then scan number 0 (column + 1) cs
    else if c = '#' then .ok []
    else
      let reading := Lexeme.read column c cs
      match reading.kind with
      | .error cause => .error (.located cause number)
      | .ok kind =>
        (scan number reading.more (column + 1) cs).map
          (⟨kind, String.ofList (c :: cs.take reading.more), ⟨number, column⟩⟩ :: ·)

/-- Holds of lines without content, given what follows their leading spaces. -/
def isIdle (rest : List Char) : Bool :=
  match Text.trimLeft rest with
  | [] => true
  | c :: _ => c == '#'

/-- Whether a line's indentation is allowed, given the number of its leading spaces and what
follows them. -/
def indentFault? (spaces : Nat) (rest : List Char) : Option IndentFault :=
  if rest.head? = some '\t' then some .tab
  else if spaces % 2 ≠ 0 then some (.uneven spaces)
  else none

/-- Reads a line by itself; `none` is a line without content. -/
def read (number : Nat) (text : List Char) : Except Error (Option Line) :=
  let spaces := (text.takeWhile (· == ' ')).length
  let rest := text.dropWhile (· == ' ')
  if isIdle rest then .ok none
  else match indentFault? spaces rest with
    | some fault => .error (.located (.invalidIndentation fault) number)
    | none => (scan number 0 (spaces + 1) rest).map fun tokens =>
      some ⟨number, spaces / 2, tokens, text.length + 1⟩

end Line

end ClassLang

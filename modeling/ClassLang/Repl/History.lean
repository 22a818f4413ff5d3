import ClassLang.Text.Lines

/-!
The lines entered before. A history keeps the last hundred, drops empty lines and a line equal to
the one before it, and is saved as a text with a head line and one escaped entry on each line.
-/

namespace ClassLang

/-- Entered lines, the oldest first, and how many of them are not saved yet. -/
structure History where
  entries : List String
  unsaved : Nat
deriving DecidableEq, Repr

namespace History

/-- The number of entries that are kept. -/
def bound : Nat := 100

/-- The head line of a saved history. -/
def head : String := "#V2"

/-- No entries. -/
def empty : History := ⟨[], 0⟩

/-- The entries with one more, unless it is empty or repeats the last one. -/
def push (entries : List String) (line : String) : List String :=
  if line.isEmpty ∨ entries.getLast? = some line then entries
  else
    let all := entries ++ [line]
    all.drop (all.length - bound)

/-- The history after a line was entered. -/
def add (h : History) (line : String) : History :=
  if line.isEmpty ∨ h.entries.getLast? = some line then h
  else ⟨push h.entries line, h.unsaved + 1⟩

/-- An entry on a line of its own. -/
def escape (entry : List Char) : List Char :=
  entry.flatMap fun c =>
    if c = '\\' then ['\\', '\\'] else if c = '\n' then ['\\', 'n'] else [c]

/-- The entry that a line holds; `none` if the line has an escape of another kind. -/
def unescape : List Char → Option (List Char)
  | [] => some []
  | '\\' :: 'n' :: cs => (unescape cs).map ('\n' :: ·)
  | '\\' :: '\\' :: cs => (unescape cs).map ('\\' :: ·)
  | c :: cs => if c = '\\' then none else (unescape cs).map (c :: ·)

/-- The history as it is saved. -/
def save (h : History) : String :=
  head ++ "\n" ++ String.join (h.entries.map fun e => String.ofList (escape e.toList) ++ "\n")

/-- The history that was saved as a text. A text without the head line holds its entries as they
are. -/
def load (text : String) : History :=
  match Text.lines text.toList with
  | [] => empty
  | first :: rest =>
    let rest := rest.filter (· ≠ [])
    let lines :=
      if first = head.toList then rest.map fun l => (unescape l).getD l else first :: rest
    ⟨(lines.map String.ofList).foldl push [], 0⟩

/-- The text of the lines in front of the first one that is no text, and whether there is no such
line. The first argument holds the bytes of the line that was begun, the last one first. -/
def textLines (begun : List UInt8) : List UInt8 → String × Bool
  | [] =>
    match String.fromUTF8? ⟨begun.reverse.toArray⟩ with
    | some text => (text, true)
    | none => ("", false)
  | b :: bs =>
    if b = 10 then
      match String.fromUTF8? ⟨(b :: begun).reverse.toArray⟩ with
      | some text =>
        let more := textLines [] bs
        (text ++ more.1, more.2)
      | none => ("", false)
    else textLines (b :: begun) bs

/-- The history of a file. Behind a line that is no text nothing is read, and what was read before
it counts as entered anew. -/
def ofBytes (bytes : ByteArray) : History :=
  let read := textLines [] bytes.toList
  let h := load read.1
  if read.2 then h else ⟨h.entries, h.entries.length⟩

end History

end ClassLang

import ClassLang.Text.Blank
import ClassLang.Text.Lines

/-!
When an entry at the prompt is complete: its parentheses are closed, and if it opens a block, an
empty line has ended it. Parentheses inside strings do not count.
-/

namespace ClassLang.Entry

/-- Where a character of an entry stands. -/
inductive Place where
  | code
  | string (quote : Char)
  /-- Behind a backslash in a string. -/
  | escape (quote : Char)
deriving DecidableEq, Repr

/-- The place after a character. A string ends with its quote or with its line. -/
def Place.next (c : Char) : Place → Place
  | .code => if c = '"' ∨ c = '\'' then .string c else .code
  | .string q => if c = '\\' then .escape q else if c = q ∨ c = '\n' then .code else .string q
  | .escape q => .string q

/-- What a character adds to the number of open parentheses. -/
def Place.weight (c : Char) : Place → Int
  | .code => if c = '(' then 1 else if c = ')' then -1 else 0
  | _ => 0

/-- The opening parentheses less the closing ones, from a place on. -/
def openParens : Place → List Char → Int
  | _, [] => 0
  | p, c :: cs => p.weight c + openParens (p.next c) cs

/-- Whether a line opens a block: a colon stands at its end or before its comment. -/
def opensBlock (line : List Char) : Bool :=
  (Text.trimRight (line.takeWhile (· != '#'))).getLast? == some ':'

/-- Whether an entry needs more lines. -/
def needsMore (entry : String) : Bool :=
  let cs := entry.toList
  decide (0 < openParens .code cs) ||
    ((Text.lines cs).any opensBlock && !(['\n', '\n'].isSuffixOf cs))

end ClassLang.Entry

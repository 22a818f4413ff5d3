/-!
Cutting a text at a separator, and its lines. Two readings of "line" are in use: the lexer
counts every part between line feeds, while a report shows terminated lines, so that a final
line feed opens no further line there.
-/

namespace ClassLang.Text

/-- The part before the first separator, and the parts after it. -/
def cut (sep : Char) (cs : List Char) : List Char × List (List Char) :=
  cs.foldr (fun c p => if c = sep then ([], p.1 :: p.2) else (c :: p.1, p.2)) ([], [])

/-- The parts between separators, at least one. -/
def splitOn (sep : Char) (cs : List Char) : List (List Char) :=
  (cut sep cs).1 :: (cut sep cs).2

@[simp] theorem splitOn_nil (sep : Char) : splitOn sep [] = [[]] := rfl

theorem splitOn_cons_sep (sep : Char) (cs : List Char) :
    splitOn sep (sep :: cs) = [] :: splitOn sep cs := by
  simp [splitOn, cut]

theorem splitOn_ne_nil (sep : Char) (cs : List Char) : splitOn sep cs ≠ [] := by
  simp [splitOn]

/-- Drops one carriage return at the end. -/
def dropReturn (cs : List Char) : List Char :=
  if cs.getLast? = some '\r' then cs.dropLast else cs

/-- Every part between line feeds, each without one final carriage return. -/
def sourceLines (cs : List Char) : List (List Char) := (splitOn '\n' cs).map dropReturn

/-- Keeps what is no line of its own: an empty part after the last line feed. The last part
keeps its carriage return, since no line feed follows it. -/
def terminated : List (List Char) → List (List Char)
  | [] => []
  | [last] => if last = [] then [] else [last]
  | l :: ls => dropReturn l :: terminated ls

/-- The lines of a text, each ended by a line feed, a carriage return and a line feed, or the
end of the text. -/
def lines (cs : List Char) : List (List Char) := terminated (splitOn '\n' cs)

end ClassLang.Text

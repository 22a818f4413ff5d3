/-!
Places in a source text.
-/

namespace ClassLang

/-- A line and a column, both counted from one; columns count characters. -/
structure Pos where
  line : Nat
  column : Nat
deriving DecidableEq, Repr, Inhabited

end ClassLang

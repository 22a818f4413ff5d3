import ClassLang.Log.Level
import ClassLang.Text.Blank
import ClassLang.Text.Lines

/-!
Which records are let through. A filter is a level for every target, with exceptions for the
targets that begin with a given text; the longest such beginning decides.
-/

namespace ClassLang.Log

/-- An exception of a filter. -/
structure Rule where
  target : String
  level : Level
deriving DecidableEq, Repr

/-- A level and its exceptions. -/
structure Filter where
  fallback : Level
  rules : List Rule
deriving DecidableEq, Repr

instance : Inhabited Filter := ⟨⟨.info, []⟩⟩

/-- A text that names no level. -/
structure LevelError where
  text : String
deriving DecidableEq, Repr

/-- The message for a text that names no level. -/
def LevelError.message (e : LevelError) : String := s!"Invalid log level '{e.text}'"

namespace Rule

/-- Whether a rule speaks of a target. A rule for the empty text speaks of none. -/
def applies (r : Rule) (target : String) : Bool :=
  !r.target.isEmpty && r.target.toList.isPrefixOf target.toList

/-- Of two rules, the one for the longer text; the first where they are equally long. -/
def better (best : Option Rule) (r : Rule) : Option Rule :=
  match best with
  | none => some r
  | some b => if b.target.length < r.target.length then some r else some b

end Rule

namespace Filter

/-- The rule that decides for a target. -/
def rule? (f : Filter) (target : String) : Option Rule :=
  (f.rules.filter (·.applies target)).foldl Rule.better none

/-- The level that holds for a target. -/
def levelFor (f : Filter) (target : String) : Level :=
  match f.rule? target with
  | some r => r.level
  | none => f.fallback

/-- Whether a record of a level is let through for a target. -/
def enables (f : Filter) (level : Level) (target : String) : Bool :=
  level != .off && level.toNat ≤ (f.levelFor target).toNat

/-- The level that a trimmed text names. -/
def level (cs : List Char) : Except LevelError Level :=
  match Level.ofText? (String.ofList cs) with
  | some l => .ok l
  | none => .error ⟨String.ofList cs⟩

/-- What a part of a filter's text means: a rule `target=level`, or a level by itself. -/
def part (cs : List Char) : Except LevelError (Level ⊕ Rule) :=
  match Text.cut '=' cs with
  | (_, []) => (level cs).map .inl
  | (target, _ :: _) =>
    (level (Text.trim (cs.drop (target.length + 1)))).map fun l =>
      .inr ⟨String.ofList (Text.trim target), l⟩

/-- The parts of a filter's text, trimmed, without the empty ones. -/
def parts (spec : String) : List (List Char) :=
  ((Text.splitOn ',' spec.toList).map Text.trim).filter (· ≠ [])

/-- A filter with one more part: a rule is added, a level replaces the one for all targets. -/
def extend (f : Filter) : Level ⊕ Rule → Filter
  | .inl l => { f with fallback := l }
  | .inr r => { f with rules := f.rules ++ [r] }

/-- The filter that a text describes, its parts separated by commas. -/
def ofText (spec : String) : Except LevelError Filter := do
  let ps ← (parts spec).mapM part
  return ps.foldl extend ⟨.info, []⟩

end Filter

/-- What is logged at present: a level to show, and the filter that is consulted. -/
structure Setting where
  level : Level
  filter : Filter
deriving DecidableEq, Repr

namespace Setting

/-- Information and what matters more, for every target. -/
def initial : Setting := ⟨.info, default⟩

instance : Inhabited Setting := ⟨initial⟩

/-- Replaces the filter by the one that a text describes. A text that describes none changes
nothing. -/
def setFilter (s : Setting) (spec : String) : Except LevelError Setting := do
  let f ← Filter.ofText spec
  return { s with level := f.fallback, filter := f }

/-- Replaces the level for targets without a rule. -/
def setLevel (s : Setting) (l : Level) : Setting :=
  ⟨l, { s.filter with fallback := l }⟩

end Setting

end ClassLang.Log

/-!
What a command leaves on its two streams.
-/

namespace ClassLang

/-- The text of the two streams, each in its order. -/
structure Transcript where
  out : String
  err : String
deriving DecidableEq, Repr, Inhabited

namespace Transcript

/-- Nothing. -/
def empty : Transcript := ⟨"", ""⟩

/-- A line for the standard output. -/
def say (line : String) : Transcript := ⟨line ++ "\n", ""⟩

/-- A line for the error stream. -/
def warn (line : String) : Transcript := ⟨"", line ++ "\n"⟩

instance : Append Transcript := ⟨fun a b => ⟨a.out ++ b.out, a.err ++ b.err⟩⟩

/-- Lines for the standard output. -/
def sayAll (lines : List String) : Transcript := ⟨String.join (lines.map (· ++ "\n")), ""⟩

/-- Lines for the error stream. -/
def warnAll (lines : List String) : Transcript := ⟨"", String.join (lines.map (· ++ "\n"))⟩

end Transcript

end ClassLang

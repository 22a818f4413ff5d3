import ClassLang.Text.Cluster

/-!
Lines as they were typed. A backspace in a line takes away the cluster that was typed before it, if
there is one left.
-/

namespace ClassLang

/-- What is left of a line so far. -/
structure Typed where
  /-- The characters, the last one first. -/
  text : List Char
  /-- The sizes of the clusters in bytes, the last one first. -/
  sizes : List Nat
deriving DecidableEq, Repr

namespace Typed

/-- The character that takes away the cluster before it. -/
def backspace : Char := '\x08'

/-- Nothing. -/
def empty : Typed := ⟨[], []⟩

/-- The size of a cluster as it is kept, in one byte. -/
def sizeOf (cluster : List Char) : Nat := (String.ofList cluster).utf8ByteSize % 256

/-- Characters without the first so many bytes. -/
def dropBytes : Nat → List Char → List Char
  | 0, cs => cs
  | _ + 1, [] => []
  | n + 1, c :: cs => dropBytes (n + 1 - c.utf8Size) cs

/-- What is left after one cluster more. -/
def take (t : Typed) (cluster : List Char) : Typed :=
  if cluster = [backspace] then
    match t.sizes with
    | [] => t
    | n :: sizes => ⟨dropBytes n t.text, sizes⟩
  else ⟨cluster.reverse ++ t.text, sizeOf cluster :: t.sizes⟩

/-- What is left of a line. -/
def correct (line : String) : String :=
  if line.toList.contains backspace then
    String.ofList ((Text.clusters line.toList).foldl take empty).text.reverse
  else line

end Typed

end ClassLang

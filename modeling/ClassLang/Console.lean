/-!
Where printed text goes: a buffer that keeps it, a stream that passes it on line by line, or a
stream whose device has no room left. Main statement: passing text on line by line loses nothing
(`gather_append`).
-/

namespace ClassLang

/-- A receiver of printed text. -/
inductive Console where
  /-- Keeps what is printed. -/
  | buffer (text : String)
  /-- Passes on what is printed: the texts passed on so far, and the text that waits for the end of
  its line. -/
  | stream (passed : Array String) (waiting : String)
  /-- Cannot pass on anything; the text that waits. -/
  | full (waiting : String)
deriving DecidableEq, Repr

namespace Console

/-- A buffer that holds nothing yet. -/
def empty : Console := .buffer ""

/-- A stream that has passed on nothing yet. -/
def silent : Console := .stream #[] ""

instance : Inhabited Console := ⟨empty⟩

/-- The bytes that a stream gathers before it has to pass some on. -/
def capacity : Nat := 1024

/-- Why a device without room refuses a text. -/
def noRoom : String := "No space left on device (os error 28)"

/-- A text up to the end of its last complete line, and what stands behind that. -/
def completeLines (text : String) : String × String :=
  let back := text.toList.reverse
  (String.ofList (back.dropWhile (· ≠ '\n')).reverse,
    String.ofList (back.takeWhile (· ≠ '\n')).reverse)

/-- What is passed on when a text without the end of a line comes behind one that waits, and what
waits then. -/
def hold (waiting text : String) : String × String :=
  if capacity ≤ text.utf8ByteSize then (waiting ++ text, "")
  else if capacity < waiting.utf8ByteSize + text.utf8ByteSize then (waiting, text)
  else ("", waiting ++ text)

/-- What is passed on when a text comes behind one that waits, and what waits then. -/
def gather (waiting text : String) : String × String :=
  let parts := completeLines text
  if parts.1.isEmpty then hold waiting text
  else
    let rest := hold "" parts.2
    (waiting ++ parts.1 ++ rest.1, rest.2)

/-- Prints a text, or says why that fails. -/
def write (text : String) : Console → Except String Console
  | .buffer old => .ok (.buffer (old ++ text))
  | .stream passed waiting =>
    let g := gather waiting text
    .ok (.stream (if g.1.isEmpty then passed else passed.push g.1) g.2)
  | .full waiting =>
    let g := gather waiting text
    if g.1.isEmpty then .ok (.full g.2) else .error noRoom

/-- What was kept. -/
def captured : Console → String
  | .buffer text => text
  | _ => ""

/-- The same console with nothing kept. -/
def cleared : Console → Console
  | .buffer _ => .buffer ""
  | c => c

/-- The texts passed on. -/
def passed : Console → Array String
  | .stream passed _ => passed
  | _ => #[]

/-- The same console with the texts passed on forgotten. -/
def drained : Console → Console
  | .stream _ waiting => .stream #[] waiting
  | c => c

/-- The text that a stream still has to pass on. -/
def waiting : Console → String
  | .stream _ waiting => waiting
  | _ => ""

/-- The same console after a stream passed on all it has. -/
def flushed : Console → Console
  | .stream .. => silent
  | c => c

theorem completeLines_append (text : String) :
    (completeLines text).1 ++ (completeLines text).2 = text := by
  rw [← String.toList_inj]
  simp only [completeLines, String.toList_append, String.toList_ofList, ← List.reverse_append,
    List.takeWhile_append_dropWhile, List.reverse_reverse]

theorem hold_append (waiting text : String) :
    (hold waiting text).1 ++ (hold waiting text).2 = waiting ++ text := by
  unfold hold
  split
  · simp
  · split <;> simp

/-- Nothing is lost and nothing changes places. -/
theorem gather_append (waiting text : String) :
    (gather waiting text).1 ++ (gather waiting text).2 = waiting ++ text := by
  unfold gather
  simp only []
  split
  · exact hold_append waiting text
  · rw [String.append_assoc, hold_append, String.empty_append, String.append_assoc,
      completeLines_append]

end Console

end ClassLang

import ClassLang.Eval
import ClassLang.Log.Logger

/-!
A session: a machine whose events go to a logger and to the two streams. What is run never waits
for the logger and never sees it. A record on the standard output stands where it was logged:
behind the text that the console had passed on by then, and before the text that still waited.
-/

namespace ClassLang

/-- What comes of events. -/
structure Reported where
  logger : Log.Logger
  /-- What they put on the error stream. -/
  warned : String
  /-- What they put on the standard output, each text with the number of printed texts before it. -/
  said : Array (Nat × String)

namespace Reported

/-- Reports an event: a trace line goes to the error stream, a record to the logger. -/
def add (time : String) (r : Reported) : Event → Reported
  | .trace line => { r with warned := r.warned ++ (line ++ "\n") }
  | .record rec passed =>
    let t := r.logger.shown time rec
    ⟨r.logger.log time rec, r.warned ++ t.err,
      if t.out.isEmpty then r.said else r.said.push (passed, t.out)⟩

/-- The standard output: what was printed, with what the events put between. -/
def output (r : Reported) (printed : Array String) : String :=
  let upTo (out : String × Nat) (n : Nat) : String :=
    out.1 ++ String.join (printed.extract out.2 n).toList
  let out := r.said.foldl (fun out s => (upTo out s.1 ++ s.2, s.1)) ("", 0)
  upTo out printed.size

end Reported

/-- A machine with a logger, and the time that its records bear. -/
structure Session where
  machine : Machine
  logger : Log.Logger
  time : String

/-- What came of a part of a run in a session. -/
structure Performed (α : Type) where
  answer : Except Error α
  session : Session
  shown : Transcript

namespace Session

/-- Reports the events of the machine and what its console passed on, and forgets them. -/
def settle {α : Type} (s : Session) (answer : Except Error α) (m : Machine) : Performed α :=
  let r := m.watch.events.foldl (Reported.add s.time) ⟨s.logger, "", #[]⟩
  let machine := { m with
    watch := { m.watch with events := #[] }
    console := m.console.drained }
  ⟨answer, { s with machine, logger := r.logger }, ⟨r.output m.console.passed, r.warned⟩⟩

/-- Runs a part in a session. -/
def perform {α : Type} (s : Session) (part : Run α) : Performed α :=
  match part s.machine with
  | .ok a m => s.settle (.ok a) m
  | .error e m => s.settle (.error e) m

/-- What the console still holds back. -/
def rest (s : Session) : Transcript := ⟨s.machine.console.waiting, ""⟩

/-- Shows lines on the standard output, behind what the console still held back. -/
def say (s : Session) (lines : List String) : Session × Transcript :=
  ({ s with machine := { s.machine with console := s.machine.console.flushed } },
    s.rest ++ .sayAll lines)

end Session

end ClassLang

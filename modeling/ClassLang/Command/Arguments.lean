/-!
The command line: options, and a task with the file that it works on.
-/

namespace ClassLang

/-- What the command line asks for. -/
inductive Task where
  | run (path : String)
  | repl
  | check (path : String)
  | tokens (path : String)
  | tree (path : String)
  | trace (path : String) (verbose : Bool)
deriving DecidableEq, Repr

/-- A task and its options. -/
structure Invocation where
  task : Task
  logFile : Option String
  logLevel : Option String
deriving DecidableEq, Repr

namespace Arguments

/-- A word that is no option. Behind `--` a word is never the name of a command. -/
structure Word where
  text : String
  shielded : Bool
deriving DecidableEq, Repr

/-- The words of a command line, sorted. -/
structure Words where
  /-- The words that are no option, in their order. -/
  plain : List Word
  logFile : Option String
  logLevel : Option String
  verbose : Bool

/-- The value of an option that is written in one word with it. -/
def joined? (option word : String) : Option String :=
  let lead := (option ++ "=").toList
  if lead.isPrefixOf word.toList then some (String.ofList (word.toList.drop lead.length)) else none

/-- Sorts the words of a command line. A later option replaces an earlier one. -/
def sort (w : Words) : List String → Option Words
  | [] => some w
  | "--" :: rest => some { w with plain := w.plain ++ rest.map (⟨·, true⟩) }
  | "--log-file" :: value :: rest => sort { w with logFile := some value } rest
  | "--log-level" :: value :: rest => sort { w with logLevel := some value } rest
  | "-v" :: rest => sort { w with verbose := true } rest
  | "--verbose" :: rest => sort { w with verbose := true } rest
  | word :: rest =>
    match joined? "--log-file" word, joined? "--log-level" word with
    | some value, _ => sort { w with logFile := some value } rest
    | _, some value => sort { w with logLevel := some value } rest
    | none, none =>
      if word.startsWith "-" && word != "-" then none
      else sort { w with plain := w.plain ++ [⟨word, false⟩] } rest

/-- The task of a command with the words behind it. -/
def command? (verbose : Bool) : List String → Option Task
  | ["run", path] => some (.run path)
  | ["repl"] => some .repl
  | ["check", path] => some (.check path)
  | ["tokens", path] => some (.tokens path)
  | ["ast", path] => some (.tree path)
  | ["trace", path] => some (.trace path verbose)
  | _ => none

/-- Whether a word is the name of a command. -/
def isCommand (word : Word) : Bool :=
  !word.shielded && ["run", "repl", "check", "tokens", "ast", "trace"].contains word.text

/-- The task that plain words mean: a command, also behind a file, or a file to run, or nothing,
which starts the prompt. -/
def task? (verbose : Bool) : List Word → Option Task
  | [] => some .repl
  | word :: rest =>
    if isCommand word then command? verbose ((word :: rest).map (·.text))
    else match rest with
      | [] => some (.run word.text)
      | next :: _ => if isCommand next then command? verbose (rest.map (·.text)) else none

end Arguments

namespace Invocation

/-- What a command line asks for, if it asks for something. -/
def ofArgs? (args : List String) : Option Invocation := do
  let w ← Arguments.sort ⟨[], none, none, false⟩ args
  let task ← Arguments.task? w.verbose w.plain
  let tracing := match task with
    | .trace _ _ => true
    | _ => false
  if w.verbose && !tracing then none
  else return ⟨task, w.logFile, w.logLevel⟩

/-- How the program is used. -/
def usage : String :=
  "Usage: mython [--log-file PATH] [--log-level LEVEL] [FILE]\n" ++
  "       mython [OPTIONS] run|check|tokens|ast FILE\n" ++
  "       mython [OPTIONS] trace [--verbose] FILE\n" ++
  "       mython [OPTIONS] repl\n"

end Invocation

end ClassLang

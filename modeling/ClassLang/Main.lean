import ClassLang.Command
import Std.Time.Zoned

/-!
The program: it looks up the environment and the files that a command line names, carries the
command out, and prints and writes what comes of it. At the prompt it does so line by line.
-/

namespace ClassLang.Main

/-- Why a file operation failed. -/
def reason : IO.Error → String
  | .noFileOrDirectory .. => Host.notFound
  | .permissionDenied .. => "Permission denied (os error 13)"
  | .inappropriateType _ code _ => if code = 21 then Host.isADirectory else Host.notADirectory
  | .invalidArgument _ code _ =>
    if code = 36 then Host.nameTooLong else "Invalid argument (os error 22)"
  | .resourceExhausted .. => Console.noRoom
  | e => toString e

/-- The bytes of a file, or why they cannot be read. -/
def readFile (path : String) : IO (Except String ByteArray) := do
  try
    return .ok (← IO.FS.readBinFile path)
  catch e => return .error (reason e)

/-- Whether a path leads to a directory. -/
def isDirectory (path : String) : IO Bool := do
  let full := (← IO.currentDir) / path
  full.isDir

/-- The directory in which a path ends. -/
def directoryOf (path : String) : String :=
  match (Text.splitOn '/' path.toList).dropLast with
  | [] => "."
  | [[]] => "/"
  | parts => "/".intercalate (parts.map String.ofList)

/-- Where a text goes that is written at a path, or why it cannot be written. -/
def outlet (path : String) : IO (Except String Outlet) := do
  if let some d := Place.device? path then return d.outlet
  match ← readFile path with
  | .ok bytes => return .ok (.file (some bytes))
  | .error e =>
    if e = Host.notFound && (← isDirectory (directoryOf path)) then return .ok (.file none)
    else return .error e

/-- The paths at which a task reads. -/
def readPaths (historyPath : String) : Task → List String
  | .repl => [historyPath]
  | .run path | .check path | .tokens path | .tree path | .trace path _ => [path]

/-- The paths at which a command line writes. -/
def writePaths (historyPath : String) (i : Invocation) : List String :=
  i.logFile.toList ++ if i.task = .repl then [historyPath] else []

/-- The host of a command line: the files at its paths, as they are now. -/
def hostFor (historyPath : String) (i : Invocation) : IO Host := do
  let read ← (readPaths historyPath i.task).mapM fun path => return (path, ← readFile path)
  let write ← (writePaths historyPath i).mapM fun path => return (path, ← outlet path)
  return ⟨fun path => (read.lookup path).getD (.error Host.notFound),
    fun path => (write.lookup path).getD (.error Host.notFound)⟩

/-- The environment of the process. -/
def environment : IO Environment := do
  return ⟨← IO.getEnv "MYTHON_LOG", ← IO.getEnv "MYTHON_LOG_FORMAT",
    ← IO.getEnv "CLICOLOR_FORCE", ← IO.getEnv "HOME", false⟩

/-- The local time, to a thousandth of a second. -/
def now : IO String := do
  let t ← Std.Time.PlainDateTime.now
  let pad (width : Nat) (n : Int) : String :=
    let digits := toString n
    Text.times (width - digits.length) "0" ++ digits
  let date := pad 4 t.date.year ++ "-" ++ pad 2 t.date.month.val ++ "-" ++ pad 2 t.date.day.val
  let time := pad 2 t.time.hour.val ++ ":" ++ pad 2 t.time.minute.val ++ ":" ++
    pad 2 t.time.second.val
  return date ++ " " ++ time ++ "." ++ pad 3 (t.time.nanosecond.val / 1000000)

/-- Prints a transcript. -/
def print (t : Transcript) : IO Unit := do
  IO.print t.out
  (← IO.getStdout).flush
  IO.eprint t.err

/-- Writes files. -/
def writeFiles (files : List (String × ByteArray)) : IO Unit := do
  for (path, bytes) in files do
    try
      IO.FS.writeBinFile path bytes
    catch e => IO.eprintln (path ++ ": " ++ reason e)

/-- A line of input without its end, as the prompt takes it. -/
def withoutEnd (line : String) : String :=
  match (Text.lines line.toList).head? with
  | some cs => String.ofList cs
  | none => ""

/-- Takes lines from the standard input until they or the session end. -/
partial def prompt (input : IO.FS.Stream) (r : Repl) : IO Repl := do
  if r.finished then return r
  let line ← input.getLine
  if line.isEmpty then return r
  let (r, shown) := r.step (withoutEnd line)
  print shown
  prompt input r

/-- Carries out a command line; the prompt is answered line by line. -/
def carryOut (args : List String) : IO UInt32 := do
  let env ← environment
  let historyPath := Settings.historyIn env.home
  let host ← match Invocation.ofArgs? args with
    | some i => hostFor historyPath i
    | none => pure ⟨fun _ => .error Host.notFound, fun _ => .error Host.notFound⟩
  let time ← now
  match Command.settle env host time args with
  | (warned, .ok (settings, .repl)) => do
    print (warned ++ .sayAll (Repl.banner settings.palette))
    let r ← prompt (← IO.getStdin) (Repl.start settings)
    let saved := r.finish
    print (saved.2 ++ r.session.rest)
    writeFiles (r.session.logFiles ++ saved.1)
    return 0
  | _ => do
    let ending := Command.carryOut env host time args ""
    print ending.shown
    writeFiles ending.files
    return ending.code.toUInt32

end ClassLang.Main

/-- Runs the command line. -/
def main (args : List String) : IO UInt32 := ClassLang.Main.carryOut args

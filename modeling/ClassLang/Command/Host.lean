import ClassLang.Dict
import ClassLang.Text.Lines

/-!
The files around a program. A host answers two questions about a path: what can be read there, and
where a text goes that is written there. A folder is a host whose files are known beforehand; of
the system around it only what every system has is known.
-/

namespace ClassLang

/-- Where a text goes that is written. -/
inductive Outlet where
  /-- Into a file, with what it holds if it exists. -/
  | file (before : Option ByteArray)
  | outputStream
  | errorStream
  | nowhere

/-- What a program can learn about files. -/
structure Host where
  /-- The bytes that are read at a path, or why they cannot be read. -/
  read : String → Except String ByteArray
  /-- Where a text goes that is written at a path, or why it cannot be written. -/
  write : String → Except String Outlet

namespace Host

def notFound : String := "No such file or directory (os error 2)"
def notADirectory : String := "Not a directory (os error 20)"
def isADirectory : String := "Is a directory (os error 21)"
def nameTooLong : String := "File name too long (os error 36)"
def noSuchDevice : String := "No such device or address (os error 6)"
def outOfMemory : String := "out of memory"
def notText : String := "stream did not contain valid UTF-8"

/-- The text of a file, or why it cannot be read. -/
def readText (h : Host) (path : String) : Except String String := do
  match String.fromUTF8? (← h.read path) with
  | some text => return text
  | none => throw notText

end Host

namespace Path

/-- The steps of a path: what stands between its slashes. An empty step and a dot lead nowhere
else. -/
def steps (path : String) : List String := (Text.splitOn '/' path.toList).map String.ofList

/-- The names in a path. -/
def names (path : String) : List String := (steps path).filter fun n => n ≠ "" ∧ n ≠ "."

/-- The last name in a path, if that is the name of something inside a directory. -/
def fileName? (path : String) : Option String :=
  match (names path).getLast? with
  | some ".." | none => none
  | some name => some name

/-- What stands behind the last dot of a name that has something before it. -/
def extension? (path : String) : Option String :=
  match fileName? path with
  | none => none
  | some name =>
    match (Text.splitOn '.' name.toList).reverse with
    | last :: before :: more => if before = [] ∧ more = [] then none else some (String.ofList last)
    | _ => none

/-- The greatest number of bytes in a name. -/
def nameBound : Nat := 255

/-- The number of bytes from which on a path is too long. -/
def bound : Nat := 4096

end Path

/-- Devices that every system has. -/
inductive Device where
  /-- Holds nothing and keeps nothing. -/
  | null
  /-- Holds bytes without end and keeps nothing. -/
  | endless
  | input
  | output
  | errors
  /-- The terminal of the program, which has none. -/
  | terminal
deriving DecidableEq, Repr

namespace Device

/-- The device at the end of some names that lead from the root of the system. -/
def ofNames? : List String → Option Device
  | ["dev", "null"] => some .null
  | ["dev", "full"] | ["dev", "zero"] | ["dev", "random"] | ["dev", "urandom"] => some .endless
  | ["dev", "tty"] => some .terminal
  | ["proc", "self", "fd", "0"] => some .input
  | ["proc", "self", "fd", "1"] => some .output
  | ["proc", "self", "fd", "2"] => some .errors
  | _ => none

/-- What is read from a device, with some text on the standard input. -/
def read (input : String) : Device → Except String ByteArray
  | .input => .ok input.toUTF8
  | .endless => .error Host.outOfMemory
  | .terminal => .error Host.noSuchDevice
  | .null | .output | .errors => .ok .empty

/-- Where a text goes that is written to a device. -/
def outlet : Device → Except String Outlet
  | .output => .ok .outputStream
  | .errors => .ok .errorStream
  | .terminal => .error Host.noSuchDevice
  | .null | .endless | .input => .ok .nowhere

end Device

/-- What stands at a place. -/
inductive Stored where
  | file (bytes : ByteArray)
  | directory
  | device (d : Device)

/-- A place that a path leads to. -/
inductive Place where
  /-- In the folder, by the names from there. -/
  | inside (names : List String)
  /-- A directory that the folder lies in. -/
  | around
  /-- By the names from the root of the system. -/
  | system (names : List String)
  /-- In a directory around the folder. -/
  | beside
deriving DecidableEq, Repr

namespace Place

/-- The place behind some names from the root of the system: some names stand for other places. -/
def behind : List String → Place
  | ["dev", "fd"] => .system ["proc", "self", "fd"]
  | ["dev", "stdin"] => .system ["proc", "self", "fd", "0"]
  | ["dev", "stdout"] => .system ["proc", "self", "fd", "1"]
  | ["dev", "stderr"] => .system ["proc", "self", "fd", "2"]
  | ["proc", "self", "cwd"] => .inside []
  | names => .system names

/-- The place of a name in a directory. -/
def inner (name : String) : Place → Place
  | .inside names => .inside (names ++ [name])
  | .system names => behind (names ++ [name])
  | .around | .beside => .beside

/-- The directory around a directory. The root of the system lies in itself. -/
def outer : Place → Place
  | .inside [] => .around
  | .inside names => .inside names.dropLast
  | .system names => .system names.dropLast
  | .around | .beside => .around

/-- The place where a path begins. -/
def start (path : String) : Place := if path.startsWith "/" then .system [] else .inside []

/-- The directories that every system has. -/
def systemDirectories : List (List String) :=
  [[], ["bin"], ["dev"], ["etc"], ["home"], ["proc"], ["proc", "self"], ["proc", "self", "fd"],
    ["root"], ["tmp"], ["usr"], ["var"]]

/-- The device that a path names. -/
def device? (path : String) : Option Device :=
  let go (place : Place) (name : String) := if name = ".." then place.outer else place.inner name
  match (Path.names path).foldl go (start path) with
  | .system names => Device.ofNames? names
  | _ => none

/-- Whether a place is in a directory in which no file can be made. -/
def isFixed : Place → Bool
  | .system ("proc" :: _) => true
  | _ => false

end Place

/-- Files and directories by the names that lead to them, joined by slashes, and the text on the
standard input. -/
structure Folder where
  entries : Dict Stored
  input : String

namespace Folder

/-- What stands in the folder: a directory is also what leads to something. -/
def inside? (f : Folder) (names : List String) : Option Stored :=
  match names, f.entries.get? ("/".intercalate names) with
  | [], _ => some .directory
  | _, some stored => some stored
  | names, none =>
    if f.entries.keys.any ("/".intercalate names ++ "/").isPrefixOf then some .directory else none

/-- What stands at a place. -/
def at? (f : Folder) : Place → Option Stored
  | .inside names => f.inside? names
  | .around => some .directory
  | .system names =>
    if Place.systemDirectories.contains names then some .directory
    else (Device.ofNames? names).map .device
  | .beside => none

/-- Takes a step of a path, which begins in a directory. -/
def step (f : Folder) (place : Place) (name : String) : Except String Place :=
  match f.at? place with
  | some .directory =>
    if name = "" ∨ name = "." then .ok place
    else if name = ".." then .ok place.outer
    else if Path.nameBound < name.utf8ByteSize then .error Host.nameTooLong
    else .ok (place.inner name)
  | some _ => .error Host.notADirectory
  | none => .error Host.notFound

/-- Takes some steps of a path. -/
def walk (f : Folder) (path : String) (steps : List String) : Except String Place :=
  if path.isEmpty then .error Host.notFound
  else if Path.bound ≤ path.utf8ByteSize then .error Host.nameTooLong
  else steps.foldlM f.step (.start path)

/-- Reads at a path. -/
def read (f : Folder) (path : String) : Except String ByteArray := do
  match f.at? (← f.walk path (Path.steps path)) with
  | some .directory => throw Host.isADirectory
  | some (.file bytes) => return bytes
  | some (.device d) => d.read f.input
  | none => throw Host.notFound

/-- Where a text goes that is written at a path. A path that ends with a slash or with dots is one
of a directory, whatever stands there. -/
def write (f : Folder) (path : String) : Except String Outlet := do
  let steps := (Path.steps path).reverse
  match steps.dropWhile (· = "") with
  | [] => if path.isEmpty then throw Host.notFound else throw Host.isADirectory
  | name :: front => do
    let place ← f.walk path (front.reverse ++ [""])
    if path.endsWith "/" ∨ name = "." ∨ name = ".." then throw Host.isADirectory
    else
      let place ← f.step place name
      match f.at? place with
      | some .directory => throw Host.isADirectory
      | some (.file bytes) => return .file (some bytes)
      | some (.device d) => d.outlet
      | none => if place.isFixed then throw Host.notFound else return .file none

/-- The folder after files were written in it. -/
def leave (f : Folder) (files : List (String × ByteArray)) : Folder :=
  files.foldl (fun f w => match f.walk w.1 (Path.steps w.1) with
    | .ok (.inside names) =>
      { f with entries := f.entries.insert ("/".intercalate names) (.file w.2) }
    | _ => f) f

/-- The folder as a host. -/
def host (f : Folder) : Host := ⟨f.read, f.write⟩

end Folder

end ClassLang

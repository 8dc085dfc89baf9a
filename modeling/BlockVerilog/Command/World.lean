import BlockVerilog.Command.Run
import BlockVerilog.OrderedMap

/-!
Worlds of files, in which runs of the command line are pure functions.

A world is a tree of directories with a working directory in it, a text on the standard input, and
what was written to the files that stand for the other two streams. Beside the working directory it
has the directories and devices that programs expect.
-/

namespace BlockVerilog.Command

/-- Files that stand for something else than a text. -/
inductive Device where
  /-- Empty, whatever is written to it. -/
  | null
  /-- Without an end, and without room. -/
  | full
  | input
  | output
  | errors
  deriving DecidableEq, Repr

/-- What stands at a place of a directory tree. -/
inductive Entry where
  | directory
  | file (text : String)
  /-- A file whose bytes are no UTF-8 text. -/
  | binary
  | device (device : Device)
  deriving DecidableEq, Repr

/-- The names that lead to a place, from the outermost directory on. -/
abbrev Place := List String

structure World where
  entries : OrderedMap Place Entry
  stdin : String
  /-- What was written to the standard output as a file. -/
  stdout : String := ""
  /-- What was written to the standard error as a file. -/
  stderr : String := ""

/-- Why a path leads nowhere. -/
inductive PathFault where
  | notFound
  | notDirectory
  | nameTooLong
  /-- It holds a zero byte, which ends a path. -/
  | zeroByte
  deriving DecidableEq, Repr

namespace PathFault

def reason : PathFault → String
  | notFound => "No such file or directory (os error 2)"
  | notDirectory => "Not a directory (os error 20)"
  | nameTooLong => "File name too long (os error 36)"
  | zeroByte => "file name contained an unexpected NUL byte"

/-- Why nothing can be read where a path leads nowhere. -/
def readFailure : PathFault → ReadFailure
  | notFound => .notFound
  | fault => .other fault.reason

end PathFault

/-- How many bytes a name may have. -/
def maxNameSize : Nat := 255

/-- How many bytes a path may have. -/
def maxPathSize : Nat := 4095

def directoryReason : String := "Is a directory (os error 21)"

def noMemoryReason : String := "Cannot allocate memory (os error 12)"

def noSpaceReason : String := "No space left on device (os error 28)"

/-- The directory that relative paths start from. No path can name it: a part of a path that is
empty stays where it is. -/
def home : Place := ["tmp", ""]

/-- What a world has before anything is put into it. -/
def usualEntries : List (Place × Entry) :=
  [[], ["bin"], ["dev"], ["dev", "fd"], ["etc"], ["home"], ["lib"], ["opt"], ["proc"], ["root"],
    ["run"], ["sbin"], ["sys"], ["tmp"], ["usr"], ["var"], home].map (·, .directory) ++
  [(["dev", "null"], .device .null), (["dev", "full"], .device .full),
    (["dev", "stdin"], .device .input), (["dev", "fd", "0"], .device .input),
    (["dev", "stdout"], .device .output), (["dev", "fd", "1"], .device .output),
    (["dev", "stderr"], .device .errors), (["dev", "fd", "2"], .device .errors)]

/-- The parts of a path. -/
def parts (path : String) : List String :=
  (path.toList.splitOn '/').map String.ofList

/-- The directory that a path starts from. -/
def origin (path : String) : Place :=
  if path.toList.head? = some '/' then [] else home

/-- Why a path leads nowhere in any world. -/
def pathFault? (path : String) : Option PathFault :=
  if '\x00' ∈ path.toList then some .zeroByte
  else if path = "" then some .notFound
  else if maxPathSize < path.utf8ByteSize then some .nameTooLong
  else none

namespace World

/-- A world with an empty working directory. -/
def empty (stdin : String) : World := { entries := .ofList usualEntries, stdin }

/-- What stands at a place. -/
def entry? (world : World) (place : Place) : Option Entry := world.entries.get? place

def put (world : World) (place : Place) (entry : Entry) : World :=
  { world with entries := world.entries.insert place entry }

/-- Put an entry at a path, and directories around it where there are none. -/
def create (world : World) (path : String) (entry : Entry) : World :=
  let place := (parts path).foldl (fun place part =>
    if part = "" ∨ part = "." then place
    else if part = ".." then place.dropLast
    else place ++ [part]) (origin path)
  let around := (List.range place.length).map place.take
  let opened := around.foldl (fun world outer =>
    if (world.entry? outer).isSome then world else world.put outer .directory) world
  opened.put place entry

/-- Go on from a place, which has to be a directory, by one part of a path. The outermost directory
is the one around itself. -/
def step (world : World) (place : Place) (part : String) : Except PathFault Place :=
  match world.entry? place with
  | none => .error .notFound
  | some .directory =>
      if part = "" ∨ part = "." then .ok place
      else if part = ".." then .ok place.dropLast
      else if maxNameSize < part.utf8ByteSize then .error .nameTooLong
      else .ok (place ++ [part])
  | some _ => .error .notDirectory

/-- The place that parts of a path lead to from another place. -/
def walk (world : World) (start : Place) (parts : List String) : Except PathFault Place :=
  parts.foldlM world.step start

/-- The place that a path leads to. -/
def place (world : World) (path : String) : Except PathFault Place :=
  match pathFault? path with
  | some fault => .error fault
  | none => world.walk (origin path) (parts path)

/-- What a device gives to a reader. -/
def readDevice (world : World) : Device → Except ReadFailure String
  | .input => .ok world.stdin
  | .full => .error (.other noMemoryReason)
  | .null | .output | .errors => .ok ""

/-- The text of the file at a path. -/
def read (world : World) (path : String) : Except ReadFailure String :=
  match world.place path with
  | .error fault => .error fault.readFailure
  | .ok place =>
      match world.entry? place with
      | none => .error .notFound
      | some .directory => .error (.other directoryReason)
      | some .binary => .error .notText
      | some (.device device) => world.readDevice device
      | some (.file text) => .ok text

/-- Write a text to a device. -/
def writeDevice (world : World) (device : Device) (text : String) : Option String × World :=
  match device with
  | .null | .input => (none, world)
  | .full => (if text = "" then none else some noSpaceReason, world)
  | .output => (none, { world with stdout := world.stdout ++ text })
  | .errors => (none, { world with stderr := world.stderr ++ text })

/-- Whether a path asks for a directory, by a slash at its end, in one that is there. No file is
made at such a path. -/
def asksForDirectory (world : World) (path : String) : Bool :=
  let named := ((parts path).reverse.dropWhile (· = "")).reverse
  (pathFault? path).isNone && path.toList.getLast? = some '/' &&
    (world.walk (origin path) (named.dropLast ++ [""])).isOk

/-- Give the file at a path its text; nothing changes if that fails. -/
def write (world : World) (path text : String) : Option String × World :=
  match world.place path with
  | .error fault =>
      (some (if world.asksForDirectory path then directoryReason else fault.reason), world)
  | .ok place =>
      match world.entry? place with
      | some .directory => (some directoryReason, world)
      | some (.device device) => world.writeDevice device text
      | _ => (none, world.put place (.file text))

/-- The world as the surroundings of a run. -/
def host : Host (StateM World) where
  readFile path := do return (← get).read path
  readStdin := do return .ok (← get).stdin
  writeFile path text := do
    let (failure, world) := (← get).write path text
    set world
    return failure

/-- A run of the command line, and the world after it. What the run wrote to a stream as a file
comes in front of what it says there at its end. -/
def run (world : World) (arguments : List String) : Exit × World :=
  let (exit, after) := (Command.run host arguments).run { world with stdout := "", stderr := "" }
  let stdout := after.stdout ++ exit.stdout
  let stderr := after.stderr ++ exit.stderr
  (⟨exit.code, stdout, stderr⟩, after)

end World

end BlockVerilog.Command

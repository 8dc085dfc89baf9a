import BlockVerilog.Command.Run

/-!
The program: the command line on real files.
-/

namespace BlockVerilog.Command

/-- The text in bytes, or the failure of bytes that are no text. -/
def decodeText (bytes : ByteArray) : Except ReadFailure String :=
  match String.fromUTF8? bytes with
  | some text => .ok text
  | none => .error .notText

/-- An error of the operating system in its own words, and its number. -/
def systemReason : IO.Error → String
  | .otherError number text | .resourceBusy number text | .resourceVanished number text
  | .unsupportedOperation number text | .hardwareFault number text
  | .unsatisfiedConstraints number text | .illegalOperation number text
  | .protocolError number text | .timeExpired number text
  | .alreadyExists _ number text | .interrupted _ number text | .noFileOrDirectory _ number text
  | .invalidArgument _ number text | .permissionDenied _ number text
  | .resourceExhausted _ number text | .inappropriateType _ number text
  | .noSuchThing _ number text => text ++ " (os error " ++ toString number ++ ")"
  | error => toString error

/-- How the operating system's errors count. -/
def readFailure : IO.Error → ReadFailure
  | .noFileOrDirectory .. => .notFound
  | .permissionDenied .. => .permissionDenied
  | error => .other (systemReason error)

def realFiles : Host IO where
  readFile path := do
    try
      return decodeText (← IO.FS.withFile path .read (·.readBinToEnd))
    catch error => return .error (readFailure error)
  readStdin := do
    try
      let bytes ← (← IO.getStdin).readBinToEnd
      return (decodeText bytes).mapError fun _ => "stream did not contain valid UTF-8"
    catch error => return .error (systemReason error)
  writeFile path text := do
    try
      IO.FS.writeFile path text
      return none
    catch error => return some (systemReason error)

end BlockVerilog.Command

def main (arguments : List String) : IO UInt32 := do
  let exit ← BlockVerilog.Command.run BlockVerilog.Command.realFiles arguments
  IO.print exit.stdout
  IO.eprint exit.stderr
  return exit.code.toUInt32

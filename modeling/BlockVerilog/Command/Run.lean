import BlockVerilog.Command.Options
import BlockVerilog.Command.Source

/-!
The command line: a document in, code or a summary out.

What it needs of its surroundings is a `Host`, so that a run can be carried out on real files and
reasoned about on `World`s alike.
-/

namespace BlockVerilog.Command

/-- Why a file could not be read. -/
inductive ReadFailure where
  | notFound
  | permissionDenied
  | notText
  | other (reason : String)
  deriving DecidableEq, Repr

/-- What a run asks of its surroundings. -/
structure Host (m : Type → Type) where
  readFile : (path : String) → m (Except ReadFailure String)
  /-- All of the standard input, or the reason why it cannot be read. -/
  readStdin : m (Except String String)
  /-- Give a file its text; the result is the reason why that failed. -/
  writeFile : (path text : String) → m (Option String)

inductive CommandError where
  | usage (error : UsageError)
  | notFound (path : String)
  | permissionDenied (path : String)
  | notText (path : String)
  | unreadable (path reason : String)
  | unwritable (path reason : String)
  /-- The document was read and gives no result. -/
  | failed (error : PassError)
  deriving DecidableEq, Repr

namespace CommandError

def message : CommandError → String
  | usage error => error.message
  | notFound path => "cannot find file '" ++ path ++ "'"
  | permissionDenied path => "permission denied reading '" ++ path ++ "'"
  | notText path => "'" ++ path ++ "' contains invalid UTF-8 data"
  | unreadable path reason => "error reading '" ++ path ++ "': " ++ reason
  | unwritable path reason => "error writing '" ++ path ++ "': " ++ reason
  | failed error => error.message

/-- The error of a file that could not be read. -/
def ofRead (path : String) : ReadFailure → CommandError
  | .notFound => notFound path
  | .permissionDenied => permissionDenied path
  | .notText => notText path
  | .other reason => unreadable path reason

end CommandError

section

variable {m : Type → Type} [Monad m]

/-- What stands for the standard input in place of a path. -/
def stdinPath : String := "-"

/-- The text of a document. -/
def readInput (host : Host m) (path : String) : m (Except CommandError String) := do
  if path = stdinPath then
    return (← host.readStdin).mapError (.unreadable "<stdin>")
  else
    return (← host.readFile path).mapError (.ofRead path)

/-- Check the document at a path. -/
def checkFile (host : Host m) (path : String) : m (Except CommandError String) := do
  match ← readInput host path with
  | .error e => return .error e
  | .ok text =>
      match checkSource text with
      | .error e => return .error (.failed e)
      | .ok summary => return .ok ("OK: " ++ path ++ " (" ++ summary ++ ")")

/-- The code of the document that options name. -/
def generateFile (host : Host m) (options : Options) : m (Except CommandError String) := do
  match ← readInput host options.input with
  | .error e => return .error e
  | .ok text => return (generateSource text options.config).mapError .failed

def writeOutput (host : Host m) (path text : String) : m (Except CommandError Unit) := do
  match ← host.writeFile path text with
  | some reason => return .error (.unwritable path reason)
  | none => return .ok ()

/-- Do what options ask for; the result is what goes to the standard output. -/
def perform (host : Host m) (options : Options) : m (Except CommandError String) := do
  if options.checkOnly then
    return (← checkFile host options.input).map (· ++ "\n")
  else
    match ← generateFile host options with
    | .error e => return .error e
    | .ok code =>
        match options.output with
        | none => return .ok code
        | some path => return (← writeOutput host path code).map fun _ => ""

/-- How a run ends. -/
structure Exit where
  code : Nat
  stdout : String
  stderr : String
  deriving DecidableEq, Repr

def usageText : String :=
  "vgen - block graph to Verilog generator\n" ++
  "\n" ++
  "Usage: vgen <graph.json | -> [options]\n" ++
  "\n" ++
  "Options:\n" ++
  "  -o <path>            Write Verilog to a file (default: stdout)\n" ++
  "  --indent=<n>         Spaces per nesting level (default: 2)\n" ++
  "  --comment-wrap=<n>   Comment line width (default: 60)\n" ++
  "  --timescale=<scale>  Emit `timescale <scale> for delay statements\n" ++
  "  --reserve=<a,b,...>  Extra names never given to variables\n" ++
  "  --check              Validate the graph only\n" ++
  "  help, --help         Show this help message\n" ++
  "  version, --version   Show version information\n" ++
  "\n" ++
  "Set RUST_LOG=vgen_codegen=trace to trace handler dispatch.\n" ++
  "\n" ++
  "Examples:\n" ++
  "  vgen design.json -o design.v\n" ++
  "  vgen - --timescale=1ns/1ps < testbench.json\n" ++
  "  vgen design.json --check\n"

def versionText : String := "vgen 0.1.0\n"

/-- The words that ask for the usage text. -/
def helpWords : List String := ["help", "--help", "-h"]

def versionWords : List String := ["version", "--version", "-V"]

/-- A run with the arguments behind the program's name. -/
def run (host : Host m) (arguments : List String) : m Exit :=
  match arguments with
  | [] => return ⟨1, usageText, ""⟩
  | first :: _ =>
      if first ∈ helpWords then return ⟨0, usageText, ""⟩
      else if first ∈ versionWords then return ⟨0, versionText, ""⟩
      else
        match parse arguments with
        | .error e =>
            return ⟨1, "", "error: " ++ e.message ++ "\n\nRun `vgen --help` for usage.\n"⟩
        | .ok options => do
            match ← perform host options with
            | .error e => return ⟨1, "", "error: " ++ e.message ++ "\n"⟩
            | .ok text => return ⟨0, text, ""⟩

end

end BlockVerilog.Command

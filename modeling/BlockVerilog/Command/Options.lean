import BlockVerilog.Config
import BlockVerilog.Number.Decimal
import BlockVerilog.Text.Blank

/-!
Command-line options.

Arguments are read from left to right, and the first one that does not fit decides. `-o` takes the
argument after it, whatever that is; every other option holds its value behind an equals sign.
-/

namespace BlockVerilog.Command

/-- What a command line asks for. -/
structure Options where
  /-- The path of the document; a hyphen is the standard input. -/
  input : String
  /-- Where the code goes; the standard output where absent. -/
  output : Option String
  config : Config
  checkOnly : Bool
  deriving DecidableEq, Repr

inductive UsageError where
  | outputMissing
  | notNumber (option value : String)
  | timescaleMissing
  | unknownOption (argument : String)
  | unexpectedArgument (argument : String)
  | documentMissing
  deriving DecidableEq, Repr

namespace UsageError

def message : UsageError → String
  | outputMissing => "-o needs a path"
  | notNumber option value => option ++ " expects a number, got '" ++ value ++ "'"
  | timescaleMissing => "--timescale needs a value"
  | unknownOption argument => "unknown option '" ++ argument ++ "'"
  | unexpectedArgument argument => "unexpected argument '" ++ argument ++ "'"
  | documentMissing => "missing graph document"

end UsageError

/-- What a single argument asks for. -/
inductive Request where
  | indent (spaces : Nat)
  | commentWrap (width : Nat)
  | timescale (scale : String)
  | reserve (words : List String)
  | checkOnly
  | document (path : String)
  deriving DecidableEq, Repr

/-- The value of an option with this lead, if the argument is one. -/
def valueOf? (lead argument : String) : Option String :=
  if lead.toList <+: argument.toList then
    some (String.ofList (argument.toList.drop lead.toList.length))
  else none

/-- A number of 64 bits. -/
def count (option value : String) : Except UsageError Nat :=
  match Numeral.parseNat (Nat.pow 2 64) value.toList with
  | some n => .ok n
  | none => .error (.notNumber option value)

/-- Comma-separated words, without the white space around them and without empty ones. -/
def wordList (text : String) : List String :=
  ((text.toList.splitOn ',').map fun word => String.ofList (Text.trim word)).filter (· ≠ "")

/-- What an argument other than `-o` asks for. -/
def request (argument : String) : Except UsageError Request :=
  if let some value := valueOf? "--indent=" argument then
    (count "--indent" value).map .indent
  else if let some value := valueOf? "--comment-wrap=" argument then
    (count "--comment-wrap" value).map .commentWrap
  else if let some scale := valueOf? "--timescale=" argument then
    if scale = "" then .error .timescaleMissing else .ok (.timescale scale)
  else if let some words := valueOf? "--reserve=" argument then
    .ok (.reserve (wordList words))
  else if argument = "--check" then .ok .checkOnly
  else if argument.toList.head? = some '-' ∧ argument ≠ "-" then .error (.unknownOption argument)
  else .ok (.document argument)

/-- Options of which the document may still be missing. -/
structure Draft where
  input : Option String
  output : Option String
  config : Config
  checkOnly : Bool

namespace Draft

/-- Nothing asked for. -/
def empty : Draft := ⟨none, none, .standard, false⟩

/-- Take in what an argument asks for. Later values replace earlier ones, reserved words add up,
and there is one document. -/
def take (draft : Draft) : Request → Except UsageError Draft
  | .indent spaces =>
      .ok { draft with config.indent := String.ofList (List.replicate spaces ' ') }
  | .commentWrap width => .ok { draft with config.commentWrap := width }
  | .timescale scale => .ok { draft with config.timescale := some scale }
  | .reserve words => .ok { draft with config.reserved := draft.config.reserved ++ words }
  | .checkOnly => .ok { draft with checkOnly := true }
  | .document path =>
      match draft.input with
      | none => .ok { draft with input := some path }
      | some _ => .error (.unexpectedArgument path)

/-- Take in arguments from left to right. -/
def takeAll (draft : Draft) : List String → Except UsageError Draft
  | [] => .ok draft
  | "-o" :: arguments =>
      match arguments with
      | [] => .error .outputMissing
      | path :: rest => takeAll { draft with output := some path } rest
  | argument :: rest =>
      match request argument with
      | .error e => .error e
      | .ok request =>
          match draft.take request with
          | .error e => .error e
          | .ok draft => takeAll draft rest

end Draft

/-- The options of an argument list. -/
def parse (arguments : List String) : Except UsageError Options :=
  match Draft.empty.takeAll arguments with
  | .error e => .error e
  | .ok draft =>
      match draft.input with
      | none => .error .documentMissing
      | some input => .ok ⟨input, draft.output, draft.config, draft.checkOnly⟩

end BlockVerilog.Command

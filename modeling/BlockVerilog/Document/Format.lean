import BlockVerilog.Document.Basic
import BlockVerilog.Json.Record
import BlockVerilog.Json.Skip

/-!
The JSON form of graph documents.

A document, its variables and its nodes are records, slots and fields are objects with any keys.
`Program.parse` reads a text and resolves what it finds.
-/

namespace BlockVerilog.Document

open Json

/-- How many brackets of a document may be open at a time. -/
def nestingLimit : Nat := 127

/-- The brackets around the value of a field: document, node list, node and fields. -/
def fieldDepth : Nat := 4

/-- A literal; other values are read to their end before they are refused. -/
def fieldValue : Reader FieldValue where
  read tokens :=
    match tokens with
    | .bool value :: rest => .ok (.bool value, rest)
    | .number value :: rest => .ok (.number value.toBinary64, rest)
    | .string value :: rest => .ok (.text value, rest)
    | _ =>
        match skip (nestingLimit - fieldDepth) tokens with
        | .error fault => .error fault
        | .ok rest => .error (.inObject .notLiteral rest)
  progress := by
    intro tokens value rest success
    split at success
    next => cases success; simp
    next => cases success; simp
    next => cases success; simp
    next => split at success <;> cases success

/-- Fields; of several values for a name the last stays. -/
def fields : Reader Fields :=
  object "a map" ∅ fun known name => fieldValue.map (known.insert name)

/-- Slots in the order of the text, repeated names included. -/
def slotEntries : Reader (List SlotEntry) :=
  object "a map from slot name to node id or null" [] fun known name =>
    (optional string).map fun target => known ++ [(name, target)]

/-- A field that the record takes as it is read. -/
def field {σ α : Type} (name : String) (optional : Bool) (value : Reader α) (set : σ → α → σ) :
    RecordField σ :=
  ⟨name, optional, fun record => value.map (set record)⟩

def variableFields : List (RecordField Variable) :=
  [field "id" false string fun v id => { v with id := id },
    field "name" false string fun v name => { v with name := name }]

def variableReader : Reader Variable :=
  record "struct VariableDocument" variableFields ⟨"", ""⟩

def nodeFields : List (RecordField DocumentNode) :=
  [field "id" false string fun n id => { n with id := id },
    field "kind" false string fun n kind => { n with kind := kind },
    field "fields" true fields fun n fields => { n with fields := fields },
    field "values" true slotEntries fun n values => { n with values := values },
    field "statements" true slotEntries fun n statements => { n with statements := statements },
    field "next" true (optional string) fun n next => { n with next := next },
    field "output" true bool fun n output => { n with output := output },
    field "comment" true (optional string) fun n comment => { n with comment := comment },
    field "enabled" true bool fun n enabled => { n with enabled := enabled }]

/-- What a node has where its document says nothing. -/
def blankNode : DocumentNode := ⟨"", "", ∅, [], [], none, false, none, true⟩

def nodeReader : Reader DocumentNode :=
  record "struct NodeDocument" nodeFields blankNode

def documentFields : List (RecordField Document) :=
  [field "variables" true (array variableReader) fun d vars =>
      { d with vars := vars },
    field "nodes" false (array nodeReader) fun d nodes => { d with nodes := nodes },
    field "roots" true (optional (array string)) fun d roots => { d with roots := roots }]

def blank : Document := ⟨[], [], none⟩

def reader : Reader Document :=
  record "struct GraphDocument" documentFields blank

/-- The document that tokens write, with nothing behind it. -/
def ofTokens (tokens : List Token) : Except Fault Document :=
  match reader.read tokens with
  | .error fault => .error fault
  | .ok (document, []) => .ok document
  | .ok (_, rest) => .error (.syntactic .trailingText .within rest)

/-- The document that a text writes. -/
def parse (text : String) : Except Defect Document :=
  match ofTokens (tokens text.toList) with
  | .error fault => .error (.unreadable (fault.locate text.toList))
  | .ok document => .ok document

end BlockVerilog.Document

namespace BlockVerilog.Program

/-- The program that a text describes. -/
def parse (text : String) : Except Defect Program :=
  Document.parse text >>= Document.toProgram

end BlockVerilog.Program

import BlockVerilog.OrderedMap

/-!
One-shot declarations: the first text for a key stays, and texts stand in the order they came.
-/

namespace BlockVerilog

/-- Declaration texts by key, in the order of definition. -/
structure Declarations where
  byKey : OrderedMap String String

namespace Declarations

instance : EmptyCollection Declarations := ⟨⟨∅⟩⟩

def contains (declarations : Declarations) (key : String) : Bool :=
  declarations.byKey.contains key

/-- Store a text unless its key is defined; tells whether it was stored. -/
def define (declarations : Declarations) (key text : String) : Bool × Declarations :=
  (!declarations.contains key, ⟨declarations.byKey.insertNew key text⟩)

/-- The stored texts in order. -/
def texts (declarations : Declarations) : List String := declarations.byKey.values

def size (declarations : Declarations) : Nat := declarations.byKey.size

def isEmpty (declarations : Declarations) : Bool := declarations.byKey.isEmpty

/-- What stands before a body: the texts with a blank line between them, and two more behind. -/
def hoistOver (declarations : Declarations) (body : String) : String :=
  if declarations.isEmpty then body
  else "\n\n".intercalate declarations.texts ++ "\n\n\n" ++ body

end Declarations

end BlockVerilog

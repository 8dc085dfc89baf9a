import BlockVerilog.Pass.Handler

/-!
Handlers described by a list of parts, for kinds that are not built in.
-/

namespace BlockVerilog.Handlers

/-- A piece of the text of a node. -/
inductive Part where
  | literal (text : String)
  /-- The expression in a value slot. -/
  | value (slot : String) (required : Precedence) (fallback : String)
  | statements (slot : String)
  | field (name : String)
  | freshName (wanted : String)
  | variableName (id : String)
  /-- Declare a text: one of two texts tells whether its key was new. -/
  | define (key declared ifNew ifOld : String)
  /-- Refuse the value of a field. -/
  | refuse (name : String)
  deriving DecidableEq, Repr

namespace Part

/-- The text of a part. -/
def script (site : Site) : Part → Script String
  | literal text => .done text
  | value slot required fallback => site.valueOr slot required fallback
  | statements slot => site.statements slot
  | field name => .done (site.field name)
  | freshName wanted => .freshName wanted .done
  | variableName id => .variableName id .done
  | define key declared ifNew ifOld => .define key declared fun isNew =>
      .done (if isNew then ifNew else ifOld)
  | refuse name => site.invalidField name

/-- The texts of parts, from left to right. -/
def scriptAll (site : Site) : List Part → Script String
  | [] => .done ""
  | part :: rest => do
      let first ← part.script site
      let more ← scriptAll site rest
      return first ++ more

/-- An expression made of parts. -/
def expression (level : Precedence) (parts : List Part) : Handler :=
  .expression fun site => do
    let joined ← scriptAll site parts
    return (joined, level)

/-- A statement made of parts. -/
def statement (parts : List Part) : Handler := .statement fun site => scriptAll site parts

end Part

end BlockVerilog.Handlers

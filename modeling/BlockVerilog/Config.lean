/-!
What a user can set about generated code.
-/

namespace BlockVerilog

structure Config where
  /-- What stands before every line of a nested body. -/
  indent : String
  /-- The width of comment lines. -/
  commentWrap : Nat
  /-- The time scale that delays declare, if any. -/
  timescale : Option String
  /-- Names that are never given, on top of the keywords. -/
  reserved : List String
  deriving DecidableEq, Repr

namespace Config

/-- Two spaces of indentation, comments of sixty columns, nothing else. -/
def standard : Config := ⟨"  ", 60, none, []⟩

instance : Inhabited Config := ⟨standard⟩

end Config

end BlockVerilog

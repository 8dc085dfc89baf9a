import BlockVerilog.OrderedMap

/-!
Node ids, and the named attachment points that hold them.
-/

namespace BlockVerilog

/-- The position of a node in its graph. -/
abbrev NodeId := Nat

/-- How an id is shown. -/
def NodeId.text (id : NodeId) : String := "NodeId(" ++ toString id ++ ")"

/-- Attachment points in the order they were declared in; one may be declared and empty. -/
abbrev Slots := OrderedMap String (Option NodeId)

namespace Slots

/-- What a slot is connected to. -/
def target? (slots : Slots) (name : String) : Option NodeId :=
  (slots.get? name).join

/-- The connected nodes in slot order, with repetitions. -/
def targets (slots : Slots) : List NodeId :=
  slots.entries.filterMap Prod.snd

end Slots

end BlockVerilog

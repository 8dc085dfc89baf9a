import BlockVerilog.Proofs.Handlers.Bodies
import BlockVerilog.Proofs.Pass.Rests

/-!
What a text shows of the statements that are printed.

It is empty only if nothing is printed. The line of each display is among its lines, behind the
indentation of the bodies that the display stands in.
-/

namespace BlockVerilog

open Text

/-- A text to display, and how many bodies stand around it. -/
structure Display where
  depth : Nat
  text : String
  deriving DecidableEq, Repr

/-- The same display in one more body. -/
def Display.inBody (display : Display) : Display := ⟨display.depth + 1, display.text⟩

/-- What a statement that is printed displays. -/
def Graph.display? (g : Graph) (entry : Printed) : Option Display :=
  ((g.get? entry.id).bind Node.displayed?).map (Display.mk entry.depth)

theorem Graph.display?_inBody (g : Graph) (entry : Printed) :
    g.display? entry.inBody = (g.display? entry).map Display.inBody := by
  rw [display?, display?, Option.map_map]
  rfl

namespace Generator

/-- The line that a display is printed on. -/
def lineOf (gen : Generator) (display : Display) : List Char :=
  (List.replicate display.depth gen.config.indent.toList).flatten ++
    (displayStatement display.text).toList

/-- The lines of the displays among what is printed. -/
def displayLines (gen : Generator) (entries : List Printed) : List (List Char) :=
  (entries.filterMap gen.graph.display?).map gen.lineOf

variable {gen : Generator}

theorem lineOf_inBody (display : Display) :
    gen.lineOf display.inBody = gen.config.indent.toList ++ gen.lineOf display := by
  rw [lineOf, Display.inBody, List.replicate_succ, List.flatten_cons, List.append_assoc]
  rfl

theorem displayLines_append (entries more : List Printed) :
    gen.displayLines (entries ++ more) = gen.displayLines entries ++ gen.displayLines more := by
  rw [displayLines, List.filterMap_append, List.map_append]
  rfl

theorem displayLines_inBody (entries : List Printed) :
    gen.displayLines (entries.map Printed.inBody) =
      (gen.displayLines entries).map (gen.config.indent.toList ++ ·) := by
  have displays : (entries.map Printed.inBody).filterMap gen.graph.display? =
      (entries.filterMap gen.graph.display?).map Display.inBody := by
    rw [List.filterMap_map, List.map_filterMap]
    exact List.filterMap_congr fun entry _ => gen.graph.display?_inBody entry
  rw [displayLines, displays, displayLines, List.map_map, List.map_map]
  exact List.map_congr_left fun display _ => lineOf_inBody display

/-- Indentation leaves lines as they are. -/
def IndentsLines (gen : Generator) : Prop := '\n' ∉ gen.config.indent.toList

/-- A text prints statements: it is not empty if there are any, and it holds the lines of those that
display something. -/
structure Shows (gen : Generator) (entries : List Printed) (text : String) : Prop where
  blocks : IsBlocks text
  nonempty : text = "" → entries = []
  lines : gen.IndentsLines → (gen.displayLines entries).Sublist (fullLines text.toList)

theorem shows_nil : gen.Shows [] "" := ⟨.inl rfl, fun _ => rfl, fun _ => List.nil_sublist _⟩

/-- Where there is a statement to show, the text is not empty. -/
theorem Shows.isBlock_of_any {entries : List Printed} {text : String}
    (shows : gen.Shows entries text) {p : Printed → Bool} (some : entries.any p = true) :
    IsBlock text := by
  apply shows.blocks.resolve_left
  intro empty
  rw [shows.nonempty empty] at some
  cases some

/-- What is not printed from a statement shows nothing. -/
theorem shows_of_block {text : String} (block : IsBlock text) : gen.Shows [] text :=
  ⟨.inr block, fun _ => rfl, fun _ => List.nil_sublist _⟩

theorem Shows.append {entries more : List Printed} {first second : String}
    (shows : gen.Shows entries first) (next : gen.Shows more second) :
    gen.Shows (entries ++ more) (first ++ second) where
  blocks := shows.blocks.append next.blocks
  nonempty empty := by
    obtain ⟨rfl, rfl⟩ := String.append_eq_empty_iff.mp empty
    rw [shows.nonempty rfl, next.nonempty rfl]
    rfl
  lines clean := by
    rw [displayLines_append, String.toList_append, fullLines_append shows.blocks.isBody.endsLine]
    exact (shows.lines clean).append (next.lines clean)

theorem Shows.apart {entries more : List Printed} {first second : String}
    (shows : gen.Shows entries first) (block : IsBlock first) (next : gen.Shows more second)
    (nextBlock : IsBlock second) : gen.Shows (entries ++ more) (first ++ "\n" ++ second) where
  blocks := .inr (block.apart nextBlock)
  nonempty empty := absurd empty (block.apart nextBlock).ne_empty
  lines clean := by
    have newline : (first ++ "\n" ++ second).toList = first.toList ++ '\n' :: second.toList := by
      simp
    rw [displayLines_append, newline, fullLines_append_newline]
    exact ((shows.lines clean).trans (fullLines_sublist_lines _)).append (next.lines clean)

/-- Comments go in front of what a statement prints. -/
theorem Shows.comment {entries : List Printed} {text : String} (shows : gen.Shows entries text)
    (block : IsBlock text) (id : NodeId) : gen.Shows entries (gen.commentsBefore id ++ text) where
  blocks := .inr (isBlock_commented block)
  nonempty empty := shows.nonempty (String.append_eq_empty_iff.mp empty).2
  lines clean := by
    have remark := gen.graph.isRemark_commentsBefore gen.config.commentWrap id
    rw [commentsBefore, String.toList_append, String.toList_ofList,
      fullLines_append remark.endsLine]
    exact (shows.lines clean).trans (List.sublist_append_right _ _)

/-- What is printed in the body in a slot, given what is printed from a statement on. -/
def printedIn (below : NodeId → List Printed) (node : Node) (slot : String) : List Printed :=
  (node.statements.target? slot).toList.flatMap fun head => (below head).map Printed.inBody

theorem printedAt_eq {id : NodeId} {node : Node} (found : gen.graph.get? id = some node)
    (below : NodeId → List Printed) :
    gen.graph.printedAt below id = ⟨id, 0⟩ :: node.bodySlots.flatMap (printedIn below node) := by
  rw [Graph.printedAt, Graph.bodies, found, Option.map_some, Option.getD_some, List.flatMap_assoc]
  rfl

/-- A body is whole lines, and holds those of the displays in it. -/
structure ShowsBody (gen : Generator) (entries : List Printed) (body : String) : Prop where
  whole : IsBody body
  lines : gen.IndentsLines → (gen.displayLines entries).Sublist (fullLines body.toList)

theorem Shows.indented {entries : List Printed} {text : String} (shows : gen.Shows entries text) :
    gen.ShowsBody (entries.map Printed.inBody) (indentLines gen.config.indent text) where
  whole := shows.blocks.isBody.indentLines _
  lines clean := by
    rw [displayLines_inBody, toList_indentLines,
      fullLines_prefixLines clean shows.blocks.isBody.endsLine]
    exact (shows.lines clean).map _

/-- Bodies one after the other hold the lines of all of them. -/
theorem sublist_bodies {slots bodies : List String} {entries : String → List Printed}
    (shows : List.Forall₂ (fun slot body => gen.ShowsBody (entries slot) body) slots bodies)
    (clean : gen.IndentsLines) :
    (gen.displayLines (slots.flatMap entries)).Sublist
      (bodies.flatMap fun body => fullLines body.toList) := by
  induction shows with
  | nil => exact List.nil_sublist _
  | cons here _ inductionHypothesis =>
      rw [List.flatMap_cons, List.flatMap_cons, displayLines_append]
      exact (here.lines clean).append inductionHypothesis

/-- A statement shows itself and what is printed in its bodies. -/
theorem shows_of_carries {id : NodeId} {node : Node} (found : gen.graph.get? id = some node)
    {printed : NodeId → List Printed} {bodies : List String} {text : String} (block : IsBlock text)
    (shows : List.Forall₂ (fun slot body => gen.ShowsBody (printedIn printed node slot) body)
      node.bodySlots bodies) (carries : Carries node bodies text) :
    gen.Shows (gen.graph.printedAt printed id) text where
  blocks := .inr block
  nonempty empty := absurd empty block.ne_empty
  lines clean := by
    have own : gen.displayLines [⟨id, 0⟩] =
        node.displayed?.toList.map (fun text => (displayStatement text).toList) := by
      rw [displayLines, List.filterMap_cons, List.filterMap_nil, Graph.display?, found,
        Option.bind_some]
      cases node.displayed? <;> rfl
    rw [printedAt_eq found, ← List.singleton_append, displayLines_append, own]
    exact ((List.Sublist.refl _).append (sublist_bodies shows clean)).trans carries

end Generator

end BlockVerilog

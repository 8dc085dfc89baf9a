import Mathlib
import BlockVerilog.Document.Format
import BlockVerilog.Proofs.Json.Cutting
import BlockVerilog.Proofs.Json.Reading
import BlockVerilog.Proofs.OrderedMap

/-!
The texts that write a document, and what is read from them.

A document has many written forms. Its records have their members in any order and leave out what
holds its default, its slots stand in their order, and its fields in any. Whatever the form, the
document is read from it again.
-/

namespace BlockVerilog

namespace Fields

variable {fields : Fields}

theorem get?_insert (fields : Fields) (name other : String) (value : FieldValue) :
    (fields.insert name value).get? other =
      if other = name then some value else fields.get? other := by
  unfold insert get?
  dsimp only
  generalize fields.entries = entries
  induction entries with
  | nil => grind [put]
  | cons entry entries inductionHypothesis => grind [put]

theorem distinct (fields : Fields) : (fields.entries.map Prod.fst).Nodup := by
  refine List.pairwise_map.mpr (fields.sorted.imp fun before same => ?_)
  exact String.lt_irrefl _ (same ▸ before)

theorem get?_eq_some_iff {name : String} {value : FieldValue} :
    fields.get? name = some value ↔ (name, value) ∈ fields.entries :=
  OrderedMap.get?_eq_some_iff (m := ⟨fields.entries, fields.distinct⟩)

/-- The order of the entries does not matter to what they say of a name. -/
theorem get?_of_perm {entries : List (String × FieldValue)} (perm : entries.Perm fields.entries)
    (name : String) : fields.get? name = (entries.reverse.find? (·.1 = name)).map Prod.snd := by
  have backwards : entries.reverse.Perm fields.entries := (List.reverse_perm entries).trans perm
  have same : ∀ value, (entries.reverse.find? (·.1 = name)).map Prod.snd = some value ↔
      (name, value) ∈ entries.reverse := fun value =>
    OrderedMap.get?_eq_some_iff
      (m := ⟨entries.reverse, (backwards.map Prod.fst).nodup_iff.mpr fields.distinct⟩)
  refine Option.ext fun value => ?_
  rw [get?_eq_some_iff, same, backwards.mem_iff]

theorem ext_get? {first second : Fields} (same : ∀ name, first.get? name = second.get? name) :
    first = second := by
  have irreflexive : Std.Irrefl fun a b : String × FieldValue => a.1 < b.1 :=
    ⟨fun entry => String.lt_irrefl entry.1⟩
  have antisymmetric : Std.Antisymm fun a b : String × FieldValue => a.1 < b.1 :=
    ⟨fun a b before after => absurd after (String.lt_asymm before)⟩
  refine ext (first.sorted.eq_of_mem_iff second.sorted fun (name, value) => ?_)
  rw [← get?_eq_some_iff, ← get?_eq_some_iff, same]

/-- Of several values for a name the last stays. -/
theorem get?_ofList (entries : List (String × FieldValue)) (name : String) :
    (ofList entries).get? name = (entries.reverse.find? (·.1 = name)).map Prod.snd := by
  have empty : (∅ : Fields).get? name = none := rfl
  rw [ofList, OrderedMap.get?_foldl_insert get?_insert, empty, Option.or_none]

end Fields

namespace Document

open Json

/-- A literal that is no number. -/
inductive WritesLiteral : Writing FieldValue
  | bool {value : Bool} : WritesLiteral (.bool value) [.bool value]
  | text {value : String} : WritesLiteral (.text value) [.string value]

/-- Fields in any order. Of several members of a name the last has its value. -/
inductive WritesFields : Writing Fields
  | entries {fields : Fields} {entries : List (String × FieldValue)} {tokens : List Token}
      (lookup : ∀ name, fields.get? name = (entries.reverse.find? (·.1 = name)).map Prod.snd)
      (written : WritesObject WritesLiteral entries tokens) : WritesFields fields tokens

/-- Slots in their order, the empty ones with `null`. -/
abbrev WritesSlots : Writing (List SlotEntry) := WritesObject (WritesOptional WritesString)

def variableParts (v : Variable) : List Part :=
  [.required "id" v.id WritesString, .required "name" v.name WritesString]

def nodeParts (node : DocumentNode) : List Part :=
  [.required "id" node.id WritesString,
    .required "kind" node.kind WritesString,
    .defaulted "fields" ∅ node.fields WritesFields,
    .defaulted "values" [] node.values WritesSlots,
    .defaulted "statements" [] node.statements WritesSlots,
    .defaulted "next" none node.next (WritesOptional WritesString),
    .defaulted "output" false node.output WritesBool,
    .defaulted "comment" none node.comment (WritesOptional WritesString),
    .defaulted "enabled" true node.enabled WritesBool]

abbrev WritesVariable : Writing Variable := fun v => WritesRecord (variableParts v)

abbrev WritesNode : Writing DocumentNode := fun node => WritesRecord (nodeParts node)

def parts (d : Document) : List Part :=
  [.defaulted "variables" [] d.vars (WritesArray WritesVariable),
    .required "nodes" d.nodes (WritesArray WritesNode),
    .defaulted "roots" none d.roots (WritesOptional (WritesArray WritesString))]

theorem distinct_variableParts (v : Variable) : ((variableParts v).map Part.name).Nodup :=
  show ["id", "name"].Nodup by decide

theorem distinct_nodeParts (node : DocumentNode) : ((nodeParts node).map Part.name).Nodup :=
  show ["id", "kind", "fields", "values", "statements", "next", "output", "comment",
    "enabled"].Nodup by decide

theorem distinct_parts (d : Document) : (d.parts.map Part.name).Nodup :=
  show ["variables", "nodes", "roots"].Nodup by decide

/-- The text is a written form of the document. -/
def IsWrittenAs (d : Document) (text : String) : Prop :=
  ∃ tokens, WritesRecord d.parts tokens ∧ Spells tokens text.toList

/-- What a record has in a place of this name: the default, until the value is known. -/
def known {α : Type} (names : List String) (name : String) (default value : α) : α :=
  if name ∈ names then value else default

section

variable {α σ : Type} {names : List String} {name : String} {default value : α}

theorem known_eq (given : name ∈ names ∨ value = default) :
    known names name default value = value := by
  unfold known
  split
  next => rfl
  next absent => exact (given.resolve_left absent).symm

@[simp] theorem known_cons_self : known (name :: names) name default value = value :=
  if_pos List.mem_cons_self

@[simp] theorem known_cons_of_ne {other : String} (apart : name ≠ other) :
    known (other :: names) name default value = known names name default value := by
  simp [known, apart]

variable {draft : List String → σ} {reader : Reader α} {writes : Writing α} {set : σ → α → σ}

theorem fits_field {optional : Bool} {omissible : Prop} (needed : optional = false → ¬ omissible)
    (undoes : reader.Undoes writes)
    (sets : ∀ names, set (draft names) value = draft (name :: names)) :
    Part.Fits draft (field name optional reader set) ⟨name, omissible, writes value⟩ where
  name := rfl
  needed := needed
  reads names tokens written := by
    rw [← sets]
    exact (undoes value tokens written).map (set (draft names))

end

theorem fieldValue_undoes : fieldValue.Undoes WritesLiteral := by
  rintro _ _ (_ | _)
  all_goals exact ⟨fun _ => rfl, _, _, rfl, nofun⟩

theorem fields_undoes : fields.Undoes WritesFields := by
  rintro fields tokens @⟨_, entries, _, lookup, written⟩
  -- Fields are kept in the order of their names, so what each name has decides.
  have same : Fields.ofList entries = fields := Fields.ext_get? fun name =>
    (Fields.get?_ofList entries name).trans (lookup name).symm
  rw [← same]
  exact reads_object fieldValue_undoes Fields.insert written

theorem string_begins (value : String) (tokens : List Token)
    (written : WritesString value tokens) : tokens.head? ≠ some .null := by
  cases written
  exact nofun

theorem slotEntries_undoes : slotEntries.Undoes WritesSlots := by
  intro entries tokens written
  have same : entries.foldl (fun known entry => known ++ [(entry.1, entry.2)]) [] = entries := by
    simp [← List.flatMap_def]
  rw [← same]
  exact reads_object (optional_undoes string_undoes string_begins)
    (fun known name target => known ++ [(name, target)]) written

/-- The variable as far as these names are known. -/
def variableDraft (v : Variable) (names : List String) : Variable where
  id := known names "id" "" v.id
  name := known names "name" "" v.name

theorem variableReader_undoes : variableReader.Undoes WritesVariable := by
  intro v tokens written
  have fit : List.Forall₂ (Part.Fits (variableDraft v)) variableFields (variableParts v) := by
    refine .cons (fits_field (fun _ => not_false) string_undoes fun names => ?_)
      (.cons (fits_field (fun _ => not_false) string_undoes fun names => ?_) .nil)
    all_goals simp [variableDraft]
  refine reads_record fit (distinct_variableParts v) rfl (fun names given => ?_) written
  simp only [variableParts, Part.required, List.forall_mem_cons, or_false] at given
  obtain ⟨id, name, -⟩ := given
  rw [variableDraft, known_eq (.inl id), known_eq (.inl name)]

/-- The node as far as these names are known. -/
def nodeDraft (node : DocumentNode) (names : List String) : DocumentNode where
  id := known names "id" "" node.id
  kind := known names "kind" "" node.kind
  fields := known names "fields" ∅ node.fields
  values := known names "values" [] node.values
  statements := known names "statements" [] node.statements
  next := known names "next" none node.next
  output := known names "output" false node.output
  comment := known names "comment" none node.comment
  enabled := known names "enabled" true node.enabled

theorem nodeReader_undoes : nodeReader.Undoes WritesNode := by
  intro node tokens written
  have fit : List.Forall₂ (Part.Fits (nodeDraft node)) nodeFields (nodeParts node) := by
    refine .cons (fits_field (fun _ => not_false) string_undoes fun names => ?_)
      (.cons (fits_field (fun _ => not_false) string_undoes fun names => ?_)
      (.cons (fits_field nofun fields_undoes fun names => ?_)
      (.cons (fits_field nofun slotEntries_undoes fun names => ?_)
      (.cons (fits_field nofun slotEntries_undoes fun names => ?_)
      (.cons (fits_field nofun (optional_undoes string_undoes string_begins) fun names => ?_)
      (.cons (fits_field nofun bool_undoes fun names => ?_)
      (.cons (fits_field nofun (optional_undoes string_undoes string_begins) fun names => ?_)
      (.cons (fits_field nofun bool_undoes fun names => ?_) .nil))))))))
    all_goals simp [nodeDraft]
  refine reads_record fit (distinct_nodeParts node) rfl (fun names given => ?_) written
  simp only [nodeParts, Part.required, Part.defaulted, List.forall_mem_cons, or_false] at given
  obtain ⟨id, kind, fields, values, statements, next, output, comment, enabled, -⟩ := given
  rw [nodeDraft, known_eq (.inl id), known_eq (.inl kind), known_eq fields, known_eq values,
    known_eq statements, known_eq next, known_eq output, known_eq comment, known_eq enabled]

/-- The document as far as these names are known. -/
def draft (d : Document) (names : List String) : Document where
  vars := known names "variables" [] d.vars
  nodes := known names "nodes" [] d.nodes
  roots := known names "roots" none d.roots

theorem strings_begin (values : List String) (tokens : List Token)
    (written : WritesArray WritesString values tokens) : tokens.head? ≠ some .null := by
  cases written
  exact nofun

theorem reader_undoes : reader.Undoes fun d => WritesRecord d.parts := by
  intro d tokens written
  have fit : List.Forall₂ (Part.Fits d.draft) documentFields d.parts := by
    refine .cons (fits_field nofun (array_undoes variableReader_undoes) fun names => ?_)
      (.cons (fits_field (fun _ => not_false) (array_undoes nodeReader_undoes) fun names => ?_)
      (.cons (fits_field nofun (optional_undoes (array_undoes string_undoes) strings_begin)
        fun names => ?_) .nil))
    all_goals simp [draft]
  refine reads_record fit d.distinct_parts rfl (fun names given => ?_) written
  simp only [parts, Part.required, Part.defaulted, List.forall_mem_cons, or_false] at given
  obtain ⟨vars, nodes, roots, -⟩ := given
  rw [draft, known_eq vars, known_eq (.inl nodes), known_eq roots]

/-- A document is read from each of its written forms. -/
theorem parse_of_isWrittenAs {d : Document} {text : String} (written : d.IsWrittenAs text) :
    parse text = .ok d := by
  obtain ⟨tokens, record, spelled⟩ := written
  have reads := (reader_undoes d tokens record).read []
  rw [List.append_nil] at reads
  rw [parse, tokens_of_spells spelled, ofTokens, reads]

section

variable {d : Document}

/-- No field of a node has a number. -/
def NumberFree (d : Document) : Prop :=
  ∀ node ∈ d.nodes, ∀ entry ∈ node.fields.entries, ∀ x, entry.2 ≠ .number x

theorem writable_literal {value : FieldValue} (noNumber : ∀ x, value ≠ .number x) :
    Writable (WritesLiteral value) := by
  cases value with
  | bool value => exact ⟨_, .bool, plain_cons.mpr ⟨rfl, plain_nil⟩⟩
  | text value => exact ⟨_, .text, plain_cons.mpr ⟨rfl, plain_nil⟩⟩
  | number x => exact absurd rfl (noNumber x)

theorem writable_fields {fields : Fields}
    (noNumbers : ∀ entry ∈ fields.entries, ∀ x, entry.2 ≠ .number x) :
    Writable (WritesFields fields) := by
  obtain ⟨tokens, written, plain⟩ := writable_object fun entry listed =>
    writable_literal (noNumbers entry listed)
  exact ⟨tokens, .entries (Fields.get?_of_perm (.refl _)) written, plain⟩

theorem writable_slots (entries : List SlotEntry) : Writable (WritesSlots entries) :=
  writable_object fun _ _ => writable_optional fun _ _ => writable_string _

theorem writable_variable (v : Variable) : Writable (WritesVariable v) := by
  refine writable_record (distinct_variableParts v) ?_
  simp [variableParts, Part.required, writable_string]

theorem writable_node {node : DocumentNode}
    (noNumbers : ∀ entry ∈ node.fields.entries, ∀ x, entry.2 ≠ .number x) :
    Writable (WritesNode node) := by
  have optionalStrings : ∀ value, Writable (WritesOptional WritesString value) := fun value =>
    writable_optional fun _ _ => writable_string _
  refine writable_record (distinct_nodeParts node) ?_
  simp [nodeParts, Part.required, Part.defaulted, writable_string, writable_bool,
    writable_fields noNumbers, writable_slots, optionalStrings]

theorem exists_isWrittenAs (numberFree : d.NumberFree) : ∃ text, d.IsWrittenAs text := by
  have vars : Writable (WritesArray WritesVariable d.vars) :=
    writable_array fun v _ => writable_variable v
  have nodes : Writable (WritesArray WritesNode d.nodes) :=
    writable_array fun node listed => writable_node (numberFree node listed)
  have roots : Writable (WritesOptional (WritesArray WritesString) d.roots) :=
    writable_optional fun _ _ => writable_array fun _ _ => writable_string _
  obtain ⟨tokens, written, plain⟩ : Writable (WritesRecord d.parts) := by
    refine writable_record d.distinct_parts ?_
    simp [parts, Part.required, Part.defaulted, vars, nodes, roots]
  obtain ⟨text, spelled⟩ := exists_spells plain
  exact ⟨String.ofList text, tokens, written, by rwa [String.toList_ofList]⟩

/-- Reading undoes writing. Whatever text a document is written as, reading the text and resolving
what it says comes to resolving the document itself, and every document without numbers in its
fields is written as some text. -/
theorem parse_undoes_writing (d : Document) :
    (∀ text, d.IsWrittenAs text → Program.parse text = d.toProgram) ∧
      (d.NumberFree → ∃ text, d.IsWrittenAs text) := by
  refine ⟨fun text written => ?_, exists_isWrittenAs⟩
  rw [Program.parse, parse_of_isWrittenAs written]
  rfl

/-- The end of a module, with a field, two empty slots and a face for its id. -/
def ending : Document where
  vars := []
  nodes := [⟨"😀", "end_module", .ofList [("on", .bool true)], [("B", none), ("A", none)], [], none,
    false, none, true⟩]
  roots := none

def endingText : String :=
  "\x7b \"roots\": null,\n\"nodes\": [\x7b\"values\": \x7b\"B\": null, \"A\": null\x7d, " ++
  "\"kind\": \"end\\u005Fmodule\", \"next\":null, \"fields\":\x7b\"on\" : true\x7d, " ++
  "\"id\": \"\\uD83d\\ude00\"\x7d]\x7d\n"

theorem ending_isWrittenAs : ending.IsWrittenAs endingText := by
  let node : List Member := [
    ("values", objectTokens [("B", [.null]), ("A", [.null])]),
    ("kind", [.string "end_module"]),
    ("next", [.null]),
    ("fields", objectTokens [("on", [.bool true])]),
    ("id", [.string "😀"])]
  let taken : List Member := [("roots", [.null]), ("nodes", arrayTokens [objectTokens node])]
  have cut : Spells (objectTokens taken) endingText.toList :=
    spells_iff.mpr ⟨by cbv, by decide⟩
  have writesNode : WritesNode ending.nodes[0] (objectTokens node) := by
    refine .members (by decide) ?_ ?_
    · have values : WritesSlots [("B", none), ("A", none)]
          (objectTokens [("B", [.null]), ("A", [.null])]) :=
        .members (.cons ⟨rfl, .none⟩ (.cons ⟨rfl, .none⟩ .nil))
      have fields : WritesFields (.ofList [("on", .bool true)])
          (objectTokens [("on", [.bool true])]) :=
        .entries (Fields.get?_ofList _) (.members (.cons ⟨rfl, .bool⟩ .nil))
      simpa [node, nodeParts, Part.required, Part.defaulted, ending] using
        ⟨values, .string, .none, fields, .string⟩
    · simp [node, nodeParts, Part.required, Part.defaulted, ending]
  have roots : WritesOptional (WritesArray WritesString) ending.roots [.null] := .none
  have nodes : WritesArray WritesNode ending.nodes (arrayTokens [objectTokens node]) :=
    .items (.cons writesNode .nil)
  refine ⟨objectTokens taken, .members (by decide) ?_ ?_, cut⟩
  · simpa [taken, parts, Part.required, Part.defaulted] using ⟨roots, nodes⟩
  · simp [taken, parts, Part.required, Part.defaulted, ending]

theorem ending_is_read : ending.NumberFree ∧ (∃ text, ending.IsWrittenAs text) ∧
    ending.IsWrittenAs endingText ∧ Program.parse endingText = ending.toProgram := by
  have numberFree : ending.NumberFree := by
    intro node listed entry among x
    obtain rfl := List.mem_singleton.mp listed
    obtain rfl : entry = ("on", .bool true) := List.mem_singleton.mp among
    exact nofun
  exact ⟨numberFree, (parse_undoes_writing ending).2 numberFree, ending_isWrittenAs,
    (parse_undoes_writing ending).1 endingText ending_isWrittenAs⟩

end

end Document

end BlockVerilog

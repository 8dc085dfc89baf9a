import BlockVerilog.Proofs.Json.Spelling
import BlockVerilog.Proofs.Related

/-!
The tokens that write values.

A value has many written forms, so writing is a relation: the members of a record stand in any
order, and those that hold their default may be left out. `Writable` says that there is a form at
all, of tokens that can be spelled.
-/

namespace BlockVerilog.Json

/-- The tokens of values with commas between them. -/
def separated : List (List Token) → List Token
  | [] => []
  | first :: rest => first ++ rest.flatMap (.comma :: ·)

def arrayTokens (items : List (List Token)) : List Token :=
  .openBracket :: separated items ++ [.closeBracket]

/-- The name of a member, and the tokens of its value. -/
abbrev Member := String × List Token

def Member.tokens (member : Member) : List Token := .string member.1 :: .colon :: member.2

def objectTokens (members : List Member) : List Token :=
  .openBrace :: separated (members.map Member.tokens) ++ [.closeBrace]

/-- Which tokens write a value. -/
abbrev Writing (α : Type) := α → List Token → Prop

inductive WritesString : Writing String
  | string {value : String} : WritesString value [.string value]

inductive WritesBool : Writing Bool
  | bool {value : Bool} : WritesBool value [.bool value]

variable {α : Type}

inductive WritesOptional (inner : Writing α) : Writing (Option α)
  | none : WritesOptional inner none [.null]
  | some {value : α} {tokens : List Token} (written : inner value tokens) :
      WritesOptional inner (some value) tokens

inductive WritesArray (item : Writing α) : Writing (List α)
  | items {values : List α} {texts : List (List Token)} (each : List.Forall₂ item values texts) :
      WritesArray item values (arrayTokens texts)

/-- An entry as a member of an object. -/
structure WritesMember (value : Writing α) (entry : String × α) (member : Member) : Prop where
  name : member.1 = entry.1
  written : value entry.2 member.2

/-- An object with a member for every entry, in their order. -/
inductive WritesObject (value : Writing α) : Writing (List (String × α))
  | members {entries : List (String × α)} {taken : List Member}
      (each : List.Forall₂ (WritesMember value) entries taken) :
      WritesObject value entries (objectTokens taken)

/-- A part of a record in its written form: its name, whether the record does without it, and what
writes its value. -/
structure Part where
  name : String
  omissible : Prop
  writes : List Token → Prop

namespace Part

def required (name : String) (value : α) (writes : Writing α) : Part := ⟨name, False, writes value⟩

/-- A part that may be left out where it holds its default. -/
def defaulted (name : String) (default value : α) (writes : Writing α) : Part :=
  ⟨name, value = default, writes value⟩

end Part

/-- The tokens of a record: its parts in any order, each at most once, and without some that the
record does without. -/
inductive WritesRecord (parts : List Part) : List Token → Prop
  | members {taken : List Member} (distinct : (taken.map Prod.fst).Nodup)
      (each : ∀ member ∈ taken, ∃ part ∈ parts, part.name = member.1 ∧ part.writes member.2)
      (present : ∀ part ∈ parts, part.name ∈ taken.map Prod.fst ∨ part.omissible) :
      WritesRecord parts (objectTokens taken)

theorem plain_separated {texts : List (List Token)} (plain : ∀ text ∈ texts, Plain text) :
    Plain (separated texts) := by
  cases texts with
  | nil => exact plain_nil
  | cons first rest =>
      rw [List.forall_mem_cons] at plain
      refine plain_append.mpr ⟨plain.1, fun token inside => ?_⟩
      obtain ⟨text, listed, here⟩ := List.mem_flatMap.mp inside
      exact plain_cons.mpr ⟨rfl, plain.2 text listed⟩ token here

theorem plain_arrayTokens {texts : List (List Token)} (plain : ∀ text ∈ texts, Plain text) :
    Plain (arrayTokens texts) :=
  plain_cons.mpr ⟨rfl, plain_append.mpr ⟨plain_separated plain, plain_cons.mpr ⟨rfl, plain_nil⟩⟩⟩

theorem plain_objectTokens {taken : List Member} (plain : ∀ member ∈ taken, Plain member.2) :
    Plain (objectTokens taken) := by
  have inner : ∀ text ∈ taken.map Member.tokens, Plain text := by
    refine List.forall_mem_map.mpr fun member listed => ?_
    exact plain_cons.mpr ⟨rfl, plain_cons.mpr ⟨rfl, plain member listed⟩⟩
  exact plain_cons.mpr
    ⟨rfl, plain_append.mpr ⟨plain_separated inner, plain_cons.mpr ⟨rfl, plain_nil⟩⟩⟩

/-- A value has a written form that can be spelled. -/
def Writable (written : List Token → Prop) : Prop := ∃ tokens, written tokens ∧ Plain tokens

theorem writable_string (value : String) : Writable (WritesString value) :=
  ⟨_, .string, plain_cons.mpr ⟨rfl, plain_nil⟩⟩

theorem writable_bool (value : Bool) : Writable (WritesBool value) :=
  ⟨_, .bool, plain_cons.mpr ⟨rfl, plain_nil⟩⟩

theorem writable_optional {inner : Writing α} {value : Option α}
    (each : ∀ held, value = some held → Writable (inner held)) :
    Writable (WritesOptional inner value) := by
  cases value with
  | none => exact ⟨_, .none, plain_cons.mpr ⟨rfl, plain_nil⟩⟩
  | some value =>
      obtain ⟨tokens, written, plain⟩ := each value rfl
      exact ⟨tokens, .some written, plain⟩

theorem writable_array {item : Writing α} {values : List α}
    (each : ∀ value ∈ values, Writable (item value)) : Writable (WritesArray item values) := by
  obtain ⟨texts, forms⟩ := exists_forall₂_iff.mpr each
  refine ⟨_, .items (forms.imp fun _ _ => And.left), plain_arrayTokens fun text listed => ?_⟩
  obtain ⟨_, _, _, plain⟩ := exists_related_of_mem forms.flip listed
  exact plain

theorem writable_object {value : Writing α} {entries : List (String × α)}
    (each : ∀ entry ∈ entries, Writable (value entry.2)) :
    Writable (WritesObject value entries) := by
  have members : ∀ entry ∈ entries, ∃ member, WritesMember value entry member ∧ Plain member.2 := by
    intro entry listed
    obtain ⟨tokens, written, plain⟩ := each entry listed
    exact ⟨(entry.1, tokens), ⟨rfl, written⟩, plain⟩
  obtain ⟨taken, forms⟩ := exists_forall₂_iff.mpr members
  refine ⟨_, .members (forms.imp fun _ _ => And.left), plain_objectTokens fun member listed => ?_⟩
  obtain ⟨_, _, _, plain⟩ := exists_related_of_mem forms.flip listed
  exact plain

/-- A record is written with all of its parts. -/
theorem writable_record {parts : List Part} (distinct : (parts.map Part.name).Nodup)
    (each : ∀ part ∈ parts, Writable part.writes) : Writable (WritesRecord parts) := by
  have members : ∀ part ∈ parts, ∃ member : Member,
      part.name = member.1 ∧ part.writes member.2 ∧ Plain member.2 := by
    intro part listed
    obtain ⟨tokens, written, plain⟩ := each part listed
    exact ⟨(part.name, tokens), rfl, written, plain⟩
  obtain ⟨taken, forms⟩ := exists_forall₂_iff.mpr members
  have names : List.Forall₂ (· = ·) (parts.map Part.name) (taken.map Prod.fst) := by
    rw [List.forall₂_map_left_iff, List.forall₂_map_right_iff]
    exact forms.imp fun _ _ => And.left
  rw [List.forall₂_eq_eq_eq] at names
  refine ⟨_, .members (names ▸ distinct) ?_ ?_, plain_objectTokens ?_⟩
  · intro member listed
    obtain ⟨part, among, name, writes, _⟩ := exists_related_of_mem forms.flip listed
    exact ⟨part, among, name, writes⟩
  · exact fun part listed => .inl (names ▸ List.mem_map_of_mem listed)
  · intro member listed
    obtain ⟨_, _, _, _, plain⟩ := exists_related_of_mem forms.flip listed
    exact plain

end BlockVerilog.Json

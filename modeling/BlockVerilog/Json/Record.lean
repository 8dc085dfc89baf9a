import BlockVerilog.Json.Reader

/-!
Records: objects with a fixed set of fields, which may also be written as arrays.

In an object the fields come in any order, each at most once; an array holds them in the order of
their declaration. Fields may be left out if they are optional, in an array only at its end.
-/

namespace BlockVerilog.Json

/-- A field of a record under construction. -/
structure RecordField (σ : Type) where
  name : String
  /-- Whether the record does without it. -/
  optional : Bool
  /-- Reads the value and takes it into the record. -/
  value : σ → Reader σ

namespace Record

variable {σ : Type}

/-- What an object has shown of a record: the names of its fields so far, and the record. -/
abbrev Draft (σ : Type) := List String × σ

/-- Read the value of a field and keep its name. -/
def named (known : List String) (field : RecordField σ) (record : σ) : Reader (Draft σ) :=
  (field.value record).map fun record => (field.name :: known, record)

/-- Refuse a key that names no field, or one named before. -/
def member (fields : List (RecordField σ)) (draft : Draft σ) (name : String) :
    Except Misfit (Reader (Draft σ)) :=
  match fields.find? (·.name = name) with
  | none => .error (.unknownField name (fields.map RecordField.name))
  | some field =>
      if name ∈ draft.1 then .error (.duplicateField name)
      else .ok (named draft.1 field draft.2)

/-- The record of a closed object, unless a field that it needs is missing. -/
def close (fields : List (RecordField σ)) (draft : Draft σ) (rest : List Token) : Outcome σ :=
  match fields.find? fun field => !field.optional && field.name ∉ draft.1 with
  | some field => .error (.behindLast (.missingField field.name) rest)
  | none => .ok (draft.2, rest)

/-- A record written as an object, behind its brace. -/
def ofObject (fields : List (RecordField σ)) (blank : σ) (tokens : List Token) : Outcome σ :=
  match members (member fields) true ([], blank) tokens with
  | .error fault => .error fault
  | .ok (draft, rest) => close fields draft rest

/-- The closing bracket behind the last field. -/
def closeArray (record : σ) (tokens : List Token) : Outcome σ :=
  match tokens with
  | [] => .error (.syntactic .endInArray .within tokens)
  | .closeBracket :: rest => .ok (record, rest)
  | .comma :: rest =>
      match rest with
      | .closeBracket :: _ => .error (.syntactic .trailingComma .within rest)
      | _ => .error (.syntactic .trailingText .within rest)
  | _ => .error (.syntactic .trailingText .within tokens)

/-- A record written as an array, from its field number `index` on. -/
def ofArray (title : String) (count : Nat) :
    (index : Nat) → List (RecordField σ) → (first : Bool) → σ → List Token → Outcome σ
  | _, [], _, record, tokens => closeArray record tokens
  | index, field :: fields, first, record, tokens =>
      match arrayStep first tokens with
      | .error fault => .error fault
      | .ok (.ended rest) =>
          match (field :: fields).findIdx? (!·.optional) with
          | some missing => .error (.behindLast (.tooShort (index + missing) title count) rest)
          | none => .ok (record, rest)
      | .ok (.item start) =>
          match (field.value record).read start with
          | .error fault => .error fault
          | .ok (record, rest) => ofArray title count (index + 1) fields false record rest

theorem length_of_ofObject {fields : List (RecordField σ)} {blank record : σ}
    {tokens rest : List Token}
    (read : ofObject fields blank tokens = .ok (record, rest)) : rest.length < tokens.length := by
  unfold ofObject at read
  split at read
  next => cases read
  next found =>
    unfold close at read
    split at read
    next => cases read
    next =>
      cases read
      exact length_of_members found

theorem length_of_ofArray {title : String} {count index : Nat} {fields : List (RecordField σ)}
    {first : Bool} {record result : σ} {tokens rest : List Token}
    (read : ofArray title count index fields first record tokens = .ok (result, rest)) :
    rest.length < tokens.length := by
  induction fields generalizing index first record tokens with
  | nil =>
      unfold ofArray closeArray at read
      split at read
      next => cases read
      next => cases read; simp
      next => split at read <;> cases read
      next => cases read
  | cons field fields inductionHypothesis =>
      unfold ofArray at read
      split at read
      next => cases read
      next ended =>
        split at read
        next => cases read
        next =>
          cases read
          rw [arrayStep_ended ended]
          simp
      next item =>
        split at read
        next => cases read
        next one =>
          have := arrayStep_item item
          have := (field.value record).progress one
          have := inductionHypothesis read
          omega

end Record

/-- A record with these fields; `title` is what messages call it. -/
def record {σ : Type} (title : String) (fields : List (RecordField σ)) (blank : σ) : Reader σ where
  read
    | .openBrace :: rest => Record.ofObject fields blank rest
    | .openBracket :: rest => Record.ofArray title fields.length 0 fields true blank rest
    | tokens => .error (unexpected title tokens)
  progress := by
    intro tokens value rest success
    split at success
    next => exact Nat.lt_succ_of_lt (Record.length_of_ofObject success)
    next => exact Nat.lt_succ_of_lt (Record.length_of_ofArray success)
    next => cases success

end BlockVerilog.Json

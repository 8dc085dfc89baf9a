import BlockVerilog.Number.Text
import BlockVerilog.Text.Blank

/-!
Literals entered on a node, and the fields that hold them.

`Fields` are kept sorted by name, so that two of them with the same contents are equal.
-/

namespace BlockVerilog

/-- A literal entered on a node. -/
inductive FieldValue where
  | bool (value : Bool)
  | number (value : Binary64)
  | text (value : String)
  deriving DecidableEq, Repr

namespace FieldValue

/-- The value as it stands in generated code. -/
def asText : FieldValue → String
  | bool true => "TRUE"
  | bool false => "FALSE"
  | number x => x.text
  | text s => s

/-- The number a value is, or that its text denotes. -/
def asNumber? : FieldValue → Option Binary64
  | bool _ => none
  | number x => some x
  | text s => Numeral.parseNumber (Text.trim s.toList)

end FieldValue

/-- Field values by name, in the order of the names. -/
structure Fields where
  entries : List (String × FieldValue)
  sorted : entries.Pairwise (·.1 < ·.1)

namespace Fields

instance : EmptyCollection Fields := ⟨⟨[], List.Pairwise.nil⟩⟩

@[ext]
theorem ext {first second : Fields} (same : first.entries = second.entries) : first = second := by
  cases first
  cases second
  simp_all

instance : DecidableEq Fields := fun first second =>
  decidable_of_iff (first.entries = second.entries) ⟨Fields.ext, fun same => same ▸ rfl⟩

/-- Put a value where its name belongs, in place of the one of that name. -/
def put (name : String) (value : FieldValue) :
    List (String × FieldValue) → List (String × FieldValue)
  | [] => [(name, value)]
  | entry :: rest =>
      if name = entry.1 then (name, value) :: rest
      else if name < entry.1 then (name, value) :: entry :: rest
      else entry :: put name value rest

theorem mem_put {name : String} {value : FieldValue} {entries : List (String × FieldValue)}
    {entry : String × FieldValue} (found : entry ∈ put name value entries) :
    entry = (name, value) ∨ entry ∈ entries := by
  induction entries with
  | nil => simpa [put] using found
  | cons head rest inductionHypothesis =>
      unfold put at found
      split at found
      next => exact (List.mem_cons.mp found).imp id (List.mem_cons_of_mem _)
      next =>
        split at found
        next => exact List.mem_cons.mp found
        next =>
          rcases List.mem_cons.mp found with here | later
          · exact .inr (here ▸ List.mem_cons_self)
          · exact (inductionHypothesis later).imp id (List.mem_cons_of_mem _)

theorem lt_of_not_lt_of_ne {first second : String} (different : ¬ first = second)
    (notBefore : ¬ first < second) : second < first :=
  Std.lt_of_le_of_ne (String.not_lt.mp notBefore) (Ne.symm different)

theorem sorted_put {name : String} {value : FieldValue} {entries : List (String × FieldValue)}
    (sorted : entries.Pairwise (·.1 < ·.1)) : (put name value entries).Pairwise (·.1 < ·.1) := by
  induction entries with
  | nil => simp [put]
  | cons head rest inductionHypothesis =>
      rw [List.pairwise_cons] at sorted
      unfold put
      split
      next same => exact List.pairwise_cons.mpr ⟨by simpa [same] using sorted.1, sorted.2⟩
      next different =>
        split
        next before =>
          refine List.pairwise_cons.mpr ⟨fun entry found => ?_, List.pairwise_cons.mpr sorted⟩
          rcases List.mem_cons.mp found with here | later
          · exact here ▸ before
          · exact String.lt_trans before (sorted.1 entry later)
        next notBefore =>
          refine List.pairwise_cons.mpr ⟨fun entry found => ?_, inductionHypothesis sorted.2⟩
          rcases mem_put found with new | old
          · exact new ▸ lt_of_not_lt_of_ne different notBefore
          · exact sorted.1 entry old

/-- Give a field its value, in place of an earlier one. -/
def insert (fields : Fields) (name : String) (value : FieldValue) : Fields :=
  ⟨put name value fields.entries, sorted_put fields.sorted⟩

def get? (fields : Fields) (name : String) : Option FieldValue :=
  (fields.entries.find? (·.1 = name)).map Prod.snd

/-- The text of a field, empty where there is none. -/
def textOf (fields : Fields) (name : String) : String :=
  ((fields.get? name).map FieldValue.asText).getD ""

/-- Fields from a list; of several values for a name the last stays. -/
def ofList (entries : List (String × FieldValue)) : Fields :=
  entries.foldl (fun fields entry => fields.insert entry.1 entry.2) ∅

end Fields

end BlockVerilog

import BlockVerilog.Declarations
import BlockVerilog.Proofs.OrderedMap

/-!
One-shot declarations, over all that is defined.

What is kept depends on the definitions since the last reset only: of each key the first, in the
order of these. `Records` says so of the keys and of what each has; every definition keeps it up.
-/

namespace BlockVerilog.Declarations

/-- A key and the text that it is to have. -/
abbrev Definition := String × String

/-- The text of the first definition of each key, in the order of these definitions. -/
def firstTexts (made : List Definition) : List String :=
  (made.map Prod.fst).eraseDups.filterMap fun key => (made.find? (·.1 = key)).map Prod.snd

theorem firstTexts_eq_nil_iff {made : List Definition} : firstTexts made = [] ↔ made = [] := by
  cases made with
  | nil => exact iff_of_true rfl rfl
  | cons definition made => simp [firstTexts, List.eraseDups_cons]

/-- A body with these definitions in front, a blank line between them and two more behind. -/
def headed (made : List Definition) (body : String) : String :=
  if made = [] then body else "\n\n".intercalate (firstTexts made) ++ "\n\n\n" ++ body

/-- Define one text after the other. -/
def defineAll (declarations : Declarations) (made : List Definition) : Declarations :=
  made.foldl (fun declarations definition =>
    (declarations.define definition.1 definition.2).2) declarations

theorem defineAll_append (declarations : Declarations) (made more : List Definition) :
    declarations.defineAll (made ++ more) = (declarations.defineAll made).defineAll more :=
  List.foldl_append

theorem define_snd (declarations : Declarations) (key text : String) :
    (declarations.define key text).2 =
      if declarations.contains key = true then declarations
      else ⟨declarations.byKey.insert key text⟩ := by
  rw [define, contains, OrderedMap.insertNew]
  split <;> rfl

/-- What changes declarations. -/
inductive Call where
  | define (key text : String)
  | reset

def Call.perform (call : Call) (declarations : Declarations) : Declarations :=
  match call with
  | define key text => (declarations.define key text).2
  | reset => ∅

/-- What calls leave of new declarations. -/
def after (calls : List Call) : Declarations :=
  calls.foldl (fun declarations call => call.perform declarations) ∅

/-- The definitions among calls behind the last reset. -/
def sinceReset (calls : List Call) : List Definition :=
  calls.foldl (fun made call =>
    match call with
    | .define key text => made ++ [(key, text)]
    | .reset => []) []

/-- Of the definitions that were made, the first of each key is kept. -/
structure KeepsFirst (made : List Definition) (declarations : Declarations) : Prop where
  texts : declarations.texts = firstTexts made
  /-- The next definition is told to be new if its key is. -/
  answers : ∀ key text, (declarations.define key text).1 = true ↔ key ∉ made.map Prod.fst
  contains : ∀ key, declarations.contains key = true ↔ key ∈ made.map Prod.fst
  size : declarations.size = (firstTexts made).length
  isEmpty : declarations.isEmpty = true ↔ firstTexts made = []

/-- The keys and texts that are kept of the definitions that were made. -/
structure Records (made : List Definition) (declarations : Declarations) : Prop where
  keys : declarations.byKey.keys = (made.map Prod.fst).eraseDups
  texts : ∀ key, declarations.byKey.get? key = (made.find? (·.1 = key)).map Prod.snd

variable {made : List Definition} {declarations : Declarations}

namespace Records

theorem empty : Records [] ∅ := ⟨rfl, fun _ => rfl⟩

theorem contains_iff (records : Records made declarations) {key : String} :
    declarations.contains key = true ↔ key ∈ made.map Prod.fst := by
  rw [contains, OrderedMap.contains_iff_mem_keys, records.keys, List.mem_eraseDups]

/-- A definition of a known key changes nothing, and its text is found behind the first. -/
theorem define (records : Records made declarations) (key text : String) :
    Records (made ++ [(key, text)]) (declarations.define key text).2 := by
  by_cases known : key ∈ made.map Prod.fst
  · rw [define_snd, if_pos (records.contains_iff.mpr known)]
    refine ⟨?_, fun other => ?_⟩
    · rw [List.map_append, List.map_singleton, OrderedMap.eraseDups_concat, if_pos known,
        records.keys]
    · rw [records.texts other, List.find?_append]
      cases found : made.find? (·.1 = other) with
      | some first => rfl
      | none =>
          have apart : key ≠ other := by
            rintro rfl
            exact OrderedMap.find?_eq_none_iff.mp found known
          simp [apart]
  · rw [define_snd, if_neg (mt records.contains_iff.mp known)]
    refine ⟨?_, fun other => ?_⟩
    · rw [OrderedMap.keys_insert, records.keys, List.map_append, List.map_singleton,
        OrderedMap.eraseDups_concat]
      simp only [List.mem_eraseDups]
    · rw [OrderedMap.get?_insert, records.texts other, List.find?_append]
      by_cases same : other = key
      · have unseen := OrderedMap.find?_eq_none_iff.mpr known
        simp [same, unseen]
      · simp [same, Ne.symm same]

theorem defineAll (records : Records made declarations) (more : List Definition) :
    Records (made ++ more) (declarations.defineAll more) := by
  induction more using List.reverseRecOn with
  | nil => rwa [List.append_nil]
  | append_singleton more definition inductionHypothesis =>
      rw [← List.append_assoc, defineAll_append]
      exact inductionHypothesis.define definition.1 definition.2

theorem after (calls : List Call) : Records (sinceReset calls) (after calls) := by
  induction calls using List.reverseRecOn with
  | nil => exact empty
  | append_singleton calls call inductionHypothesis =>
      rw [sinceReset, Declarations.after, List.foldl_append, List.foldl_append]
      cases call with
      | define key text => exact inductionHypothesis.define key text
      | reset => exact empty

theorem keepsFirst (records : Records made declarations) : KeepsFirst made declarations := by
  have texts : declarations.texts = firstTexts made := by
    rw [Declarations.texts, OrderedMap.values_eq_filterMap, records.keys, firstTexts]
    simp only [records.texts]
  have listed : ∀ key text, (declarations.define key text).1 = true ↔ key ∉ made.map Prod.fst := by
    intro key text
    rw [Declarations.define, ← records.contains_iff, Bool.not_eq_true', Bool.not_eq_true]
  refine ⟨texts, listed, fun key => records.contains_iff, ?_, ?_⟩
  · rw [← texts, Declarations.texts, OrderedMap.values, List.length_map]
    rfl
  · rw [← texts, Declarations.texts, OrderedMap.values, List.map_eq_nil_iff]
    exact List.isEmpty_iff

end Records

end BlockVerilog.Declarations

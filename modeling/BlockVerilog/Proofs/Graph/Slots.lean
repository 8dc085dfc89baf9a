import BlockVerilog.Graph.Slots
import BlockVerilog.Proofs.OrderedMap

/-!
Slots, and the calls that set them.

Which slots there are, where each stands and what hangs in it are three matters. The first call for
a name settles the first two, the last call the third.
-/

namespace BlockVerilog.Slots

variable {slots : Slots}

/-! ### What hangs in slots -/

theorem mem_targets_iff {target : NodeId} :
    target ∈ slots.targets ↔ ∃ name, (name, some target) ∈ slots.entries := by
  simp [targets]

theorem mem_targets_iff_target? {target : NodeId} :
    target ∈ slots.targets ↔ ∃ name, slots.target? name = some target := by
  simp [mem_targets_iff, target?, ← OrderedMap.get?_eq_some_iff, Option.join_eq_some_iff]

theorem mem_targets_of_target? {slot : String} {target : NodeId}
    (holds : slots.target? slot = some target) : target ∈ slots.targets :=
  mem_targets_iff_target?.mpr ⟨slot, holds⟩

/-- A slot is its name and what hangs in it. -/
theorem entries_eq_map (slots : Slots) :
    slots.entries = slots.keys.map fun name => (name, slots.target? name) := by
  have each : ∀ entry ∈ slots.entries, (entry.1, slots.target? entry.1) = entry := by
    intro entry listed
    rw [target?, OrderedMap.get?_eq_some_iff.mpr listed]
    rfl
  calc slots.entries = slots.entries.map fun entry => (entry.1, slots.target? entry.1) := by
        rw [List.map_congr_left each, List.map_id']
    _ = slots.keys.map fun name => (name, slots.target? name) := by
        rw [OrderedMap.keys, List.map_map]
        rfl

theorem targets_eq_filterMap (slots : Slots) :
    slots.targets = slots.keys.filterMap slots.target? := by
  rw [targets, entries_eq_map, List.filterMap_map]
  rfl

/-- What hangs in slots, slot by slot. -/
theorem targets_eq_flatMap (slots : Slots) :
    slots.targets = slots.keys.flatMap fun name => (slots.target? name).toList := by
  rw [targets_eq_filterMap, List.filterMap_eq_flatMap_toList]

theorem target?_mapValues {change : Option NodeId → Option NodeId} (empty : change none = none)
    (slots : Slots) (name : String) :
    Slots.target? (slots.mapValues change) name = change (slots.target? name) := by
  unfold target?
  rw [OrderedMap.get?_mapValues]
  cases slots.get? name with
  | none => exact empty.symm
  | some held => rfl

/-- What hangs in changed slots comes from something that hung there. -/
theorem exists_of_mem_targets_mapValues {change : Option NodeId → Option NodeId}
    (empty : change none = none) {target : NodeId}
    (hangs : target ∈ Slots.targets (slots.mapValues change)) :
    ∃ child ∈ slots.targets, change (some child) = some target := by
  obtain ⟨name, holds⟩ := mem_targets_iff_target?.mp hangs
  rw [target?_mapValues empty] at holds
  cases held : slots.target? name with
  | none => simp [held, empty] at holds
  | some child => exact ⟨child, mem_targets_of_target? held, held ▸ holds⟩

/-! ### Slots set by calls -/

/-- The target in the last call for a name. -/
def lastTarget (calls : List (String × Option NodeId)) (name : String) : Option NodeId :=
  (calls.reverse.find? (·.1 = name)).bind Prod.snd

/-- What is seen of slots that were set by calls, each with a name and a target. -/
structure InsertionOrdered (calls : List (String × Option NodeId)) (slots : Slots) : Prop where
  /-- Each name of a call is listed once, and no other name is. -/
  once : ∀ name, slots.keys.count name = if name ∈ calls.map Prod.fst then 1 else 0
  /-- Names are listed in the order of their first calls. -/
  ordered : slots.keys.Pairwise fun name later =>
    (calls.map Prod.fst).idxOf name < (calls.map Prod.fst).idxOf later
  entries : slots.entries = slots.keys.map fun name => (name, lastTarget calls name)
  target : ∀ name, slots.target? name = lastTarget calls name
  contains : ∀ name, slots.contains name = true ↔ name ∈ calls.map Prod.fst
  /-- What is connected, in the order of the slots and as often as it is. -/
  targets : slots.targets = slots.keys.filterMap (lastTarget calls)
  size : slots.size = (calls.map Prod.fst).toFinset.card

theorem target?_ofList (calls : List (String × Option NodeId)) (name : String) :
    target? (.ofList calls) name = lastTarget calls name := by
  rw [target?, OrderedMap.get?_ofList, lastTarget]
  cases calls.reverse.find? (·.1 = name) <;> rfl

/-- Slots are an insertion-ordered map, whatever calls set them. -/
theorem insertionOrdered_ofList (calls : List (String × Option NodeId)) :
    InsertionOrdered calls (.ofList calls) where
  once := OrderedMap.count_keys_ofList calls
  ordered := by
    rw [OrderedMap.keys_ofList]
    exact OrderedMap.pairwise_eraseDups _
  entries := by simp only [entries_eq_map, target?_ofList]
  target := target?_ofList calls
  contains name := by rw [OrderedMap.contains_iff_mem_keys, OrderedMap.mem_keys_ofList]
  targets := by
    rw [targets_eq_filterMap]
    exact List.filterMap_congr fun name _ => target?_ofList calls name
  size := OrderedMap.size_ofList calls

example : (.ofList [("B", some 1), ("A", none), ("B", some 2)] : Slots).entries =
    [("B", some 2), ("A", none)] := by decide

end BlockVerilog.Slots

import Mathlib.Data.Finset.Card
import Mathlib.Data.List.Induction
import Mathlib.Data.List.Nodup
import BlockVerilog.OrderedMap

/-!
Maps made of lists, and what maps hold.
-/

namespace BlockVerilog.OrderedMap

universe u v w

variable {Key : Type u} {Value : Type v} [DecidableEq Key]

theorem find?_eq_none_iff {entries : List (Key × Value)} {key : Key} :
    entries.find? (·.1 = key) = none ↔ key ∉ entries.map Prod.fst := by
  rw [List.find?_eq_none, List.mem_map, not_exists]
  simp only [decide_eq_true_eq, not_and]

theorem mem_of_find? {entries : List (Key × Value)} {key : Key} {value : Value}
    (found : (entries.find? (·.1 = key)).map Prod.snd = some value) : (key, value) ∈ entries := by
  obtain ⟨⟨other, held⟩, first, rfl⟩ := Option.map_eq_some_iff.mp found
  have same : other = key := by simpa using List.find?_some first
  exact same ▸ List.mem_of_find?_eq_some first

/-- What is found in a store that entries were put into one after the other: the last of several
values for a key. -/
theorem get?_foldl_insert {Store : Type w} {get? : Store → Key → Option Value}
    {insert : Store → Key → Value → Store}
    (get?_insert : ∀ store key other value,
      get? (insert store key value) other = if other = key then some value else get? store other)
    (store : Store) (entries : List (Key × Value)) (key : Key) :
    get? (entries.foldl (fun store entry => insert store entry.1 entry.2) store) key =
      ((entries.reverse.find? (·.1 = key)).map Prod.snd).or (get? store key) := by
  induction entries using List.reverseRecOn with
  | nil => rfl
  | append_singleton entries entry inductionHypothesis =>
      rw [List.foldl_concat, get?_insert, List.reverse_append, List.reverse_singleton,
        List.singleton_append, List.find?_cons]
      by_cases same : entry.1 = key
      · simp [same]
      · simp [same, Ne.symm same, inductionHypothesis]

/-- Insert entries one after the other. -/
def insertAll (m : OrderedMap Key Value) (entries : List (Key × Value)) : OrderedMap Key Value :=
  entries.foldl (fun m entry => m.insert entry.1 entry.2) m

/-- What is found was inserted, or was there before. -/
theorem mem_or_get?_of_insertAll {m : OrderedMap Key Value} {entries : List (Key × Value)}
    {key : Key} {value : Value} (found : (m.insertAll entries).get? key = some value) :
    (key, value) ∈ entries ∨ m.get? key = some value := by
  rw [insertAll, get?_foldl_insert get?_insert, Option.or_eq_some_iff] at found
  rcases found with inserted | ⟨_, before⟩
  · exact .inl (List.mem_reverse.mp (mem_of_find? inserted))
  · exact .inr before

theorem mem_of_get?_ofList {entries : List (Key × Value)} {key : Key} {value : Value}
    (found : (ofList entries).get? key = some value) : (key, value) ∈ entries :=
  (mem_or_get?_of_insertAll (m := ∅) found).resolve_right (by simp)

/-- Of several values for a key the last stays. -/
theorem get?_ofList (entries : List (Key × Value)) (key : Key) :
    (ofList entries).get? key = (entries.reverse.find? (·.1 = key)).map Prod.snd := by
  rw [ofList, get?_foldl_insert get?_insert, get?_empty, Option.or_none]

theorem get?_ofList_of_last {before after : List (Key × Value)} {key : Key} {value : Value}
    (last : key ∉ after.map Prod.fst) :
    (ofList (before ++ (key, value) :: after)).get? key = some value := by
  have behind : after.reverse.find? (·.1 = key) = none := by
    rwa [find?_eq_none_iff, List.map_reverse, List.mem_reverse]
  rw [get?_ofList, List.reverse_append, List.reverse_cons, List.append_assoc, List.find?_append,
    behind]
  simp

theorem get?_ofList_of_mem {entries : List (Key × Value)} (distinct : (entries.map Prod.fst).Nodup)
    {key : Key} {value : Value} (known : (key, value) ∈ entries) :
    (ofList entries).get? key = some value := by
  obtain ⟨before, after, rfl⟩ := List.append_of_mem known
  simp only [List.map_append, List.map_cons] at distinct
  exact get?_ofList_of_last (List.nodup_cons.mp (List.nodup_append.mp distinct).2.1).1

theorem eraseDups_concat (keys : List Key) (key : Key) :
    (keys ++ [key]).eraseDups = if key ∈ keys then keys.eraseDups else keys.eraseDups ++ [key] := by
  rw [List.eraseDups_append]
  by_cases known : key ∈ keys
  · have again : [key].removeAll keys = [] := by simp [List.removeAll, known]
    rw [if_pos known, again, List.eraseDups_nil, List.append_nil]
  · have first : [key].removeAll keys = [key] := by simp [List.removeAll, known]
    rw [if_neg known, first]
    rfl

/-- Keys stand where they occur first. -/
theorem keys_ofList (entries : List (Key × Value)) :
    (ofList entries).keys = (entries.map Prod.fst).eraseDups := by
  induction entries using List.reverseRecOn with
  | nil => rfl
  | append_singleton entries entry inductionHypothesis =>
      have appended : ofList (entries ++ [entry]) = (ofList entries).insert entry.1 entry.2 :=
        List.foldl_concat ..
      rw [appended, keys_insert, inductionHypothesis, List.map_append, List.map_singleton,
        eraseDups_concat]
      simp only [List.mem_eraseDups]

theorem mem_keys_ofList {entries : List (Key × Value)} {key : Key} :
    key ∈ (ofList entries).keys ↔ key ∈ entries.map Prod.fst := by
  rw [keys_ofList, List.mem_eraseDups]

theorem count_keys_ofList (entries : List (Key × Value)) (key : Key) :
    (ofList entries).keys.count key = if key ∈ entries.map Prod.fst then 1 else 0 := by
  rw [(nodup_keys _).count]
  simp only [mem_keys_ofList]

/-- There are as many entries as there are different keys. -/
theorem size_ofList (entries : List (Key × Value)) :
    (ofList entries).size = (entries.map Prod.fst).toFinset.card := by
  have same : (ofList entries).keys.toFinset = (entries.map Prod.fst).toFinset := by
    ext key
    rw [List.mem_toFinset, List.mem_toFinset, mem_keys_ofList]
  rw [← length_keys, ← same, List.toFinset_card_of_nodup (nodup_keys _)]

/-- By induction from the end, where a key is kept only if it is new. -/
theorem pairwise_eraseDups (keys : List Key) :
    keys.eraseDups.Pairwise fun key other => keys.idxOf key < keys.idxOf other := by
  induction keys using List.reverseRecOn with
  | nil => exact .nil
  | append_singleton keys key inductionHypothesis =>
      have kept : keys.eraseDups.Pairwise fun first second =>
          (keys ++ [key]).idxOf first < (keys ++ [key]).idxOf second := by
        apply inductionHypothesis.imp_of_mem
        intro first second firstListed secondListed before
        rw [List.mem_eraseDups] at firstListed secondListed
        rwa [List.idxOf_append_of_mem firstListed, List.idxOf_append_of_mem secondListed]
      rw [eraseDups_concat]
      split
      next => exact kept
      next fresh =>
        refine List.pairwise_append.mpr ⟨kept, List.pairwise_singleton .., ?_⟩
        intro first listed second isLast
        obtain rfl := List.mem_singleton.mp isLast
        rw [List.mem_eraseDups] at listed
        rw [List.idxOf_append_of_mem listed, List.idxOf_append_of_notMem fresh]
        exact Nat.lt_add_right _ (List.idxOf_lt_length_of_mem listed)

theorem get?_eq_some_iff {m : OrderedMap Key Value} {key : Key} {value : Value} :
    m.get? key = some value ↔ (key, value) ∈ m.entries := by
  constructor
  · exact mem_of_find?
  · intro member
    obtain ⟨before, after, split⟩ := List.append_of_mem member
    have distinct := m.nodup
    rw [split, List.map_append, List.map_cons] at distinct
    have absent : key ∉ before.map Prod.fst := fun listed =>
      (List.nodup_append.mp distinct).2.2 key listed key List.mem_cons_self rfl
    rw [get?, split, List.find?_append, find?_eq_none_iff.mpr absent]
    simp

theorem mem_keys_iff {m : OrderedMap Key Value} {key : Key} :
    key ∈ m.keys ↔ ∃ value, m.get? key = some value := by
  simp [keys, get?_eq_some_iff]

theorem mem_values_iff {m : OrderedMap Key Value} {value : Value} :
    value ∈ m.values ↔ ∃ key, m.get? key = some value := by
  simp [values, get?_eq_some_iff]

theorem values_eq_filterMap (m : OrderedMap Key Value) : m.values = m.keys.filterMap m.get? := by
  rw [values, keys, List.filterMap_map, ← List.filterMap_eq_map]
  refine List.filterMap_congr fun entry member => ?_
  exact (get?_eq_some_iff.mpr member).symm

/-- A map is determined by its keys in order and what they have. -/
theorem ext_get? {first second : OrderedMap Key Value} (keys : first.keys = second.keys)
    (same : ∀ key ∈ first.keys, first.get? key = second.get? key) : first = second := by
  have listed : ∀ m : OrderedMap Key Value,
      m.entries.map some = m.keys.map fun key => (m.get? key).map (key, ·) := by
    intro m
    rw [OrderedMap.keys, List.map_map]
    refine List.map_congr_left fun entry member => ?_
    rw [Function.comp, get?_eq_some_iff.mpr member]
    rfl
  have mapped : first.entries.map some = second.entries.map some := by
    rw [listed, listed, ← keys]
    exact List.map_congr_left fun key known => by rw [same key known]
  exact OrderedMap.ext (List.map_injective_iff.mpr (fun _ _ => Option.some.inj) mapped)

theorem put_of_not_mem {entries : List (Key × Value)} {key : Key} (value : Value)
    (absent : key ∉ entries.map Prod.fst) : put key value entries = entries ++ [(key, value)] := by
  induction entries with
  | nil => rfl
  | cons entry entries inductionHypothesis =>
      simp only [List.map_cons, List.mem_cons, not_or] at absent
      rw [put, if_neg (Ne.symm absent.1), inductionHypothesis absent.2, List.cons_append]

theorem values_insert_of_get?_eq_none {m : OrderedMap Key Value} {key : Key} (value : Value)
    (absent : m.get? key = none) : (m.insert key value).values = m.values ++ [value] := by
  have missing : key ∉ m.keys := fun known => by
    obtain ⟨held, found⟩ := mem_keys_iff.mp known
    simp [absent] at found
  simp [values, insert, put_of_not_mem value missing]

section

variable {Other : Type w}

/-- Change every value of a map. -/
def mapValues (change : Value → Other) (m : OrderedMap Key Value) : OrderedMap Key Other where
  entries := m.entries.map fun entry => (entry.1, change entry.2)
  nodup := by
    rw [List.map_map]
    exact m.nodup

omit [DecidableEq Key] in
@[simp] theorem keys_mapValues (change : Value → Other) (m : OrderedMap Key Value) :
    (m.mapValues change).keys = m.keys := by
  rw [keys, mapValues, List.map_map, keys]
  rfl

@[simp] theorem get?_mapValues (change : Value → Other) (m : OrderedMap Key Value) (key : Key) :
    (m.mapValues change).get? key = (m.get? key).map change := by
  rw [get?, mapValues, List.find?_map, Option.map_map, get?, Option.map_map]
  rfl

omit [DecidableEq Key] in
theorem mapValues_id (m : OrderedMap Key Value) : m.mapValues id = m := by
  simp [mapValues]

end

end BlockVerilog.OrderedMap

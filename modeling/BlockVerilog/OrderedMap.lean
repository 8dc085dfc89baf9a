/-!
Finite maps that keep their keys in the order of first insertion.

`get?` and `keys` are the two views; the lemmas say what each operation does to them.
-/

namespace BlockVerilog

universe u v

/-- A finite map whose keys stand in the order of their first insertion. -/
structure OrderedMap (Key : Type u) (Value : Type v) where
  entries : List (Key × Value)
  nodup : (entries.map Prod.fst).Nodup

namespace OrderedMap

variable {Key : Type u} {Value : Type v}

/-- Give `key` its value in place, or append it. -/
def put [DecidableEq Key] (key : Key) (value : Value) : List (Key × Value) → List (Key × Value)
  | [] => [(key, value)]
  | entry :: rest =>
      if entry.1 = key then (key, value) :: rest else entry :: put key value rest

theorem map_fst_put [DecidableEq Key] (key : Key) (value : Value) (entries : List (Key × Value)) :
    (put key value entries).map Prod.fst =
      if key ∈ entries.map Prod.fst then entries.map Prod.fst
      else entries.map Prod.fst ++ [key] := by
  induction entries with
  | nil => simp [put]
  | cons entry rest inductionHypothesis =>
      by_cases same : entry.1 = key
      · simp [put, same]
      · have other : ¬ key = entry.1 := fun h => same h.symm
        simp only [put, same, if_false, List.map_cons, inductionHypothesis, List.mem_cons, other,
          false_or]
        split <;> simp

protected def empty : OrderedMap Key Value := ⟨[], List.nodup_nil⟩

instance : EmptyCollection (OrderedMap Key Value) := ⟨OrderedMap.empty⟩

instance : Inhabited (OrderedMap Key Value) := ⟨∅⟩

@[ext]
theorem ext {first second : OrderedMap Key Value} (same : first.entries = second.entries) :
    first = second := by
  cases first
  cases second
  simp_all

/-- The keys in the order of first insertion. -/
def keys (m : OrderedMap Key Value) : List Key := m.entries.map Prod.fst

def values (m : OrderedMap Key Value) : List Value := m.entries.map Prod.snd

def size (m : OrderedMap Key Value) : Nat := m.entries.length

def isEmpty (m : OrderedMap Key Value) : Bool := m.entries.isEmpty

@[simp] theorem keys_empty : (∅ : OrderedMap Key Value).keys = [] := rfl

theorem nodup_keys (m : OrderedMap Key Value) : m.keys.Nodup := m.nodup

@[simp] theorem length_keys (m : OrderedMap Key Value) : m.keys.length = m.size := by
  simp [keys, size]

variable [DecidableEq Key]

def get? (m : OrderedMap Key Value) (key : Key) : Option Value :=
  (m.entries.find? (·.1 = key)).map Prod.snd

def contains (m : OrderedMap Key Value) (key : Key) : Bool :=
  m.entries.any (·.1 = key)

/-- Set the value of a key. A new key comes last, a known one keeps its place. -/
def insert (m : OrderedMap Key Value) (key : Key) (value : Value) : OrderedMap Key Value where
  entries := put key value m.entries
  nodup := by
    rw [map_fst_put]
    split
    next => exact m.nodup
    next fresh =>
      rw [List.nodup_append]
      refine ⟨m.nodup, by simp, fun other known last lastIs => ?_⟩
      rw [List.mem_singleton] at lastIs
      subst lastIs
      exact fun same => fresh (same ▸ known)

/-- Set the value of a key unless it has one. -/
def insertNew (m : OrderedMap Key Value) (key : Key) (value : Value) : OrderedMap Key Value :=
  if m.contains key then m else m.insert key value

def ofList (entries : List (Key × Value)) : OrderedMap Key Value :=
  entries.foldl (fun m entry => m.insert entry.1 entry.2) ∅

@[simp] theorem get?_empty (key : Key) : (∅ : OrderedMap Key Value).get? key = none := rfl

@[simp] theorem contains_iff_mem_keys {m : OrderedMap Key Value} {key : Key} :
    m.contains key = true ↔ key ∈ m.keys := by
  simp [contains, keys]

theorem keys_insert (m : OrderedMap Key Value) (key : Key) (value : Value) :
    (m.insert key value).keys = if key ∈ m.keys then m.keys else m.keys ++ [key] :=
  map_fst_put key value m.entries

theorem get?_insert (m : OrderedMap Key Value) (key other : Key) (value : Value) :
    (m.insert key value).get? other = if other = key then some value else m.get? other := by
  obtain ⟨entries, distinct⟩ := m
  simp only [get?, insert]
  clear distinct
  induction entries with
  | nil => by_cases same : key = other <;> simp [put, same, eq_comm]
  | cons entry rest inductionHypothesis =>
      by_cases replaced : entry.1 = key
      · by_cases same : other = key
        · simp [put, replaced, same]
        · have : ¬ key = other := fun h => same h.symm
          simp [put, replaced, same, this]
      · by_cases here : entry.1 = other
        · have : ¬ other = key := fun h => replaced (here.trans h)
          simp [put, here, this]
        · simp only [put, replaced, if_false, List.find?_cons, here, decide_false]
          exact inductionHypothesis

end OrderedMap

end BlockVerilog

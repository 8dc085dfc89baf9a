import BlockVerilog.Identifier
import BlockVerilog.Keyword
import BlockVerilog.OrderedMap

/-!
Distinct legal names for stable identities.

An identity keeps the name it got first. A new one gets the identifier made of the requested text,
or, where that is taken, the identifier followed by the least number from two on that makes it
free.
-/

namespace BlockVerilog

/-- What a name stands for. -/
inductive NameSpace where
  /-- Variables of the workspace. -/
  | variable
  /-- Helper names that a pass makes up. -/
  | developer
  deriving DecidableEq, Repr

/-- A name space and an id in it. -/
abbrev Identity := NameSpace × String

/-- The names given so far, and the words that are never given on top of the keywords. -/
structure Names where
  reserved : List String
  assigned : OrderedMap Identity String

namespace Names

/-- No names yet. -/
def withReserved (words : List String) : Names := ⟨words, ∅⟩

def isReserved (names : Names) (name : String) : Bool :=
  isKeyword name || names.reserved.contains name

def isUsed (names : Names) (name : String) : Bool :=
  names.assigned.values.contains name

/-- Neither given nor reserved. -/
def isFree (names : Names) (name : String) : Bool :=
  !names.isUsed name && !names.isReserved name

/-- A base name with a number behind it. -/
def suffixed (base : String) (n : Nat) : String := base ++ toString n

/-- The names that are not free. -/
def taken (names : Names) : List String :=
  names.assigned.values ++ names.reserved ++ keywords

/-- The least number from `n` on that makes a base name free, if at most `tries` numbers are taken.
A name that takes one number away takes no other, so the search goes on without it. -/
def freeSuffix (base : String) : (tries n : Nat) → (taken : List String) → Nat
  | 0, n, _ => n
  | tries + 1, n, taken =>
      let name := suffixed base n
      if name ∈ taken then freeSuffix base tries (n + 1) (taken.erase name) else n

/-- The name for a requested text. -/
def freeName (names : Names) (requested : String) : String :=
  let base := Identifier.safeName requested
  if names.isFree base then base
  else suffixed base (freeSuffix base names.taken.length 2 names.taken)

def lookup (names : Names) (identity : Identity) : Option String :=
  names.assigned.get? identity

/-- The name of an identity, given from a requested text on first use. -/
def allocate (names : Names) (identity : Identity) (requested : String) : String × Names :=
  match names.lookup identity with
  | some name => (name, names)
  | none =>
      let name := names.freeName requested
      (name, { names with assigned := names.assigned.insert identity name })

/-- How many names were given. -/
def size (names : Names) : Nat := names.assigned.size

def isEmpty (names : Names) : Bool := names.assigned.isEmpty

/-- Take every name back; reserved words stay. -/
def reset (names : Names) : Names := withReserved names.reserved

end Names

end BlockVerilog

/-!
White space as the Unicode property `White_Space` has it, and the cuts made at it.

`trim` drops it at both ends of a text; `words` are the maximal runs without it.
-/

namespace BlockVerilog.Text

/-- First and last code point of each run of the property `White_Space`. -/
def blankRanges : List (Nat × Nat) :=
  [(0x09, 0x0D), (0x20, 0x20), (0x85, 0x85), (0xA0, 0xA0), (0x1680, 0x1680), (0x2000, 0x200A),
    (0x2028, 0x2029), (0x202F, 0x202F), (0x205F, 0x205F), (0x3000, 0x3000)]

def isBlank (c : Char) : Bool :=
  blankRanges.any fun range => range.1 ≤ c.toNat && c.toNat ≤ range.2

/-- Drop the characters of a class at the end of a text. -/
def dropWhileEnd (drop : Char → Bool) (text : List Char) : List Char :=
  (text.reverse.dropWhile drop).reverse

/-- The characters of a class that end a text. -/
def takeWhileEnd (take : Char → Bool) (text : List Char) : List Char :=
  (text.reverse.takeWhile take).reverse

theorem dropWhileEnd_append_takeWhileEnd (p : Char → Bool) (text : List Char) :
    dropWhileEnd p text ++ takeWhileEnd p text = text := by
  rw [dropWhileEnd, takeWhileEnd, ← List.reverse_append, List.takeWhile_append_dropWhile,
    List.reverse_reverse]

def trim (text : List Char) : List Char :=
  dropWhileEnd isBlank (text.dropWhile isBlank)

/-- The maximal runs of a text that hold no white space, in order. -/
def words (text : List Char) : List (List Char) :=
  (text.splitOnP isBlank).filter (· ≠ [])

/-- `trim` on strings. -/
def trimmed (text : String) : String :=
  String.ofList (trim text.toList)

@[simp] theorem toList_trimmed (text : String) : (trimmed text).toList = trim text.toList := by
  simp [trimmed]

end BlockVerilog.Text

import BlockVerilog.Text.Quoted

/-!
String literals can be read back.

`readLiteral?` is how a reader takes a literal: from left to right, up to the first quotation mark
that no backslash escapes. Of an escaped text it gives the text, whatever that holds.
-/

namespace BlockVerilog.Text

/-- The character that an escaped one stands for. -/
def escaped? : Char → Option Char
  | '\\' => some '\\'
  | '"' => some '"'
  | 'n' => some '\n'
  | _ => none

/-- Read a literal behind its opening quotation mark: the text that it stands for, and what follows
the closing one. There is none if an escape is unknown, or if nothing closes the literal. -/
def readLiteral? : List Char → Option (List Char × List Char)
  | [] => none
  | '"' :: rest => some ([], rest)
  | ['\\'] => none
  | '\\' :: mark :: rest =>
      (escaped? mark).bind fun c => (readLiteral? rest).map fun read => (c :: read.1, read.2)
  | c :: rest => (readLiteral? rest).map fun read => (c :: read.1, read.2)

theorem readLiteral?_escapeChar (c : Char) (rest : List Char) :
    readLiteral? (escapeChar c ++ rest) =
      (readLiteral? rest).map fun read => (c :: read.1, read.2) := by
  unfold escapeChar
  split
  next backslash => rw [backslash]; rfl
  next noBackslash =>
    split
    next quotation => rw [quotation]; rfl
    next noQuotation =>
      split
      next newline => rw [newline]; rfl
      next =>
        rw [List.singleton_append, readLiteral?]
        · exact noQuotation
        · exact fun backslash _ => noBackslash backslash
        · exact fun _ _ backslash _ => noBackslash backslash

/-- An escaped text is read as the text, up to the quotation mark behind it. -/
theorem readLiteral?_escapeLiteral (text rest : List Char) :
    readLiteral? (escapeLiteral text ++ '"' :: rest) = some (text, rest) := by
  induction text with
  | nil => rfl
  | cons c text inductionHypothesis =>
      rw [escapeLiteral, List.flatMap_cons, List.append_assoc, readLiteral?_escapeChar,
        ← escapeLiteral, inductionHypothesis]
      rfl

theorem newline_not_mem_escapeLiteral (text : List Char) : '\n' ∉ escapeLiteral text := by
  intro newline
  obtain ⟨c, _, inside⟩ := List.mem_flatMap.mp newline
  unfold escapeChar at inside
  split at inside
  next => exact absurd inside (by decide)
  next =>
    split at inside
    next => exact absurd inside (by decide)
    next =>
      split at inside
      next => exact absurd inside (by decide)
      next other => exact other (List.mem_singleton.mp inside).symm

example : readLiteral? "a\\\"b\\\\\" more".toList = some ("a\"b\\".toList, " more".toList) := by
  decide

end BlockVerilog.Text

import BlockVerilog.Text.Blank
import BlockVerilog.Text.Lines

/-!
Comment layout: greedy wrapping of words into lines, and the block of `// ` lines made of it.
-/

namespace BlockVerilog.Text

/-- A line of words with single spaces between them. -/
def joinWords (line : List (List Char)) : List Char :=
  [' '].intercalate line

/-- Continue a line with the words that still fit into `limit` characters, then open the next. -/
def fillLine (limit : Nat) (line : List (List Char)) :
    List (List Char) → List (List (List Char))
  | [] => [line]
  | word :: rest =>
      if (joinWords line).length + 1 + word.length ≤ limit then
        fillLine limit (line ++ [word]) rest
      else
        line :: fillLine limit [word] rest

/-- Cut words into lines of at most `limit` characters, each taking as many words as fit. A word
longer than that stands alone on its line; no words make one empty line. -/
def fill (limit : Nat) : List (List Char) → List (List (List Char))
  | [] => [[]]
  | word :: rest => fillLine limit [word] rest

/-- Wrap every line of a text on its own. A limit of zero counts as one. -/
def wrap (limit : Nat) (text : List Char) : List Char :=
  unlines ((lines text).flatMap fun paragraph =>
    (fill (max limit 1) (words paragraph)).map joinWords)

/-- What opens a comment line. -/
def commentMark : List Char := ['/', '/', ' ']

/-- A comment as `// ` lines of `width` characters, each ended by a newline; a comment that wraps
to nothing has no block. -/
def commentBlock (width : Nat) (comment : List Char) : List Char :=
  match wrap (width - commentMark.length) comment with
  | [] => []
  | wrapped => prefixLines commentMark wrapped ++ ['\n']

end BlockVerilog.Text

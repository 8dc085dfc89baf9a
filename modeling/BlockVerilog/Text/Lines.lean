/-!
Texts as newline-separated lines, and the prefix put before each of them.
-/

namespace BlockVerilog.Text

/-- The newline-separated lines of a text; the empty text is one empty line. -/
def lines (text : List Char) : List (List Char) :=
  text.splitOn '\n'

def unlines (ls : List (List Char)) : List Char :=
  ['\n'].intercalate ls

/-- The newline that ends a text, if one does. -/
def finalNewline (text : List Char) : List Char :=
  if text.getLast? = some '\n' then ['\n'] else []

def withoutFinalNewline (text : List Char) : List Char :=
  if text.getLast? = some '\n' then text.dropLast else text

/-- Put `lead` before every line. A final newline opens no line, and the empty text has none. -/
def prefixLines (lead text : List Char) : List Char :=
  if text = [] then []
  else
    lead ++ (withoutFinalNewline text).flatMap (fun c => if c = '\n' then '\n' :: lead else [c])
      ++ finalNewline text

@[simp] theorem prefixLines_nil (lead : List Char) : prefixLines lead [] = [] := by
  simp [prefixLines]

theorem withoutFinalNewline_append_finalNewline (text : List Char) :
    withoutFinalNewline text ++ finalNewline text = text := by
  unfold withoutFinalNewline finalNewline
  split
  next ended =>
    obtain ⟨body, rfl⟩ := List.getLast?_eq_some_iff.mp ended
    simp
  next => simp

/-- `prefixLines` on strings. -/
def indentLines (lead text : String) : String :=
  String.ofList (prefixLines lead.toList text.toList)

@[simp] theorem toList_indentLines (lead text : String) :
    (indentLines lead text).toList = prefixLines lead.toList text.toList := by
  simp [indentLines]

end BlockVerilog.Text

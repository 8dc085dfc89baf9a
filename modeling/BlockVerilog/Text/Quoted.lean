import BlockVerilog.Text.Hidden

/-!
Quoted texts: the string literals of Verilog, and the quotations in messages.
-/

namespace BlockVerilog.Text

/-- A character inside a Verilog string literal. -/
def escapeChar (c : Char) : List Char :=
  if c = '\\' then ['\\', '\\']
  else if c = '"' then ['\\', '"']
  else if c = '\n' then ['\\', 'n']
  else [c]

/-- A text inside a Verilog string literal. -/
def escapeLiteral (text : List Char) : List Char :=
  text.flatMap escapeChar

/-- A character by its number in hexadecimal. -/
def showByNumber (c : Char) : List Char :=
  ['\\', 'u', '\x7b'] ++ Nat.toDigits 16 c.toNat ++ ['\x7d']

/-- A character inside a quotation: a few controls have letters, other hidden characters show
their number. -/
def quoteChar (c : Char) : List Char :=
  if c = '\x00' then ['\\', '0']
  else if c = '\t' then ['\\', 't']
  else if c = '\r' then ['\\', 'r']
  else if c = '\n' then ['\\', 'n']
  else if c = '\\' then ['\\', '\\']
  else if c = '"' then ['\\', '"']
  else if c.toNat < 0x20 || isHidden c then showByNumber c
  else [c]

/-- A text in quotation marks, as messages show it. -/
def quote (text : List Char) : List Char :=
  '"' :: text.flatMap quoteChar ++ ['"']

end BlockVerilog.Text

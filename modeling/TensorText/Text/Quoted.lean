/-
Texts in double quotes, with escapes for what cannot stand between quotes or be seen.

A backslash stands before a quote and before a backslash; NUL, tab, line feed and
carriage return have letters of their own; every other hidden character is written as
its code point in hexadecimal.
-/
import TensorText.Text.Hidden

namespace TensorText.Text

/-- One character of a quoted text. -/
def quotedChar (c : Char) : List Char :=
  if c = '"' then ['\\', '"']
  else if c = '\\' then ['\\', '\\']
  else if c = '\x00' then ['\\', '0']
  else if c = '\t' then ['\\', 't']
  else if c = '\n' then ['\\', 'n']
  else if c = '\r' then ['\\', 'r']
  else if isHidden c then ['\\', 'u', '{'] ++ Nat.toDigits 16 c.toNat ++ ['}']
  else [c]

/-- A text in quotes. -/
def quoted (s : String) : String := "\"" ++ String.ofList (s.toList.flatMap quotedChar) ++ "\""

/-- A list of texts in quotes, parted by commas and enclosed in brackets. -/
def quotedList (ss : List String) : String := "[" ++ ", ".intercalate (ss.map quoted) ++ "]"

end TensorText.Text

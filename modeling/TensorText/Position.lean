/-
Lines and columns.

A diagnostic points at a character by the line and column reached after reading up to
and including that character, both counted from one.  So the first character of a text
is reported in column two, a failing newline is reported in column one of the next
line, and the end of the text counts as one more character.
-/
namespace TensorText

/-- A line and a column, both counted from one. -/
structure Position where
  line : Nat
  column : Nat
deriving DecidableEq

namespace Position

/-- Where reading begins. -/
def start : Position := ⟨1, 1⟩

/-- The position after one more character. -/
def advance (p : Position) (c : Char) : Position :=
  if c = '\n' then ⟨p.line + 1, 1⟩ else ⟨p.line, p.column + 1⟩

/-- The position after a run of characters. -/
def after (cs : List Char) : Position := cs.foldl advance start

/-- The position reported for the character with index `i` of a buffer; past the last
character stands a terminator that takes up one column. -/
def ofIndex (buffer : List Char) (i : Nat) : Position :=
  (after (buffer.take i)).advance (buffer[i]?.getD '\x00')

/-- The written form, `line:column`. -/
def text (p : Position) : String := toString p.line ++ ":" ++ toString p.column

end Position

end TensorText

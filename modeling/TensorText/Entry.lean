/-
Named tensors as a text holds them: a name and two runs of bytes.

Nothing here interprets the bytes.  An `Entry` is what one tensor of a text says, a
`Document` is all of them in the order they were written, and a `Sink` is anything
that takes entries one at a time.  A scan hands each entry to its sink as soon as the
tensor is complete, so what a sink receives is defined even for a text that turns out
to be malformed further on.
-/
namespace TensorText

/-- One named tensor of a text, its two payloads still raw bytes. -/
structure Entry where
  /-- The name, exactly the characters between its quotes. -/
  name : String
  /-- The bytes that spell the shape. -/
  dimensions : List UInt8
  /-- The bytes that spell the values. -/
  values : List UInt8
deriving DecidableEq

/-- The entries of a text in source order; a name may occur more than once. -/
structure Document where
  entries : List Entry
deriving DecidableEq

namespace Document

/-- The document without tensors. -/
def empty : Document := ⟨[]⟩

/-- The number of entries. -/
def size (d : Document) : Nat := d.entries.length

/-- Whether the document holds no tensors. -/
def isEmpty (d : Document) : Bool := d.entries.isEmpty

/-- The names in source order, repetitions kept. -/
def names (d : Document) : List String := d.entries.map Entry.name

/-- The first entry that bears the name. -/
def find? (d : Document) (name : String) : Option Entry :=
  d.entries.find? fun e => e.name == name

/-- The document with one more entry at its end. -/
def push (d : Document) (e : Entry) : Document := ⟨d.entries ++ [e]⟩

end Document

/-- A state that takes entries one at a time. -/
class Sink (σ : Type) where
  /-- The state after one more entry. -/
  push : σ → Entry → σ

instance : Sink Document := ⟨Document.push⟩

instance : Sink (List Entry) := ⟨fun es e => es ++ [e]⟩

end TensorText

/-
The JSON forms of entries, documents and positions.

Each is an object with its fields in a fixed order; bytes are lists of whole numbers.
-/
import TensorText.Entry
import TensorText.Json.Decoder
import TensorText.Json.Value
import TensorText.Position

namespace TensorText.Json

/-! ### Writing -/

/-- Bytes as a list of numbers. -/
def ofBytes (bytes : List UInt8) : Value := .array (bytes.map fun b => .whole b.toNat)

/-- An entry with its name and both payloads. -/
def ofEntry (e : Entry) : Value :=
  .object [("name", .text e.name), ("dimensions", ofBytes e.dimensions),
    ("values", ofBytes e.values)]

/-- A document as the list of its entries. -/
def ofDocument (d : Document) : Value :=
  .object [("entries", .array (d.entries.map ofEntry))]

/-- A position as its line and column. -/
def ofPosition (p : Position) : Value :=
  .object [("line", .whole p.line), ("column", .whole p.column)]

/-! ### Reading -/

/-- A list of numbers below 256. -/
def bytes : Decoder (List UInt8) := fun s =>
  (list (natural 256) s).map fun p => (p.1.map UInt8.ofNat, p.2)

/-- An entry of which some fields may still be missing. -/
structure PartialEntry where
  name : Option String
  dimensions : Option (List UInt8)
  values : Option (List UInt8)

/-- An entry with its three fields. -/
def entry : Decoder Entry :=
  record
    [{ key := "name"
       isSet := fun r => r.name.isSome
       read := fun r s => (text s).map fun p => ({ r with name := some p.1 }, p.2) },
     { key := "dimensions"
       isSet := fun r => r.dimensions.isSome
       read := fun r s => (bytes s).map fun p => ({ r with dimensions := some p.1 }, p.2) },
     { key := "values"
       isSet := fun r => r.values.isSome
       read := fun r s => (bytes s).map fun p => ({ r with values := some p.1 }, p.2) }]
    (⟨none, none, none⟩ : PartialEntry)
    fun r =>
      match r with
      | ⟨some name, some dimensions, some values⟩ => some ⟨name, dimensions, values⟩
      | _ => none

/-- A document with the list of its entries. -/
def document : Decoder Document :=
  record
    [{ key := "entries"
       isSet := Option.isSome
       read := fun _ s => (list entry s).map fun p => (some p.1, p.2) }]
    (none : Option (List Entry))
    fun r => r.map Document.mk

/-- A position of which some fields may still be missing. -/
structure PartialPosition where
  line : Option Nat
  column : Option Nat

/-- A position whose line and column fit in 64 bits. -/
def position : Decoder Position :=
  record
    [{ key := "line"
       isSet := fun r => r.line.isSome
       read := fun r s => (natural (Nat.pow 2 64) s).map fun p => ({ r with line := some p.1 }, p.2) },
     { key := "column"
       isSet := fun r => r.column.isSome
       read := fun r s =>
        (natural (Nat.pow 2 64) s).map fun p => ({ r with column := some p.1 }, p.2) }]
    (⟨none, none⟩ : PartialPosition)
    fun r =>
      match r with
      | ⟨some line, some column⟩ => some ⟨line, column⟩
      | _ => none

end TensorText.Json

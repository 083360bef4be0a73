/-
Reports on the entries of a document: a table to look at, or JSON to read by machine.

An entry that is no tensor is reported as well, with its fault in place of its shape.
-/
import TensorText.Decimal.Shortest
import TensorText.Json.Value
import TensorText.Tensor

namespace TensorText

namespace Report

/-! ### The table -/

/-- One row of the table. -/
structure Row where
  name : String
  shape : String
  count : String

/-- The first row, which names the columns. -/
def Row.header : Row := ⟨"NAME", "SHAPE", "VALUES"⟩

/-- A shape as a list in brackets. -/
def shapeText (shape : List Int64) : String :=
  "[" ++ ", ".intercalate (shape.map fun d => toString d.toInt) ++ "]"

/-- The row for an entry. -/
def row (e : Entry) : Row :=
  match Tensor.ofEntry e with
  | .ok t => ⟨e.name, shapeText t.shape, toString t.size⟩
  | .error fault => ⟨e.name, "?", "(" ++ fault.message ++ ")"⟩

/-- A text filled up with spaces to so many characters. -/
def pad (width : Nat) (s : String) : String :=
  s ++ String.ofList (List.replicate (width - s.length) ' ')

/-- The least number, not below `least`, that none of the texts exceeds in bytes. -/
def columnWidth (least : Nat) (cells : List String) : Nat :=
  cells.foldl (fun width s => max width s.utf8ByteSize) least

/-- A row with its first two columns filled up to their widths. -/
def Row.text (r : Row) (nameWidth shapeWidth : Nat) : String :=
  pad nameWidth r.name ++ "  " ++ pad shapeWidth r.shape ++ "  " ++ r.count

/-- A header and one row per entry, in columns as wide as their widest cell in bytes. -/
def table (entries : List Entry) : String :=
  if entries = [] then "(no inputs)"
  else
    let rows := entries.map row
    let nameWidth := columnWidth 4 (rows.map Row.name)
    let shapeWidth := columnWidth 5 (rows.map Row.shape)
    "\n".intercalate ((Row.header :: rows).map fun r => r.text nameWidth shapeWidth)

/-! ### The JSON -/

/-- The shortest decimal that reads back as the number in 64 bits. -/
def shortest (x : Binary32) : Decimal :=
  if x.significand = 0 then ⟨x.isNegative, 0, 0⟩
  else
    let (digits, exponent) := Shortest.digits (.normalize x.significand x.scale)
    ⟨x.isNegative, digits, exponent⟩

/-- A number; what is infinite or no number is null. -/
def number (x : Binary32) : Json.Value :=
  if x.isFinite then .decimal (shortest x) else .null

/-- The object for an entry, its members ordered by key. -/
def object (e : Entry) : Json.Value :=
  match Tensor.ofEntry e with
  | .ok t =>
    .object [("name", .text t.name), ("shape", .array (t.shape.map fun d => .whole d.toInt)),
      ("values", .array (t.values.map number))]
  | .error fault =>
    .object [("dimension_bytes", .whole e.dimensions.length), ("error", .text fault.message),
      ("name", .text e.name), ("value_bytes", .whole e.values.length)]

/-- The number of entries and an object for each. -/
def json (entries : List Entry) : Json.Value :=
  .object [("count", .whole entries.length), ("inputs", .array (entries.map object))]

end Report

/-- How entries are reported. -/
inductive ReportMode
  | table
  | json
deriving DecidableEq

/-- A report on entries. -/
def report (mode : ReportMode) (entries : List Entry) : String :=
  match mode with
  | .table => Report.table entries
  | .json => (Report.json entries).toText

end TensorText

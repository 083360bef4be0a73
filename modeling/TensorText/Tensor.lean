/-
Tensors: entries whose bytes have been read as a shape and as numbers.

A shape is a list of signed whole numbers of eight bytes, and values are floating-point
numbers of four bytes, both with the least significant byte first.  A `Tensor` carries
the proof that its values fill its shape, so it exists only for a shape without negative
dimensions whose number of elements can be counted in 64 bits.
-/
import TensorText.Binary32
import TensorText.Entry
import TensorText.LittleEndian

namespace TensorText

/-- Why a shape and values make no tensor. -/
inductive InputCause
  /-- The bytes of the shape do not divide into dimensions. -/
  | raggedShape (length : Nat)
  /-- The bytes of the values do not divide into numbers. -/
  | raggedValues (length : Nat)
  /-- The dimension of this axis is below zero. -/
  | negative (axis : Nat) (dimension : Int)
  /-- The elements of the shape cannot be counted in 64 bits. -/
  | uncountable
  /-- The shape has another number of elements than there are values. -/
  | unfilled (expected actual : Nat)
deriving DecidableEq

/-- A cause, and the name of the entry it concerns. -/
structure InputFault where
  name : String
  cause : InputCause
deriving DecidableEq

/-- The fault in words. -/
def InputFault.message (f : InputFault) : String :=
  "input '" ++ f.name ++ "': " ++
    match f.cause with
    | .raggedShape length =>
      "dimensions byte length " ++ toString length ++ " is not a multiple of 8"
    | .raggedValues length =>
      "values byte length " ++ toString length ++ " is not a multiple of 4"
    | .negative axis dimension =>
      "dimension " ++ toString axis ++ " is negative (" ++ toString dimension ++ ")"
    | .uncountable => "element count overflows"
    | .unfilled expected actual =>
      "shape holds " ++ toString expected ++ " elements but " ++ toString actual ++
        " values were given"

/-- The number of elements of a shape whose axes before `axis` have `count` elements. -/
def countElementsFrom (axis count : Nat) : List Int64 → Except InputCause Nat
  | [] => .ok count
  | d :: shape =>
    if d.toInt < 0 then .error (.negative axis d.toInt)
    else if Nat.pow 2 64 ≤ count * d.toInt.toNat then .error .uncountable
    else countElementsFrom (axis + 1) (count * d.toInt.toNat) shape

/-- The number of elements of a shape, the product of its dimensions.  The product is
formed from left to right and must fit in 64 bits at every step. -/
def countElements (shape : List Int64) : Except InputCause Nat := countElementsFrom 0 1 shape

/-- A named array of numbers. -/
structure Tensor where
  name : String
  /-- The dimensions, outermost first. -/
  shape : List Int64
  /-- The elements, the last axis varying fastest. -/
  values : List Binary32
  /-- There is one value for each element of the shape. -/
  filled : countElements shape = .ok values.length
deriving DecidableEq

namespace Tensor

/-- The tensor with the given name, shape and values, if the values fill the shape. -/
def new (name : String) (shape : List Int64) (values : List Binary32) :
    Except InputFault Tensor :=
  match h : countElements shape with
  | .error cause => .error ⟨name, cause⟩
  | .ok n =>
    if hn : n = values.length then .ok ⟨name, shape, values, hn ▸ h⟩
    else .error ⟨name, .unfilled n values.length⟩

/-- The number of axes. -/
def rank (t : Tensor) : Nat := t.shape.length

/-- The number of elements; a tensor without axes has one. -/
def size (t : Tensor) : Nat := t.values.length

/-- The dimensions that bytes spell. -/
def shapeOfBytes (bytes : List UInt8) : List Int64 :=
  (LittleEndian.words 8 (bytes.length / 8) bytes).map Int64.ofNat

/-- The numbers that bytes spell. -/
def valuesOfBytes (bytes : List UInt8) : List Binary32 :=
  (LittleEndian.words 4 (bytes.length / 4) bytes).map fun n => ⟨UInt32.ofNat n⟩

/-- The tensor that an entry spells. -/
def ofEntry (e : Entry) : Except InputFault Tensor :=
  if e.dimensions.length % 8 ≠ 0 then
    .error ⟨e.name, .raggedShape e.dimensions.length⟩
  else if e.values.length % 4 ≠ 0 then
    .error ⟨e.name, .raggedValues e.values.length⟩
  else new e.name (shapeOfBytes e.dimensions) (valuesOfBytes e.values)

/-- The entry that spells a tensor. -/
def toEntry (t : Tensor) : Entry where
  name := t.name
  dimensions := t.shape.flatMap fun d => LittleEndian.ofNat 8 d.toUInt64.toNat
  values := t.values.flatMap fun v => LittleEndian.ofNat 4 v.bits.toNat

end Tensor

end TensorText

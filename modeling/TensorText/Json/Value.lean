/-
JSON values and their written form.

A value is written without any white space.  A decimal is written in positional notation
while its point falls within sixteen digits, or within four zeros after the leading one,
and in scientific notation beyond that; either way it can be told from a whole number.
-/
import TensorText.Decimal.Basic
import TensorText.Json.Text

namespace TensorText.Json

/-- A JSON value; the members of an object are kept in the order they are written in. -/
inductive Value
  | null
  | whole (n : Int)
  | decimal (d : Decimal)
  | text (s : String)
  | array (vs : List Value)
  | object (members : List (String × Value))

/-- The digits of a number, most significant first. -/
def digits (n : Nat) : List Char := Nat.toDigits 10 n

/-- A whole number with its sign. -/
def writeWhole (n : Int) : List Char :=
  if n < 0 then '-' :: digits n.natAbs else digits n.natAbs

/-- Where the digits of a decimal meet its point: `point` digits stand before it. -/
def writePositional (ds : List Char) (point : Int) : List Char :=
  if point ≤ 0 then ['0', '.'] ++ List.replicate (-point).toNat '0' ++ ds
  else if ds.length ≤ point.toNat then
    ds ++ List.replicate (point.toNat - ds.length) '0' ++ ['.', '0']
  else ds.take point.toNat ++ ['.'] ++ ds.drop point.toNat

/-- The digits of a decimal, one of them before the point, and the power of ten. -/
def writeScientific (ds : List Char) (exponent : Int) : List Char :=
  let power := (if exponent < 0 then '-' else '+') :: digits exponent.natAbs
  match ds with
  | [] => 'e' :: power
  | [d] => d :: 'e' :: power
  | d :: ds => d :: '.' :: ds ++ 'e' :: power

/-- A decimal with its sign. -/
def writeDecimal (d : Decimal) : List Char :=
  let ds := digits d.digits
  let point := ds.length + d.exponent
  let magnitude :=
    if d.digits = 0 then ['0', '.', '0']
    else if -5 < point ∧ point ≤ 16 then writePositional ds point
    else writeScientific ds (point - 1)
  if d.negative then '-' :: magnitude else magnitude

mutual

/-- The written form of a value. -/
def Value.write : Value → List Char
  | .null => ['n', 'u', 'l', 'l']
  | .whole n => writeWhole n
  | .decimal d => writeDecimal d
  | .text s => quote s
  | .array vs => '[' :: writeItems vs ++ [']']
  | .object members => '{' :: writeMembers members ++ ['}']

/-- Values parted by commas. -/
def writeItems : List Value → List Char
  | [] => []
  | [v] => v.write
  | v :: vs => v.write ++ ',' :: writeItems vs

/-- Members of an object parted by commas. -/
def writeMembers : List (String × Value) → List Char
  | [] => []
  | [(key, v)] => quote key ++ ':' :: v.write
  | (key, v) :: members => quote key ++ ':' :: v.write ++ ',' :: writeMembers members

end

/-- The written form of a value as a text. -/
def Value.toText (v : Value) : String := String.ofList v.write

end TensorText.Json

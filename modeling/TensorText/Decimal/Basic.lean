/-
Decimal numbers: a whole number of digits and a power of ten.
-/
namespace TensorText

/-- The number `digits * 10 ^ exponent`, negated if `negative`. -/
structure Decimal where
  negative : Bool
  digits : Nat
  exponent : Int
deriving DecidableEq

namespace Decimal

/-- How many decimal digits a number is written with; zero takes one. -/
def width (n : Nat) : Nat := (Nat.toDigits 10 n).length

/-- The number that a run of decimal digits spells. -/
def ofDigits (ds : List Char) : Nat := ds.foldl (fun n c => 10 * n + (c.toNat - 48)) 0

end Decimal

/-- The whole number nearest to `num / den`, an exact half going to the even neighbour. -/
def roundHalfEven (num den : Nat) : Nat :=
  let q := num / den
  let twice := 2 * (num % den)
  if twice < den then q else if den < twice then q + 1 else q + q % 2

/-- The nearest number with no more than `bits` significant bits, an exact half going to
the one whose last bit is zero. -/
def roundToBits (bits n : Nat) : Nat :=
  let unit := Nat.pow 2 (n.log2 + 1 - bits)
  roundHalfEven n unit * unit

end TensorText

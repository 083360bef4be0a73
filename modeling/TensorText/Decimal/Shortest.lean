/-
The shortest decimal that reads back.

A floating-point number of 64 bits with 53 bits of significand stands for every real
number that is nearer to it than to its neighbours, and for the two ends of that range
as well if its significand is even.  Of the decimals in the range the shortest is
wanted, and of those the nearest to the number itself, a tie going to the even digit.

A decimal of a given length is a multiple of a power of ten.  If any multiple lies in the
range, one of the two next to the number does, so two candidates for each length are
enough, and seventeen digits always suffice.
-/
import TensorText.Decimal.Basic

namespace TensorText.Shortest

/-- A positive number `significand * 2 ^ scale` with `2 ^ 52 ≤ significand < 2 ^ 53`. -/
structure Binary where
  significand : Nat
  scale : Int

namespace Binary

/-- The number with the given significand and scale, its significand brought to 53 bits. -/
def normalize (significand : Nat) (scale : Int) : Binary :=
  let shift := 52 - significand.log2
  ⟨significand * Nat.pow 2 shift, scale - shift⟩

/-- A quarter of the distance to the next number above is `2 ^ (scale - 2)`.  With it as
the unit, the number itself, and the ends of the range that rounds to it, are whole.  The
next number below is only half as far away if the significand is a power of two. -/
def value (x : Binary) : Nat := 4 * x.significand

/-- The lower end of the range, in quarters. -/
def low (x : Binary) : Nat := x.value - (if x.significand = Nat.pow 2 52 then 1 else 2)

/-- The upper end of the range, in quarters. -/
def high (x : Binary) : Nat := x.value + 2

/-- What one quarter is multiplied by to be compared with a multiple of `10 ^ e`. -/
def unit (x : Binary) (e : Int) : Nat :=
  Nat.pow 2 (x.scale - 2).toNat * Nat.pow 10 (-e).toNat

/-- What a multiple of `10 ^ e` is multiplied by to be compared with a quarter. -/
def grid (x : Binary) (e : Int) : Nat :=
  Nat.pow 2 (2 - x.scale).toNat * Nat.pow 10 e.toNat

/-- Whether `n * 10 ^ e` lies in the range. -/
def holds (x : Binary) (e : Int) (n : Nat) : Bool :=
  let lo := x.low * x.unit e
  let hi := x.high * x.unit e
  let here := n * x.grid e
  if x.significand % 2 = 0 then lo ≤ here && here ≤ hi else lo < here && here < hi

/-- The multiple of `10 ^ e` in the range that is nearest to the number, if there is one. -/
def nearest? (x : Binary) (e : Int) : Option Nat :=
  let v := x.value * x.unit e
  let g := x.grid e
  let n := v / g
  let below := v - n * g
  let above := (n + 1) * g - v
  match x.holds e n, x.holds e (n + 1) with
  | true, true =>
    some (if below < above then n else if above < below then n + 1 else n + n % 2)
  | true, false => some n
  | false, true => some (n + 1)
  | false, false => none

/-- The exponent `p` with `10 ^ (p - 1) ≤ x < 10 ^ p`. -/
def magnitude (x : Binary) : Int :=
  let places := Decimal.width (x.grid 0)
  (Decimal.width (x.value * x.unit 0 * Nat.pow 10 places / x.grid 0) : Int) - places

end Binary

/-- A decimal of the same value whose last digit is not zero. -/
def stripZeros (digits : Nat) (exponent : Int) : Nat × Int :=
  if digits ≠ 0 ∧ digits % 10 = 0 then stripZeros (digits / 10) (exponent + 1)
  else (digits, exponent)
termination_by digits
decreasing_by omega

/-- The digits and the exponent of the shortest decimal. -/
def digits (x : Binary) : Nat × Int :=
  let p := x.magnitude
  let found := (List.range 17).findSome? fun (n : Nat) =>
    let e := p - (n + 1)
    (x.nearest? e).map fun digits => (digits, e)
  match found with
  | some (digits, e) => stripZeros digits e
  | none => (0, 0)

end TensorText.Shortest

/-
Floating-point numbers of 32 bits, held as their bits.

A finite number has the magnitude `significand * 2 ^ scale`, where the significand has at
most 24 bits and the scale is never below -149.  A decimal is read to the nearest such
number, an exact half going to the even significand, in whole-number arithmetic
throughout.
-/
import TensorText.Decimal.Literal

namespace TensorText

/-- A number of 32 bits: a sign bit, eight bits of exponent, 23 bits of fraction. -/
structure Binary32 where
  bits : UInt32
deriving DecidableEq

namespace Binary32

/-- Whether the sign bit is set. -/
def isNegative (x : Binary32) : Bool := Nat.pow 2 31 ≤ x.bits.toNat

/-- The eight bits of the exponent. -/
def exponentField (x : Binary32) : Nat := x.bits.toNat / Nat.pow 2 23 % 256

/-- The 23 bits of the fraction. -/
def fraction (x : Binary32) : Nat := x.bits.toNat % Nat.pow 2 23

/-- Neither infinite nor outside the numbers. -/
def isFinite (x : Binary32) : Bool := x.exponentField < 255

/-- The whole number that a finite magnitude is a multiple of a power of two by. -/
def significand (x : Binary32) : Nat :=
  if x.exponentField = 0 then x.fraction else Nat.pow 2 23 + x.fraction

/-- The power of two that goes with the significand. -/
def scale (x : Binary32) : Int := (max x.exponentField 1 : Nat) - 150

/-- The number with the given sign and magnitude bits. -/
def ofMagnitude (negative : Bool) (magnitude : Nat) : Binary32 :=
  ⟨UInt32.ofNat (if negative then Nat.pow 2 31 + magnitude else magnitude)⟩

/-- Infinity. -/
def infinity (negative : Bool) : Binary32 := ofMagnitude negative (255 * Nat.pow 2 23)

/-- The quantity that is no number, quiet and otherwise empty. -/
def notANumber (negative : Bool) : Binary32 := ofMagnitude negative (255 * Nat.pow 2 23 + Nat.pow 2 22)

/-- The exponent `k` with `2 ^ k ≤ num / den < 2 ^ (k + 1)`. -/
def binade (num den : Nat) : Int :=
  let k : Int := (num.log2 : Int) - den.log2
  if num * Nat.pow 2 (-k).toNat < den * Nat.pow 2 k.toNat then k - 1 else k

/-- The number nearest to `num / den`.  A significand that rounds up to 25 bits carries
into the exponent, and past the largest exponent lies infinity. -/
def ofRatio (negative : Bool) (num den : Nat) : Binary32 :=
  let scale := max (-149) (binade num den - 23)
  let significand :=
    roundHalfEven (num * Nat.pow 2 (-scale).toNat) (den * Nat.pow 2 scale.toNat)
  ofMagnitude negative
    (min ((scale + 149).toNat * Nat.pow 2 23 + significand) (255 * Nat.pow 2 23))

/-- The number nearest to a decimal.  From `10 ^ 39` on everything is infinite, and what
is below `10 ^ -46` is nearer to zero than to the smallest number. -/
def ofDecimal (d : Decimal) : Binary32 :=
  let magnitude := Decimal.width d.digits + d.exponent
  if d.digits = 0 ∨ magnitude < -45 then ofMagnitude d.negative 0
  else if 39 < magnitude then infinity d.negative
  else
    ofRatio d.negative (d.digits * Nat.pow 10 d.exponent.toNat)
      (Nat.pow 10 (-d.exponent).toNat)

/-- The number that a literal denotes. -/
def ofLiteral : Literal → Binary32
  | .finite d => ofDecimal d
  | .infinite negative => infinity negative
  | .notANumber negative => notANumber negative

end Binary32

end TensorText

/-
Numbers in JSON.

A number is a whole part, possibly a fraction and possibly an exponent, and a minus sign
may stand before it.  It has to be within the floating-point numbers of 64 bits, and for
that its size is estimated.  The first digits that make up a number below `2 ^ 64` are
its significand, and those that do not fit count for their places only.  The significand
and the power of ten are each rounded to 53 bits, and so is their product: near the
largest floating-point number the estimate can err to either side.
-/
import TensorText.Decimal.Basic
import TensorText.Json.Text

namespace TensorText.Json

/-- A number as it is written. -/
structure Numeral where
  negative : Bool
  /-- The digits before the point. -/
  whole : List Char
  /-- The digits after the point, if there is one. -/
  fraction : Option (List Char)
  /-- The exponent, if there is one. -/
  exponent : Option Int

namespace Numeral

/-! ### The size of a number -/

/-- Appends digits to a number that has to stay below `2 ^ 64`, up to the first that does
not fit, and counts the digits that are left. -/
def gather (n : Nat) : List Char → Nat × Nat
  | [] => (n, 0)
  | c :: cs =>
    let next := 10 * n + (c.toNat - 48)
    if next < Nat.pow 2 64 then gather next cs else (n, cs.length + 1)

/-- The significand and the power of ten that go with it.  Each digit of the whole part
that is left out raises the power by one, and each digit of the fraction that is taken in
lowers it by one. -/
def scaled (x : Numeral) : Nat × Int :=
  let fraction := x.fraction.getD []
  let (n, left) := gather 0 x.whole
  let (significand, unused) := gather n fraction
  (significand, x.exponent.getD 0 + left - (fraction.length - unused : Nat))

/-- Whether the estimate of the size exceeds the floating-point numbers of 64 bits.  The
largest of them is `2 ^ 1024 - 2 ^ 971`, and what is nearer to it than to `2 ^ 1024` is
rounded to it.  No power of ten above the 308th is within the range. -/
def isTooLarge (x : Numeral) : Bool :=
  let (significand, power) := x.scaled
  significand ≠ 0 && 0 ≤ power &&
    (308 < power ||
      Nat.pow 2 1024 - Nat.pow 2 970 ≤
        roundToBits 53 significand * roundToBits 53 (Nat.pow 10 power.toNat))

/-- The whole number it spells, if it has neither a sign nor a fraction nor an exponent. -/
def natural? (x : Numeral) : Option Nat :=
  if x.negative ∨ x.fraction.isSome ∨ x.exponent.isSome then none
  else some (Decimal.ofDigits x.whole)

end Numeral

/-! ### Reading -/

/-- The digits at the beginning of a text, of which there has to be one, and the rest. -/
def digitRun (tooShort : Fault) (s : List Char) : Except Fault (List Char × List Char) :=
  match s with
  | [] => .error tooShort
  | c :: _ =>
    if c.isDigit then .ok (s.takeWhile Char.isDigit, s.dropWhile Char.isDigit)
    else .error .malformed

/-- The digits of a whole number, which begin with a zero only if there is no other. -/
def wholeDigits (tooShort : Fault) (s : List Char) : Except Fault (List Char × List Char) := do
  let (ds, rest) ← digitRun tooShort s
  match ds with
  | '0' :: _ :: _ => throw .malformed
  | _ => return (ds, rest)

/-- The digits after a point, if there is one. -/
def fractionDigits (tooShort : Fault) (s : List Char) :
    Except Fault (Option (List Char) × List Char) :=
  match s with
  | '.' :: s => (digitRun tooShort s).map fun p => (some p.1, p.2)
  | s => .ok (none, s)

/-- The exponent after its mark, if there is one. -/
def exponentPart (tooShort : Fault) (s : List Char) : Except Fault (Option Int × List Char) :=
  match s with
  | c :: s =>
    if c = 'e' ∨ c = 'E' then
      match s with
      | '-' :: s => (digitRun tooShort s).map fun p => (some (-(Decimal.ofDigits p.1 : Int)), p.2)
      | '+' :: s => (digitRun tooShort s).map fun p => (some (Decimal.ofDigits p.1 : Int), p.2)
      | s => (digitRun tooShort s).map fun p => (some (Decimal.ofDigits p.1 : Int), p.2)
    else .ok (none, c :: s)
  | [] => .ok (none, [])

/-- A number of any size, with the fault of one that is cut off. -/
def numeral (tooShort : Fault) (s : List Char) : Except Fault (Numeral × List Char) := do
  let (negative, s) := match s with
    | '-' :: s => (true, s)
    | s => (false, s)
  let (whole, s) ← wholeDigits tooShort s
  let (fraction, s) ← fractionDigits tooShort s
  let (exponent, s) ← exponentPart tooShort s
  return (⟨negative, whole, fraction, exponent⟩, s)

/-- The whole number that a number spells, or nothing if it is of another kind.  One that
is too large is no JSON. -/
def number (s : List Char) : Except Fault (Option Nat × List Char) := do
  let (x, s) ← numeral .truncated s
  if x.isTooLarge then throw .malformed else return (x.natural?, s)

/-- Passes over a number whatever its size; here a number that is cut off is no number. -/
def skipNumber (s : List Char) : Except Fault (List Char) :=
  (numeral .malformed s).map Prod.snd

end TensorText.Json

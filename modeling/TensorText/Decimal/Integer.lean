/-
Signed whole numbers of 64 bits in decimal.

A number is an optional sign and at least one digit, nothing else.  Reading goes from
left to right and stops at the first fault: a character that is no digit, or the digit
that takes the number out of range.
-/
namespace TensorText.Integer

/-- Why a text is not a signed whole number of 64 bits. -/
inductive Fault
  | empty
  | invalidDigit
  | tooLarge
  | tooSmall
deriving DecidableEq

/-- The fault in words. -/
def Fault.message : Fault → String
  | .empty => "cannot parse integer from empty string"
  | .invalidDigit => "invalid digit found in string"
  | .tooLarge => "number too large to fit in target type"
  | .tooSmall => "number too small to fit in target type"

/-- Reads digits onto a number that must not exceed `limit`. -/
def readDigits (limit : Nat) (tooFar : Fault) (n : Nat) : List Char → Except Fault Nat
  | [] => .ok n
  | c :: cs =>
    if c.isDigit then
      if 10 * n + (c.toNat - 48) ≤ limit then
        readDigits limit tooFar (10 * n + (c.toNat - 48)) cs
      else .error tooFar
    else .error .invalidDigit

/-- The magnitude after a sign, of which there has to be at least one digit. -/
def readMagnitude (limit : Nat) (tooFar : Fault) (cs : List Char) : Except Fault Nat :=
  if cs = [] then .error .invalidDigit else readDigits limit tooFar 0 cs

/-- The number that the characters of a text spell. -/
def read (cs : List Char) : Except Fault Int64 :=
  match cs with
  | [] => .error .empty
  | '-' :: cs => do
    let n ← readMagnitude (Nat.pow 2 63) .tooSmall cs
    return Int64.ofInt (-n)
  | '+' :: cs => do
    let n ← readMagnitude (Nat.pow 2 63 - 1) .tooLarge cs
    return Int64.ofNat n
  | cs => do
    let n ← readMagnitude (Nat.pow 2 63 - 1) .tooLarge cs
    return Int64.ofNat n

end TensorText.Integer

/-
Number literals: decimals with an optional fraction and exponent, infinities and the
quantity that is no number.

A decimal is digits, then possibly a point and more digits, then possibly `e` and a
signed exponent; there is at least one digit outside the exponent, and at least one in
it.  A sign may stand before any literal, and letters count the same in either case.
-/
import TensorText.Decimal.Basic

namespace TensorText

/-- What a literal denotes. -/
inductive Literal
  | finite (d : Decimal)
  | infinite (negative : Bool)
  | notANumber (negative : Bool)
deriving DecidableEq

namespace Literal

/-- Why a text is no literal. -/
inductive Fault
  | empty
  | invalid
deriving DecidableEq

/-- The fault in words. -/
def Fault.message : Fault → String
  | .empty => "cannot parse float from empty string"
  | .invalid => "invalid float literal"

/-- The power of ten that an exponent mark and the digits after it stand for; nothing
stands for the zeroth. -/
def exponent? : List Char → Option Int
  | [] => some 0
  | c :: cs =>
    if c = 'e' ∨ c = 'E' then
      let (negative, ds) := match cs with
        | '-' :: ds => (true, ds)
        | '+' :: ds => (false, ds)
        | ds => (false, ds)
      if ds ≠ [] ∧ ds.all Char.isDigit then
        some (if negative then -(Decimal.ofDigits ds : Int) else Decimal.ofDigits ds)
      else none
    else none

/-- The digits that follow a decimal point, if one comes first, and the rest. -/
def fraction (cs : List Char) : List Char × List Char :=
  match cs with
  | '.' :: cs => (cs.takeWhile Char.isDigit, cs.dropWhile Char.isDigit)
  | cs => ([], cs)

/-- The decimal that an unsigned text spells. -/
def decimal? (negative : Bool) (cs : List Char) : Option Decimal :=
  let whole := cs.takeWhile Char.isDigit
  let (part, rest) := fraction (cs.dropWhile Char.isDigit)
  if whole = [] ∧ part = [] then none
  else
    (exponent? rest).map fun e => ⟨negative, Decimal.ofDigits (whole ++ part), e - part.length⟩

/-- The literal that an unsigned text spells. -/
def unsigned? (negative : Bool) (cs : List Char) : Option Literal :=
  match decimal? negative cs with
  | some d => some (.finite d)
  | none =>
    let word := String.ofList (cs.map Char.toLower)
    if word = "inf" ∨ word = "infinity" then some (.infinite negative)
    else if word = "nan" then some (.notANumber negative)
    else none

/-- The literal that the characters of a text spell. -/
def read (cs : List Char) : Except Fault Literal :=
  let literal := match cs with
    | '-' :: cs => unsigned? true cs
    | '+' :: cs => unsigned? false cs
    | cs => unsigned? false cs
  match literal with
  | some l => .ok l
  | none => .error (if cs = [] then .empty else .invalid)

end Literal

end TensorText

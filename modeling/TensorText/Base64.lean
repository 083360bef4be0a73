/-
Base64 with the standard alphabet, padding required, and one spelling per byte string.

Three bytes become four symbols of six bits each.  One or two bytes left over at the end
become a last quad filled up with `=`, and the bits of its last symbol that no byte uses
must be zero.  `decode` refuses everything that `encode` does not write, and says which
of three things is wrong: the text is not made of whole quads, some character is not a
symbol where a symbol has to be, or the last symbol has spare bits set.
-/
namespace TensorText.Base64

/-- Why a text is not the encoding of any byte string. -/
inductive Fault
  /-- The number of characters is not divisible by four. -/
  | misaligned
  /-- The character with this index has no value where it stands. -/
  | symbol (c : Char) (index : Nat)
  /-- The last symbol, with this index, has bits set that belong to no byte. -/
  | lastSymbol (c : Char) (index : Nat)
deriving DecidableEq

/-- The fault in words; a character is named by its code. -/
def Fault.reason : Fault → String
  | .misaligned => "Invalid padding"
  | .symbol c i => "Invalid symbol " ++ toString c.toNat ++ ", offset " ++ toString i ++ "."
  | .lastSymbol c i =>
    "Invalid last symbol " ++ toString c.toNat ++ ", offset " ++ toString i ++ "."

/-- The symbol for six bits: `A` to `Z`, `a` to `z`, `0` to `9`, `+` and `/`. -/
def symbol (n : Nat) : Char :=
  if n < 26 then Char.ofNat (65 + n)
  else if n < 52 then Char.ofNat (71 + n)
  else if n < 62 then Char.ofNat (n - 4)
  else if n = 62 then '+'
  else '/'

/-- The six bits that a symbol stands for. -/
def sextet? (c : Char) : Option Nat :=
  if 'A' ≤ c ∧ c ≤ 'Z' then some (c.toNat - 65)
  else if 'a' ≤ c ∧ c ≤ 'z' then some (c.toNat - 71)
  else if '0' ≤ c ∧ c ≤ '9' then some (c.toNat + 4)
  else if c = '+' then some 62
  else if c = '/' then some 63
  else none

/-- Whether the character can occur in an encoded text, as a symbol or as padding. -/
def isCodeChar (c : Char) : Bool :=
  c.isAlphanum || c == '+' || c == '/' || c == '='

/-- The encoding of a byte string. -/
def encode : List UInt8 → List Char
  | [] => []
  | [a] => [symbol (a.toNat / 4), symbol (a.toNat % 4 * 16), '=', '=']
  | [a, b] =>
    [symbol (a.toNat / 4), symbol (a.toNat % 4 * 16 + b.toNat / 16),
      symbol (b.toNat % 16 * 4), '=']
  | a :: b :: c :: rest =>
    symbol (a.toNat / 4) :: symbol (a.toNat % 4 * 16 + b.toNat / 16) ::
      symbol (b.toNat % 16 * 4 + c.toNat / 64) :: symbol (c.toNat % 64) :: encode rest

/-- The six bits of the character with index `i`. -/
def sextet (c : Char) (i : Nat) : Except Fault Nat :=
  match sextet? c with
  | some n => .ok n
  | none => .error (.symbol c i)

/-- The three bytes of a quad without padding that starts at index `i`. -/
def quad (i : Nat) (a b c d : Char) : Except Fault (List UInt8) := do
  let s ← sextet a i
  let t ← sextet b (i + 1)
  let u ← sextet c (i + 2)
  let v ← sextet d (i + 3)
  return [UInt8.ofNat (s * 4 + t / 16), UInt8.ofNat (t % 16 * 16 + u / 4),
    UInt8.ofNat (u % 4 * 64 + v)]

/-- The bytes of the last quad, the only one that may be padded. -/
def lastQuad (i : Nat) (a b c d : Char) : Except Fault (List UInt8) := do
  let s ← sextet a i
  let t ← sextet b (i + 1)
  if c = '=' then
    if d = '=' then
      if t % 16 = 0 then return [UInt8.ofNat (s * 4 + t / 16)]
      else throw (.lastSymbol b (i + 1))
    else throw (.symbol '=' (i + 2))
  else
    let u ← sextet c (i + 2)
    if d = '=' then
      if u % 4 = 0 then
        return [UInt8.ofNat (s * 4 + t / 16), UInt8.ofNat (t % 16 * 16 + u / 4)]
      else throw (.lastSymbol c (i + 2))
    else
      let v ← sextet d (i + 3)
      return [UInt8.ofNat (s * 4 + t / 16), UInt8.ofNat (t % 16 * 16 + u / 4),
        UInt8.ofNat (u % 4 * 64 + v)]

/-- The bytes of a run of quads whose first character has index `i`. -/
def decodeFrom (i : Nat) : List Char → Except Fault (List UInt8)
  | [] => .ok []
  | [a, b, c, d] => lastQuad i a b c d
  | a :: b :: c :: d :: rest => do
    let bytes ← quad i a b c d
    return bytes ++ (← decodeFrom (i + 4) rest)
  | _ => .error .misaligned

/-- The byte string that a text encodes. -/
def decode (cs : List Char) : Except Fault (List UInt8) :=
  if cs.length % 4 = 0 then decodeFrom 0 cs else .error .misaligned

end TensorText.Base64

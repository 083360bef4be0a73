/-
Well-formed UTF-8.

`decode` takes bytes to the characters they encode.  Where they encode none it tells two
cases apart: bytes that no character starts with, however the text goes on, and a
character that the end of the bytes cuts off.  In the first case the fault counts the
bytes that could still have been the beginning of a character.
-/
namespace TensorText.Utf8

/-- Why bytes are not well-formed UTF-8. -/
inductive Fault
  /-- At this index stand `length` bytes that do not begin any character. -/
  | invalid (length index : Nat)
  /-- At this index begins a character whose end is missing. -/
  | incomplete (index : Nat)
deriving DecidableEq

/-- The fault in words. -/
def Fault.message : Fault → String
  | .invalid length index =>
    "invalid utf-8 sequence of " ++ toString length ++ " bytes from index " ++ toString index
  | .incomplete index => "incomplete utf-8 byte sequence from index " ++ toString index

/-- Whether a byte can follow the first byte of a character. -/
def isTail (b : UInt8) : Bool := 0x80 ≤ b && b ≤ 0xBF

/-- Whether the second byte of a three-byte character fits its first: no character is
spelt longer than need be, and none is a surrogate. -/
def fitsThree (a b : UInt8) : Bool :=
  isTail b && (a != 0xE0 || 0xA0 ≤ b) && (a != 0xED || b ≤ 0x9F)

/-- Whether the second byte of a four-byte character fits its first: no character is
spelt longer than need be, and none lies beyond the last one. -/
def fitsFour (a b : UInt8) : Bool :=
  isTail b && (a != 0xF0 || 0x90 ≤ b) && (a != 0xF4 || b ≤ 0x8F)

/-- The character of two bytes. -/
def char2 (a b : UInt8) : Char := Char.ofNat (a.toNat % 32 * 64 + b.toNat % 64)

/-- The character of three bytes. -/
def char3 (a b c : UInt8) : Char :=
  Char.ofNat (a.toNat % 16 * 4096 + b.toNat % 64 * 64 + c.toNat % 64)

/-- The character of four bytes. -/
def char4 (a b c d : UInt8) : Char :=
  Char.ofNat (a.toNat % 8 * 262144 + b.toNat % 64 * 4096 + c.toNat % 64 * 64 + d.toNat % 64)

/-- The characters of bytes whose first one has index `i`. -/
def decodeFrom (i : Nat) : List UInt8 → Except Fault (List Char)
  | [] => .ok []
  | a :: rest =>
    if a < 0x80 then
      (decodeFrom (i + 1) rest).map (Char.ofNat a.toNat :: ·)
    else if 0xC2 ≤ a ∧ a ≤ 0xDF then
      match rest with
      | [] => .error (.incomplete i)
      | b :: rest =>
        if isTail b then (decodeFrom (i + 2) rest).map (char2 a b :: ·)
        else .error (.invalid 1 i)
    else if 0xE0 ≤ a ∧ a ≤ 0xEF then
      match rest with
      | [] => .error (.incomplete i)
      | [b] => if fitsThree a b then .error (.incomplete i) else .error (.invalid 1 i)
      | b :: c :: rest =>
        if fitsThree a b then
          if isTail c then (decodeFrom (i + 3) rest).map (char3 a b c :: ·)
          else .error (.invalid 2 i)
        else .error (.invalid 1 i)
    else if 0xF0 ≤ a ∧ a ≤ 0xF4 then
      match rest with
      | [] => .error (.incomplete i)
      | [b] => if fitsFour a b then .error (.incomplete i) else .error (.invalid 1 i)
      | [b, c] =>
        if fitsFour a b then
          if isTail c then .error (.incomplete i) else .error (.invalid 2 i)
        else .error (.invalid 1 i)
      | b :: c :: d :: rest =>
        if fitsFour a b then
          if isTail c then
            if isTail d then (decodeFrom (i + 4) rest).map (char4 a b c d :: ·)
            else .error (.invalid 3 i)
          else .error (.invalid 2 i)
        else .error (.invalid 1 i)
    else .error (.invalid 1 i)

/-- The text that bytes encode. -/
def decode (bytes : List UInt8) : Except Fault String :=
  (decodeFrom 0 bytes).map String.ofList

/-- The bytes that encode a text. -/
def encode (s : String) : List UInt8 := s.toList.flatMap String.utf8EncodeChar

end TensorText.Utf8

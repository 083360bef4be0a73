/-
Whole numbers as runs of bytes, the least significant byte first.
-/
namespace TensorText.LittleEndian

/-- The number that bytes spell. -/
def toNat (bytes : List UInt8) : Nat := bytes.foldr (fun b n => b.toNat + 256 * n) 0

/-- The `width` bytes that spell a number; what does not fit is dropped. -/
def ofNat : (width : Nat) → Nat → List UInt8
  | 0, _ => []
  | width + 1, n => UInt8.ofNat n :: ofNat width (n / 256)

/-- The first `count` numbers of `width` bytes each. -/
def words (width : Nat) : (count : Nat) → List UInt8 → List Nat
  | 0, _ => []
  | count + 1, bytes => toNat (bytes.take width) :: words width count (bytes.drop width)

end TensorText.LittleEndian

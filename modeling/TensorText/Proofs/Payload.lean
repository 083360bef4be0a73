/-
What the payloads of an entry say.

An entry holds numbers if its bytes are theirs, `width` bytes for each number and the least
significant byte first; `Entry.Holds` says so byte by byte and asks for nothing else.  Bytes of
the right length hold exactly one row of numbers, and these are the numbers that reading takes
from them, so reading an entry is undone by writing it: `ofEntry_eq_ok_iff` is the inverse of
`toEntry` in both directions.

An entry that is no tensor has one fault although several may apply to it.  `Entry.Refused`
lists them in the order in which they are looked for.
-/
import Mathlib.Tactic.Ring
import TensorText.Proofs.Shape

namespace TensorText

namespace LittleEndian

/-! ### Bytes as numbers -/

theorem toNat_cons (b : UInt8) (bytes : List UInt8) :
    toNat (b :: bytes) = b.toNat + 256 * toNat bytes := rfl

theorem toNat_lt (bytes : List UInt8) : toNat bytes < 256 ^ bytes.length := by
  induction bytes with
  | nil => exact Nat.one_pos
  | cons b bytes ih =>
      have hb := b.toNat_lt
      rw [toNat_cons, List.length_cons, pow_succ]
      omega

/-- **Bytes are those of the number that they spell.** -/
theorem ofNat_toNat (bytes : List UInt8) : ofNat bytes.length (toNat bytes) = bytes := by
  induction bytes with
  | nil => rfl
  | cons b bytes ih =>
      have hb := b.toNat_lt
      have hlow : UInt8.ofNat (b.toNat + 256 * toNat bytes) = b := by
        refine UInt8.toNat.inj ?_
        rw [UInt8.toNat_ofNat', Nat.add_mul_mod_self_left, Nat.mod_eq_of_lt hb]
      have hhigh : (b.toNat + 256 * toNat bytes) / 256 = toNat bytes := by omega
      rw [List.length_cons, toNat_cons, ofNat, hlow, hhigh, ih]

/-- Bytes that divide into numbers are the bytes of these numbers. -/
theorem flatMap_words (width : Nat) {count : Nat} {bytes : List UInt8}
    (h : bytes.length = count * width) :
    (words width count bytes).flatMap (ofNat width) = bytes := by
  induction count generalizing bytes with
  | zero =>
      rw [Nat.zero_mul] at h
      rw [List.eq_nil_of_length_eq_zero h]
      rfl
  | succ count ih =>
      rw [Nat.succ_mul] at h
      have htake : (bytes.take width).length = width := by rw [List.length_take]; omega
      have hdrop : (bytes.drop width).length = count * width := by rw [List.length_drop]; omega
      have hword := ofNat_toNat (bytes.take width)
      rw [htake] at hword
      rw [words, List.flatMap_cons, hword, ih hdrop, List.take_append_drop]

theorem lt_of_mem_words {width count n : Nat} {bytes : List UInt8}
    (h : n ∈ words width count bytes) : n < 256 ^ width := by
  induction count generalizing bytes with
  | zero => cases h
  | succ count ih =>
      rcases List.mem_cons.mp h with rfl | h
      · calc toNat (bytes.take width)
            < 256 ^ (bytes.take width).length := toNat_lt _
          _ ≤ 256 ^ width := Nat.pow_le_pow_right (by decide) (List.length_take_le _ _)
      · exact ih h

/-! ### Single bytes -/

theorem getElem?_ofNat {width k : Nat} (hk : k < width) (n : Nat) :
    (ofNat width n)[k]? = some (UInt8.ofNat (n / 256 ^ k)) := by
  induction width generalizing k n with
  | zero => cases hk
  | succ width ih =>
      cases k with
      | zero => rw [pow_zero, Nat.div_one]; rfl
      | succ k =>
          rw [ofNat, List.getElem?_cons_succ, ih (Nat.lt_of_succ_lt_succ hk),
            Nat.div_div_eq_div_mul, ← pow_succ']

/-- The bytes of a row of numbers, one by one. -/
theorem getElem?_flatMap_ofNat {α : Type} {width k : Nat} (hk : k < width) (bits : α → Nat)
    (xs : List α) (i : Nat) : (xs.flatMap fun x => ofNat width (bits x))[width * i + k]? =
      xs[i]?.map fun x => UInt8.ofNat (bits x / 256 ^ k) := by
  induction xs generalizing i with
  | nil => rfl
  | cons x xs ih =>
      have hlength := length_ofNat width (bits x)
      cases i with
      | zero =>
          rw [List.flatMap_cons, Nat.mul_zero, Nat.zero_add,
            List.getElem?_append_left (by rw [hlength]; exact hk), getElem?_ofNat hk]
          rfl
      | succ i =>
          have hindex : width * (i + 1) + k - width = width * i + k := by
            rw [Nat.mul_succ]
            omega
          rw [List.flatMap_cons, List.getElem?_append_right (by rw [hlength, Nat.mul_succ]; omega),
            hlength, hindex, ih, List.getElem?_cons_succ]

/-- Two rows of bytes are equal if they agree at every byte of every number. -/
theorem ext_of_getElem? (width : Nat) (hwidth : 0 < width) {bytes bytes' : List UInt8}
    (h : ∀ i k, k < width → bytes[width * i + k]? = bytes'[width * i + k]?) : bytes = bytes' := by
  refine List.ext_getElem? fun n => ?_
  have hn := h (n / width) (n % width) (Nat.mod_lt n hwidth)
  rwa [Nat.div_add_mod] at hn

end LittleEndian

/-! ### Two's complement -/

/-- The eight lower bytes of a whole number are not touched by what does not fit in 64 bits. -/
theorem emod_ediv_emod (z : Int) {k : Nat} (hk : k < 8) :
    z % 2 ^ 64 / 256 ^ k % 256 = z / 256 ^ k % 256 := by
  have hpow : (2 : Int) ^ 64 = 256 ^ k * (256 * 256 ^ (7 - k)) := by
    have hsum : k + 1 + (7 - k) = 8 := by omega
    rw [← mul_assoc, ← pow_succ, ← pow_add, hsum]
    decide
  have hz : z % 2 ^ 64 = z + 256 ^ k * (256 * -(256 ^ (7 - k) * (z / 2 ^ 64))) := by
    rw [Int.emod_def, hpow]
    ring
  rw [hz, Int.add_mul_ediv_left _ _ (pow_ne_zero k (by decide)), Int.add_mul_emod_self_left]

theorem natCast_toUInt64 (d : Int64) : (d.toUInt64.toNat : Int) = d.toInt % 2 ^ 64 := by
  have hd : d.toInt = Int.bmod d.toUInt64.toNat (2 ^ 64) := BitVec.toInt_eq_toNat_bmod _
  have hlt := d.toUInt64.toNat_lt
  have hmod := Int.bmod_emod (x := d.toUInt64.toNat) (m := 2 ^ 64)
  rw [← hd] at hmod
  omega

/-- The bytes of a dimension are those of the whole number that it is. -/
theorem ofNat_toUInt64_div (d : Int64) {k : Nat} (hk : k < 8) :
    UInt8.ofNat (d.toUInt64.toNat / 256 ^ k) = UInt8.ofInt (d.toInt / 256 ^ k) := by
  have hbyte := emod_ediv_emod d.toInt hk
  have hcast : (d.toUInt64.toNat : Int) / 256 ^ k % 256 =
      (d.toUInt64.toNat / 256 ^ k % 256 : Nat) := by
    push_cast
    rfl
  rw [← natCast_toUInt64, hcast] at hbyte
  refine UInt8.toNat.inj ?_
  rw [UInt8.ofInt, UInt8.toNat_ofNat', UInt8.toNat_ofNat']
  omega

/-! ### Payloads as numbers -/

/-- The bytes of an entry are those of these dimensions and values: eight bytes for each
dimension and four for each value, the least significant one first.  A quotient is rounded
down, so the bytes of a negative dimension are those of its two's complement. -/
structure Entry.Holds (e : Entry) (shape : List Int64) (values : List Binary32) : Prop where
  dimension : ∀ i k, k < 8 →
    e.dimensions[8 * i + k]? = shape[i]?.map fun d => UInt8.ofInt (d.toInt / 256 ^ k)
  value : ∀ i k, k < 4 →
    e.values[4 * i + k]? = values[i]?.map fun v => UInt8.ofNat (v.bits.toNat / 256 ^ k)

namespace Tensor

theorem getElem?_shapeBytes (shape : List Int64) (i : Nat) {k : Nat} (hk : k < 8) :
    (shapeBytes shape)[8 * i + k]? =
      shape[i]?.map fun d => UInt8.ofInt (d.toInt / 256 ^ k) := by
  rw [shapeBytes, LittleEndian.getElem?_flatMap_ofNat hk]
  exact congrArg (fun f => shape[i]?.map f) (funext fun d => ofNat_toUInt64_div d hk)

theorem getElem?_valueBytes (values : List Binary32) (i : Nat) {k : Nat} (hk : k < 4) :
    (valueBytes values)[4 * i + k]? =
      values[i]?.map fun v => UInt8.ofNat (v.bits.toNat / 256 ^ k) :=
  LittleEndian.getElem?_flatMap_ofNat hk _ values i

theorem shapeBytes_shapeOfBytes {bytes : List UInt8} (h : bytes.length % 8 = 0) :
    shapeBytes (shapeOfBytes bytes) = bytes := by
  have hword : ∀ n ∈ LittleEndian.words 8 (bytes.length / 8) bytes,
      LittleEndian.ofNat 8 (Int64.ofNat n).toUInt64.toNat = LittleEndian.ofNat 8 n := by
    intro n hn
    have hlt : n < 2 ^ 64 := LittleEndian.lt_of_mem_words hn
    have hn' : (Int64.ofNat n).toUInt64.toNat = n := UInt64.toNat_ofNat_of_lt' hlt
    rw [hn']
  rw [shapeBytes, shapeOfBytes, List.flatMap_map, List.flatMap_congr hword]
  exact LittleEndian.flatMap_words 8 (by omega)

theorem valueBytes_valuesOfBytes {bytes : List UInt8} (h : bytes.length % 4 = 0) :
    valueBytes (valuesOfBytes bytes) = bytes := by
  have hword : ∀ n ∈ LittleEndian.words 4 (bytes.length / 4) bytes,
      LittleEndian.ofNat 4 (UInt32.ofNat n).toNat = LittleEndian.ofNat 4 n := by
    intro n hn
    have hlt : n < 2 ^ 32 := LittleEndian.lt_of_mem_words hn
    rw [UInt32.toNat_ofNat_of_lt' hlt]
  rw [valueBytes, valuesOfBytes, List.flatMap_map, List.flatMap_congr hword]
  exact LittleEndian.flatMap_words 4 (by omega)

end Tensor

namespace Entry

variable {e : Entry} {shape : List Int64} {values : List Binary32}

/-- The bytes of an entry are told by what it holds. -/
theorem holds_iff_bytes : e.Holds shape values ↔
    e.dimensions = Tensor.shapeBytes shape ∧ e.values = Tensor.valueBytes values := by
  constructor
  · intro h
    refine ⟨LittleEndian.ext_of_getElem? 8 (by decide) ?_,
      LittleEndian.ext_of_getElem? 4 (by decide) ?_⟩
    · intro i k hk
      rw [h.dimension i k hk, Tensor.getElem?_shapeBytes shape i hk]
    · intro i k hk
      rw [h.value i k hk, Tensor.getElem?_valueBytes values i hk]
  · rintro ⟨hdimensions, hvalues⟩
    constructor
    · intro i k hk
      rw [hdimensions, Tensor.getElem?_shapeBytes shape i hk]
    · intro i k hk
      rw [hvalues, Tensor.getElem?_valueBytes values i hk]

/-- **An entry whose bytes divide into numbers holds the numbers that are read from it, and no
others.** -/
theorem holds_iff_read : e.Holds shape values ↔
    e.dimensions.length % 8 = 0 ∧ e.values.length % 4 = 0 ∧
      Tensor.shapeOfBytes e.dimensions = shape ∧ Tensor.valuesOfBytes e.values = values := by
  rw [holds_iff_bytes]
  constructor
  · rintro ⟨hdimensions, hvalues⟩
    rw [hdimensions, hvalues, Tensor.length_shapeBytes, Tensor.length_valueBytes,
      Tensor.shapeOfBytes_shapeBytes, Tensor.valuesOfBytes_valueBytes]
    exact ⟨Nat.mul_mod_left _ _, Nat.mul_mod_left _ _, rfl, rfl⟩
  · rintro ⟨hdimensions, hvalues, rfl, rfl⟩
    exact ⟨(Tensor.shapeBytes_shapeOfBytes hdimensions).symm,
      (Tensor.valueBytes_valuesOfBytes hvalues).symm⟩

/-- The fault of an entry that is no tensor.  Bytes that do not divide into numbers come first,
those of the shape before those of the values; then the first axis at which the elements cannot
be counted; and last a number of values that does not fill the shape. -/
inductive Refused (e : Entry) : InputCause → Prop
  | raggedShape (h : e.dimensions.length % 8 ≠ 0) : Refused e (.raggedShape e.dimensions.length)
  | raggedValues (hshape : e.dimensions.length % 8 = 0) (h : e.values.length % 4 ≠ 0) :
      Refused e (.raggedValues e.values.length)
  | uncounted {shape : List Int64} {values : List Binary32} {cause : InputCause}
      (h : e.Holds shape values) (hcount : Counted shape (.error cause)) : Refused e cause
  | unfilled {shape : List Int64} {values : List Binary32} {n : Nat}
      (h : e.Holds shape values) (hcount : Counted shape (.ok n)) (hn : n ≠ values.length) :
      Refused e (.unfilled n values.length)

end Entry

namespace Tensor

variable {e : Entry} {shape : List Int64} {values : List Binary32}

/-! ### Reading entries -/

theorem ofEntry_of_raggedShape (h : e.dimensions.length % 8 ≠ 0) :
    ofEntry e = .error ⟨e.name, .raggedShape e.dimensions.length⟩ := by
  rw [ofEntry, if_pos h]

theorem ofEntry_of_raggedValues (hshape : e.dimensions.length % 8 = 0)
    (h : e.values.length % 4 ≠ 0) :
    ofEntry e = .error ⟨e.name, .raggedValues e.values.length⟩ := by
  rw [ofEntry, if_neg (not_not.mpr hshape), if_pos h]

/-- An entry is read as the tensor with the numbers that it holds. -/
theorem ofEntry_of_holds (h : e.Holds shape values) : ofEntry e = new e.name shape values := by
  obtain ⟨hdimensions, hvalues, rfl, rfl⟩ := Entry.holds_iff_read.mp h
  rw [ofEntry, if_neg (not_not.mpr hdimensions), if_neg (not_not.mpr hvalues)]

/-- The bytes of an entry do not divide into numbers, or it holds some. -/
theorem ragged_or_holds (e : Entry) : e.dimensions.length % 8 ≠ 0 ∨
    (e.dimensions.length % 8 = 0 ∧ e.values.length % 4 ≠ 0) ∨
      ∃ shape values, e.Holds shape values := by
  by_cases hdimensions : e.dimensions.length % 8 = 0
  · by_cases hvalues : e.values.length % 4 = 0
    · exact Or.inr (Or.inr ⟨_, _, Entry.holds_iff_read.mpr ⟨hdimensions, hvalues, rfl, rfl⟩⟩)
    · exact Or.inr (Or.inl ⟨hdimensions, hvalues⟩)
  · exact Or.inl hdimensions

theorem ofEntry_eq_ok_iff_holds {t : Tensor} : ofEntry e = .ok t ↔
    e.dimensions.length % 8 = 0 ∧ e.values.length % 4 = 0 ∧
      ∃ shape values, e.Holds shape values ∧ new e.name shape values = .ok t := by
  constructor
  · intro h
    rcases ragged_or_holds e with hshape | ⟨hshape, hvalues⟩ | ⟨shape, values, hholds⟩
    · rw [ofEntry_of_raggedShape hshape] at h
      cases h
    · rw [ofEntry_of_raggedValues hshape hvalues] at h
      cases h
    · rw [ofEntry_of_holds hholds] at h
      obtain ⟨hdimensions, hvalues, -, -⟩ := Entry.holds_iff_read.mp hholds
      exact ⟨hdimensions, hvalues, shape, values, hholds, h⟩
  · rintro ⟨-, -, shape, values, hholds, h⟩
    rw [ofEntry_of_holds hholds, h]

/-- **Reading an entry is undone by writing it, and the other way round.** -/
theorem ofEntry_eq_ok_iff {t : Tensor} : ofEntry e = .ok t ↔ t.toEntry = e := by
  constructor
  · intro h
    obtain ⟨-, -, shape, values, hholds, hnew⟩ := ofEntry_eq_ok_iff_holds.mp h
    obtain ⟨hdimensions, hvalues⟩ := Entry.holds_iff_bytes.mp hholds
    obtain ⟨-, hname, rfl, rfl⟩ := new_eq_ok_iff.mp hnew
    rw [toEntry_eq, hname, ← hdimensions, ← hvalues]
  · rintro rfl
    exact ofEntry_toEntry t

theorem ofEntry_eq_error_iff {fault : InputFault} :
    ofEntry e = .error fault ↔ fault.name = e.name ∧ e.Refused fault.cause := by
  obtain ⟨name, cause⟩ := fault
  constructor
  · intro h
    rcases ragged_or_holds e with hshape | ⟨hshape, hvalues⟩ | ⟨shape, values, hholds⟩
    · rw [ofEntry_of_raggedShape hshape] at h
      cases h
      exact ⟨rfl, .raggedShape hshape⟩
    · rw [ofEntry_of_raggedValues hshape hvalues] at h
      cases h
      exact ⟨rfl, .raggedValues hshape hvalues⟩
    · rw [ofEntry_of_holds hholds, new_eq_error_iff] at h
      obtain ⟨rfl, hcount | ⟨n, hcount, hn, rfl⟩⟩ := h
      · exact ⟨rfl, .uncounted hholds (countElements_eq_iff.mp hcount)⟩
      · exact ⟨rfl, .unfilled hholds (countElements_eq_iff.mp hcount) hn⟩
  · rintro ⟨rfl, h⟩
    cases h with
    | raggedShape h => exact ofEntry_of_raggedShape h
    | raggedValues hshape h => exact ofEntry_of_raggedValues hshape h
    | uncounted h hcount =>
        rw [ofEntry_of_holds h, new_eq_error_iff]
        exact ⟨rfl, Or.inl hcount.countElements_eq⟩
    | unfilled h hcount hn =>
        rw [ofEntry_of_holds h, new_eq_error_iff]
        exact ⟨rfl, Or.inr ⟨_, hcount.countElements_eq, hn, rfl⟩⟩

/--
**Which entries are tensors, and what the others have wrong.**  An entry is a tensor if its
bytes divide into numbers and the values that it holds fill the shape that it holds; the tensor
is then written as this very entry.  A tensor that was built is written as an entry that is
read as the same tensor, with the same bits in every value.  An entry that is no tensor has one
fault, the first that applies to it.
-/
theorem ofEntry_iff (e : Entry) :
    (∀ t, ofEntry e = .ok t ↔ e.dimensions.length % 8 = 0 ∧ e.values.length % 4 = 0 ∧
      ∃ shape values, e.Holds shape values ∧ new e.name shape values = .ok t) ∧
    (∀ t, ofEntry e = .ok t ↔ t.toEntry = e) ∧
    (∀ fault, ofEntry e = .error fault ↔ fault.name = e.name ∧ e.Refused fault.cause) ∧
    ∀ name shape values t, new name shape values = .ok t →
      ofEntry t.toEntry = .ok t ∧ t.name = name ∧ t.shape = shape ∧ t.values = values ∧
        t.toEntry.Holds shape values := by
  refine ⟨fun t => ofEntry_eq_ok_iff_holds, fun t => ofEntry_eq_ok_iff,
    fun fault => ofEntry_eq_error_iff, ?_⟩
  intro name shape values t h
  obtain ⟨-, rfl, rfl, rfl⟩ := new_eq_ok_iff.mp h
  exact ⟨ofEntry_toEntry t, rfl, rfl, rfl, Entry.holds_iff_bytes.mpr ⟨rfl, rfl⟩⟩

/-- A number that is none and has a payload of its own; and an entry with three faults, a ragged
run of values before a negative dimension and a missing value. -/
theorem ofEntry_iff_ragged : ∃ t, new "s" [1] [⟨0x7fc12345⟩] = .ok t ∧
    ofEntry t.toEntry = .ok t ∧ t.values = [⟨0x7fc12345⟩] ∧
    (⟨"d", List.replicate 8 255, [0, 0, 0]⟩ : Entry).Refused (.raggedValues 3) := by
  have hnew : new "s" [1] [⟨0x7fc12345⟩] = .ok ⟨"s", [1], [⟨0x7fc12345⟩], rfl⟩ := rfl
  obtain ⟨hread, -, -, hvalues, -⟩ :=
    (ofEntry_iff ⟨"s", [], []⟩).2.2.2 _ _ _ _ hnew
  have hragged : ofEntry ⟨"d", List.replicate 8 255, [0, 0, 0]⟩ =
      .error ⟨"d", .raggedValues 3⟩ := rfl
  exact ⟨_, hnew, hread, hvalues, (((ofEntry_iff _).2.2.1 _).mp hragged).2⟩

end Tensor

end TensorText

/-
Tensors survive as bytes.

A number that fits its width is the number that its bytes spell, and a run of numbers of
one width can be cut apart again.  So the shape and the values of a tensor come back from
its entry bit by bit: nothing is rounded, and no pattern of bits is singled out.  That
they fit together is a part of the tensor, so it is not found out anew.
-/
import Mathlib.Algebra.Group.Nat.Defs
import TensorText.Context

namespace TensorText

namespace LittleEndian

/-! ### Numbers as bytes -/

theorem length_ofNat (width n : Nat) : (ofNat width n).length = width := by
  induction width generalizing n with
  | zero => rfl
  | succ width ih => rw [ofNat, List.length_cons, ih]

/-- Bytes spell the number they were made from, less what does not fit. -/
theorem toNat_ofNat (width n : Nat) : toNat (ofNat width n) = n % 256 ^ width := by
  induction width generalizing n with
  | zero =>
      rw [pow_zero, Nat.mod_one]
      rfl
  | succ width ih =>
      have hlow : (UInt8.ofNat n).toNat = n % 256 := rfl
      show (UInt8.ofNat n).toNat + 256 * toNat (ofNat width (n / 256)) = _
      rw [hlow, ih, pow_succ', Nat.mod_mul]

section Runs

variable {α : Type} {width : Nat} {bits : α → Nat}

theorem length_flatMap_ofNat (xs : List α) :
    (xs.flatMap fun x => ofNat width (bits x)).length = xs.length * width := by
  induction xs with
  | nil => exact (Nat.zero_mul width).symm
  | cons x xs ih =>
      rw [List.flatMap_cons, List.length_append, length_ofNat, ih, List.length_cons,
        Nat.succ_mul, Nat.add_comm]

/-- **Numbers that fit their width can be cut apart again.** -/
theorem words_flatMap (hfit : ∀ x, bits x < 256 ^ width) (xs : List α) :
    words width xs.length (xs.flatMap fun x => ofNat width (bits x)) = xs.map bits := by
  induction xs with
  | nil => rfl
  | cons x xs ih =>
      rw [List.flatMap_cons, List.length_cons, words, List.take_left' (length_ofNat width _),
        List.drop_left' (length_ofNat width _), toNat_ofNat, Nat.mod_eq_of_lt (hfit x), ih,
        List.map_cons]

/-- What is told by bits that fit comes back from all the bytes there are. -/
theorem map_words_flatMap (hwidth : 0 < width) (hfit : ∀ x, bits x < 256 ^ width)
    {ofBits : Nat → α} (hbits : ∀ x, ofBits (bits x) = x) (xs : List α) :
    (words width ((xs.flatMap fun x => ofNat width (bits x)).length / width)
      (xs.flatMap fun x => ofNat width (bits x))).map ofBits = xs := by
  have hsame : ofBits ∘ bits = id := funext hbits
  rw [length_flatMap_ofNat, Nat.mul_div_cancel _ hwidth, words_flatMap hfit, List.map_map, hsame,
    List.map_id]

end Runs

end LittleEndian

namespace Tensor

/-! ### Tensors as entries -/

/-- The bytes of a shape, eight for each dimension. -/
def shapeBytes (shape : List Int64) : List UInt8 :=
  shape.flatMap fun d => LittleEndian.ofNat 8 d.toUInt64.toNat

/-- The bytes of values, four for each number. -/
def valueBytes (values : List Binary32) : List UInt8 :=
  values.flatMap fun v => LittleEndian.ofNat 4 v.bits.toNat

theorem toEntry_eq (t : Tensor) :
    t.toEntry = ⟨t.name, shapeBytes t.shape, valueBytes t.values⟩ := rfl

theorem length_shapeBytes (shape : List Int64) : (shapeBytes shape).length = shape.length * 8 :=
  LittleEndian.length_flatMap_ofNat shape

theorem length_valueBytes (values : List Binary32) :
    (valueBytes values).length = values.length * 4 :=
  LittleEndian.length_flatMap_ofNat values

theorem shapeOfBytes_shapeBytes (shape : List Int64) : shapeOfBytes (shapeBytes shape) = shape := by
  refine LittleEndian.map_words_flatMap (by decide) (fun d => d.toUInt64.toNat_lt) ?_ shape
  intro d
  exact congrArg UInt64.toInt64 UInt64.ofNat_toNat

theorem valuesOfBytes_valueBytes (values : List Binary32) :
    valuesOfBytes (valueBytes values) = values := by
  refine LittleEndian.map_words_flatMap (by decide) (fun v => v.bits.toNat_lt) ?_ values
  intro v
  rw [UInt32.ofNat_toNat]

/-- A tensor is what is built from its name, its shape and its values. -/
theorem new_self (t : Tensor) : Tensor.new t.name t.shape t.values = .ok t := by
  unfold Tensor.new
  split
  · rename_i cause h
    rw [t.filled] at h
    cases h
  · rename_i n h
    rw [t.filled] at h
    cases h
    rw [dif_pos rfl]

/-- What is built from a shape and values has them, and they fit together. -/
theorem new_eq_ok_iff {name : String} {shape : List Int64} {values : List Binary32} {t : Tensor} :
    Tensor.new name shape values = .ok t ↔ countElements shape = .ok values.length ∧
      t.name = name ∧ t.shape = shape ∧ t.values = values := by
  constructor
  · intro h
    unfold Tensor.new at h
    split at h
    · cases h
    · rename_i n hcount
      split at h
      · rename_i hn
        cases h
        exact ⟨hn ▸ hcount, rfl, rfl, rfl⟩
      · cases h
  · rintro ⟨-, rfl, rfl, rfl⟩
    exact t.new_self

/-- Nothing is built if the elements cannot be counted, or are not as many as the values. -/
theorem new_eq_error_iff {name : String} {shape : List Int64} {values : List Binary32}
    {fault : InputFault} : Tensor.new name shape values = .error fault ↔ fault.name = name ∧
      (countElements shape = .error fault.cause ∨
        ∃ n, countElements shape = .ok n ∧ n ≠ values.length ∧
          fault.cause = .unfilled n values.length) := by
  obtain ⟨faultName, cause⟩ := fault
  unfold Tensor.new
  split
  · rename_i cause' hcount
    simp [hcount, eq_comm]
  · rename_i n hcount
    split
    · rename_i hn
      simp [hcount, hn]
    · rename_i hn
      simp [hcount, hn, eq_comm]

/-- **A tensor comes back from its entry as it was.** -/
theorem ofEntry_toEntry (t : Tensor) : ofEntry t.toEntry = .ok t := by
  have hdimensions : (shapeBytes t.shape).length % 8 = 0 := by
    rw [length_shapeBytes, Nat.mul_mod_left]
  have hvalues : (valueBytes t.values).length % 4 = 0 := by
    rw [length_valueBytes, Nat.mul_mod_left]
  rw [toEntry_eq, ofEntry, if_neg (by rw [hdimensions]; decide), if_neg (by rw [hvalues]; decide),
    shapeOfBytes_shapeBytes, valuesOfBytes_valueBytes]
  exact t.new_self

end Tensor

/-- A context that holds the entries of tensors hands out these tensors. -/
theorem Context.tensors_ofTensors (ts : List Tensor) :
    (Context.ofTensors ts).tensors = .ok ts := by
  show (ts.map Tensor.toEntry).mapM Tensor.ofEntry = .ok ts
  induction ts with
  | nil => rfl
  | cons t ts ih =>
      rw [List.map_cons, List.mapM_cons, Tensor.ofEntry_toEntry, ih]
      rfl

end TensorText

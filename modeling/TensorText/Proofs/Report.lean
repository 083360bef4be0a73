/-
A report in JSON.

`Describes` says what a report says of an entry: its name, and then either its shape and values or
why it has none.  Whatever the entries are, the text of a report is JSON for an object with their
number and one such description for each, in their order, and it is JSON for nothing else.
-/
import TensorText.Proofs.Json.Reader
import TensorText.Proofs.Json.Writer
import TensorText.Proofs.Payload
import TensorText.Proofs.Shortest
import TensorText.Report

namespace TensorText.Report

open Json

/-- A whole number in JSON. -/
inductive IsInteger (n : Int) : Tree → Prop
  | mk {x : Numeral} (h : x.IsInteger n) : IsInteger n (.number x)

/-- A number of 32 bits in JSON: null if it is infinite or none, and otherwise a decimal that is
read back as the number, with the sign of zero as well. -/
inductive IsFloat (v : Binary32) : Tree → Prop
  | null (h : v.isFinite = false) : IsFloat v .null
  | finite {x : Numeral} (h : v.isFinite = true) (hvalue : Binary32.ofDecimal x.toDecimal = v) :
      IsFloat v (.number x)

/-- What a report says of an entry. -/
inductive Describes (e : Entry) : Tree → Prop
  /-- The entry is a tensor, with one value for each element of its shape. -/
  | tensor {t : Tensor} {shape values : List Tree} (h : Tensor.ofEntry e = .ok t)
      (hshape : List.Forall₂ (fun d tree => IsInteger d.toInt tree) t.shape shape)
      (hvalues : List.Forall₂ IsFloat t.values values) (hcount : elements t.shape = values.length) :
      Describes e
        (.object [("name", .text e.name), ("shape", .array shape), ("values", .array values)])
  /-- It is none, and this is why. -/
  | fault {fault : InputFault} {dimensions values : Tree} (h : Tensor.ofEntry e = .error fault)
      (hdimensions : IsInteger e.dimensions.length dimensions)
      (hvalues : IsInteger e.values.length values) :
      Describes e
        (.object [("dimension_bytes", dimensions), ("error", .text fault.message),
          ("name", .text e.name), ("value_bytes", values)])

theorem exists_integer (n : Int) :
    ∃ tree, Spells (Value.whole n).write tree ∧ IsInteger n tree := by
  obtain ⟨x, hspells, hx⟩ := spells_whole n
  exact ⟨.number x, hspells, .mk hx⟩

theorem shortest_zero {v : Binary32} (h : v.significand = 0) :
    shortest v = ⟨v.isNegative, 0, 0⟩ := by
  rw [shortest, if_pos h]

theorem shortest_digits {v : Binary32} (h : v.significand ≠ 0) :
    shortest v = ⟨v.isNegative, (Shortest.digits (.normalize v.significand v.scale)).1,
      (Shortest.digits (.normalize v.significand v.scale)).2⟩ := by
  rw [shortest, if_neg h]

/-- **The shortest decimal is read back as the number**, however it is written. -/
theorem ofDecimal_of_shortest {v : Binary32} {d : Decimal} (hfinite : v.isFinite = true)
    (hsign : d.negative = (shortest v).negative)
    (hvalue : d.magnitude = (shortest v).magnitude) : Binary32.ofDecimal d = v := by
  by_cases h : v.significand = 0
  · rw [shortest_zero h] at hsign hvalue
    refine Binary32.ofDecimal_eq hfinite hsign ?_
    rw [hvalue, Decimal.magnitude_zero, Binary32.magnitude, h]
    norm_num
    positivity
  · rw [shortest_digits h] at hsign hvalue
    refine Binary32.ofDecimal_eq hfinite hsign ?_
    rw [hvalue]
    exact Shortest.digits_normalize_near (Nat.pos_of_ne_zero h) v.significand_lt v.scale

theorem exists_float (v : Binary32) : ∃ tree, Spells (number v).write tree ∧ IsFloat v tree := by
  unfold number
  split
  · rename_i hfinite
    obtain ⟨x, hspells, hx⟩ := spells_decimal (shortest v)
    exact ⟨.number x, hspells, .finite hfinite (ofDecimal_of_shortest hfinite hx.sign hx.value)⟩
  · rename_i hfinite
    refine ⟨.null, ?_, .null (Bool.eq_false_iff.mpr hfinite)⟩
    rw [Value.write]
    exact .null

/-- Things that are written one by one are written as an array. -/
theorem exists_array {α : Type} {f : α → Value} {R : α → Tree → Prop}
    (h : ∀ a, ∃ tree, Spells (f a).write tree ∧ R a tree) (as : List α) :
    ∃ trees, Spells (Value.array (as.map f)).write (.array trees) ∧ List.Forall₂ R as trees := by
  choose tree hspells hR using h
  refine ⟨as.map tree, spells_array ?_, ?_⟩
  · rw [List.forall₂_map_left_iff, List.forall₂_map_right_iff, List.forall₂_same]
    exact fun a _ => hspells a
  · rw [List.forall₂_map_right_iff, List.forall₂_same]
    exact fun a _ => hR a

/-- **Any entry is described**, be it a tensor or not. -/
theorem exists_describes (e : Entry) :
    ∃ tree, Spells (object e).write tree ∧ Describes e tree := by
  unfold object
  cases h : Tensor.ofEntry e with
  | ok t =>
      have hname : t.name = e.name := by
        rw [← Tensor.ofEntry_eq_ok_iff.mp h]
        rfl
      obtain ⟨shape, hshape, hdims⟩ :=
        exists_array (fun d : Int64 => exists_integer d.toInt) t.shape
      obtain ⟨values, hvalues, hfloats⟩ := exists_array exists_float t.values
      have hcount := (countElements_eq_ok_iff.mp t.filled).2
      rw [hfloats.length_eq] at hcount
      refine ⟨_, spells_object (.cons (.mk (spells_text t.name))
        (.cons (.mk hshape) (.cons (.mk hvalues) .nil))), ?_⟩
      rw [hname]
      exact .tensor h hdims hfloats hcount
  | error fault =>
      obtain ⟨dimensions, hdimensions, hd⟩ := exists_integer e.dimensions.length
      obtain ⟨values, hvalues, hv⟩ := exists_integer e.values.length
      exact ⟨_, spells_object (.cons (.mk hdimensions) (.cons (.mk (spells_text fault.message))
        (.cons (.mk (spells_text e.name)) (.cons (.mk hvalues) .nil)))), .fault h hd hv⟩

/-- A report in JSON is one document, for an object that describes each entry. -/
theorem exists_document (entries : List Entry) :
    ∃ count inputs, IsInteger entries.length count ∧ List.Forall₂ Describes entries inputs ∧
      IsDocument (report .json entries).toList
        (.object [("count", count), ("inputs", .array inputs)]) := by
  obtain ⟨count, hcount, hinteger⟩ := exists_integer entries.length
  obtain ⟨inputs, hinputs, hdescribes⟩ := exists_array exists_describes entries
  have hspells : Spells (report .json entries).toList
      (.object [("count", count), ("inputs", .array inputs)]) := by
    rw [report, json, Value.toText, String.toList_ofList]
    exact spells_object (.cons (.mk hcount) (.cons (.mk hinputs) .nil))
  have hdocument := IsDocument.mk isSpaces_nil hspells isSpaces_nil
  rw [List.nil_append, List.append_nil] at hdocument
  exact ⟨count, inputs, hinteger, hdescribes, hdocument⟩

/--
**A report in JSON is JSON and complete.**  It is one document and no other: an object with the
number of entries and, in their order, a description of each.
-/
theorem isDocument_report_iff (entries : List Entry) :
    ∃ count inputs, IsInteger entries.length count ∧ List.Forall₂ Describes entries inputs ∧
      ∀ tree, IsDocument (report .json entries).toList tree ↔
        tree = .object [("count", count), ("inputs", .array inputs)] := by
  obtain ⟨count, inputs, hcount, hinputs, hdocument⟩ := exists_document entries
  refine ⟨count, inputs, hcount, hinputs, fun tree => ⟨?_, ?_⟩⟩
  · exact fun h => h.unique hdocument
  · rintro rfl
    exact hdocument

end TensorText.Report

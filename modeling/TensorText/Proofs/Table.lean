/-
The columns of a table.

Widths are taken from bytes and cells are filled up by characters.  A text has no more characters
than bytes, so no cell is longer than its column: nothing is cut off, and each column begins after
the same number of characters in every row, whatever the names are written in.
-/
import Mathlib.Data.List.Forall2
import Mathlib.Data.String.Basic
import TensorText.Report

namespace TensorText

namespace Report

/-! ### Characters and bytes -/

theorem length_le_utf8Len (cs : List Char) : cs.length ≤ String.utf8Len cs := by
  induction cs with
  | nil => exact Nat.le_refl 0
  | cons c cs ih =>
      have hc := c.utf8Size_pos
      rw [List.length_cons, String.utf8Len]
      omega

/-- A text has no more characters than bytes. -/
theorem length_le_utf8ByteSize (s : String) : s.length ≤ s.utf8ByteSize := by
  rw [← String.length_toList, ← String.utf8Len_toList]
  exact length_le_utf8Len s.toList

/-! ### Widths -/

theorem columnWidth_le_iff {least bound : Nat} {cells : List String} :
    columnWidth least cells ≤ bound ↔
      least ≤ bound ∧ ∀ s ∈ cells, s.utf8ByteSize ≤ bound := by
  induction cells generalizing least with
  | nil => simp [columnWidth]
  | cons s cells ih =>
      rw [columnWidth, List.foldl_cons, ← columnWidth, ih, Nat.max_le, List.forall_mem_cons,
        and_assoc]

theorem le_columnWidth (least : Nat) (cells : List String) : least ≤ columnWidth least cells :=
  (columnWidth_le_iff.mp (Nat.le_refl _)).1

/-- No cell has more characters than its column is wide. -/
theorem length_le_columnWidth {least : Nat} {cells : List String} {s : String} (h : s ∈ cells) :
    s.length ≤ columnWidth least cells :=
  (length_le_utf8ByteSize s).trans ((columnWidth_le_iff.mp (Nat.le_refl _)).2 s h)

/-! ### Rows -/

/-- So many spaces. -/
def spaces (n : Nat) : String := String.ofList (List.replicate n ' ')

@[simp] theorem length_spaces (n : Nat) : (spaces n).length = n := by
  rw [spaces, String.length_ofList, List.length_replicate]

/-- A cell, filled up with spaces to this width, and two more spaces behind it. -/
def filled (width : Nat) (cell : String) : String :=
  cell ++ spaces (width - cell.length) ++ spaces 2

theorem length_filled {width : Nat} {cell : String} (h : cell.length ≤ width) :
    (filled width cell).length = width + 2 := by
  simp only [filled, String.length_append, length_spaces]
  omega

/-- The text is the row, whole, its first two cells filled up to these widths. -/
structure Row.Laid (r : Row) (nameWidth shapeWidth : Nat) (text : String) : Prop where
  name_fits : r.name.length ≤ nameWidth
  shape_fits : r.shape.length ≤ shapeWidth
  text_eq : text = filled nameWidth r.name ++ (filled shapeWidth r.shape ++ r.count)

namespace Row.Laid

variable {r : Row} {nameWidth shapeWidth : Nat} {text : String}

/-- Behind the first column stands the second. -/
theorem drop_name (h : r.Laid nameWidth shapeWidth text) :
    text.toList.drop (nameWidth + 2) = (filled shapeWidth r.shape).toList ++ r.count.toList := by
  rw [h.text_eq, String.toList_append, String.toList_append,
    List.drop_left' (length_filled h.name_fits)]

/-- Behind the second column stands the third, to the end. -/
theorem drop_shape (h : r.Laid nameWidth shapeWidth text) :
    text.toList.drop (nameWidth + 2 + (shapeWidth + 2)) = r.count.toList := by
  rw [← List.drop_drop, h.drop_name, List.drop_left' (length_filled h.shape_fits)]

/-- The second cell stands at the beginning of the second column. -/
theorem shape_isPrefix (h : r.Laid nameWidth shapeWidth text) :
    r.shape.toList <+: text.toList.drop (nameWidth + 2) := by
  rw [h.drop_name, filled]
  simp only [String.toList_append, List.append_assoc]
  exact List.prefix_append _ _

end Row.Laid

theorem Row.laid_text {r : Row} {nameWidth shapeWidth : Nat} (hname : r.name.length ≤ nameWidth)
    (hshape : r.shape.length ≤ shapeWidth) :
    r.Laid nameWidth shapeWidth (r.text nameWidth shapeWidth) := by
  refine ⟨hname, hshape, ?_⟩
  simp only [Row.text, pad, filled, spaces, String.append_assoc]
  rfl

/-- What a table shows of an entry. -/
inductive Shows (e : Entry) : Row → Prop
  /-- The entry is a tensor: its name, its shape and the number of its elements. -/
  | tensor {t : Tensor} (h : Tensor.ofEntry e = .ok t) :
      Shows e ⟨e.name, shapeText t.shape, toString t.size⟩
  /-- It is none: its name, and why. -/
  | fault {fault : InputFault} (h : Tensor.ofEntry e = .error fault) :
      Shows e ⟨e.name, "?", "(" ++ fault.message ++ ")"⟩

theorem shows_row (e : Entry) : Shows e (row e) := by
  unfold row
  cases h : Tensor.ofEntry e with
  | ok t => exact .tensor h
  | error fault => exact .fault h

theorem Shows.name_eq {e : Entry} {r : Row} (h : Shows e r) : r.name = e.name := by
  cases h with
  | tensor h => rfl
  | fault h => rfl

theorem Shows.shape_eq {e : Entry} {r : Row} (h : Shows e r) :
    (∃ t, Tensor.ofEntry e = .ok t ∧ r.shape = shapeText t.shape) ∨ r.shape = "?" := by
  cases h with
  | tensor h => exact Or.inl ⟨_, h, rfl⟩
  | fault h => exact Or.inr rfl

/-! ### Tables -/

/-- How wide the first column of a table is. -/
def nameWidth (entries : List Entry) : Nat := columnWidth 4 ((entries.map row).map Row.name)

/-- How wide the second column of a table is. -/
def shapeWidth (entries : List Entry) : Nat := columnWidth 5 ((entries.map row).map Row.shape)

theorem nameWidth_le {entries : List Entry} {bound : Nat} (hleast : 4 ≤ bound)
    (h : ∀ e ∈ entries, e.name.utf8ByteSize ≤ bound) : nameWidth entries ≤ bound := by
  refine columnWidth_le_iff.mpr ⟨hleast, ?_⟩
  rw [List.map_map, List.forall_mem_map]
  intro e he
  rw [Function.comp_apply, (shows_row e).name_eq]
  exact h e he

theorem shapeWidth_le {entries : List Entry} {bound : Nat} (hleast : 5 ≤ bound)
    (h : ∀ e ∈ entries, ∀ t, Tensor.ofEntry e = .ok t → (shapeText t.shape).utf8ByteSize ≤ bound) :
    shapeWidth entries ≤ bound := by
  refine columnWidth_le_iff.mpr ⟨hleast, ?_⟩
  rw [List.map_map, List.forall_mem_map]
  intro e he
  rw [Function.comp_apply]
  rcases (shows_row e).shape_eq with ⟨t, ht, hshape⟩ | hshape
  · rw [hshape]
    exact h e he t ht
  · rw [hshape]
    exact le_trans (by decide) hleast

/-- The header of a table. -/
def headText (entries : List Entry) : String :=
  Row.header.text (nameWidth entries) (shapeWidth entries)

/-- The rows of a table below its header. -/
def rowTexts (entries : List Entry) : List String :=
  entries.map fun e => (row e).text (nameWidth entries) (shapeWidth entries)

theorem laid_header (entries : List Entry) :
    Row.header.Laid (nameWidth entries) (shapeWidth entries) (headText entries) :=
  Row.laid_text (le_columnWidth 4 _) (le_columnWidth 5 _)

/-- Every entry has a row that shows it. -/
theorem laid_rows (entries : List Entry) :
    List.Forall₂ (fun e text => ∃ r, Shows e r ∧
      r.Laid (nameWidth entries) (shapeWidth entries) text) entries (rowTexts entries) := by
  rw [rowTexts, List.forall₂_map_right_iff, List.forall₂_same]
  intro e he
  have hrow : row e ∈ entries.map row := List.mem_map_of_mem he
  exact ⟨row e, shows_row e, Row.laid_text (length_le_columnWidth (List.mem_map_of_mem hrow))
    (length_le_columnWidth (List.mem_map_of_mem hrow))⟩

theorem table_eq {entries : List Entry} (hne : entries ≠ []) :
    table entries = "\n".intercalate (headText entries :: rowTexts entries) := by
  have htexts : rowTexts entries = (entries.map row).map fun r =>
      r.text (nameWidth entries) (shapeWidth entries) := by
    rw [List.map_map]
    rfl
  rw [table, if_neg hne, htexts]
  rfl

/--
**A table is a header and one row per entry, all in the same columns.**
The columns are at least as wide as their headings, and their widths still fit in sixteen bits
where the cells do.  No cell is cut off, and the second column and the third begin after the same
number of characters in every row.
-/
theorem table_laid (entries : List Entry) (hne : entries ≠ [])
    (hname : ∀ e ∈ entries, e.name.utf8ByteSize ≤ 65535)
    (hshape : ∀ e ∈ entries, ∀ t, Tensor.ofEntry e = .ok t →
      (shapeText t.shape).utf8ByteSize ≤ 65535) :
    ∃ nw sw, (4 ≤ nw ∧ nw ≤ 65535) ∧ (5 ≤ sw ∧ sw ≤ 65535) ∧
      (∃ head texts, report .table entries = "\n".intercalate (head :: texts) ∧
        Row.Laid ⟨"NAME", "SHAPE", "VALUES"⟩ nw sw head ∧
        List.Forall₂ (fun e text => ∃ r, Shows e r ∧ r.Laid nw sw text) entries texts) ∧
      ∀ r text, Row.Laid r nw sw text →
        r.shape.toList <+: text.toList.drop (nw + 2) ∧
        text.toList.drop (nw + 2 + (sw + 2)) = r.count.toList := by
  refine ⟨nameWidth entries, shapeWidth entries,
    ⟨le_columnWidth 4 _, nameWidth_le (by decide) hname⟩,
    ⟨le_columnWidth 5 _, shapeWidth_le (by decide) hshape⟩,
    ⟨headText entries, rowTexts entries, table_eq hne, laid_header entries, laid_rows entries⟩,
    fun r text h => ⟨h.shape_isPrefix, h.drop_shape⟩⟩

/-- A name with fewer characters than bytes, beside an entry that is no tensor. -/
theorem table_laid_accents : ∃ entries : List Entry,
    entries = [⟨"größe", [3, 0, 0, 0, 0, 0, 0, 0], List.replicate 12 0⟩, ⟨"bad", [1], []⟩] ∧
    (∀ e ∈ entries, e.name.utf8ByteSize ≤ 65535) ∧
    (∀ e ∈ entries, ∀ t, Tensor.ofEntry e = .ok t → (shapeText t.shape).utf8ByteSize ≤ 65535) ∧
    report .table entries = "NAME     SHAPE  VALUES\ngröße    [3]    3\n" ++
      "bad      ?      (input 'bad': dimensions byte length 1 is not a multiple of 8)" ∧
    ∃ nw sw, 4 ≤ nw ∧ 5 ≤ sw ∧ ∃ head texts,
      report .table entries = "\n".intercalate (head :: texts) ∧ texts.length = 2 ∧
      head.toList.drop (nw + 2 + (sw + 2)) = "VALUES".toList := by
  have hname : ∀ e ∈ [(⟨"größe", [3, 0, 0, 0, 0, 0, 0, 0], List.replicate 12 0⟩ : Entry),
      ⟨"bad", [1], []⟩], e.name.utf8ByteSize ≤ 65535 := by decide +kernel
  have hshape : ∀ e ∈ [(⟨"größe", [3, 0, 0, 0, 0, 0, 0, 0], List.replicate 12 0⟩ : Entry),
      ⟨"bad", [1], []⟩], ∀ t, Tensor.ofEntry e = .ok t →
        (shapeText t.shape).utf8ByteSize ≤ 65535 := by
    refine List.forall_mem_cons.mpr ⟨?_, List.forall_mem_cons.mpr ⟨?_, by simp⟩⟩
    · intro t ht
      have hread : Tensor.ofEntry ⟨"größe", [3, 0, 0, 0, 0, 0, 0, 0], List.replicate 12 0⟩ =
          .ok ⟨"größe", [3], [⟨0⟩, ⟨0⟩, ⟨0⟩], rfl⟩ := rfl
      rw [hread] at ht
      cases ht
      decide +kernel
    · intro t ht
      cases ht
  obtain ⟨nw, sw, ⟨hnw, -⟩, ⟨hsw, -⟩, ⟨head, texts, htext, hhead, htexts⟩, hcolumns⟩ :=
    table_laid _ (by simp) hname hshape
  exact ⟨_, rfl, hname, hshape, by decide +kernel, nw, sw, hnw, hsw, head, texts, htext,
    htexts.length_eq.symm, (hcolumns _ head hhead).2⟩

end Report

end TensorText

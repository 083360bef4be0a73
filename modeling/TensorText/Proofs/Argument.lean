/-
What an argument comes to.

An argument is told apart from its end: its last two colons part three sections, whatever stands
in front of them.  Inside a section it is told apart from the beginning, at every comma.  Both
cuts can be made in one way only, so each of them is said here without saying how it is found,
and `Parsing` puts them in a row: sections, dimensions, values, and then the tensor.  The first
that fails decides, and where it is a list that fails, its first bad item is named.

What is written for a number has neither a colon nor a comma nor white space in it, so a shape
and literals that are put between colons and commas come back out of them.
-/
import Mathlib
import TensorText.Command.Argument
import TensorText.Proofs.Rounding
import TensorText.Proofs.Shape
import TensorText.Proofs.Steps

namespace TensorText

open Grammar

/-! ### White space at the ends -/

namespace Text

/-- The second text is the first without the white space at its ends. -/
structure Trims (cs item : List Char) : Prop where
  surrounded : ∃ before after, (∀ c ∈ before, isBlank c = true) ∧
    (∀ c ∈ after, isBlank c = true) ∧ cs = before ++ item ++ after
  first : Halts (fun c => isBlank c = true) item
  last : Halts (fun c => isBlank c = true) item.reverse

theorem Trims.trim_eq {cs item : List Char} (h : Trims cs item) : trim cs = item := by
  obtain ⟨before, after, hbefore, hafter, rfl⟩ := h.surrounded
  have hafter' : ∀ c ∈ after.reverse, isBlank c = true := by simpa using hafter
  have hmiddle : (before ++ (item ++ after)).dropWhile isBlank =
      (item ++ after).dropWhile isBlank := List.dropWhile_append_of_pos hbefore
  rw [trim, List.append_assoc, hmiddle]
  cases item with
  | nil =>
      have hnone : after.dropWhile isBlank = [] := List.dropWhile_eq_nil_iff.mpr hafter
      rw [List.nil_append, hnone]
      rfl
  | cons c item =>
      have hc : isBlank c ≠ true := halts_cons.mp h.first
      rw [List.cons_append, List.dropWhile_cons_of_neg hc, ← List.cons_append,
        List.reverse_append, Scan.dropWhile_run hafter' h.last, List.reverse_reverse]

theorem trims_trim (cs : List Char) : Trims cs (trim cs) := by
  have hfront := List.takeWhile_append_dropWhile (p := isBlank) (l := cs)
  have hback := List.takeWhile_append_dropWhile (p := isBlank) (l := (cs.dropWhile isBlank).reverse)
  have hdrop : cs.dropWhile isBlank =
      trim cs ++ ((cs.dropWhile isBlank).reverse.takeWhile isBlank).reverse := by
    rw [trim, ← List.reverse_append, hback, List.reverse_reverse]
  refine ⟨⟨cs.takeWhile isBlank, ((cs.dropWhile isBlank).reverse.takeWhile isBlank).reverse,
    fun c hc => List.mem_takeWhile_imp hc, ?_, ?_⟩, ?_, ?_⟩
  · intro c hc
    exact List.mem_takeWhile_imp (List.mem_reverse.mp hc)
  · rw [List.append_assoc, ← hdrop, hfront]
  · intro c hc
    refine Scan.halts_dropWhile isBlank cs c ?_
    rw [hdrop]
    exact List.mem_head?_append_of_mem_head? hc
  · rw [trim, List.reverse_reverse]
    exact Scan.halts_dropWhile isBlank _

theorem trim_eq_iff {cs item : List Char} : trim cs = item ↔ Trims cs item := by
  constructor
  · rintro rfl
    exact trims_trim cs
  · exact Trims.trim_eq

/-- Nothing is left of white space only. -/
theorem trim_eq_nil_iff {cs : List Char} : trim cs = [] ↔ ∀ c ∈ cs, isBlank c = true := by
  rw [trim_eq_iff]
  constructor
  · intro h
    obtain ⟨before, after, hbefore, hafter, rfl⟩ := h.surrounded
    rw [List.append_nil]
    exact List.forall_mem_append.mpr ⟨hbefore, hafter⟩
  · intro h
    exact ⟨⟨cs, [], h, by simp, by simp⟩, halts_nil _, halts_nil _⟩

/-- There is nothing to trim where there is no white space. -/
theorem trims_self {cs : List Char} (h : ∀ c ∈ cs, isBlank c = false) : Trims cs cs := by
  have hhalts : ∀ {s : List Char}, (∀ c ∈ s, c ∈ cs) → Halts (fun c => isBlank c = true) s := by
    intro s hs c hc hblank
    rw [h c (hs c (List.mem_of_mem_head? hc))] at hblank
    cases hblank
  exact ⟨⟨[], [], by simp, by simp, by simp⟩, hhalts fun c hc => hc,
    hhalts fun c hc => List.mem_reverse.mp hc⟩

end Text

namespace Argument

/-! ### Sections -/

/-- The sections that the last two colons of an argument part. -/
structure HasSections (argument name dimensions values : List Char) : Prop where
  text : argument = name ++ ':' :: (dimensions ++ ':' :: values)
  dimensions : ':' ∉ dimensions
  values : ':' ∉ values

theorem splitLastColon_of_not_mem {cs : List Char} (h : ':' ∉ cs) : splitLastColon cs = none := by
  have hall : cs.reverse.dropWhile (fun c => c != ':') = [] := by
    rw [List.dropWhile_eq_nil_iff]
    intro c hc
    rw [bne_iff_ne]
    rintro rfl
    exact h (List.mem_reverse.mp hc)
  rw [splitLastColon, hall]

theorem splitLastColon_append (before : List Char) {after : List Char} (h : ':' ∉ after) :
    splitLastColon (before ++ ':' :: after) = some (before, after) := by
  have hreverse : (before ++ ':' :: after).reverse = after.reverse ++ ':' :: before.reverse := by
    simp
  have hall : ∀ c ∈ after.reverse, (c != ':') = true := by
    intro c hc
    rw [bne_iff_ne]
    rintro rfl
    exact h (List.mem_reverse.mp hc)
  have hhalts : Halts (fun c => (c != ':') = true) (':' :: before.reverse) :=
    halts_cons.mpr (by decide)
  rw [splitLastColon, hreverse, Scan.dropWhile_run hall hhalts, Scan.takeWhile_run hall hhalts]
  simp

theorem exists_last_colon {cs : List Char} (h : ':' ∈ cs) :
    ∃ before after, cs = before ++ ':' :: after ∧ ':' ∉ after := by
  obtain ⟨after, before, hcs, hafter⟩ := List.eq_append_cons_of_mem (List.mem_reverse.mpr h)
  refine ⟨before.reverse, after.reverse, ?_, by simpa using hafter⟩
  rw [← List.reverse_reverse cs, hcs]
  simp

theorem sections?_of_has {argument name dimensions values : List Char}
    (h : HasSections argument name dimensions values) :
    sections? argument = some (name, dimensions, values) := by
  have houter : argument = (name ++ ':' :: dimensions) ++ ':' :: values := by
    rw [h.text]
    simp
  simp only [sections?, houter, splitLastColon_append _ h.values,
    splitLastColon_append _ h.dimensions, Option.bind_eq_bind, Option.bind_some]
  rfl

/-- An argument has three sections unless it has fewer than two colons. -/
theorem few_colons_or_has (argument : List Char) :
    (argument.count ':' < 2 ∧ sections? argument = none) ∨
      ∃ name dimensions values, HasSections argument name dimensions values := by
  by_cases hlast : ':' ∈ argument
  · obtain ⟨rest, values, rfl, hvalues⟩ := exists_last_colon hlast
    by_cases hrest : ':' ∈ rest
    · obtain ⟨name, dimensions, rfl, hdimensions⟩ := exists_last_colon hrest
      exact Or.inr ⟨name, dimensions, values, by simp, hdimensions, hvalues⟩
    · refine Or.inl ⟨?_, ?_⟩
      · rw [List.count_append, List.count_cons_self, List.count_eq_zero_of_not_mem hrest,
          List.count_eq_zero_of_not_mem hvalues]
        decide
      · simp only [sections?, splitLastColon_append _ hvalues, splitLastColon_of_not_mem hrest,
          Option.bind_eq_bind, Option.bind_some, Option.bind_none]
  · refine Or.inl ⟨?_, ?_⟩
    · rw [List.count_eq_zero_of_not_mem hlast]
      decide
    · rw [sections?, splitLastColon_of_not_mem hlast]
      rfl

theorem HasSections.two_le_count {argument name dimensions values : List Char}
    (h : HasSections argument name dimensions values) : 2 ≤ argument.count ':' := by
  rw [h.text]
  simp only [List.count_append, List.count_cons_self]
  omega

theorem sections?_of_few {argument : List Char} (h : argument.count ':' < 2) :
    sections? argument = none := by
  rcases few_colons_or_has argument with ⟨-, hnone⟩ | ⟨name, dimensions, values, hsections⟩
  · exact hnone
  · exact absurd hsections.two_le_count (by omega)

/-! ### Items -/

/-- The items of a section: none if there is only white space in it, and otherwise what its commas
part, without the white space at the ends. -/
inductive HasItems (cs : List Char) : List (List Char) → Prop
  | blank (h : ∀ c ∈ cs, Text.isBlank c = true) : HasItems cs []
  | parted {parts items : List (List Char)} (h : ¬∀ c ∈ cs, Text.isBlank c = true)
      (htext : cs = [','].intercalate parts) (hne : parts ≠ []) (hcomma : ∀ p ∈ parts, ',' ∉ p)
      (hitems : List.Forall₂ Text.Trims parts items) : HasItems cs items

theorem splitCommas_eq (cs : List Char) : splitCommas cs = cs.splitOn ',' := by
  induction cs with
  | nil => rfl
  | cons c cs ih =>
      rw [splitCommas, List.splitOn_cons_eq_if_modifyHead, ih]
      by_cases hc : c = ','
      · simp [hc]
      · obtain ⟨part, parts, hparts⟩ := List.exists_cons_of_ne_nil (List.splitOn_ne_nil ',' cs)
        simp [hc, hparts]

theorem comma_not_mem_splitCommas (cs : List Char) : ∀ p ∈ splitCommas cs, ',' ∉ p := by
  induction cs with
  | nil => simp [splitCommas]
  | cons c cs ih =>
      rw [splitCommas]
      by_cases hc : c = ','
      · simpa [hc] using ih
      · obtain ⟨part, parts, hparts⟩ : ∃ part parts, splitCommas cs = part :: parts := by
          rw [splitCommas_eq]
          exact List.exists_cons_of_ne_nil (List.splitOn_ne_nil ',' cs)
        rw [hparts, List.forall_mem_cons] at ih
        rw [if_neg hc, hparts]
        refine List.forall_mem_cons.mpr ⟨?_, ih.2⟩
        rw [List.mem_cons, not_or]
        exact ⟨fun h => hc h.symm, ih.1⟩

theorem items_eq_iff {cs : List Char} {is : List (List Char)} : items cs = is ↔ HasItems cs is := by
  unfold items
  constructor
  · rintro rfl
    split
    · rename_i hblank
      exact .blank (Text.trim_eq_nil_iff.mp hblank)
    · rename_i hblank
      refine .parted (fun h => hblank (Text.trim_eq_nil_iff.mpr h)) ?_ ?_
        (comma_not_mem_splitCommas cs) ?_
      · rw [splitCommas_eq, List.intercalate_splitOn]
      · rw [splitCommas_eq]
        exact List.splitOn_ne_nil ',' cs
      · rw [List.forall₂_map_right_iff, List.forall₂_same]
        exact fun p _ => Text.trims_trim p
  · intro h
    cases h with
    | blank h => rw [if_pos (Text.trim_eq_nil_iff.mpr h)]
    | @parted parts _ h htext hne hcomma hitems =>
        have hparts : splitCommas cs = parts := by
          rw [splitCommas_eq, htext, List.splitOn_intercalate _ hcomma hne]
        rw [if_neg fun hblank => h (Text.trim_eq_nil_iff.mp hblank), hparts]
        have htrim : List.Forall₂ (fun p item => Text.trim p = item) parts is :=
          hitems.imp fun _ _ => Text.Trims.trim_eq
        exact (List.forall₂_eq_eq_eq ▸ List.forall₂_map_left_iff.mpr htrim)

/-- Texts that are written for numbers are the items of the section that their commas part. -/
theorem hasItems_intercalate {items : List (List Char)}
    (h : ∀ item ∈ items, item ≠ [] ∧ ∀ c ∈ item, IsNumberChar c) :
    HasItems ([','].intercalate items) items := by
  by_cases hne : items = []
  · rw [hne]
    exact .blank (by simp)
  · refine .parted ?_ rfl hne ?_ ?_
    · intro hblank
      obtain ⟨item, rest, rfl⟩ := List.exists_cons_of_ne_nil hne
      obtain ⟨hitem, hchars⟩ := h item (by simp)
      obtain ⟨c, cs, rfl⟩ := List.exists_cons_of_ne_nil hitem
      have hmem : c ∈ [','].intercalate ((c :: cs) :: rest) := by
        cases rest with
        | nil => simp
        | cons next rest => simp
      have hc := (hchars c (by simp)).not_isBlank
      rw [hblank c hmem] at hc
      cases hc
    · intro item hitem hcomma
      exact absurd ((h item hitem).2 ',' hcomma) (by decide)
    · rw [List.forall₂_same]
      exact fun item hitem => Text.trims_self fun c hc => ((h item hitem).2 c hc).not_isBlank

/-! ### Lists of numbers -/

section Lists

variable {α : Type} {f : List Char → Except BadItem α} {P : List Char → α → Prop} {cs : List Char}

theorem mapM_items_eq_ok_iff (hf : ∀ item a, f item = .ok a ↔ P item a) {as : List α} :
    (items cs).mapM f = .ok as ↔ ∃ is, HasItems cs is ∧ List.Forall₂ P is as := by
  have hitem : (fun item a => f item = .ok a) = P := funext₂ fun item a => propext (hf item a)
  rw [mapM_eq_ok, hitem]
  constructor
  · intro h
    exact ⟨_, items_eq_iff.mp rfl, h⟩
  · rintro ⟨is, his, h⟩
    rwa [items_eq_iff.mpr his]

/-- A list that cannot be read has a first item that cannot. -/
theorem mapM_items_eq_error_iff (hf : ∀ item a, f item = .ok a ↔ P item a) {bad : BadItem} :
    (items cs).mapM f = .error bad ↔ ∃ before item after, HasItems cs (before ++ item :: after) ∧
      (∀ x ∈ before, ∃ a, P x a) ∧ f item = .error bad := by
  simp only [mapM_eq_error, ← hf]
  constructor
  · rintro ⟨before, item, after, hitems, h⟩
    exact ⟨before, item, after, items_eq_iff.mp hitems, h⟩
  · rintro ⟨before, item, after, hitems, h⟩
    exact ⟨before, item, after, items_eq_iff.mpr hitems, h⟩

end Lists

/-- The item is a dimension: a signed whole number of 64 bits. -/
def IsDimension (item : List Char) (d : Int64) : Prop := Integer.Spells item d.toInt

/-- The item is a value: it spells a literal, and this is the number of 32 bits that the literal
denotes. -/
def IsValue (item : List Char) (v : Binary32) : Prop := ∃ l, Literal.Spells item l ∧ l.Denotes v

/-- Reads one item as a dimension. -/
def readDimension : List Char → Except BadItem Int64 := readItem Integer.read Integer.Fault.message

/-- Reads one item as a value. -/
def readValue (item : List Char) : Except BadItem Binary32 :=
  (readItem Literal.read Literal.Fault.message item).map Binary32.ofLiteral

theorem readDimension_eq_ok_iff {item : List Char} {d : Int64} :
    readDimension item = .ok d ↔ IsDimension item d :=
  mapError_eq_ok.trans Integer.read_eq_ok_iff

theorem readValue_eq_ok_iff {item : List Char} {v : Binary32} :
    readValue item = .ok v ↔ IsValue item v := by
  rw [readValue, map_eq_ok, IsValue]
  simp only [readItem, mapError_eq_ok, Literal.read_eq_ok_iff, Literal.denotes_iff]

/-- An item that is no dimension is named, with the reason. -/
theorem readDimension_eq_error_iff {item : List Char} {bad : BadItem} :
    readDimension item = .error bad ↔ (¬∃ d, IsDimension item d) ∧
      ∃ fault, Integer.read item = .error fault ∧ bad = ⟨String.ofList item, fault.message⟩ := by
  simp only [readDimension, readItem, mapError_eq_error, IsDimension, ← Integer.read_eq_ok_iff]
  constructor
  · rintro ⟨fault, hfault, rfl⟩
    exact ⟨by simp [hfault], fault, hfault, rfl⟩
  · rintro ⟨-, fault, hfault, rfl⟩
    exact ⟨fault, hfault, rfl⟩

/-- An item that is no value is named, with the reason. -/
theorem readValue_eq_error_iff {item : List Char} {bad : BadItem} :
    readValue item = .error bad ↔ (¬∃ v, IsValue item v) ∧
      ∃ fault, Literal.read item = .error fault ∧ bad = ⟨String.ofList item, fault.message⟩ := by
  simp only [readValue, readItem, IsValue, ← Literal.read_eq_ok_iff, Literal.denotes_iff]
  cases h : Literal.read item with
  | error fault => simp [Except.mapError, Except.map, eq_comm]
  | ok l => simp [Except.mapError, Except.map]

theorem readDimensions_eq_ok_iff {cs : List Char} {shape : List Int64} :
    readDimensions cs = .ok shape ↔
      ∃ is, HasItems cs is ∧ List.Forall₂ IsDimension is shape :=
  mapM_items_eq_ok_iff fun _ _ => readDimension_eq_ok_iff

theorem readDimensions_eq_error_iff {cs : List Char} {bad : BadItem} :
    readDimensions cs = .error bad ↔ ∃ before item after,
      HasItems cs (before ++ item :: after) ∧ (∀ x ∈ before, ∃ d, IsDimension x d) ∧
        readDimension item = .error bad :=
  mapM_items_eq_error_iff fun _ _ => readDimension_eq_ok_iff

theorem readValues_eq_ok_iff {cs : List Char} {numbers : List Binary32} :
    readValues cs = .ok numbers ↔ ∃ is, HasItems cs is ∧ List.Forall₂ IsValue is numbers :=
  mapM_items_eq_ok_iff fun _ _ => readValue_eq_ok_iff

theorem readValues_eq_error_iff {cs : List Char} {bad : BadItem} :
    readValues cs = .error bad ↔ ∃ before item after,
      HasItems cs (before ++ item :: after) ∧ (∀ x ∈ before, ∃ v, IsValue x v) ∧
        readValue item = .error bad :=
  mapM_items_eq_error_iff fun _ _ => readValue_eq_ok_iff

/-! ### Arguments -/

/-- What comes of reading an argument. -/
inductive Parsing (argument : String) : Except Fault Tensor → Prop
  /-- It has fewer than two colons. -/
  | sections (h : argument.toList.count ':' < 2) : Parsing argument (.error (.sections argument))
  /-- An item of its second section is no dimension, and it is the first such. -/
  | dimensions {name dimensions values item : List Char} {before after : List (List Char)}
      {fault : Integer.Fault} (h : HasSections argument.toList name dimensions values)
      (hitems : HasItems dimensions (before ++ item :: after))
      (hbefore : ∀ x ∈ before, ∃ d, IsDimension x d) (hitem : ¬∃ d, IsDimension item d)
      (hfault : Integer.read item = .error fault) :
      Parsing argument (.error (.dimensions argument ⟨String.ofList item, fault.message⟩))
  /-- Its second section is a shape, but an item of the third is no value, and it is the first
  such. -/
  | values {name dimensions values item : List Char} {shapeItems before after : List (List Char)}
      {shape : List Int64} {fault : Literal.Fault}
      (h : HasSections argument.toList name dimensions values)
      (hdimensions : HasItems dimensions shapeItems)
      (hshape : List.Forall₂ IsDimension shapeItems shape)
      (hitems : HasItems values (before ++ item :: after))
      (hbefore : ∀ x ∈ before, ∃ v, IsValue x v) (hitem : ¬∃ v, IsValue item v)
      (hfault : Literal.read item = .error fault) :
      Parsing argument (.error (.values argument ⟨String.ofList item, fault.message⟩))
  /-- Its sections are a name, a shape and values, and it comes to the tensor with these. -/
  | tensor {name dimensions values : List Char} {shapeItems valueItems : List (List Char)}
      {shape : List Int64} {numbers : List Binary32}
      (h : HasSections argument.toList name dimensions values)
      (hdimensions : HasItems dimensions shapeItems)
      (hshape : List.Forall₂ IsDimension shapeItems shape)
      (hvalues : HasItems values valueItems)
      (hnumbers : List.Forall₂ IsValue valueItems numbers) :
      Parsing argument ((Tensor.new (String.ofList name) shape numbers).mapError .tensor)

theorem read_of_has {argument : String} {name dimensions values : List Char}
    (h : HasSections argument.toList name dimensions values) :
    read argument = ((readDimensions dimensions).mapError (.dimensions argument) >>= fun shape =>
      (readValues values).mapError (.values argument) >>= fun numbers =>
        (Tensor.new (String.ofList name) shape numbers).mapError .tensor) := by
  rw [read, sections?_of_has h]

theorem read_of_numbers {argument : String} {name dimensions values : List Char}
    {shape : List Int64} {numbers : List Binary32}
    (h : HasSections argument.toList name dimensions values)
    (hshape : readDimensions dimensions = .ok shape) (hnumbers : readValues values = .ok numbers) :
    read argument = (Tensor.new (String.ofList name) shape numbers).mapError .tensor := by
  rw [read_of_has h, hshape, hnumbers]
  rfl

theorem parsing_read (argument : String) : Parsing argument (read argument) := by
  rcases few_colons_or_has argument.toList with ⟨hfew, hnone⟩ | ⟨name, dims, values, h⟩
  · rw [read, hnone]
    exact .sections hfew
  · rw [read_of_has h]
    cases hdims : readDimensions dims with
    | error bad =>
        obtain ⟨before, item, after, hitems, hbefore, hbad⟩ := readDimensions_eq_error_iff.mp hdims
        obtain ⟨hitem, fault, hfault, rfl⟩ := readDimension_eq_error_iff.mp hbad
        exact .dimensions h hitems hbefore hitem hfault
    | ok shape =>
        obtain ⟨shapeItems, hshapeItems, hshape⟩ := readDimensions_eq_ok_iff.mp hdims
        cases hvalues : readValues values with
        | error bad =>
            obtain ⟨before, item, after, hitems, hbefore, hbad⟩ :=
              readValues_eq_error_iff.mp hvalues
            obtain ⟨hitem, fault, hfault, rfl⟩ := readValue_eq_error_iff.mp hbad
            exact .values h hshapeItems hshape hitems hbefore hitem hfault
        | ok numbers =>
            obtain ⟨valueItems, hvalueItems, hnumbers⟩ := readValues_eq_ok_iff.mp hvalues
            exact .tensor h hshapeItems hshape hvalueItems hnumbers

theorem Parsing.read_eq {argument : String} {result : Except Fault Tensor}
    (h : Parsing argument result) : read argument = result := by
  cases h with
  | sections hfew => rw [read, sections?_of_few hfew]
  | dimensions h hitems hbefore hitem hfault =>
      have hbad := readDimension_eq_error_iff.mpr ⟨hitem, _, hfault, rfl⟩
      rw [read_of_has h, readDimensions_eq_error_iff.mpr ⟨_, _, _, hitems, hbefore, hbad⟩]
      rfl
  | values h hdims hshape hitems hbefore hitem hfault =>
      have hbad := readValue_eq_error_iff.mpr ⟨hitem, _, hfault, rfl⟩
      rw [read_of_has h, readDimensions_eq_ok_iff.mpr ⟨_, hdims, hshape⟩,
        readValues_eq_error_iff.mpr ⟨_, _, _, hitems, hbefore, hbad⟩]
      rfl
  | tensor h hdims hshape hvalues hnumbers =>
      exact read_of_numbers h (readDimensions_eq_ok_iff.mpr ⟨_, hdims, hshape⟩)
        (readValues_eq_ok_iff.mpr ⟨_, hvalues, hnumbers⟩)

/-! ### Arguments that are put together -/

/-- The argument for a name, a shape in decimal and literals. -/
def written (name : String) (shape : List Int64) (literals : List String) : String :=
  name ++ ":" ++ ",".intercalate (shape.map fun d => toString d.toInt) ++ ":" ++
    ",".intercalate literals

theorem toList_written (name : String) (shape : List Int64) (literals : List String) :
    (written name shape literals).toList = name.toList ++ ':' ::
      ([','].intercalate (shape.map fun d => (toString d.toInt).toList) ++ ':' ::
        [','].intercalate (literals.map String.toList)) := by
  have hcolon : ":".toList = [':'] := rfl
  have hcomma : ",".toList = [','] := rfl
  simp only [written, String.toList_append, String.toList_intercalate, hcolon, hcomma,
    List.map_map, List.append_assoc, List.cons_append, List.nil_append]
  rfl

theorem colon_not_mem_intercalate {items : List (List Char)}
    (h : ∀ item ∈ items, ∀ c ∈ item, IsNumberChar c) : ':' ∉ [','].intercalate items := by
  induction items with
  | nil => simp
  | cons item items ih =>
      have hitem : ':' ∉ item := fun hmem => absurd (h item (by simp) ':' hmem) (by decide)
      have hitems := ih fun i hi => h i (List.mem_cons_of_mem _ hi)
      cases items with
      | nil => simpa using hitem
      | cons next items =>
          rw [List.intercalate_cons_cons]
          simp only [List.mem_append, not_or]
          exact ⟨⟨hitem, by decide⟩, hitems⟩

theorem read_written (name : String) {shape : List Int64} {literals : List String}
    {numbers : List Literal}
    (hliterals : List.Forall₂ (fun s l => Literal.Spells s.toList l) literals numbers)
    (hshape : IsCountable shape) (hcount : elements shape = literals.length) :
    ∃ t, read (written name shape literals) = .ok t ∧ t.name = name ∧ t.shape = shape ∧
      List.Forall₂ Literal.Denotes numbers t.values := by
  have hdims : ∀ item ∈ shape.map fun d => (toString d.toInt).toList,
      item ≠ [] ∧ ∀ c ∈ item, IsNumberChar c := by
    refine List.forall_mem_map.mpr fun d _ => ?_
    exact ⟨(Integer.spells_toString _).ne_nil, (Integer.spells_toString _).chars⟩
  have hvalues : ∀ item ∈ literals.map String.toList,
      item ≠ [] ∧ ∀ c ∈ item, IsNumberChar c := by
    have hspelt : List.Forall₂ (fun s l => (s.toList ≠ [] ∧ ∀ c ∈ s.toList, IsNumberChar c) ∧
        Literal.Spells s.toList l) literals numbers :=
      hliterals.imp fun s l hl => ⟨⟨hl.ne_nil, hl.chars⟩, hl⟩
    exact List.forall_mem_map.mpr ((List.forall₂_and_left _ _).mp hspelt).1
  have hsections : HasSections (written name shape literals).toList name.toList _ _ :=
    ⟨toList_written name shape literals,
      colon_not_mem_intercalate fun item hitem => (hdims item hitem).2,
      colon_not_mem_intercalate fun item hitem => (hvalues item hitem).2⟩
  have hreadDims := readDimensions_eq_ok_iff.mpr ⟨_, hasItems_intercalate hdims,
    List.forall₂_map_left_iff.mpr
      (List.forall₂_same.mpr fun d _ => Integer.spells_toString d.toInt)⟩
  have hreadValues := readValues_eq_ok_iff.mpr ⟨_, hasItems_intercalate hvalues,
    List.forall₂_map_left_iff.mpr (List.forall₂_map_right_iff.mpr
      (hliterals.imp fun s l hl => ⟨l, hl, Literal.denotes_iff.mpr rfl⟩))⟩
  have hlength : countElements shape = .ok (numbers.map Binary32.ofLiteral).length := by
    rw [countElements_eq_ok_iff, List.length_map, ← hliterals.length_eq]
    exact ⟨hshape, hcount⟩
  have hnew : Tensor.new (String.ofList name.toList) shape (numbers.map Binary32.ofLiteral) =
      .ok ⟨name, shape, _, hlength⟩ := by
    rw [String.ofList_toList]
    exact Tensor.new_eq_ok_iff.mpr ⟨hlength, rfl, rfl, rfl⟩
  refine ⟨⟨name, shape, _, hlength⟩, ?_, rfl, rfl, ?_⟩
  · rw [read_of_numbers hsections hreadDims hreadValues, hnew]
    rfl
  · rw [List.forall₂_map_right_iff, List.forall₂_same]
    exact fun l _ => Literal.denotes_iff.mpr rfl

/--
**An argument is told apart at its last two colons, and its first fault is what it fails with.**
It comes to one thing in the way of `Parsing`, and a fault is reported with its causes behind it,
down to the item that cannot be read.  So a name of any kind, a shape whose elements can be
counted and as many literals come back from the argument that is written for them, and the values
are what the literals denote: the nearest numbers of 32 bits, infinities, or no numbers.
-/
theorem read_eq_iff_parsing (argument : String) :
    (∀ result, read argument = result ↔ Parsing argument result) ∧
    ((Fault.sections argument).chain = ["expected NAME:DIMS:VALUES, got '" ++ argument ++ "'"] ∧
      ∀ item reason,
        (Fault.dimensions argument ⟨item, reason⟩).chain =
          ["bad dims in '" ++ argument ++ "'", "cannot parse '" ++ item ++ "'", reason] ∧
        (Fault.values argument ⟨item, reason⟩).chain =
          ["bad values in '" ++ argument ++ "'", "cannot parse '" ++ item ++ "'", reason]) ∧
    ∀ (name : String) (shape : List Int64) (literals : List String) (numbers : List Literal),
      argument = written name shape literals →
      List.Forall₂ (fun s l => Literal.Spells s.toList l) literals numbers →
      IsCountable shape → elements shape = literals.length →
        ∃ t, read argument = .ok t ∧ t.name = name ∧ t.shape = shape ∧
          List.Forall₂ Literal.Denotes numbers t.values := by
  refine ⟨fun result => ⟨?_, Parsing.read_eq⟩, ⟨rfl, fun item reason => ⟨rfl, rfl⟩⟩, ?_⟩
  · rintro rfl
    exact parsing_read argument
  · rintro name shape literals numbers rfl hliterals hshape hcount
    exact read_written name hliterals hshape hcount

/-- A name may hold what parts sections and items.  `16777217` is halfway between two numbers of 32
bits, and `-1e39` is past the largest. -/
theorem read_eq_iff_parsing_commas :
    List.Forall₂ (fun s l => Literal.Spells s.toList l) ["nan", "16777217", "-1e39"]
      [.notANumber false, .finite ⟨false, 16777217, 0⟩, .finite ⟨true, 1, 39⟩] ∧
    IsCountable [3, 1] ∧ elements [3, 1] = 3 ∧
    ∃ t, read "a:b, c:3,1:nan,16777217,-1e39" = .ok t ∧ t.name = "a:b, c" ∧ t.shape = [3, 1] ∧
      t.values = [⟨0x7FC00000⟩, ⟨0x4B800000⟩, ⟨0xFF800000⟩] := by
  have hliterals : List.Forall₂ (fun s l => Literal.Spells s.toList l)
      ["nan", "16777217", "-1e39"]
      [.notANumber false, .finite ⟨false, 16777217, 0⟩, .finite ⟨true, 1, 39⟩] := by
    refine .cons (Literal.read_eq_ok_iff.mp ?_) (.cons (Literal.read_eq_ok_iff.mp ?_)
      (.cons (Literal.read_eq_ok_iff.mp ?_) .nil))
    all_goals decide +kernel
  obtain ⟨hcountable, hcount⟩ : IsCountable [3, 1] ∧ elements [3, 1] = 3 :=
    countElements_eq_ok_iff.mp (by decide)
  obtain ⟨t, hread, hname, hshape, hvalues⟩ :=
    (read_eq_iff_parsing "a:b, c:3,1:nan,16777217,-1e39").2.2 "a:b, c" [3, 1]
      ["nan", "16777217", "-1e39"] _ (by decide +kernel) hliterals hcountable hcount
  refine ⟨hliterals, hcountable, hcount, t, hread, hname, hshape, ?_⟩
  have hmap : [Literal.notANumber false, .finite ⟨false, 16777217, 0⟩, .finite ⟨true, 1, 39⟩].map
      Binary32.ofLiteral = t.values := by
    rw [← List.forall₂_eq_eq_eq, List.forall₂_map_left_iff]
    exact hvalues.imp fun _ _ => Literal.denotes_iff.mp
  rw [← hmap]
  decide +kernel

end Argument

end TensorText

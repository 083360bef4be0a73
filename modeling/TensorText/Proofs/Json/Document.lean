/-
Entries, documents and positions in JSON.

For each of the three it is said which texts say a value of it, by the forms of its fields.  What
is written says the value, and whatever says a value is read as the value; so what is written is
read back, and so is everything that differs from it in the order of the fields, in white space, in
how its texts are escaped, or in fields that nobody asked for.  That what was read can be written
and read again takes one thing more for a position: that no number that is read is too large for
the bound it was read with.
-/
import TensorText.Proofs.Json.Record
import TensorText.Proofs.Json.Writer

namespace TensorText.Json

/-! ### What texts say -/

/-- The bytes are said as a list of numbers. -/
def SaysBytes (cs : List Char) (bytes : List UInt8) : Prop :=
  SaysList (fun cs b => SaysNumber cs b.toNat) cs bytes

/-- The fields of an entry. -/
def entrySlots (e : Entry) : List Slot :=
  [⟨"name", fun cs => SaysText cs e.name⟩,
    ⟨"dimensions", fun cs => SaysBytes cs e.dimensions⟩,
    ⟨"values", fun cs => SaysBytes cs e.values⟩]

/-- The text says the entry. -/
def SaysEntry (cs : List Char) (e : Entry) : Prop := SaysRecord (entrySlots e) cs

/-- The one field of a document. -/
def documentSlots (d : Document) : List Slot :=
  [⟨"entries", fun cs => SaysList SaysEntry cs d.entries⟩]

/-- The text says the document. -/
def SaysDocument (cs : List Char) (d : Document) : Prop := SaysRecord (documentSlots d) cs

/-- The fields of a position. -/
def positionSlots (p : Position) : List Slot :=
  [⟨"line", fun cs => SaysNumber cs p.line⟩, ⟨"column", fun cs => SaysNumber cs p.column⟩]

/-- The text says the position. -/
def SaysPosition (cs : List Char) (p : Position) : Prop := SaysRecord (positionSlots p) cs

/-- The line and the column fit in 64 bits. -/
def Fits64 (p : Position) : Prop := p.line < 2 ^ 64 ∧ p.column < 2 ^ 64

/-! ### What is said is read -/

theorem SaysList.map {α β : Type} {P : List Char → α → Prop} {Q : List Char → β → Prop}
    {cs : List Char} {as : List α} (f : α → β) (h : SaysList P cs as)
    (hf : ∀ s a, P s a → Q s (f a)) : SaysList Q cs (as.map f) := by
  cases h with
  | nil h => exact .nil h
  | parted h => exact .parted (h.map_of_length f (Nat.le_refl _) fun s a ha _ => hf s a ha)

theorem reads_bytes : Reads bytes SaysBytes := by
  have hbyte : Reads (natural 256) fun cs n => SaysNumber cs n ∧ n < 256 :=
    reads_natural (by decide)
  have hnumbers := reads_list hbyte
  have hforget : ∀ bs : List UInt8, (bs.map UInt8.toNat).map UInt8.ofNat = bs := by
    intro bs
    have hid : UInt8.ofNat ∘ UInt8.toNat = id := funext fun b => UInt8.ofNat_toNat
    rw [List.map_map, hid, List.map_id]
  have hsaid : ∀ {cs bs}, SaysBytes cs bs →
      SaysList (fun cs n => SaysNumber cs n ∧ n < 256) cs (bs.map UInt8.toNat) :=
    fun h => h.map UInt8.toNat fun s b hb => ⟨hb, b.toNat_lt⟩
  refine ⟨fun h => hnumbers.head (hsaid h), fun h hspaces hrest => ?_⟩
  rw [bytes, hnumbers.read (hsaid h) hspaces hrest]
  simp only [Except.map, hforget]

/-- What a field holds once its key was met. -/
def whenMet {α : Type} (met : List String) (key : String) (a : α) : Option α :=
  if key ∈ met then some a else none

section WhenMet

variable {α : Type} {met : List String} {key key' : String} {a : α}

@[simp] theorem isSome_whenMet : (whenMet met key a).isSome = decide (key ∈ met) := by
  unfold whenMet
  split_ifs with h <;> simp [h]

@[simp] theorem whenMet_cons_self : whenMet (key :: met) key a = some a :=
  if_pos List.mem_cons_self

@[simp] theorem whenMet_cons_of_ne (h : key ≠ key') :
    whenMet (key' :: met) key a = whenMet met key a := by
  simp [whenMet, h]

theorem whenMet_of_mem (h : key ∈ met) : whenMet met key a = some a := if_pos h

end WhenMet

/-- An entry of which the fields were met that have these keys. -/
def entryStage (e : Entry) (met : List String) : PartialEntry :=
  ⟨whenMet met "name" e.name, whenMet met "dimensions" e.dimensions,
    whenMet met "values" e.values⟩

theorem reads_entry : Reads entry SaysEntry := by
  refine ⟨SaysRecord.head, fun {cs e} _ _ h hspaces _ => ?_⟩
  refine record_append (entryStage e) ?_ rfl (fun met hmet => ?_) h hspaces
  · refine .cons (Field.fills reads_text (fun r name => { r with name := some name })
      (fun _ h => h) (fun _ _ => rfl) (fun met => ?_) fun met => ?_) (.cons
        (Field.fills reads_bytes (fun r bytes => { r with dimensions := some bytes })
          (fun _ h => h) (fun _ _ => rfl) (fun met => ?_) fun met => ?_) (.cons
            (Field.fills reads_bytes (fun r bytes => { r with values := some bytes })
              (fun _ h => h) (fun _ _ => rfl) (fun met => ?_) fun met => ?_) .nil))
    all_goals simp [entryStage]
  · simp only [entrySlots, List.forall_mem_cons] at hmet
    obtain ⟨hname, hdimensions, hvalues, -⟩ := hmet
    simp only [entryStage, whenMet_of_mem hname, whenMet_of_mem hdimensions,
      whenMet_of_mem hvalues]

theorem reads_document : Reads document SaysDocument := by
  refine ⟨SaysRecord.head, fun {cs d} _ _ h hspaces _ => ?_⟩
  refine record_append (fun met => whenMet met "entries" d.entries) ?_ rfl
    (fun met hmet => ?_) h hspaces
  · refine .cons (Field.fills (reads_list reads_entry) (fun _ entries => some entries)
      (fun _ h => h) (fun _ _ => rfl) (fun met => ?_) fun met => ?_) .nil
    all_goals simp
  · simp only [documentSlots, List.forall_mem_cons] at hmet
    rw [whenMet_of_mem hmet.1]
    rfl

/-- A position of which the fields were met that have these keys. -/
def positionStage (p : Position) (met : List String) : PartialPosition :=
  ⟨whenMet met "line" p.line, whenMet met "column" p.column⟩

theorem reads_position : Reads position fun cs p => SaysPosition cs p ∧ Fits64 p := by
  have hnumber : Reads (natural (Nat.pow 2 64)) fun cs n => SaysNumber cs n ∧ n < Nat.pow 2 64 :=
    reads_natural (Nat.le_refl _)
  refine ⟨fun h => h.1.head, fun {cs p} _ _ ⟨h, hline, hcolumn⟩ hspaces _ => ?_⟩
  refine record_append (positionStage p) ?_ rfl (fun met hmet => ?_) h hspaces
  · refine .cons (Field.fills hnumber (fun r n => { r with line := some n })
      (fun _ h => ⟨h, hline⟩) (fun _ _ => rfl) (fun met => ?_) fun met => ?_) (.cons
        (Field.fills hnumber (fun r n => { r with column := some n })
          (fun _ h => ⟨h, hcolumn⟩) (fun _ _ => rfl) (fun met => ?_) fun met => ?_) .nil)
    all_goals simp [positionStage]
  · simp only [positionSlots, List.forall_mem_cons] at hmet
    obtain ⟨hline, hcolumn, -⟩ := hmet
    simp only [positionStage, whenMet_of_mem hline, whenMet_of_mem hcolumn]

/-! ### What is written is said -/

theorem saysText_write (s : String) : SaysText (Value.text s).write s := by
  rw [Value.write, quote]
  exact .mk (isBody_escaped s.toList)

theorem saysNumber_write (n : Nat) : SaysNumber (Value.whole n).write n := by
  have hdigits := SaysNumber.mk (isWhole_digits n)
  rw [ofDigits_digits] at hdigits
  rwa [Value.write, writeWhole, if_neg (by omega), Int.natAbs_natCast]

theorem saysList_write {α : Type} {P : List Char → α → Prop} {f : α → Value} {as : List α}
    (h : ∀ a ∈ as, P (f a).write a) : SaysList P (Value.array (as.map f)).write as := by
  rw [Value.write]
  cases as with
  | nil => exact .nil isSpaces_nil
  | cons a as =>
      refine .parted (parted_writeItems (List.cons_ne_nil _ _) ?_)
      rw [List.forall₂_map_left_iff, List.forall₂_same]
      exact h

/-- **An object says a record in whatever order its members are written**, and whatever others are
written with them. -/
theorem saysRecord_write {slots : List Slot} {members : List (String × Value)}
    (hne : members ≠ []) (honce : ∀ slot ∈ slots, (members.map Prod.fst).count slot.key = 1)
    (hforms : ∀ m ∈ members, ∀ slot ∈ slots, slot.key = m.1 → slot.form m.2.write)
    (hothers : ∀ m ∈ members, m.1 ∉ slots.map Slot.key → IsValue m.2.write ()) :
    SaysRecord slots (Value.object members).write := by
  have hparted : Parted (Member Eq) (writeMembers members)
      (members.map fun m => (m.1, m.2.write)) := by
    refine parted_writeMembers hne ?_
    rw [List.forall₂_map_right_iff, List.forall₂_same]
    exact fun m _ => member_write rfl
  rw [Value.write]
  refine .object hparted ?_ (List.forall_mem_map.mpr hforms) (List.forall_mem_map.mpr hothers)
  rwa [List.map_map]

theorem saysBytes_write (bytes : List UInt8) : SaysBytes (ofBytes bytes).write bytes :=
  saysList_write fun b _ => saysNumber_write b.toNat

theorem saysEntry_write (e : Entry) : SaysEntry (ofEntry e).write e := by
  refine saysRecord_write (List.cons_ne_nil _ _) ?_ ?_ ?_
  · simp [entrySlots]
  · simp [entrySlots, saysText_write, saysBytes_write]
  · simp [entrySlots]

theorem saysDocument_write (d : Document) : SaysDocument (ofDocument d).write d := by
  have hentries : SaysList SaysEntry (Value.array (d.entries.map ofEntry)).write d.entries :=
    saysList_write fun e _ => saysEntry_write e
  refine saysRecord_write (List.cons_ne_nil _ _) ?_ ?_ ?_
  · simp [documentSlots]
  · simp [documentSlots, hentries]
  · simp [documentSlots]

theorem saysPosition_write (p : Position) : SaysPosition (ofPosition p).write p := by
  refine saysRecord_write (List.cons_ne_nil _ _) ?_ ?_ ?_
  · simp [positionSlots]
  · simp [positionSlots, saysNumber_write]
  · simp [positionSlots]

/-! ### What is read can be written -/

/-- A position as far as it was read, its numbers below `2 ^ 64`. -/
structure PartialPosition.Fits (r : PartialPosition) : Prop where
  line : ∀ n ∈ r.line, n < 2 ^ 64
  column : ∀ n ∈ r.column, n < 2 ^ 64

/-- **No position is read that does not fit.** -/
theorem fits64_of_position {s s' : List Char} {p : Position} (h : position s = .ok (p, s')) :
    Fits64 p := by
  have hnumber : ∀ {n s s'}, natural (Nat.pow 2 64) s = .ok (n, s') → n < 2 ^ 64 := lt_of_natural
  refine record_keeps PartialPosition.Fits ?_ ⟨by simp, by simp⟩ (fun r p hr hfinish => ?_) h
  · simp only [List.forall_mem_cons]
    refine ⟨?_, ?_, nofun⟩
    · refine keeps_put (fun (r : PartialPosition) n => { r with line := some n }) ?_
      exact fun r s n s' hr hread =>
        ⟨fun m hm => Option.some.inj hm ▸ hnumber hread, hr.column⟩
    · refine keeps_put (fun (r : PartialPosition) n => { r with column := some n }) ?_
      exact fun r s n s' hr hread =>
        ⟨hr.line, fun m hm => Option.some.inj hm ▸ hnumber hread⟩
  · obtain ⟨line?, column?⟩ := r
    split at hfinish
    · rename_i line column hsome
      cases hsome
      cases hfinish
      exact ⟨hr.line _ rfl, hr.column _ rfl⟩
    · cases hfinish

/-! ### There and back -/

theorem decode_append {α : Type} {decoder : Decoder α} {P : List Char → α → Prop}
    (hreads : Reads decoder P) {cs before after : List Char} {a : α} (h : P cs a)
    (hbefore : IsSpaces before) (hafter : IsSpaces after) :
    decode decoder (String.ofList (before ++ (cs ++ after))) = .ok a := by
  have hends : Ends after := by
    have hend := ends_append hafter ends_nil
    rwa [List.append_nil] at hend
  have hskip : skipSpace after = [] := by
    have hrun := skipSpace_append hafter (Grammar.halts_nil _)
    rwa [List.append_nil] at hrun
  rw [decode, String.toList_ofList, hreads.read h hbefore hends, ok_bind]
  exact if_pos hskip

/-- What makes a form in JSON a faithful one.  `Says` tells the texts that say a value, and
`InRange` the values that there are. -/
structure RoundTrips {α : Type} (decoder : Decoder α) (form : α → Value)
    (Says : List Char → α → Prop) (InRange : α → Prop) : Prop where
  /-- What is written is read back. -/
  decode_form : ∀ a, InRange a → decode decoder (form a).toText = .ok a
  /-- What is written says the value. -/
  said_form : ∀ a, Says (form a).write a
  /-- Whatever says the value is read as the value, with white space around it too. -/
  decode_said : ∀ a cs before after, InRange a → Says cs a → IsSpaces before → IsSpaces after →
    decode decoder (String.ofList (before ++ (cs ++ after))) = .ok a
  /-- What was read is in range, so it can be written and read once more. -/
  decode_again : ∀ source a, decode decoder source = .ok a →
    InRange a ∧ decode decoder (form a).toText = .ok a

theorem roundTrips_of_reads {α : Type} {decoder : Decoder α} {form : α → Value}
    {Says : List Char → α → Prop} {InRange : α → Prop}
    (hreads : Reads decoder fun cs a => Says cs a ∧ InRange a) (hform : ∀ a, Says (form a).write a)
    (hrange : ∀ s a s', decoder s = .ok (a, s') → InRange a) :
    RoundTrips decoder form Says InRange := by
  have hback : ∀ a, InRange a → decode decoder (form a).toText = .ok a := by
    intro a ha
    have hdecode := decode_append hreads ⟨hform a, ha⟩ isSpaces_nil isSpaces_nil
    rwa [List.nil_append, List.append_nil] at hdecode
  refine ⟨hback, hform, fun a cs before after ha h => decode_append hreads ⟨h, ha⟩, ?_⟩
  intro source a h
  obtain ⟨⟨b, s⟩, hread, h⟩ := bind_eq_ok.mp h
  dsimp only at h
  split at h
  · cases h
    have ha := hrange _ _ _ hread
    exact ⟨ha, hback _ ha⟩
  · cases h

theorem Reads.inRange {α : Type} {decoder : Decoder α} {P : List Char → α → Prop}
    (h : Reads decoder P) : Reads decoder fun cs a => P cs a ∧ True :=
  ⟨fun hcs => h.head hcs.1, fun hcs => h.read hcs.1⟩

/--
**Entries, documents and positions come back from JSON as they were.**  This is so for what is
written, and for every other text that says the same: with the fields in another order, others
among them, or white space; or as an array of the fields.  A position has to fit in 64 bits, as
every one does that is read.
-/
theorem roundTrips_forms :
    RoundTrips entry ofEntry SaysEntry (fun _ => True) ∧
      RoundTrips document ofDocument SaysDocument (fun _ => True) ∧
      RoundTrips position ofPosition SaysPosition Fits64 := by
  refine ⟨?_, ?_, ?_⟩
  · exact roundTrips_of_reads reads_entry.inRange saysEntry_write fun _ _ _ _ => trivial
  · exact roundTrips_of_reads reads_document.inRange saysDocument_write fun _ _ _ _ => trivial
  · exact roundTrips_of_reads reads_position saysPosition_write fun _ _ _ => fits64_of_position

/-- The fields in another order, one among them that nobody asked for, and white space around. -/
theorem roundTrips_forms_reordered :
    SaysEntry (Value.object [("values", ofBytes [1]), ("x", .array [.null, .object []]),
        ("name", .text "a\n"), ("dimensions", ofBytes [])]).write ⟨"a\n", [], [1]⟩ ∧
      decode entry
        "\t\x7b\"values\":[1],\"x\":[null,\x7b\x7d],\"name\":\"a\\n\",\"dimensions\":[]\x7d " =
          .ok ⟨"a\n", [], [1]⟩ := by
  have hnull : Spells Value.null.write .null := .null
  have hother : Spells (Value.array [.null, .object []]).write (.array [.null, .object []]) :=
    spells_array (.cons hnull (.cons (spells_object .nil) .nil))
  have hsaid : SaysEntry (Value.object [("values", ofBytes [1]), ("x", .array [.null, .object []]),
      ("name", .text "a\n"), ("dimensions", ofBytes [])]).write ⟨"a\n", [], [1]⟩ := by
    refine saysRecord_write (List.cons_ne_nil _ _) ?_ ?_ ?_
    · simp [entrySlots]
    · simp [entrySlots, saysText_write, saysBytes_write]
    · simp [entrySlots, hother.isValue]
  have htext : ['\t'] ++ ((Value.object [("values", ofBytes [1]), ("x", .array [.null, .object []]),
      ("name", .text "a\n"), ("dimensions", ofBytes [])]).write ++ [' ']) = String.toList
        "\t\x7b\"values\":[1],\"x\":[null,\x7b\x7d],\"name\":\"a\\n\",\"dimensions\":[]\x7d " := by
    cbv
  have hread := roundTrips_forms.1.decode_said _ _ ['\t'] [' '] trivial hsaid
    (by simp [IsSpaces, isSpace]) (by simp [IsSpaces, isSpace])
  rw [htext, String.ofList_toList] at hread
  exact ⟨hsaid, hread⟩

end TensorText.Json

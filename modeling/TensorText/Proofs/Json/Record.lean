/-
JSON of a known shape.

What texts say a value of some shape is told apart from how they are read: a text says a number,
several parted by commas say a list, and a record is said in two ways.  An array says it with its
fields in their order.  An object says it if each field is there once, wherever it stands, and
whatever else looks like a value and has another key.

A record is put together field by field.  How far it has come is told by the keys that were met
(`stage`), and a key that was met does not come again: for every field the times that it was met
and the times that it is still to come add up to one.
-/
import TensorText.Json.Document
import TensorText.Proofs.Json.Skip

namespace TensorText.Json

open Grammar

/-! ### Texts, numbers and lists -/

/-- The text is spelt between quotes. -/
inductive SaysText : List Char → String → Prop
  | mk {body : List Char} {s : String} (h : IsBody body s.toList) :
      SaysText ('"' :: (body ++ ['"'])) s

/-- The number is spelt, without a sign, a fraction or an exponent. -/
inductive SaysNumber : List Char → Nat → Prop
  | mk {ds : List Char} (h : IsWhole ds) : SaysNumber ds (Decimal.ofDigits ds)

/-- The things are said one after another, between brackets. -/
inductive SaysList {α : Type} (P : List Char → α → Prop) : List Char → List α → Prop
  | nil {spaces : List Char} (h : IsSpaces spaces) : SaysList P ('[' :: (spaces ++ [']'])) []
  | parted {body : List Char} {as : List α} (h : Parted P body as) :
      SaysList P ('[' :: (body ++ [']'])) as

theorem reads_text : Reads text SaysText := by
  constructor
  · rintro _ _ ⟨h⟩
    exact ⟨_, _, rfl, by decide, by decide⟩
  · rintro _ s spaces rest ⟨h⟩ hspaces -
    rw [text, List.cons_append, skipSpace_append_cons hspaces (by decide)]
    simp [characters_body h, Except.map]

/-- Digits that make up a number below `2 ^ 64` are all taken in. -/
theorem gather_eq {n : Nat} {ds : List Char} (h : Nat.ofDigitChars 10 ds n < 2 ^ 64) :
    Numeral.gather n ds = (Nat.ofDigitChars 10 ds n, 0) := by
  induction ds generalizing n with
  | nil => rfl
  | cons c ds ih =>
      rw [Nat.ofDigitChars_cons] at h ⊢
      have hnext : 10 * n + (c.toNat - 48) < 2 ^ 64 :=
        Nat.lt_of_le_of_lt (Integer.le_ofDigitChars _ ds) h
      rw [Numeral.gather]
      exact (if_pos hnext).trans (ih h)

/-- Rounding at most doubles a number that fits in 64 bits, or so. -/
theorem roundToBits_le {n : Nat} (h : n < 2 ^ 64) : roundToBits 53 n ≤ 2 ^ 65 := by
  have hround : ∀ num den, roundHalfEven num den ≤ num / den + 1 := by
    intro num den
    unfold roundHalfEven
    dsimp only
    split_ifs <;> omega
  have hlog : n.log2 ≤ 63 := by
    rcases Nat.eq_zero_or_pos n with rfl | hpos
    · decide
    · have := (Nat.log2_lt (by omega)).mpr h
      omega
  have hunit : Nat.pow 2 (n.log2 + 1 - 53) ≤ 2 ^ 64 := Nat.pow_le_pow_right (by decide) (by omega)
  calc roundToBits 53 n
      ≤ (n / Nat.pow 2 (n.log2 + 1 - 53) + 1) * Nat.pow 2 (n.log2 + 1 - 53) :=
        Nat.mul_le_mul_right _ (hround _ _)
    _ = n / Nat.pow 2 (n.log2 + 1 - 53) * Nat.pow 2 (n.log2 + 1 - 53) +
          Nat.pow 2 (n.log2 + 1 - 53) := Nat.succ_mul _ _
    _ ≤ n + 2 ^ 64 := Nat.add_le_add (Nat.div_mul_le_self _ _) hunit
    _ ≤ 2 ^ 65 := by omega

theorem isTooLarge_eq_false {ds : List Char} (h : Decimal.ofDigits ds < 2 ^ 64) :
    Numeral.isTooLarge ⟨false, ds, none, none⟩ = false := by
  have hscaled : Numeral.scaled ⟨false, ds, none, none⟩ = (Decimal.ofDigits ds, 0) := by
    simp only [Numeral.scaled, gather_eq (n := 0) h]
    rfl
  have hone : roundToBits 53 (Nat.pow 10 (0 : Int).toNat) = 1 := by decide
  have hlimit : 2 ^ 65 < Nat.pow 2 1024 - Nat.pow 2 970 := by decide +kernel
  have hfits : ¬Nat.pow 2 1024 - Nat.pow 2 970 ≤ roundToBits 53 (Decimal.ofDigits ds) :=
    Nat.not_le.mpr (Nat.lt_of_le_of_lt (roundToBits_le h) hlimit)
  rw [Numeral.isTooLarge, hscaled]
  simp only [hone, Nat.mul_one, decide_eq_false hfits]
  simp

theorem number_append {ds rest : List Char} (h : IsWhole ds) (hfits : Decimal.ofDigits ds < 2 ^ 64)
    (hrest : Ends rest) : number (ds ++ rest) = .ok (some (Decimal.ofDigits ds), rest) := by
  have hspelt : Numeral.IsSpelt (minus false ++ (ds ++ ([] ++ []))) ⟨false, ds, none, none⟩ :=
    .mk h .none .none
  have htext : minus false ++ (ds ++ ([] ++ [])) = ds := List.append_nil ds
  rw [htext] at hspelt
  rw [number, numeral_append hspelt hrest, ok_bind]
  dsimp only
  rw [isTooLarge_eq_false hfits]
  rfl

theorem reads_natural {bound : Nat} (hbound : bound ≤ 2 ^ 64) :
    Reads (natural bound) fun cs n => SaysNumber cs n ∧ n < bound := by
  have hhead : ∀ {ds}, IsWhole ds → ∃ c s, ds = c :: s ∧ c.isDigit = true := by
    intro ds h
    obtain ⟨c, s, rfl⟩ := List.exists_cons_of_ne_nil h.ne_nil
    exact ⟨c, s, rfl, h.digit c List.mem_cons_self⟩
  constructor
  · rintro _ _ ⟨⟨h⟩, -⟩
    obtain ⟨c, s, rfl, hc⟩ := hhead h
    have hne := ne_of_begins_number (Or.inr hc)
    exact ⟨c, s, rfl, hne.1, hne.2.1⟩
  · rintro _ _ spaces rest ⟨⟨h⟩, hlt⟩ hspaces hrest
    have hnumber := number_append h (Nat.lt_of_lt_of_le hlt hbound) hrest
    obtain ⟨c, s, rfl, hc⟩ := hhead h
    rw [List.cons_append] at hnumber
    rw [natural, List.cons_append,
      skipSpace_append_cons hspaces (ne_of_begins_number (Or.inr hc)).1]
    simp only [if_pos (Or.inr hc), hnumber, ok_bind, if_pos hlt]
    rfl

theorem reads_list {α : Type} {item : Decoder α} {P : List Char → α → Prop}
    (hitem : Reads item P) : Reads (list item) (SaysList P) := by
  constructor
  · rintro _ _ (h | h)
    · exact ⟨_, _, rfl, by decide, by decide⟩
    · exact ⟨_, _, rfl, by decide, by decide⟩
  · rintro _ as spaces rest h hspaces -
    cases h with
    | nil h =>
        rw [list, List.cons_append, skipSpace_append_cons hspaces (by decide)]
        simp [items_end h]
    | @parted body _ h =>
        have hlength := h.length_le
        have hread : items item ((body ++ ']' :: rest).length + 1) true (body ++ ']' :: rest) =
            .ok (as, rest) := by
          refine items_parted hitem h ?_ .start
          rw [List.length_append, List.length_cons]
          omega
        rw [list, List.cons_append, skipSpace_append_cons hspaces (by decide)]
        simp only [List.append_assoc, List.singleton_append, hread, if_true]

/-! ### Records -/

/-- A field of a record as texts say it: its key, and the texts that say its value. -/
structure Slot where
  key : String
  form : List Char → Prop

/-- The text says every field of a record. -/
inductive SaysRecord (slots : List Slot) : List Char → Prop
  /-- In their order, and nothing else. -/
  | array {body : List Char} {raws : List (List Char)} (h : Parted Eq body raws)
      (hforms : List.Forall₂ (fun slot raw => slot.form raw) slots raws) :
      SaysRecord slots ('[' :: (body ++ [']']))
  /-- Each once under its key, wherever that stands; any values may stand under other keys. -/
  | object {body : List Char} {members : List (String × List Char)}
      (h : Parted (Member Eq) body members)
      (honce : ∀ slot ∈ slots, (members.map Prod.fst).count slot.key = 1)
      (hforms : ∀ m ∈ members, ∀ slot ∈ slots, slot.key = m.1 → slot.form m.2)
      (hothers : ∀ m ∈ members, m.1 ∉ slots.map Slot.key → IsValue m.2 ()) :
      SaysRecord slots ('{' :: (body ++ ['}']))

section Records

variable {σ : Type} {stage : List String → σ}

/-- The field reads the texts of the slot, whatever was met before it: `stage` tells for the keys
that were met how far the record has come. -/
structure Field.Fills (field : Field σ) (stage : List String → σ) (slot : Slot) : Prop where
  key_eq : field.key = slot.key
  isSet_eq : ∀ met, field.isSet (stage met) = decide (slot.key ∈ met)
  head : ∀ {cs}, slot.form cs → ∃ c s, cs = c :: s ∧ isSpace c = false ∧ c ≠ ']'
  read : ∀ {met cs spaces rest}, slot.form cs → IsSpaces spaces → Ends rest →
    field.read (stage met) (spaces ++ (cs ++ rest)) = .ok (stage (slot.key :: met), rest)

/-- A field that puts what a decoder reads in its place. -/
theorem Field.fills {α : Type} {item : Decoder α} {P : List Char → α → Prop} (hitem : Reads item P)
    (put : σ → α → σ) {field : Field σ} {a : α} {form : List Char → Prop}
    (hform : ∀ cs, form cs → P cs a)
    (hread : ∀ r s, field.read r s = (item s).map fun p => (put r p.1, p.2))
    (hset : ∀ met, field.isSet (stage met) = decide (field.key ∈ met))
    (hput : ∀ met, put (stage met) a = stage (field.key :: met)) :
    field.Fills stage ⟨field.key, form⟩ where
  key_eq := rfl
  isSet_eq := hset
  head h := hitem.head (hform _ h)
  read h hspaces hrest := by
    rw [hread, hitem.read (hform _ h) hspaces hrest]
    simp only [Except.map, hput]

variable {fields : List (Field σ)} {slots : List Slot}

/-! ### Fields in their order -/

/-- One field is read, and then those behind it. -/
theorem fieldsInOrder_field {field : Field σ} {slot : Slot} (hfill : field.Fills stage slot)
    {raw : List Char} (hform : slot.form raw) (met : List String) {first : Bool}
    {lead before s : List Char} (hlead : IsLead first lead) (hbefore : IsSpaces before)
    (hs : Ends s) :
    fieldsInOrder (field :: fields) first (stage met) (lead ++ (before ++ (raw ++ s))) =
      fieldsInOrder fields false (stage (slot.key :: met)) s := by
  have hnext : nextItem first (lead ++ (before ++ (raw ++ s))) = .ok (some (raw ++ s)) := by
    obtain ⟨c, cs, rfl, hspace, hc⟩ := hfill.head hform
    exact nextItem_lead hlead hbefore hspace hc
  have hread : field.read (stage met) (raw ++ s) = .ok (stage (slot.key :: met), s) :=
    hfill.read hform isSpaces_nil hs
  rw [fieldsInOrder, hnext]
  simp only [ok_bind, hread]

/-- **The fields of an array are read one after another, up to its bracket.** -/
theorem fieldsInOrder_parted
    (hfills : List.Forall₂ (fun (field : Field σ) slot => field.Fills stage slot) fields slots)
    {cs : List Char} {raws : List (List Char)} (hparted : Parted Eq cs raws)
    (hforms : List.Forall₂ (fun (slot : Slot) raw => slot.form raw) slots raws)
    (met : List String) {first : Bool} {lead : List Char} (hlead : IsLead first lead)
    (rest : List Char) :
    fieldsInOrder fields first (stage met) (lead ++ (cs ++ ']' :: rest)) =
      .ok (stage ((slots.map Slot.key).reverse ++ met), rest) := by
  induction hparted generalizing fields slots met first lead with
  | @one before cs after raw hbefore hraw hafter =>
      obtain ⟨slot, _, hform, hnil, rfl⟩ := List.forall₂_cons_right_iff.mp hforms
      rw [List.forall₂_nil_right_iff.mp hnil] at hfills ⊢
      obtain ⟨field, _, hfill, hnil, rfl⟩ := List.forall₂_cons_right_iff.mp hfills
      rw [List.forall₂_nil_right_iff.mp hnil, hraw]
      simp only [List.append_assoc]
      rw [fieldsInOrder_field hfill hform met hlead hbefore (ends_append_cons hafter (by decide)),
        fieldsInOrder, expectMark_append ']' hafter (by decide)]
      rfl
  | @cons before cs after more raw raws hbefore hraw hafter _ ih =>
      obtain ⟨slot, slots, hform, hforms', rfl⟩ := List.forall₂_cons_right_iff.mp hforms
      obtain ⟨field, fields, hfill, hfills', rfl⟩ := List.forall₂_cons_right_iff.mp hfills
      have hrest := ih hfills' hforms' (slot.key :: met) (.comma hafter)
      simp only [List.append_assoc, List.singleton_append] at hrest
      simp only [List.append_assoc, List.cons_append]
      rw [hraw, fieldsInOrder_field hfill hform met hlead hbefore
        (ends_append_cons hafter (by decide)), hrest]
      simp

/-! ### Fields by their keys -/

/-- What is done with one member, from the inside of its key on. -/
def fieldStep (fields : List (Field σ)) (record : σ) : Decoder σ := fun s => do
  let (key, s) ← characters s
  match fields.find? fun f => f.key == String.ofList key with
  | none =>
    let (_, s) ← skipValue (← expectMark ':' s)
    return (record, s)
  | some field =>
    if field.isSet record then throw .mismatch else field.read record (← expectMark ':' s)

theorem fieldsByKey_eq (fields : List (Field σ)) (fuel : Nat) (first : Bool) (record : σ)
    (s : List Char) :
    fieldsByKey fields fuel first record s = eachMember (fieldStep fields) fuel first record s := by
  induction fuel generalizing first record s with
  | zero => rfl
  | succ fuel ih =>
      have hstep : ∀ s, (fieldStep fields record s >>= fun p =>
          fieldsByKey fields fuel false p.1 p.2) = fieldStep fields record s >>= fun p =>
            eachMember (fieldStep fields) fuel false p.1 p.2 := by
        intro s
        congr 1
        funext p
        exact ih false p.1 p.2
      rw [fieldsByKey, eachMember]
      cases nextKey first s with
      | error fault => rfl
      | ok key =>
          cases key with
          | none => rfl
          | some s =>
              refine Eq.trans ?_ (hstep s)
              simp only [ok_bind, fieldStep]
              cases characters s with
              | error fault => rfl
              | ok p =>
                  simp only [ok_bind]
                  cases fields.find? fun f => f.key == String.ofList p.1 with
                  | none =>
                      simp only [bind_assoc]
                      rfl
                  | some field =>
                      dsimp only
                      split
                      · rfl
                      · simp only [bind_assoc]

/-- The members that are left go with the keys that were met: for each field, met or left, there is
one, and what stands under its key is a text of it. -/
structure Fits (slots : List Slot) (met : List String) (members : List (String × List Char)) :
    Prop where
  once : ∀ slot ∈ slots, met.count slot.key + (members.map Prod.fst).count slot.key = 1
  forms : ∀ m ∈ members, ∀ slot ∈ slots, slot.key = m.1 → slot.form m.2
  others : ∀ m ∈ members, m.1 ∉ slots.map Slot.key → IsValue m.2 ()

theorem find?_of_mem
    (hfills : List.Forall₂ (fun (field : Field σ) slot => field.Fills stage slot) fields slots)
    {key : String} (h : key ∈ slots.map Slot.key) :
    ∃ field slot, fields.find? (fun f => f.key == key) = some field ∧ slot ∈ slots ∧
      slot.key = key ∧ field.Fills stage slot := by
  induction hfills with
  | nil => cases h
  | @cons field slot fields slots hfill _ ih =>
      by_cases hkey : slot.key = key
      · refine ⟨field, slot, ?_, List.mem_cons_self, hkey, hfill⟩
        rw [List.find?_cons_of_pos]
        simpa [hfill.key_eq] using hkey
      · obtain ⟨field', slot', hfind, hmem, hkey', hfill'⟩ :=
          ih ((List.mem_cons.mp h).resolve_left (Ne.symm hkey))
        refine ⟨field', slot', ?_, List.mem_cons_of_mem _ hmem, hkey', hfill'⟩
        rw [List.find?_cons_of_neg, hfind]
        simpa [hfill.key_eq] using hkey

theorem find?_of_not_mem
    (hfills : List.Forall₂ (fun (field : Field σ) slot => field.Fills stage slot) fields slots)
    {key : String} (h : key ∉ slots.map Slot.key) :
    fields.find? (fun f => f.key == key) = none := by
  induction hfills with
  | nil => rfl
  | @cons field slot fields slots hfill _ ih =>
      rw [List.map_cons, List.mem_cons, not_or] at h
      rw [List.find?_cons_of_neg, ih h.2]
      simpa [hfill.key_eq] using Ne.symm h.1

/-- A key that is met now is one less to come. -/
theorem Fits.met_cons {met : List String} {key : String} {raw : List Char}
    {members : List (String × List Char)} (h : Fits slots met ((key, raw) :: members)) :
    Fits slots (key :: met) members where
  once slot hslot := by
    have honce := h.once slot hslot
    rw [List.map_cons, List.count_cons] at honce
    rw [List.count_cons]
    dsimp only at honce
    omega
  forms m hm := h.forms m (List.mem_cons_of_mem _ hm)
  others m hm := h.others m (List.mem_cons_of_mem _ hm)

/-- The key of no field does not count. -/
theorem Fits.tail {met : List String} {key : String} {raw : List Char}
    {members : List (String × List Char)} (h : Fits slots met ((key, raw) :: members))
    (hkey : key ∉ slots.map Slot.key) : Fits slots met members where
  once slot hslot := by
    have honce := h.once slot hslot
    have hne : key ≠ slot.key := fun heq => hkey (heq ▸ List.mem_map_of_mem hslot)
    rwa [List.map_cons, List.count_cons_of_ne hne] at honce
  forms m hm := h.forms m (List.mem_cons_of_mem _ hm)
  others m hm := h.others m (List.mem_cons_of_mem _ hm)

/-- **A member is a field that was not met yet, or it is passed over.** -/
theorem goesOn_fieldStep
    (hfills : List.Forall₂ (fun (field : Field σ) slot => field.Fills stage slot) fields slots) :
    GoesOn (fieldStep fields) stage (Member Eq) (Fits slots) := by
  constructor
  rintro met ⟨key, raw⟩ members cs rest hfits hmember hrest
  obtain @⟨_, body, before, after, raw, _, hbody, hbefore, hafter, rfl⟩ := hmember
  have hmark : expectMark ':' (before ++ ':' :: (after ++ (raw ++ rest))) =
      .ok (after ++ (raw ++ rest)) := expectMark_append ':' hbefore (by decide)
  by_cases hkey : key ∈ slots.map Slot.key
  · obtain ⟨field, slot, hfind, hslot, rfl, hfill⟩ := find?_of_mem hfills hkey
    refine ⟨_, slot.key :: met, rfl, ?_, hfits.met_cons⟩
    have hnew : slot.key ∉ met := by
      have honce := hfits.once slot hslot
      rw [List.map_cons, List.count_cons_self] at honce
      exact List.count_eq_zero.mp (by omega)
    have hform : slot.form raw := hfits.forms _ List.mem_cons_self slot hslot rfl
    simp only [fieldStep, List.append_assoc, List.cons_append, characters_body hbody, ok_bind,
      String.ofList_toList, hfind, hfill.isSet_eq, hnew, decide_false, hmark,
      hfill.read hform hafter hrest]
    rfl
  · refine ⟨_, met, rfl, ?_, hfits.tail hkey⟩
    have hvalue : IsValue raw () := hfits.others _ List.mem_cons_self hkey
    simp only [fieldStep, List.append_assoc, List.cons_append, characters_body hbody, ok_bind,
      String.ofList_toList, find?_of_not_mem hfills hkey, hmark,
      reads_skipValue.read hvalue hafter hrest]
    rfl

/-- **The fields of an object are read in whatever order they stand**, up to its brace. -/
theorem fieldsByKey_parted
    (hfills : List.Forall₂ (fun (field : Field σ) slot => field.Fills stage slot) fields slots)
    {cs : List Char} {members : List (String × List Char)} (hparted : Parted (Member Eq) cs members)
    (hfits : Fits slots [] members) {fuel : Nat} (hfuel : members.length < fuel)
    (rest : List Char) :
    ∃ met spaces, (∀ slot ∈ slots, slot.key ∈ met) ∧ IsSpaces spaces ∧
      fieldsByKey fields fuel true (stage []) (cs ++ '}' :: rest) =
        .ok (stage met, spaces ++ '}' :: rest) := by
  obtain ⟨met, spaces, hmet, hspaces, heach⟩ :=
    eachMember_parted (goesOn_fieldStep hfills) hparted hfits hfuel .start rest
  refine ⟨met, spaces, fun slot hslot => ?_, hspaces, ?_⟩
  · have honce := hmet.once slot hslot
    rw [List.map_nil, List.count_nil] at honce
    exact List.count_pos_iff.mp (by omega)
  · rw [fieldsByKey_eq]
    exact heach

theorem SaysRecord.head {cs : List Char} (h : SaysRecord slots cs) :
    ∃ c s, cs = c :: s ∧ isSpace c = false ∧ c ≠ ']' := by
  cases h with
  | array _ _ => exact ⟨_, _, rfl, by decide, by decide⟩
  | object _ _ _ _ => exact ⟨_, _, rfl, by decide, by decide⟩

/--
**A record is read from whatever says all of its fields.**  Its stages begin with the empty record,
and it is finished when the keys of all its fields were met.
-/
theorem record_append {α : Type} {empty : σ} {finish : σ → Option α} {a : α}
    (stage : List String → σ)
    (hfills : List.Forall₂ (fun (field : Field σ) slot => field.Fills stage slot) fields slots)
    (hempty : stage [] = empty)
    (hfinish : ∀ met, (∀ slot ∈ slots, slot.key ∈ met) → finish (stage met) = some a)
    {cs spaces rest : List Char} (h : SaysRecord slots cs) (hspaces : IsSpaces spaces) :
    record fields empty finish (spaces ++ (cs ++ rest)) = .ok (a, rest) := by
  rw [← hempty]
  cases h with
  | array h hforms =>
      have hread := fieldsInOrder_parted hfills h hforms [] .start rest
      have hall := hfinish ((slots.map Slot.key).reverse ++ []) fun slot hslot => by
        simpa using ⟨slot, hslot, rfl⟩
      rw [record, List.cons_append, skipSpace_append_cons hspaces (by decide)]
      simp only [List.append_assoc, List.singleton_append, List.nil_append] at hread ⊢
      simp only [hread, ok_bind, hall]
      rfl
  | @object body members h honce hforms hothers =>
      have hlength := h.length_le
      have hfits : Fits slots [] members :=
        ⟨fun slot hslot => by rw [List.count_nil, Nat.zero_add, honce slot hslot], hforms,
          hothers⟩
      have hfuel : members.length < (body ++ '}' :: rest).length + 1 := by
        rw [List.length_append, List.length_cons]
        omega
      obtain ⟨met, after, hmet, hafter, hread⟩ := fieldsByKey_parted hfills h hfits hfuel rest
      rw [record, List.cons_append, skipSpace_append_cons hspaces (by decide)]
      simp only [List.append_assoc, List.singleton_append]
      rw [if_neg (by decide), if_pos trivial, hread]
      simp only [ok_bind, hfinish met hmet, expectMark_append '}' hafter (by decide)]
      rfl

end Records

/-! ### What a record keeps -/

section Keeps

variable {σ α : Type} {Inv : σ → Prop} {fields : List (Field σ)} {r r' : σ} {s s' : List Char}

/-- What is read keeps what holds of the record so far. -/
def Keeps (Inv : σ → Prop) (step : σ → Decoder σ) : Prop :=
  ∀ r s r' s', Inv r → step r s = .ok (r', s') → Inv r'

theorem keeps_put {β : Type} {item : Decoder β} (put : σ → β → σ)
    (hput : ∀ r s b s', Inv r → item s = .ok (b, s') → Inv (put r b)) :
    Keeps Inv fun r s => (item s).map fun p => (put r p.1, p.2) := by
  intro r s r' s' hr h
  obtain ⟨⟨b, s₁⟩, hread, h⟩ := map_eq_ok.mp h
  cases h
  exact hput r s b s₁ hr hread

theorem eachMember_keeps {step : σ → Decoder σ} (hstep : Keeps Inv step) {fuel : Nat}
    {first : Bool} (hr : Inv r) (h : eachMember step fuel first r s = .ok (r', s')) : Inv r' := by
  induction fuel generalizing first r s with
  | zero => cases h
  | succ fuel ih =>
      obtain ⟨key, -, h⟩ := bind_eq_ok.mp h
      cases key with
      | none =>
          cases h
          exact hr
      | some key =>
          obtain ⟨⟨r₁, s₁⟩, hread, h⟩ := bind_eq_ok.mp h
          exact ih (hstep _ _ _ _ hr hread) h

theorem fieldStep_keeps (hfields : ∀ field ∈ fields, Keeps Inv field.read) :
    Keeps Inv (fieldStep fields) := by
  intro r s r' s' hr h
  obtain ⟨⟨key, s₁⟩, -, h⟩ := bind_eq_ok.mp h
  dsimp only at h
  split at h
  · obtain ⟨s₂, -, h⟩ := bind_eq_ok.mp h
    obtain ⟨⟨_, s₃⟩, -, h⟩ := bind_eq_ok.mp h
    cases h
    exact hr
  · rename_i field hfind
    split at h
    · cases h
    · obtain ⟨s₂, -, h⟩ := bind_eq_ok.mp h
      exact hfields field (List.mem_of_find?_eq_some hfind) _ _ _ _ hr h

theorem fieldsInOrder_keeps (hfields : ∀ field ∈ fields, Keeps Inv field.read) {first : Bool}
    (hr : Inv r) (h : fieldsInOrder fields first r s = .ok (r', s')) : Inv r' := by
  induction fields generalizing first r s with
  | nil =>
      obtain ⟨s₁, -, h⟩ := map_eq_ok.mp h
      cases h
      exact hr
  | cons field fields ih =>
      obtain ⟨hfield, hfields⟩ := List.forall_mem_cons.mp hfields
      obtain ⟨next, -, h⟩ := bind_eq_ok.mp h
      cases next with
      | none => cases h
      | some s₁ =>
          obtain ⟨⟨r₁, s₂⟩, hread, h⟩ := bind_eq_ok.mp h
          exact ih hfields (hfield _ _ _ _ hr hread) h

/-- **What every field keeps holds of the record that is finished.** -/
theorem record_keeps (Inv : σ → Prop) {Good : α → Prop} {empty : σ} {finish : σ → Option α} {a : α}
    (hfields : ∀ field ∈ fields, Keeps Inv field.read) (hempty : Inv empty)
    (hfinish : ∀ r a, Inv r → finish r = some a → Good a)
    (h : record fields empty finish s = .ok (a, s')) : Good a := by
  unfold record at h
  split at h
  · cases h
  · split at h
    · obtain ⟨⟨r, s₁⟩, hread, h⟩ := bind_eq_ok.mp h
      have hr : Inv r := fieldsInOrder_keeps hfields hempty hread
      dsimp only at h
      split at h
      · rename_i hsome
        cases h
        exact hfinish r a hr hsome
      · cases h
    · split at h
      · obtain ⟨⟨r, s₁⟩, hread, h⟩ := bind_eq_ok.mp h
        rw [fieldsByKey_eq] at hread
        have hr : Inv r := eachMember_keeps (fieldStep_keeps hfields) hempty hread
        dsimp only at h
        split at h
        · rename_i hsome
          obtain ⟨s₂, -, h⟩ := bind_eq_ok.mp h
          cases h
          exact hfinish r a hr hsome
        · cases h
      · cases h

end Keeps

/-- Only a number below the bound is read. -/
theorem lt_of_natural {bound n : Nat} {s s' : List Char} (h : natural bound s = .ok (n, s')) :
    n < bound := by
  unfold natural at h
  split at h
  · cases h
  · split at h
    · obtain ⟨⟨n?, s₁⟩, -, h⟩ := bind_eq_ok.mp h
      split at h
      · split at h
        · cases h
          assumption
        · cases h
      · cases h
    · cases h

end TensorText.Json

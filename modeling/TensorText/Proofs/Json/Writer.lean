/-
JSON as it is written by this program.

Whatever is written is spelt by the grammar: a text is escaped one character at a time, and each
piece is one that stands for its character; a number has no zero in front, because the digits of a
number other than zero do not begin with one.  Where the point of a decimal falls decides what it
looks like, never what it is: zeros behind the digits are made up for by the power of ten, and
zeros in front of them say nothing.
-/
import TensorText.Json.Value
import TensorText.Proofs.Json.Grammar

namespace TensorText

namespace Json

/-! ### Texts -/

theorem hexDigit?_digitChar {n : Nat} (h : n < 16) : hexDigit? (Nat.digitChar n) = some n := by
  revert n
  decide

/-- Every character is written as one of its forms. -/
theorem isCharacter_escaped (c : Char) : IsCharacter (escaped c) c := by
  unfold escaped
  split_ifs with hquote hbackslash hb hf hn hr ht hcontrol
  · exact .letter (by rw [hquote]; decide)
  · exact .letter (by rw [hbackslash]; decide)
  · exact .letter (by rw [hb]; decide)
  · exact .letter (by rw [hf]; decide)
  · exact .letter (by rw [hn]; decide)
  · exact .letter (by rw [hr]; decide)
  · exact .letter (by rw [ht]; decide)
  · have hcode : IsCode ['0', '0', Nat.digitChar (c.toNat / 16), Nat.digitChar (c.toNat % 16)]
        (((0 * 16 + 0) * 16 + c.toNat / 16) * 16 + c.toNat % 16) :=
      .mk (by decide) (by decide) (hexDigit?_digitChar (by omega)) (hexDigit?_digitChar (by omega))
    have hvalue : ((0 * 16 + 0) * 16 + c.toNat / 16) * 16 + c.toNat % 16 = c.toNat := by omega
    rw [hvalue] at hcode
    exact .code hcode
  · exact .plain (by omega) hquote hbackslash

theorem isBody_escaped (cs : List Char) : IsBody (cs.flatMap escaped) cs := by
  induction cs with
  | nil => exact .nil
  | cons c cs ih =>
      rw [List.flatMap_cons]
      exact .cons (isCharacter_escaped c) ih

/-- **Any text is written as a text.** -/
theorem spells_text (s : String) : Spells (Value.text s).write (.text s) := by
  rw [Value.write, quote]
  exact .text (isBody_escaped s.toList)

/-! ### Digits -/

theorem isDigits_digits (n : Nat) : IsDigits (digits n) := isDigits_toDigits n

theorem ofDigits_digits (n : Nat) : Decimal.ofDigits (digits n) = n := ofDigits_toDigits n

/-- Only zero begins with a zero. -/
theorem isWhole_digits (n : Nat) : IsWhole (digits n) := by
  refine ⟨isDigits_digits n, ?_⟩
  induction n using Nat.strongRecOn with
  | _ n ih =>
      intro rest hrest
      rcases Nat.lt_or_ge n 10 with hlt | hge
      · rw [digits, Nat.toDigits_of_lt_base hlt] at hrest
        exact (List.cons.inj hrest).2.symm
      · rw [digits, Nat.toDigits_of_base_le (by decide) hge] at hrest
        obtain ⟨d, ds, hds⟩ := List.exists_cons_of_ne_nil (isDigits_digits (n / 10)).ne_nil
        have hzero : digits (n / 10) = ['0'] := by
          rw [digits] at hds
          rw [hds, List.cons_append] at hrest
          cases hrest
          rw [digits, hds, ih (n / 10) (by omega) ds hds]
        have hvalue := ofDigits_digits (n / 10)
        rw [hzero] at hvalue
        have : Decimal.ofDigits ['0'] = 0 := by decide
        omega

theorem digit_of_mem_digits {n : Nat} : ∀ c ∈ digits n, c.isDigit = true :=
  (isDigits_digits n).digit

/-- The digits of a number other than zero do not begin with a zero. -/
theorem exists_digits {n : Nat} (h : n ≠ 0) : ∃ c ds, digits n = c :: ds ∧ c ≠ '0' := by
  obtain ⟨c, ds, hds⟩ := List.exists_cons_of_ne_nil (isDigits_digits n).ne_nil
  refine ⟨c, ds, hds, ?_⟩
  rintro rfl
  have hvalue := ofDigits_digits n
  rw [hds, (isWhole_digits n).no_zero ds hds] at hvalue
  exact h (by rw [← hvalue]; decide)

theorem isWhole_cons {c : Char} {ds : List Char} (hc : c ≠ '0')
    (hds : ∀ d ∈ c :: ds, d.isDigit = true) : IsWhole (c :: ds) :=
  ⟨⟨List.cons_ne_nil c ds, hds⟩, fun _ h => absurd (List.cons.inj h).1 hc⟩

theorem isWhole_zero : IsWhole ['0'] :=
  ⟨⟨List.cons_ne_nil _ _, by simp⟩, fun _ h => (List.cons.inj h).2.symm⟩

theorem ofDigits_append_zeros (ds : List Char) (k : Nat) :
    Decimal.ofDigits (ds ++ List.replicate k '0') = Decimal.ofDigits ds * 10 ^ k := by
  rw [ofDigits_eq, Nat.ofDigitChars_append, Nat.ofDigitChars_replicate_zero, Nat.mul_comm]
  rfl

theorem ofDigits_zeros_append (ds : List Char) (k : Nat) :
    Decimal.ofDigits (List.replicate k '0' ++ ds) = Decimal.ofDigits ds := by
  rw [ofDigits_eq, Nat.ofDigitChars_append, Nat.ofDigitChars_replicate_zero, Nat.mul_zero]
  rfl

/-! ### Whole numbers -/

/-- The number is a whole number, and written as one. -/
structure Numeral.IsInteger (x : Numeral) (n : Int) : Prop where
  no_fraction : x.fraction = none
  no_exponent : x.exponent = none
  value : signed x.negative (Decimal.ofDigits x.whole) = n

/-- **A whole number is written as a whole number.** -/
theorem spells_whole (n : Int) :
    ∃ x : Numeral, Spells (Value.whole n).write (.number x) ∧ x.IsInteger n := by
  have hspelt : Numeral.IsSpelt (minus (decide (n < 0)) ++ (digits n.natAbs ++ ([] ++ [])))
      ⟨decide (n < 0), digits n.natAbs, none, none⟩ := .mk (isWhole_digits n.natAbs) .none .none
  have htext : writeWhole n = minus (decide (n < 0)) ++ (digits n.natAbs ++ ([] ++ [])) := by
    simp only [writeWhole, minus, List.append_nil, decide_eq_true_eq]
    split_ifs <;> rfl
  refine ⟨⟨decide (n < 0), digits n.natAbs, none, none⟩, .number ?_, rfl, rfl, ?_⟩
  · rw [Value.write, htext]
    exact hspelt
  · simp only [ofDigits_digits, signed, decide_eq_true_eq]
    split_ifs <;> omega

/-! ### Decimals -/

/-- The decimal that is written, digit by digit. -/
def Numeral.toDecimal (x : Numeral) : Decimal :=
  ⟨x.negative, Decimal.ofDigits (x.whole ++ x.fraction.getD []),
    x.exponent.getD 0 - (x.fraction.getD []).length⟩

/-- The number is the decimal, with the sign of zero as well. -/
structure Numeral.IsDecimal (x : Numeral) (d : Decimal) : Prop where
  sign : x.negative = d.negative
  value : x.toDecimal.magnitude = d.magnitude

/-- Behind the sign of the decimal, the text is the decimal. -/
def Writes (text : List Char) (d : Decimal) : Prop :=
  ∃ x : Numeral, x.IsSpelt (minus d.negative ++ text) ∧ x.IsDecimal d

variable (negative : Bool) {c : Char} {ds : List Char}

/-- A decimal whose digits are parted by its point. -/
theorem writes_pointed {whole part : List Char} (hwhole : IsWhole whole) (hpart : IsDigits part) :
    Writes (whole ++ '.' :: part)
      ⟨negative, Decimal.ofDigits (whole ++ part), -(part.length : Int)⟩ := by
  refine ⟨⟨negative, whole, some part, none⟩, ?_, rfl, ?_⟩
  · have hspelt : Numeral.IsSpelt (minus negative ++ (whole ++ ('.' :: part ++ [])))
        ⟨negative, whole, some part, none⟩ := .mk hwhole (.some hpart) .none
    rwa [List.append_nil] at hspelt
  · simp only [Numeral.toDecimal, Option.getD_some, Option.getD_none, Int.zero_sub]

theorem digit_of_mem_zeros {k : Nat} : ∀ d ∈ List.replicate k '0', d.isDigit = true := by
  intro d hd
  rw [List.eq_of_mem_replicate hd]
  decide

/-- Zeros between the point and the digits say where the digits begin. -/
theorem writes_zeros_digits (hds : IsDigits ds) (k : Nat) :
    Writes ('0' :: '.' :: (List.replicate k '0' ++ ds))
      ⟨negative, Decimal.ofDigits ds, -((k + ds.length : Nat) : Int)⟩ := by
  have hpart : IsDigits (List.replicate k '0' ++ ds) :=
    ⟨List.append_ne_nil_of_right_ne_nil _ hds.ne_nil,
      List.forall_mem_append.mpr ⟨digit_of_mem_zeros, hds.digit⟩⟩
  have hdigits :
      Decimal.ofDigits (['0'] ++ (List.replicate k '0' ++ ds)) = Decimal.ofDigits ds := by
    rw [← List.append_assoc]
    exact ofDigits_zeros_append ds (k + 1)
  have hwrites := writes_pointed negative isWhole_zero hpart
  rw [hdigits, List.length_append, List.length_replicate] at hwrites
  exact hwrites

/-- Zeros between the digits and the point say how large they are. -/
theorem writes_digits_zeros (hc : c ≠ '0') (hds : ∀ d ∈ c :: ds, d.isDigit = true) (k : Nat) :
    Writes (c :: ds ++ List.replicate k '0' ++ ['.', '0'])
      ⟨negative, Decimal.ofDigits (c :: ds), k⟩ := by
  have hwhole : IsWhole (c :: ds ++ List.replicate k '0') :=
    isWhole_cons hc (List.forall_mem_append.mpr ⟨hds, digit_of_mem_zeros⟩)
  have hdigits : Decimal.ofDigits (c :: ds ++ List.replicate k '0' ++ ['0']) =
      Decimal.ofDigits (c :: ds) * 10 ^ (k + 1) := by
    rw [List.append_assoc, ← List.replicate_succ', ofDigits_append_zeros]
  have hexponent : -((['0'] : List Char).length : Int) = k - (k + 1 : Nat) := by
    rw [List.length_singleton]
    omega
  obtain ⟨x, hspelt, hsign, hvalue⟩ := writes_pointed negative hwhole isWhole_zero.toIsDigits
  refine ⟨x, hspelt, hsign, hvalue.trans ?_⟩
  rw [hdigits, hexponent, Decimal.magnitude_shift]

/-- The digits behind the point say what they are fractions of. -/
theorem writes_parted_digits (hc : c ≠ '0') (hds : ∀ d ∈ c :: ds, d.isDigit = true) {n : Nat}
    (hpos : 0 < n) (hlt : n < (c :: ds).length) :
    Writes ((c :: ds).take n ++ '.' :: (c :: ds).drop n)
      ⟨negative, Decimal.ofDigits (c :: ds), n - (c :: ds).length⟩ := by
  have htake : ∀ d ∈ (c :: ds).take n, d.isDigit = true :=
    fun d hd => hds d (List.mem_of_mem_take hd)
  have hwhole : IsWhole ((c :: ds).take n) := by
    obtain ⟨n, rfl⟩ : ∃ m, n = m + 1 := ⟨n - 1, by omega⟩
    rw [List.take_succ_cons] at htake ⊢
    exact isWhole_cons hc htake
  have hpart : IsDigits ((c :: ds).drop n) := by
    refine ⟨?_, fun d hd => hds d (List.mem_of_mem_drop hd)⟩
    rw [Ne, List.drop_eq_nil_iff]
    omega
  have hexponent : -(((c :: ds).drop n).length : Int) = n - (c :: ds).length := by
    rw [List.length_drop]
    omega
  have hwrites := writes_pointed negative hwhole hpart
  rw [List.take_append_drop, hexponent] at hwrites
  exact hwrites

theorem writes_positional (hc : c ≠ '0') (hds : ∀ d ∈ c :: ds, d.isDigit = true) (point : Int) :
    Writes (writePositional (c :: ds) point)
      ⟨negative, Decimal.ofDigits (c :: ds), point - (c :: ds).length⟩ := by
  unfold writePositional
  split_ifs with hlow hhigh
  · have hwrites := writes_zeros_digits negative (isWhole_cons hc hds).toIsDigits (-point).toNat
    rwa [show (-(((-point).toNat + (c :: ds).length : Nat) : Int)) = point - (c :: ds).length by
      omega] at hwrites
  · have hwrites := writes_digits_zeros negative hc hds (point.toNat - (c :: ds).length)
    rwa [show ((point.toNat - (c :: ds).length : Nat) : Int) = point - (c :: ds).length by
      omega] at hwrites
  · have hwrites := writes_parted_digits negative hc hds (n := point.toNat) (by omega) (by omega)
    rw [show (point.toNat : Int) = point by omega] at hwrites
    simpa using hwrites

theorem writes_scientific (hc : c ≠ '0') (hds : ∀ d ∈ c :: ds, d.isDigit = true) (e : Int) :
    Writes (writeScientific (c :: ds) e)
      ⟨negative, Decimal.ofDigits (c :: ds), e - ds.length⟩ := by
  have hdigit : IsWhole [c] := isWhole_cons hc (by simpa using hds c List.mem_cons_self)
  have hpower : IsPower ('e' :: (if e < 0 then '-' else '+') :: digits e.natAbs) (some e) := by
    rcases lt_or_ge e 0 with he | he
    · have hmarked := Literal.IsExponent.marked (Or.inl rfl) .minus (isDigits_digits e.natAbs)
      have hvalue : signed true (Decimal.ofDigits (digits e.natAbs)) = e := by
        rw [ofDigits_digits, signed_true]
        omega
      rw [hvalue] at hmarked
      rw [if_pos he]
      exact .some hmarked
    · have hmarked := Literal.IsExponent.marked (Or.inl rfl) .plus (isDigits_digits e.natAbs)
      have hvalue : signed false (Decimal.ofDigits (digits e.natAbs)) = e := by
        rw [ofDigits_digits, signed_false]
        omega
      rw [hvalue] at hmarked
      rw [if_neg (by omega)]
      exact .some hmarked
  cases ds with
  | nil =>
      refine ⟨⟨negative, [c], none, some e⟩, .mk hdigit .none hpower, rfl, ?_⟩
      simp [Numeral.toDecimal]
  | cons d ds =>
      have hpart : IsDigits (d :: ds) :=
        ⟨List.cons_ne_nil d ds, fun x hx => hds x (List.mem_cons_of_mem c hx)⟩
      refine ⟨⟨negative, [c], some (d :: ds), some e⟩, .mk hdigit (.some hpart) hpower, rfl, ?_⟩
      simp [Numeral.toDecimal]

theorem writeDecimal_eq (d : Decimal) : writeDecimal d = minus d.negative ++
    if d.digits = 0 then ['0', '.', '0']
    else if -5 < (digits d.digits).length + d.exponent ∧
        (digits d.digits).length + d.exponent ≤ 16 then
      writePositional (digits d.digits) ((digits d.digits).length + d.exponent)
    else writeScientific (digits d.digits) ((digits d.digits).length + d.exponent - 1) := by
  unfold writeDecimal minus
  cases d.negative <;> rfl

/-- **A decimal is written as the number that it is**, whichever notation it takes. -/
theorem spells_decimal (d : Decimal) :
    ∃ x : Numeral, Spells (Value.decimal d).write (.number x) ∧ x.IsDecimal d := by
  suffices h : ∃ text, writeDecimal d = minus d.negative ++ text ∧ Writes text d by
    obtain ⟨text, htext, x, hspelt, hx⟩ := h
    rw [Value.write, htext]
    exact ⟨x, .number hspelt, hx⟩
  refine ⟨_, writeDecimal_eq d, ?_⟩
  obtain ⟨negative, n, e⟩ := d
  dsimp only
  split_ifs with hzero hpoint
  · obtain ⟨x, hspelt, hsign, hvalue⟩ := writes_pointed negative isWhole_zero
      isWhole_zero.toIsDigits
    have hdigits : Decimal.ofDigits (['0'] ++ ['0']) = 0 := by decide
    refine ⟨x, hspelt, hsign, hvalue.trans ?_⟩
    rw [hdigits, hzero, Decimal.magnitude_zero, Decimal.magnitude_zero]
  · obtain ⟨c, ds, hds, hc⟩ := exists_digits hzero
    have hdigit := digit_of_mem_digits (n := n)
    have hwrites := writes_positional negative hc (hds ▸ hdigit)
      ((digits n).length + e)
    rw [← hds, ofDigits_digits] at hwrites
    rwa [show ((digits n).length + e - (digits n).length : Int) = e by omega] at hwrites
  · obtain ⟨c, ds, hds, hc⟩ := exists_digits hzero
    have hdigit := digit_of_mem_digits (n := n)
    have hwrites := writes_scientific negative hc (hds ▸ hdigit)
      ((digits n).length + e - 1)
    have hlength : ((digits n).length : Int) = ds.length + 1 := by
      rw [hds]
      simp
    rw [← hds, ofDigits_digits] at hwrites
    rwa [show ((digits n).length + e - 1 - ds.length : Int) = e by omega] at hwrites

/-! ### Arrays and objects -/

section Parts

variable {α : Type} {P : List Char → α → Prop} {cs rest : List Char} {a : α} {as : List α}

theorem Parted.single (h : P cs a) : Parted P cs [a] := by
  have hone := Parted.one isSpaces_nil h isSpaces_nil
  rwa [List.nil_append, List.append_nil] at hone

theorem Parted.comma (h : P cs a) (hrest : Parted P rest as) :
    Parted P (cs ++ ',' :: rest) (a :: as) := by
  have hcons := Parted.cons isSpaces_nil h isSpaces_nil hrest
  rwa [List.nil_append, List.nil_append] at hcons

theorem parted_writeItems {vs : List Value} (hne : vs ≠ [])
    (h : List.Forall₂ (fun v a => P v.write a) vs as) : Parted P (writeItems vs) as := by
  induction h with
  | nil => exact absurd rfl hne
  | @cons v a vs as hv hvs ih =>
      cases hvs with
      | nil => exact .single hv
      | cons hw hws => exact .comma hv (ih (List.cons_ne_nil _ _))

theorem member_write {key : String} {v : Value} (h : P v.write a) :
    Member P (quote key ++ ':' :: v.write) (key, a) := by
  have hmember := Member.mk (isBody_escaped key.toList) isSpaces_nil isSpaces_nil h
  rw [quote]
  simpa using hmember

theorem parted_writeMembers {members : List (String × Value)} {ms : List (String × α)}
    (hne : members ≠ [])
    (h : List.Forall₂ (fun m m' => Member P (quote m.1 ++ ':' :: m.2.write) m') members ms) :
    Parted (Member P) (writeMembers members) ms := by
  induction h with
  | nil => exact absurd rfl hne
  | @cons m m' members ms hm hms ih =>
      cases hms with
      | nil => exact .single hm
      | cons hw hws => exact .comma hm (ih (List.cons_ne_nil _ _))

end Parts

/-- **An array of what is spelt is spelt**, whatever is in it and however much. -/
theorem spells_array {vs : List Value} {ts : List Tree}
    (h : List.Forall₂ (fun v t => Spells v.write t) vs ts) :
    Spells (Value.array vs).write (.array ts) := by
  rw [Value.write]
  cases h with
  | nil => exact .noItems isSpaces_nil
  | cons hv hvs => exact .items (parted_writeItems (List.cons_ne_nil _ _) (.cons hv hvs))

/-- The value of a member is spelt, and its key is as it is. -/
inductive SpellsMember : String × Value → String × Tree → Prop
  | mk {key : String} {v : Value} {t : Tree} (h : Spells v.write t) : SpellsMember (key, v) (key, t)

theorem SpellsMember.member {m : String × Value} {m' : String × Tree} (h : SpellsMember m m') :
    Member Spells (quote m.1 ++ ':' :: m.2.write) m' := by
  cases h with
  | mk h => exact member_write h

/-- **An object of what is spelt is spelt**, whatever its keys are. -/
theorem spells_object {members : List (String × Value)} {ms : List (String × Tree)}
    (h : List.Forall₂ SpellsMember members ms) :
    Spells (Value.object members).write (.object ms) := by
  rw [Value.write]
  cases h with
  | nil => exact .noMembers isSpaces_nil
  | cons hm hms =>
      refine .members (parted_writeMembers (List.cons_ne_nil _ _) (.cons hm.member ?_))
      exact hms.imp fun _ _ h => h.member

end Json

end TensorText

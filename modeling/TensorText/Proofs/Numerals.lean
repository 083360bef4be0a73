/-
Numbers as they are written.

`Spells` says what a text has to look like to be a whole number or a literal, and which one it
is, without saying how it is read.  A reader accepts exactly what is spelt: read from left to
right, a run of digits stands for the number that it stands for as a whole, and one digit more
never makes it smaller, so that a number within the bounds is within them at every digit.

The parts of a literal can be told apart by the characters they begin with: neither the point
nor the mark of an exponent is a digit, and no word begins like a decimal.
-/
import Mathlib
import TensorText.Decimal.Integer
import TensorText.Decimal.Literal
import TensorText.Proofs.Scan
import TensorText.Text.Blank

namespace TensorText

open Grammar

/-! ### Digits and signs -/

/-- At least one digit and nothing else. -/
structure IsDigits (ds : List Char) : Prop where
  ne_nil : ds ≠ []
  digit : ∀ c ∈ ds, c.isDigit = true

/-- A sign in front of a number, of which none at all counts as plus. -/
inductive IsSign : Bool → List Char → Prop
  | none : IsSign false []
  | plus : IsSign false ['+']
  | minus : IsSign true ['-']

/-- The whole number with the given sign and magnitude. -/
def signed (negative : Bool) (n : Nat) : Int := if negative then -n else n

@[simp] theorem signed_false (n : Nat) : signed false n = n := rfl

@[simp] theorem signed_true (n : Nat) : signed true n = -n := rfl

theorem isDigits_toDigits (n : Nat) : IsDigits (Nat.toDigits 10 n) :=
  ⟨Nat.toDigits_ne_nil, fun _ hc => Nat.isDigit_of_mem_toDigits (by decide) (by decide) hc⟩

theorem ofDigits_eq (ds : List Char) : Decimal.ofDigits ds = Nat.ofDigitChars 10 ds 0 := rfl

/-- Digits that were written for a number spell it. -/
theorem ofDigits_toDigits (n : Nat) : Decimal.ofDigits (Nat.toDigits 10 n) = n :=
  Nat.ofDigitChars_ten_toDigits

theorem not_isAlpha_of_isDigit {c : Char} (h : c.isDigit = true) : c.isAlpha = false := by
  simp only [Char.isDigit, Char.isAlpha, Char.isUpper, Char.isLower, Bool.and_eq_true,
    Bool.or_eq_false_iff, Bool.and_eq_false_iff, decide_eq_true_eq, decide_eq_false_iff_not,
    ge_iff_le, UInt32.le_iff_toNat_le, Char.reduceVal, UInt32.reduceToNat] at h ⊢
  omega

/-- The sign of a text and what stands behind it. -/
def splitSign : List Char → Bool × List Char
  | '-' :: cs => (true, cs)
  | '+' :: cs => (false, cs)
  | cs => (false, cs)

theorem exists_sign (cs : List Char) :
    ∃ sign, IsSign (splitSign cs).1 sign ∧ cs = sign ++ (splitSign cs).2 := by
  unfold splitSign
  split
  · exact ⟨_, .minus, rfl⟩
  · exact ⟨_, .plus, rfl⟩
  · exact ⟨_, .none, rfl⟩

/-- A sign is told from what stands behind it, unless that begins with a sign too. -/
theorem splitSign_append {negative : Bool} {sign cs : List Char} (hsign : IsSign negative sign)
    (hcs : Halts (fun c => c = '-' ∨ c = '+') cs) : splitSign (sign ++ cs) = (negative, cs) := by
  cases hsign with
  | minus => rfl
  | plus => rfl
  | none =>
      rw [List.nil_append]
      unfold splitSign
      split
      · exact absurd (Or.inl rfl) (halts_cons.mp hcs)
      · exact absurd (Or.inr rfl) (halts_cons.mp hcs)
      · rfl

theorem IsDigits.halts_sign {ds : List Char} (h : IsDigits ds) :
    Halts (fun c => c = '-' ∨ c = '+') ds := by
  intro c hc hsign
  have hdigit := h.digit c (List.mem_of_mem_head? hc)
  rcases hsign with rfl | rfl
  · exact absurd hdigit (by decide)
  · exact absurd hdigit (by decide)

/-- Digits do not begin with a sign, whatever stands behind them. -/
theorem IsDigits.halts_sign_append {ds : List Char} (h : IsDigits ds) (rest : List Char) :
    Halts (fun c => c = '-' ∨ c = '+') (ds ++ rest) := by
  intro c hc
  refine h.halts_sign c ?_
  obtain ⟨d, ds, rfl⟩ := List.exists_cons_of_ne_nil h.ne_nil
  exact hc

/-- What a number can be written with. -/
def IsNumberChar (c : Char) : Prop := c.isAlphanum = true ∨ c = '+' ∨ c = '-' ∨ c = '.'

instance (c : Char) : Decidable (IsNumberChar c) := inferInstanceAs (Decidable (_ ∨ _))

theorem IsNumberChar.of_isDigit {c : Char} (h : c.isDigit = true) : IsNumberChar c := by
  rw [IsNumberChar, Char.isAlphanum, h, Bool.or_true]
  exact Or.inl rfl

theorem IsNumberChar.of_isAlpha {c : Char} (h : c.isAlpha = true) : IsNumberChar c := by
  rw [IsNumberChar, Char.isAlphanum, h, Bool.true_or]
  exact Or.inl rfl

theorem IsNumberChar.toNat_cases {c : Char} (h : IsNumberChar c) :
    (48 ≤ c.toNat ∧ c.toNat ≤ 57) ∨ (65 ≤ c.toNat ∧ c.toNat ≤ 90) ∨
      (97 ≤ c.toNat ∧ c.toNat ≤ 122) ∨ c.toNat = 43 ∨ c.toNat = 45 ∨ c.toNat = 46 := by
  rcases h with h | rfl | rfl | rfl
  · simp only [Char.isAlphanum, Char.isAlpha, Char.isUpper, Char.isLower, Char.isDigit,
      Bool.or_eq_true, Bool.and_eq_true, decide_eq_true_eq, ge_iff_le, UInt32.le_iff_toNat_le,
      Char.reduceVal, UInt32.reduceToNat] at h
    have htoNat : c.toNat = c.val.toNat := rfl
    omega
  · decide
  · decide
  · decide

/-- There is no white space in a number. -/
theorem IsNumberChar.not_isBlank {c : Char} (h : IsNumberChar c) : Text.isBlank c = false := by
  have hcases := h.toNat_cases
  simp only [Text.isBlank, Bool.or_eq_false_iff, Bool.and_eq_false_iff, beq_eq_false_iff_ne,
    decide_eq_false_iff_not, ne_eq]
  omega

theorem IsSign.chars {negative : Bool} {sign : List Char} (h : IsSign negative sign) :
    ∀ c ∈ sign, IsNumberChar c := by
  cases h with
  | none => simp
  | plus => simp [IsNumberChar]
  | minus => simp [IsNumberChar]

theorem IsDigits.chars {ds : List Char} (h : IsDigits ds) : ∀ c ∈ ds, IsNumberChar c :=
  fun c hc => .of_isDigit (h.digit c hc)

/-! ### Whole numbers of 64 bits -/

namespace Integer

/-- The text spells the number: possibly a sign, and digits. -/
inductive Spells : List Char → Int → Prop
  | digits {negative : Bool} {sign ds : List Char} (hsign : IsSign negative sign)
      (hds : IsDigits ds) : Spells (sign ++ ds) (signed negative (Decimal.ofDigits ds))

/-- One digit more never makes a number smaller. -/
theorem le_ofDigitChars (n : Nat) (ds : List Char) : n ≤ Nat.ofDigitChars 10 ds n := by
  induction ds generalizing n with
  | nil => exact Nat.le_refl n
  | cons c ds ih =>
      rw [Nat.ofDigitChars_cons]
      exact Nat.le_trans (by omega) (ih _)

theorem readDigits_eq_ok_iff {limit n m : Nat} {tooFar : Fault} (hn : n ≤ limit)
    {cs : List Char} : readDigits limit tooFar n cs = .ok m ↔
      (∀ c ∈ cs, c.isDigit = true) ∧ Nat.ofDigitChars 10 cs n = m ∧ m ≤ limit := by
  induction cs generalizing n with
  | nil =>
      simp only [readDigits, Except.ok.injEq, List.not_mem_nil, false_imp_iff, implies_true,
        Nat.ofDigitChars_nil, true_and]
      constructor
      · rintro rfl
        exact ⟨rfl, hn⟩
      · exact And.left
  | cons c cs ih =>
      have hdigit : '0'.toNat = 48 := rfl
      rw [readDigits, List.forall_mem_cons, Nat.ofDigitChars_cons, hdigit]
      by_cases hc : c.isDigit = true
      · rw [if_pos hc]
        by_cases hle : 10 * n + (c.toNat - 48) ≤ limit
        · rw [if_pos hle, ih hle]
          simp [hc]
        · rw [if_neg hle]
          constructor
          · intro h
            cases h
          · rintro ⟨-, rfl, hm⟩
            exact absurd (Nat.le_trans (le_ofDigitChars _ cs) hm) hle
      · rw [if_neg hc]
        constructor
        · intro h
          cases h
        · rintro ⟨⟨hdigit, -⟩, -⟩
          exact absurd hdigit hc

theorem readMagnitude_eq_ok_iff {limit m : Nat} {tooFar : Fault} {cs : List Char} :
    readMagnitude limit tooFar cs = .ok m ↔
      IsDigits cs ∧ Decimal.ofDigits cs = m ∧ m ≤ limit := by
  unfold readMagnitude
  split
  · rename_i hnil
    constructor
    · intro h
      cases h
    · rintro ⟨h, -⟩
      exact absurd hnil h.ne_nil
  · rename_i hne
    rw [readDigits_eq_ok_iff (Nat.zero_le _), ofDigits_eq]
    constructor
    · rintro ⟨hdigit, h⟩
      exact ⟨⟨hne, hdigit⟩, h⟩
    · rintro ⟨h, hm⟩
      exact ⟨h.digit, hm⟩

/-- What is read behind a sign. -/
def readSigned (negative : Bool) (cs : List Char) : Except Fault Int64 :=
  if negative then readMagnitude (Nat.pow 2 63) .tooSmall cs >>= fun n => .ok (Int64.ofInt (-n))
  else readMagnitude (Nat.pow 2 63 - 1) .tooLarge cs >>= fun n => .ok (Int64.ofNat n)

theorem read_eq {cs : List Char} (h : cs ≠ []) :
    read cs = readSigned (splitSign cs).1 (splitSign cs).2 := by
  fun_cases splitSign cs with
  | case1 cs => rfl
  | case2 cs => rfl
  | case3 cs hminus hplus =>
      unfold read
      split
      · exact absurd rfl h
      · exact absurd rfl (hminus _)
      · exact absurd rfl (hplus _)
      · rfl

theorem readSigned_eq_ok_iff {negative : Bool} {cs : List Char} {d : Int64} :
    readSigned negative cs = .ok d ↔
      IsDigits cs ∧ signed negative (Decimal.ofDigits cs) = d.toInt := by
  have hpow : Nat.pow 2 63 = 2 ^ 63 := rfl
  have hge := d.le_toInt
  have hlt := d.toInt_lt
  cases negative with
  | true =>
      simp only [readSigned, if_true, bind_eq_ok, readMagnitude_eq_ok_iff, Except.ok.injEq, hpow,
        signed_true]
      constructor
      · rintro ⟨n, ⟨hcs, rfl, hle⟩, rfl⟩
        exact ⟨hcs, (Int64.toInt_ofInt_of_le (by omega) (by omega)).symm⟩
      · rintro ⟨hcs, hd⟩
        refine ⟨_, ⟨hcs, rfl, by omega⟩, ?_⟩
        rw [hd, Int64.ofInt_toInt]
  | false =>
      simp only [readSigned, if_false, Bool.false_eq_true, bind_eq_ok, readMagnitude_eq_ok_iff,
        Except.ok.injEq, hpow, signed_false]
      constructor
      · rintro ⟨n, ⟨hcs, rfl, hle⟩, rfl⟩
        exact ⟨hcs, (Int64.toInt_ofNat_of_lt (by omega)).symm⟩
      · rintro ⟨hcs, hd⟩
        refine ⟨_, ⟨hcs, rfl, by omega⟩, ?_⟩
        rw [← Int64.toInt_inj, Int64.toInt_ofNat_of_lt (by omega), hd]

/-- **A text is read as the number of 64 bits that it spells.** -/
theorem read_eq_ok_iff {cs : List Char} {d : Int64} :
    read cs = .ok d ↔ Spells cs d.toInt := by
  constructor
  · intro h
    have hne : cs ≠ [] := by
      rintro rfl
      cases h
    rw [read_eq hne] at h
    obtain ⟨hds, hd⟩ := readSigned_eq_ok_iff.mp h
    obtain ⟨sign, hsign, hcs⟩ := exists_sign cs
    rw [← hd]
    have hspells := Spells.digits hsign hds
    rwa [← hcs] at hspells
  · intro h
    generalize hn : d.toInt = n at h
    cases h with
    | digits hsign hds =>
        rw [read_eq (List.append_ne_nil_of_right_ne_nil _ hds.ne_nil),
          splitSign_append hsign hds.halts_sign]
        exact readSigned_eq_ok_iff.mpr ⟨hds, hn.symm⟩

theorem Spells.chars {cs : List Char} {n : Int} (h : Spells cs n) : ∀ c ∈ cs, IsNumberChar c := by
  cases h with
  | digits hsign hds => exact List.forall_mem_append.mpr ⟨hsign.chars, hds.chars⟩

theorem Spells.ne_nil {cs : List Char} {n : Int} (h : Spells cs n) : cs ≠ [] := by
  cases h with
  | digits _ hds => exact List.append_ne_nil_of_right_ne_nil _ hds.ne_nil

/-- A whole number is spelt by what is written for it. -/
theorem spells_toString (n : Int) : Spells (toString n).toList n := by
  rw [Int.toString_eq_repr, Int.repr_eq_if]
  split
  · rename_i hn
    have h : Spells _ _ := .digits .none (isDigits_toDigits n.toNat)
    rw [ofDigits_toDigits, signed, Int.toNat_of_nonneg hn] at h
    simpa [Nat.toList_repr] using h
  · rename_i hn
    have h : Spells _ _ := .digits .minus (isDigits_toDigits (-n).toNat)
    have hneg : signed true (-n).toNat = n := by
      unfold signed
      simp only [if_true]
      omega
    rw [ofDigits_toDigits, hneg] at h
    simpa [Nat.toList_repr] using h

end Integer

/-! ### Literals -/

namespace Literal

/-- The digits of a decimal in front of its point and behind it.  With a point there may be
none on one side. -/
inductive IsMantissa : List Char → List Char → List Char → Prop
  | whole {ds : List Char} (hds : IsDigits ds) : IsMantissa ds [] ds
  | pointed {whole part : List Char} (hwhole : ∀ c ∈ whole, c.isDigit = true)
      (hpart : ∀ c ∈ part, c.isDigit = true) (h : ¬(whole = [] ∧ part = [])) :
      IsMantissa whole part (whole ++ '.' :: part)

/-- The power of ten behind a decimal, the zeroth if there is none. -/
inductive IsExponent : Int → List Char → Prop
  | none : IsExponent 0 []
  | marked {mark : Char} {negative : Bool} {sign ds : List Char}
      (hmark : mark = 'e' ∨ mark = 'E') (hsign : IsSign negative sign) (hds : IsDigits ds) :
      IsExponent (signed negative (Decimal.ofDigits ds)) (mark :: (sign ++ ds))

/-- The letters spell the word, whatever their case. -/
def IsWord (word : String) (cs : List Char) : Prop := String.ofList (cs.map Char.toLower) = word

/-- What a text without a sign spells. -/
inductive SpellsUnsigned (negative : Bool) : List Char → Literal → Prop
  | finite {whole part digits power : List Char} {e : Int}
      (hmantissa : IsMantissa whole part digits) (hpower : IsExponent e power) :
      SpellsUnsigned negative (digits ++ power)
        (.finite ⟨negative, Decimal.ofDigits (whole ++ part), e - part.length⟩)
  | infinite {cs : List Char} (h : IsWord "inf" cs ∨ IsWord "infinity" cs) :
      SpellsUnsigned negative cs (.infinite negative)
  | notANumber {cs : List Char} (h : IsWord "nan" cs) :
      SpellsUnsigned negative cs (.notANumber negative)

/-- The text spells the literal: possibly a sign, and then a decimal or a word. -/
inductive Spells : List Char → Literal → Prop
  | mk {negative : Bool} {sign cs : List Char} {l : Literal} (hsign : IsSign negative sign)
      (h : SpellsUnsigned negative cs l) : Spells (sign ++ cs) l

/-! #### Exponents -/

theorem exponent?_cons {mark : Char} (hmark : mark = 'e' ∨ mark = 'E') (cs : List Char) :
    exponent? (mark :: cs) =
      if (splitSign cs).2 ≠ [] ∧ (splitSign cs).2.all Char.isDigit then
        some (signed (splitSign cs).1 (Decimal.ofDigits (splitSign cs).2))
      else none := by
  simp only [exponent?, if_pos hmark]
  rfl

theorem exponent?_eq_some_iff {e : Int} {cs : List Char} :
    exponent? cs = some e ↔ IsExponent e cs := by
  constructor
  · intro h
    cases cs with
    | nil =>
        cases h
        exact .none
    | cons mark cs =>
        by_cases hmark : mark = 'e' ∨ mark = 'E'
        · rw [exponent?_cons hmark] at h
          obtain ⟨sign, hsign, hcs⟩ := exists_sign cs
          rw [hcs]
          split at h
          · rename_i hds
            cases h
            exact .marked hmark hsign ⟨hds.1, List.all_eq_true.mp hds.2⟩
          · cases h
        · simp only [exponent?, if_neg hmark] at h
          cases h
  · intro h
    cases h with
    | none => rfl
    | marked hmark hsign hds =>
        rw [exponent?_cons hmark, splitSign_append hsign hds.halts_sign,
          if_pos ⟨hds.ne_nil, List.all_eq_true.mpr hds.digit⟩]

theorem IsExponent.halts {e : Int} {power : List Char} (h : IsExponent e power) :
    Halts (fun c => c.isDigit = true ∨ c = '.') power := by
  cases h with
  | none => exact halts_nil _
  | marked hmark _ _ =>
      rw [halts_cons]
      rcases hmark with rfl | rfl
      · decide
      · decide

theorem IsExponent.chars {e : Int} {power : List Char} (h : IsExponent e power) :
    ∀ c ∈ power, IsNumberChar c := by
  cases h with
  | none => simp
  | marked hmark hsign hds =>
      refine List.forall_mem_cons.mpr ⟨?_, List.forall_mem_append.mpr ⟨hsign.chars, hds.chars⟩⟩
      rcases hmark with rfl | rfl
      · exact .of_isAlpha (by decide)
      · exact .of_isAlpha (by decide)

/-! #### Decimals -/

theorem fraction_of_halts {cs : List Char} (h : Halts (fun c => c.isDigit = true ∨ c = '.') cs) :
    fraction cs = ([], cs) := by
  unfold fraction
  split
  · exact absurd (Or.inr rfl) (halts_cons.mp h)
  · rfl

theorem decimal?_of_mantissa {negative : Bool} {whole part digits power : List Char} {e : Int}
    (hmantissa : IsMantissa whole part digits) (hpower : IsExponent e power) :
    decimal? negative (digits ++ power) =
      some ⟨negative, Decimal.ofDigits (whole ++ part), e - part.length⟩ := by
  have hhalts := hpower.halts
  have hdigits : Halts (fun c => c.isDigit = true) power :=
    fun c hc hdigit => hhalts c hc (Or.inl hdigit)
  have hexponent := exponent?_eq_some_iff.mpr hpower
  cases hmantissa with
  | whole hds =>
      simp only [decimal?, Scan.takeWhile_run hds.digit hdigits,
        Scan.dropWhile_run hds.digit hdigits, fraction_of_halts hhalts, hds.ne_nil, false_and,
        if_false, hexponent, Option.map_some, List.append_nil, List.length_nil]
  | pointed hwhole hpart h =>
      have hpoint : Halts (fun c => c.isDigit = true) ('.' :: (part ++ power)) :=
        halts_cons.mpr (by decide)
      have hfraction : fraction ('.' :: (part ++ power)) = (part, power) := by
        rw [fraction, Scan.takeWhile_run hpart hdigits, Scan.dropWhile_run hpart hdigits]
      simp only [decimal?, List.append_assoc, List.cons_append, Scan.takeWhile_run hwhole hpoint,
        Scan.dropWhile_run hwhole hpoint, hfraction, if_neg h, hexponent, Option.map_some]

/-- The fraction of a text is what stands between a point and the first character behind it
that is no digit. -/
theorem exists_fraction (cs : List Char) :
    (fraction cs = ([], cs)) ∨ ∃ part rest, fraction cs = (part, rest) ∧
      (∀ c ∈ part, c.isDigit = true) ∧ cs = '.' :: (part ++ rest) := by
  unfold fraction
  split
  · rename_i cs
    exact Or.inr ⟨_, _, rfl, fun _ hc => List.mem_takeWhile_imp hc,
      by rw [List.takeWhile_append_dropWhile]⟩
  · exact Or.inl rfl

theorem mantissa_of_decimal? {negative : Bool} {cs : List Char} {d : Decimal}
    (h : decimal? negative cs = some d) : ∃ whole part digits power e,
      IsMantissa whole part digits ∧ IsExponent e power ∧ cs = digits ++ power ∧
        d = ⟨negative, Decimal.ofDigits (whole ++ part), e - part.length⟩ := by
  have hcs : cs.takeWhile Char.isDigit ++ cs.dropWhile Char.isDigit = cs :=
    List.takeWhile_append_dropWhile
  have hwhole : ∀ c ∈ cs.takeWhile Char.isDigit, c.isDigit = true :=
    fun c hc => List.mem_takeWhile_imp hc
  unfold decimal? at h
  rcases exists_fraction (cs.dropWhile Char.isDigit) with hpart | ⟨part, rest, hpart, hdigit, hrest⟩
  · rw [hpart] at h
    dsimp only at h
    split at h
    · cases h
    · rename_i hne
      obtain ⟨e, he, rfl⟩ := Option.map_eq_some_iff.mp h
      have hds : IsDigits (cs.takeWhile Char.isDigit) := ⟨fun hnil => hne ⟨hnil, rfl⟩, hwhole⟩
      exact ⟨_, _, _, _, e, .whole hds, exponent?_eq_some_iff.mp he, hcs.symm, rfl⟩
  · rw [hpart] at h
    dsimp only at h
    split at h
    · cases h
    · rename_i hne
      obtain ⟨e, he, rfl⟩ := Option.map_eq_some_iff.mp h
      refine ⟨_, _, _, _, e, .pointed hwhole hdigit hne, exponent?_eq_some_iff.mp he, ?_, rfl⟩
      rw [List.append_assoc, List.cons_append, ← hrest, hcs]

theorem decimal?_eq_some_iff {negative : Bool} {cs : List Char} {d : Decimal} :
    decimal? negative cs = some d ↔ ∃ whole part digits power e,
      IsMantissa whole part digits ∧ IsExponent e power ∧ cs = digits ++ power ∧
        d = ⟨negative, Decimal.ofDigits (whole ++ part), e - part.length⟩ := by
  constructor
  · exact mantissa_of_decimal?
  · rintro ⟨whole, part, digits, power, e, hmantissa, hpower, rfl, rfl⟩
    exact decimal?_of_mantissa hmantissa hpower

theorem IsMantissa.chars {whole part digits : List Char} (h : IsMantissa whole part digits) :
    ∀ c ∈ digits, IsNumberChar c := by
  cases h with
  | whole hds => exact hds.chars
  | pointed hwhole hpart _ =>
      refine List.forall_mem_append.mpr ⟨fun c hc => .of_isDigit (hwhole c hc), ?_⟩
      exact List.forall_mem_cons.mpr ⟨by simp [IsNumberChar], fun c hc => .of_isDigit (hpart c hc)⟩

/-- A decimal begins with a digit or with its point. -/
theorem IsMantissa.head {whole part digits : List Char} (h : IsMantissa whole part digits) :
    ∃ c cs, digits = c :: cs ∧ (c.isDigit = true ∨ c = '.') := by
  cases h with
  | whole hds =>
      obtain ⟨c, cs, rfl⟩ := List.exists_cons_of_ne_nil hds.ne_nil
      exact ⟨c, cs, rfl, Or.inl (hds.digit c (by simp))⟩
  | pointed hwhole _ _ =>
      cases whole with
      | nil => exact ⟨_, _, rfl, Or.inr rfl⟩
      | cons c whole => exact ⟨_, _, rfl, Or.inl (hwhole c (by simp))⟩

/-! #### Words -/

/-- The letters of a word are letters, whatever their case. -/
theorem IsWord.isAlpha {word : String} {cs : List Char} (h : IsWord word cs)
    (hword : word.toList.all Char.isAlpha = true) : ∀ c ∈ cs, c.isAlpha = true := by
  intro c hc
  have hmem : c.toLower ∈ word.toList := by
    rw [← h, String.toList_ofList]
    exact List.mem_map_of_mem hc
  rw [← Char.isAlpha_toLower_eq_isAlpha]
  exact List.all_eq_true.mp hword _ hmem

/-- Both words for infinity are letters. -/
theorem isAlpha_of_infinity {cs : List Char} (h : IsWord "inf" cs ∨ IsWord "infinity" cs) :
    ∀ c ∈ cs, c.isAlpha = true :=
  h.elim (fun h => h.isAlpha (by decide)) (fun h => h.isAlpha (by decide))

/-- A text of letters is no decimal. -/
theorem decimal?_of_isAlpha {negative : Bool} {cs : List Char}
    (h : ∀ c ∈ cs, c.isAlpha = true) : decimal? negative cs = none := by
  rw [Option.eq_none_iff_forall_not_mem]
  intro d hd
  obtain ⟨whole, part, digits, power, e, hmantissa, -, rfl, -⟩ := decimal?_eq_some_iff.mp hd
  obtain ⟨c, cs, rfl, hc⟩ := hmantissa.head
  have halpha := h c (by simp)
  rcases hc with hc | rfl
  · rw [not_isAlpha_of_isDigit hc] at halpha
    cases halpha
  · exact absurd halpha (by decide)

/-! #### Reading literals -/

theorem unsigned?_eq_some_iff {negative : Bool} {cs : List Char} {l : Literal} :
    unsigned? negative cs = some l ↔ SpellsUnsigned negative cs l := by
  constructor
  · intro h
    unfold unsigned? at h
    split at h
    · rename_i d hd
      cases h
      obtain ⟨whole, part, digits, power, e, hmantissa, hpower, rfl, rfl⟩ :=
        decimal?_eq_some_iff.mp hd
      exact .finite hmantissa hpower
    · dsimp only at h
      split at h
      · rename_i hword
        cases h
        exact .infinite hword
      · split at h
        · rename_i hword
          cases h
          exact .notANumber hword
        · cases h
  · intro h
    cases h with
    | finite hmantissa hpower => rw [unsigned?, decimal?_of_mantissa hmantissa hpower]
    | infinite hword =>
        rw [unsigned?, decimal?_of_isAlpha (isAlpha_of_infinity hword)]
        exact if_pos hword
    | notANumber hword =>
        have hother : ¬(String.ofList (cs.map Char.toLower) = "inf" ∨
            String.ofList (cs.map Char.toLower) = "infinity") := by
          rw [show String.ofList (cs.map Char.toLower) = "nan" from hword]
          decide
        rw [unsigned?, decimal?_of_isAlpha (hword.isAlpha (by decide))]
        dsimp only
        rw [if_neg hother]
        exact if_pos hword

theorem SpellsUnsigned.chars {negative : Bool} {cs : List Char} {l : Literal}
    (h : SpellsUnsigned negative cs l) : ∀ c ∈ cs, IsNumberChar c := by
  cases h with
  | finite hmantissa hpower =>
      exact List.forall_mem_append.mpr ⟨hmantissa.chars, hpower.chars⟩
  | infinite hword => exact fun c hc => .of_isAlpha (isAlpha_of_infinity hword c hc)
  | notANumber hword => exact fun c hc => .of_isAlpha (hword.isAlpha (by decide) c hc)

theorem Spells.chars {cs : List Char} {l : Literal} (h : Spells cs l) :
    ∀ c ∈ cs, IsNumberChar c := by
  cases h with
  | mk hsign h => exact List.forall_mem_append.mpr ⟨hsign.chars, h.chars⟩

/-- What a text without a sign begins with is no sign. -/
theorem SpellsUnsigned.halts_sign {negative : Bool} {cs : List Char} {l : Literal}
    (h : SpellsUnsigned negative cs l) : Halts (fun c => c = '-' ∨ c = '+') cs := by
  intro c hc hsign
  have hmem := List.mem_of_mem_head? hc
  have hbad : c.isAlpha = false ∧ c.isDigit = false ∧ c ≠ '.' := by
    rcases hsign with rfl | rfl
    · decide
    · decide
  cases h with
  | finite hmantissa hpower =>
      obtain ⟨d, ds, rfl, hd⟩ := hmantissa.head
      cases hc
      rcases hd with hd | hd
      · rw [hbad.2.1] at hd
        cases hd
      · exact hbad.2.2 hd
  | infinite hword =>
      have halpha := isAlpha_of_infinity hword c hmem
      rw [hbad.1] at halpha
      cases halpha
  | notANumber hword =>
      have halpha := hword.isAlpha (by decide) c hmem
      rw [hbad.1] at halpha
      cases halpha

theorem read_eq (cs : List Char) :
    read cs = match unsigned? (splitSign cs).1 (splitSign cs).2 with
      | some l => .ok l
      | none => .error (if cs = [] then .empty else .invalid) := by
  fun_cases splitSign cs with
  | case1 cs => rfl
  | case2 cs => rfl
  | case3 cs hminus hplus =>
      unfold read
      split
      · exact absurd rfl (hminus _)
      · exact absurd rfl (hplus _)
      · rfl

/-- **A text is read as the literal that it spells.** -/
theorem read_eq_ok_iff {cs : List Char} {l : Literal} : read cs = .ok l ↔ Spells cs l := by
  rw [read_eq]
  constructor
  · intro h
    split at h
    · rename_i l' hl
      cases h
      obtain ⟨sign, hsign, hcs⟩ := exists_sign cs
      have hspells := Spells.mk hsign (unsigned?_eq_some_iff.mp hl)
      rwa [← hcs] at hspells
    · cases h
  · intro h
    cases h with
    | mk hsign h =>
        rw [splitSign_append hsign h.halts_sign, unsigned?_eq_some_iff.mpr h]

theorem Spells.ne_nil {cs : List Char} {l : Literal} (h : Spells cs l) : cs ≠ [] := by
  rintro rfl
  have hread := read_eq_ok_iff.mpr h
  cases hread

end Literal

/-! ### Decimals -/

namespace Decimal

/-- A decimal without its sign. -/
def magnitude (d : Decimal) : ℚ := d.digits * 10 ^ d.exponent

theorem magnitude_zero (negative : Bool) (exponent : Int) :
    magnitude ⟨negative, 0, exponent⟩ = 0 := by
  rw [magnitude, Nat.cast_zero, zero_mul]

/-- Zeros behind the digits are made up for by the power of ten. -/
theorem magnitude_shift (negative : Bool) (digits : Nat) (exponent : Int) (k : Nat) :
    magnitude ⟨negative, digits * 10 ^ k, exponent - k⟩ =
      magnitude ⟨negative, digits, exponent⟩ := by
  have hten : (10 : ℚ) ^ k ≠ 0 := by positivity
  simp only [magnitude]
  rw [zpow_sub₀ (by norm_num), zpow_natCast]
  push_cast
  field_simp

theorem width_pos (n : Nat) : 0 < width n := Nat.length_toDigits_pos

theorem lt_pow_width (n : Nat) : n < 10 ^ width n :=
  (Nat.length_toDigits_le_iff (by decide) (width_pos n)).mp (Nat.le_refl _)

theorem pow_le_of_pos {n : Nat} (h : 0 < n) : 10 ^ (width n - 1) ≤ n := by
  by_cases hwidth : width n = 1
  · rw [hwidth]
    exact h
  · have hpos := width_pos n
    by_contra hlt
    have := (Nat.length_toDigits_le_iff (by decide) (by omega)).mpr (not_le.mp hlt)
    have hle : width n ≤ width n - 1 := this
    omega

/-- The place of the first digit bounds a decimal from above. -/
theorem magnitude_lt (d : Decimal) : d.magnitude < 10 ^ ((width d.digits : Int) + d.exponent) := by
  have hlt : (d.digits : ℚ) < 10 ^ width d.digits := by exact_mod_cast lt_pow_width d.digits
  rw [magnitude, zpow_add₀ (by norm_num), zpow_natCast]
  gcongr

/-- And from below. -/
theorem pow_le_magnitude {d : Decimal} (h : 0 < d.digits) :
    (10 : ℚ) ^ ((width d.digits : Int) + d.exponent - 1) ≤ d.magnitude := by
  have hle : (10 : ℚ) ^ (width d.digits - 1) ≤ d.digits := by exact_mod_cast pow_le_of_pos h
  have hpos := width_pos d.digits
  have hsplit : (width d.digits : Int) + d.exponent - 1 =
      ((width d.digits - 1 : Nat) : Int) + d.exponent := by omega
  rw [magnitude, hsplit, zpow_add₀ (by norm_num), zpow_natCast]
  gcongr

end Decimal

end TensorText

/-
Texts come back from their bytes.

A character is written with one byte to four, and the first byte tells how many.  So
there is one step of the decoder for each number of bytes, and one fact of arithmetic:
the digits to base 64 that were put into the bytes make up the character again.  A text
is then read back character by character.  Conversely the decoder accepts no bytes but those
of a text: the bounds on the second byte shut out spellings that are longer than need be.

A zero byte stands for the character NUL and is no part of any other, so cutting the bytes
of a text at the first zero is the same as cutting the text at its first NUL.
-/
import TensorText.Steps
import TensorText.Utf8

namespace TensorText.Utf8

/-! ### The classes of bytes, as numbers -/

theorem isTail_iff {b : UInt8} : isTail b = true ↔ 0x80 ≤ b.toNat ∧ b.toNat ≤ 0xBF := by
  simp [isTail, UInt8.le_iff_toNat_le]

theorem fitsThree_iff {a b : UInt8} : fitsThree a b = true ↔
    isTail b = true ∧ (a.toNat = 0xE0 → 0xA0 ≤ b.toNat) ∧ (a.toNat = 0xED → b.toNat ≤ 0x9F) := by
  simp [fitsThree, UInt8.le_iff_toNat_le, ← UInt8.toNat_inj, and_assoc,
    Decidable.imp_iff_not_or]

theorem fitsFour_iff {a b : UInt8} : fitsFour a b = true ↔
    isTail b = true ∧ (a.toNat = 0xF0 → 0x90 ≤ b.toNat) ∧ (a.toNat = 0xF4 → b.toNat ≤ 0x8F) := by
  simp [fitsFour, UInt8.le_iff_toNat_le, ← UInt8.toNat_inj, and_assoc,
    Decidable.imp_iff_not_or]

/-! ### One step of the decoder for each length -/

section Steps

variable (i : Nat) {a b c d : UInt8} (rest : List UInt8)

theorem decodeFrom_one (ha : a.toNat < 0x80) :
    decodeFrom i (a :: rest) = (decodeFrom (i + 1) rest).map (Char.ofNat a.toNat :: ·) := by
  rw [decodeFrom.eq_def]
  simp only [UInt8.lt_iff_toNat_lt, UInt8.reduceToNat]
  rw [if_pos ha]

theorem decodeFrom_two (ha : 0xC2 ≤ a.toNat ∧ a.toNat ≤ 0xDF) (hb : isTail b = true) :
    decodeFrom i (a :: b :: rest) = (decodeFrom (i + 2) rest).map (char2 a b :: ·) := by
  rw [decodeFrom.eq_def]
  simp only [UInt8.lt_iff_toNat_lt, UInt8.le_iff_toNat_le, UInt8.reduceToNat]
  rw [if_neg (by omega), if_pos ha, if_pos hb]

theorem decodeFrom_three (ha : 0xE0 ≤ a.toNat ∧ a.toNat ≤ 0xEF) (hb : fitsThree a b = true)
    (hc : isTail c = true) :
    decodeFrom i (a :: b :: c :: rest) = (decodeFrom (i + 3) rest).map (char3 a b c :: ·) := by
  rw [decodeFrom.eq_def]
  simp only [UInt8.lt_iff_toNat_lt, UInt8.le_iff_toNat_le, UInt8.reduceToNat]
  rw [if_neg (by omega), if_neg (by omega), if_pos ha, if_pos hb, if_pos hc]

theorem decodeFrom_four (ha : 0xF0 ≤ a.toNat ∧ a.toNat ≤ 0xF4) (hb : fitsFour a b = true)
    (hc : isTail c = true) (hd : isTail d = true) :
    decodeFrom i (a :: b :: c :: d :: rest) =
      (decodeFrom (i + 4) rest).map (char4 a b c d :: ·) := by
  rw [decodeFrom.eq_def]
  simp only [UInt8.lt_iff_toNat_lt, UInt8.le_iff_toNat_le, UInt8.reduceToNat]
  rw [if_neg (by omega), if_neg (by omega), if_neg (by omega), if_pos ha, if_pos hb, if_pos hc,
    if_pos hd]

end Steps

/-! ### The bytes of a character -/

-- `UInt8.size` is spelt out, for `omega` does not look into it.
theorem toNat_byte {n : Nat} (h : n < 256) : (UInt8.ofNat n).toNat = n :=
  UInt8.toNat_ofNat_of_lt' h

theorem isTail_ofNat (n : Nat) : isTail (UInt8.ofNat (n % 64 + 128)) = true := by
  rw [isTail_iff, toNat_byte (by omega)]
  omega

section Spellings

variable (i : Nat) {n : Nat} (rest : List UInt8)

theorem decodeFrom_ofNat_one (h : n ≤ 0x7F) :
    decodeFrom i (UInt8.ofNat n :: rest) =
      (decodeFrom (i + 1) rest).map (Char.ofNat n :: ·) := by
  have ha := toNat_byte (n := n) (by omega)
  rw [decodeFrom_one i rest (by omega), ha]

theorem decodeFrom_ofNat_two (h : 0x7F < n) (h' : n ≤ 0x7FF) :
    decodeFrom i (UInt8.ofNat (n / 64 % 32 + 192) :: UInt8.ofNat (n % 64 + 128) :: rest) =
      (decodeFrom (i + 2) rest).map (Char.ofNat n :: ·) := by
  have ha := toNat_byte (n := n / 64 % 32 + 192) (by omega)
  have hb := toNat_byte (n := n % 64 + 128) (by omega)
  have hchar : char2 (UInt8.ofNat (n / 64 % 32 + 192)) (UInt8.ofNat (n % 64 + 128)) =
      Char.ofNat n := by
    rw [char2, ha, hb]
    congr 1
    omega
  rw [decodeFrom_two i rest (by omega) (isTail_ofNat n), hchar]

theorem decodeFrom_ofNat_three (h : 0x7FF < n) (h' : n ≤ 0xFFFF)
    (hvalid : n < 0xD800 ∨ 0xDFFF < n) :
    decodeFrom i (UInt8.ofNat (n / 4096 % 16 + 224) :: UInt8.ofNat (n / 64 % 64 + 128) ::
      UInt8.ofNat (n % 64 + 128) :: rest) =
      (decodeFrom (i + 3) rest).map (Char.ofNat n :: ·) := by
  have ha := toNat_byte (n := n / 4096 % 16 + 224) (by omega)
  have hb := toNat_byte (n := n / 64 % 64 + 128) (by omega)
  have hc := toNat_byte (n := n % 64 + 128) (by omega)
  have hfits : fitsThree (UInt8.ofNat (n / 4096 % 16 + 224))
      (UInt8.ofNat (n / 64 % 64 + 128)) = true :=
    fitsThree_iff.mpr ⟨isTail_ofNat (n / 64), by omega, by omega⟩
  have hchar : char3 (UInt8.ofNat (n / 4096 % 16 + 224)) (UInt8.ofNat (n / 64 % 64 + 128))
      (UInt8.ofNat (n % 64 + 128)) = Char.ofNat n := by
    rw [char3, ha, hb, hc]
    congr 1
    omega
  rw [decodeFrom_three i rest (by omega) hfits (isTail_ofNat n), hchar]

theorem decodeFrom_ofNat_four (h : 0xFFFF < n) (h' : n < 0x110000) :
    decodeFrom i (UInt8.ofNat (n / 262144 % 8 + 240) :: UInt8.ofNat (n / 4096 % 64 + 128) ::
      UInt8.ofNat (n / 64 % 64 + 128) :: UInt8.ofNat (n % 64 + 128) :: rest) =
      (decodeFrom (i + 4) rest).map (Char.ofNat n :: ·) := by
  have ha := toNat_byte (n := n / 262144 % 8 + 240) (by omega)
  have hb := toNat_byte (n := n / 4096 % 64 + 128) (by omega)
  have hc := toNat_byte (n := n / 64 % 64 + 128) (by omega)
  have hd := toNat_byte (n := n % 64 + 128) (by omega)
  have hfits : fitsFour (UInt8.ofNat (n / 262144 % 8 + 240))
      (UInt8.ofNat (n / 4096 % 64 + 128)) = true :=
    fitsFour_iff.mpr ⟨isTail_ofNat (n / 4096), by omega, by omega⟩
  have hchar : char4 (UInt8.ofNat (n / 262144 % 8 + 240)) (UInt8.ofNat (n / 4096 % 64 + 128))
      (UInt8.ofNat (n / 64 % 64 + 128)) (UInt8.ofNat (n % 64 + 128)) = Char.ofNat n := by
    rw [char4, ha, hb, hc, hd]
    congr 1
    omega
  rw [decodeFrom_four i rest (by omega) hfits (isTail_ofNat (n / 64)) (isTail_ofNat n), hchar]

end Spellings

/-- A character is no surrogate, and none lies beyond the last one. -/
theorem toNat_valid (c : Char) : c.toNat < 0xD800 ∨ 0xDFFF < c.toNat ∧ c.toNat < 0x110000 :=
  c.valid

/-- What is written for a character is read as that character, whatever follows it. -/
theorem decodeFrom_encodeChar (i : Nat) (c : Char) (rest : List UInt8) :
    decodeFrom i (String.utf8EncodeChar c ++ rest) =
      (decodeFrom (i + (String.utf8EncodeChar c).length) rest).map (c :: ·) := by
  have hvalid := toNat_valid c
  have hc := Char.ofNat_toNat c
  simp only [String.utf8EncodeChar, Char.toNat_val]
  generalize c.toNat = n at hvalid hc
  by_cases h1 : n ≤ 0x7F
  · simp only [if_pos h1, List.cons_append, List.nil_append]
    rw [decodeFrom_ofNat_one i rest h1, hc]
    rfl
  by_cases h2 : n ≤ 0x7FF
  · simp only [if_neg h1, if_pos h2, List.cons_append, List.nil_append]
    rw [decodeFrom_ofNat_two i rest (by omega) h2, hc]
    rfl
  by_cases h3 : n ≤ 0xFFFF
  · simp only [if_neg h1, if_neg h2, if_pos h3, List.cons_append, List.nil_append]
    rw [decodeFrom_ofNat_three i rest (by omega) h3 (by omega), hc]
    rfl
  · simp only [if_neg h1, if_neg h2, if_neg h3, List.cons_append, List.nil_append]
    rw [decodeFrom_ofNat_four i rest (by omega) (by omega), hc]
    rfl

/-- No byte of a longer spelling is zero, and a byte alone is the number of its character. -/
theorem zero_mem_encodeChar {c : Char} : 0 ∈ String.utf8EncodeChar c ↔ c = '\x00' := by
  constructor
  · intro h
    have hzero : ∀ k < 256, (0 : UInt8) = UInt8.ofNat k → k = 0 := by
      intro k hk heq
      rw [← toNat_byte hk, ← heq]
      rfl
    rw [← Char.ofNat_toNat c]
    simp only [String.utf8EncodeChar, Char.toNat_val] at h
    generalize c.toNat = n at h
    by_cases h1 : n ≤ 0x7F
    · rw [if_pos h1, List.mem_singleton] at h
      rw [hzero n (by omega) h]
    · rw [if_neg h1] at h
      exfalso
      split at h
      · simp only [List.mem_cons, List.not_mem_nil, or_false] at h
        rcases h with h | h <;> exact absurd (hzero _ (by omega) h) (by omega)
      split at h
      · simp only [List.mem_cons, List.not_mem_nil, or_false] at h
        rcases h with h | h | h <;> exact absurd (hzero _ (by omega) h) (by omega)
      · simp only [List.mem_cons, List.not_mem_nil, or_false] at h
        rcases h with h | h | h | h <;> exact absurd (hzero _ (by omega) h) (by omega)
  · rintro rfl
    decide

/-! ### The bytes of a character, from its number -/

theorem encodeChar_eq {c : Char} {n : Nat} (h : c.toNat = n) : String.utf8EncodeChar c =
    if n ≤ 0x7F then [UInt8.ofNat n]
    else if n ≤ 0x7FF then [UInt8.ofNat (n / 64 % 32 + 192), UInt8.ofNat (n % 64 + 128)]
    else if n ≤ 0xFFFF then
      [UInt8.ofNat (n / 4096 % 16 + 224), UInt8.ofNat (n / 64 % 64 + 128),
        UInt8.ofNat (n % 64 + 128)]
    else
      [UInt8.ofNat (n / 262144 % 8 + 240), UInt8.ofNat (n / 4096 % 64 + 128),
        UInt8.ofNat (n / 64 % 64 + 128), UInt8.ofNat (n % 64 + 128)] := by
  rw [← h]
  rfl

theorem toNat_charOfNat {n : Nat} (h : n < 0xD800 ∨ 0xDFFF < n ∧ n < 0x110000) :
    (Char.ofNat n).toNat = n := by
  rw [Char.ofNat, dif_pos h]
  rfl

theorem ofNat_eq_byte {n : Nat} {b : UInt8} (h : n = b.toNat) : UInt8.ofNat n = b := by
  rw [h, UInt8.ofNat_toNat]

section Characters

variable {a b c d : UInt8}

theorem encodeChar_one (ha : a.toNat < 0x80) :
    String.utf8EncodeChar (Char.ofNat a.toNat) = [a] := by
  rw [encodeChar_eq (toNat_charOfNat (by omega)), if_pos (by omega), UInt8.ofNat_toNat]

theorem encodeChar_two (ha : 0xC2 ≤ a.toNat ∧ a.toNat ≤ 0xDF) (hb : isTail b = true) :
    String.utf8EncodeChar (char2 a b) = [a, b] := by
  rw [isTail_iff] at hb
  rw [char2, encodeChar_eq (toNat_charOfNat (by omega)), if_neg (by omega), if_pos (by omega),
    ofNat_eq_byte (b := a) (by omega), ofNat_eq_byte (b := b) (by omega)]

-- Without the bounds on the second byte, the number could be one of a shorter spelling, or that of
-- a surrogate.
theorem encodeChar_three (ha : 0xE0 ≤ a.toNat ∧ a.toNat ≤ 0xEF) (hb : fitsThree a b = true)
    (hc : isTail c = true) : String.utf8EncodeChar (char3 a b c) = [a, b, c] := by
  obtain ⟨htail, hlow, hsurrogate⟩ := fitsThree_iff.mp hb
  rw [isTail_iff] at htail hc
  rw [char3, encodeChar_eq (toNat_charOfNat (by omega)), if_neg (by omega), if_neg (by omega),
    if_pos (by omega), ofNat_eq_byte (b := a) (by omega), ofNat_eq_byte (b := b) (by omega),
    ofNat_eq_byte (b := c) (by omega)]

theorem encodeChar_four (ha : 0xF0 ≤ a.toNat ∧ a.toNat ≤ 0xF4) (hb : fitsFour a b = true)
    (hc : isTail c = true) (hd : isTail d = true) :
    String.utf8EncodeChar (char4 a b c d) = [a, b, c, d] := by
  obtain ⟨htail, hlow, hlast⟩ := fitsFour_iff.mp hb
  rw [isTail_iff] at htail hc hd
  rw [char4, encodeChar_eq (toNat_charOfNat (by omega)), if_neg (by omega), if_neg (by omega),
    if_neg (by omega), ofNat_eq_byte (b := a) (by omega), ofNat_eq_byte (b := b) (by omega),
    ofNat_eq_byte (b := c) (by omega), ofNat_eq_byte (b := d) (by omega)]

end Characters

/-! ### The bytes of a text -/

theorem decodeFrom_encode (i : Nat) (cs : List Char) :
    decodeFrom i (cs.flatMap String.utf8EncodeChar) = .ok cs := by
  induction cs generalizing i with
  | nil => rw [List.flatMap_nil, decodeFrom]
  | cons c cs ih =>
      rw [List.flatMap_cons, decodeFrom_encodeChar, ih]
      rfl

/-- **A text is read back from its bytes.** -/
theorem decode_encode (s : String) : decode (encode s) = .ok s := by
  rw [decode, encode, decodeFrom_encode]
  exact congrArg Except.ok String.ofList_toList

/-- The bytes before the first zero are those of the characters before the first NUL. -/
theorem takeWhile_flatMap_encodeChar (cs : List Char) :
    (cs.flatMap String.utf8EncodeChar).takeWhile (fun b => b != 0) =
      (cs.takeWhile fun c => c != '\x00').flatMap String.utf8EncodeChar := by
  induction cs with
  | nil => rfl
  | cons c cs ih =>
      rw [List.flatMap_cons]
      by_cases hc : c = '\x00'
      · rw [hc]
        rfl
      · have hzero : ∀ b ∈ String.utf8EncodeChar c, (b != 0) = true := by
          intro b hb
          rw [bne_iff_ne]
          rintro rfl
          exact hc (zero_mem_encodeChar.mp hb)
        rw [List.takeWhile_append_of_pos hzero, ih, List.takeWhile_cons_of_pos (by simpa using hc),
          List.flatMap_cons]

/-! ### Bytes that are accepted -/

/-- The bytes of a character, in front of bytes that are those of what they are read as. -/
theorem append_eq_encode {i : Nat} {c : Char} {bytes rest : List UInt8} {cs : List Char}
    (hc : String.utf8EncodeChar c = bytes) (h : (decodeFrom i rest).map (c :: ·) = .ok cs)
    (hrest : ∀ {cs}, decodeFrom i rest = .ok cs → rest = cs.flatMap String.utf8EncodeChar) :
    bytes ++ rest = cs.flatMap String.utf8EncodeChar := by
  obtain ⟨cs', hcs', rfl⟩ := map_eq_ok.mp h
  rw [List.flatMap_cons, hc, ← hrest hcs']

-- Of the ways that the decoder can go, one for each length of a character leads on, and the others
-- end in a fault.
theorem eq_encode_of_decodeFrom {i : Nat} {bytes : List UInt8} {cs : List Char}
    (h : decodeFrom i bytes = .ok cs) : bytes = cs.flatMap String.utf8EncodeChar := by
  fun_induction decodeFrom i bytes generalizing cs with
  | case1 i =>
      cases h
      rfl
  | case2 i a rest ha ih =>
      have hchar := encodeChar_one (UInt8.lt_iff_toNat_lt.mp ha)
      exact append_eq_encode hchar h ih
  | case4 i a _ ha b rest hb ih =>
      have hchar := encodeChar_two ha hb
      exact append_eq_encode hchar h ih
  | case9 i a _ _ ha b c rest hb hc ih =>
      have hchar := encodeChar_three ha hb hc
      exact append_eq_encode hchar h ih
  | case18 i a _ _ _ ha b c d rest hb hc hd ih =>
      have hchar := encodeChar_four ha hb hc hd
      exact append_eq_encode hchar h ih
  | _ => cases h

/-- Whether bytes are those of some text. -/
def WellFormed (bytes : List UInt8) : Prop := ∃ s, encode s = bytes

/-- **The bytes that are accepted as a text are those of that text.** -/
theorem decode_eq_ok_iff {bytes : List UInt8} {s : String} :
    decode bytes = .ok s ↔ encode s = bytes := by
  constructor
  · intro h
    obtain ⟨cs, hcs, rfl⟩ := map_eq_ok.mp h
    rw [encode, String.toList_ofList, eq_encode_of_decodeFrom hcs]
  · rintro rfl
    exact decode_encode s

theorem exists_decode_eq_error_iff {bytes : List UInt8} :
    (∃ fault, decode bytes = .error fault) ↔ ¬WellFormed bytes := by
  constructor
  · rintro ⟨fault, hfault⟩ ⟨s, hs⟩
    rw [decode_eq_ok_iff.mpr hs] at hfault
    cases hfault
  · intro hbad
    cases h : decode bytes with
    | error fault => exact ⟨fault, rfl⟩
    | ok s => exact absurd ⟨s, decode_eq_ok_iff.mp h⟩ hbad

end TensorText.Utf8

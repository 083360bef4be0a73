/-
Base64 decoding accepts exactly what encoding writes.

A quad of symbols and three bytes are two ways to cut the same twenty-four bits, so
each determines the other; the padded last quads are the same with eight or sixteen
bits, and the check for spare bits is what makes the spelling unique there.  Both
directions then follow the recursion that peels off one quad at a time:
`decodeFrom_encode` along `encode`, `encode_of_decodeFrom` along `decodeFrom`.

`decode_eq_ok_iff` is what the rest rests on.  It says that a text has at most one byte
string and a byte string at most one text.
-/
import TensorText.Base64
import TensorText.Steps

namespace TensorText.Base64

/-! ### Symbols -/

theorem sextet?_symbol {n : Nat} (h : n < 64) : sextet? (symbol n) = some n := by
  have hall : ∀ n < 64, sextet? (symbol n) = some n := by decide
  exact hall n h

theorem isCodeChar_symbol {n : Nat} (h : n < 64) : isCodeChar (symbol n) = true := by
  have hall : ∀ n < 64, isCodeChar (symbol n) = true := by decide
  exact hall n h

theorem symbol_ne_pad {n : Nat} (h : n < 64) : symbol n ≠ '=' := by
  have hall : ∀ n < 64, symbol n ≠ '=' := by decide
  exact hall n h

private theorem ofNat_add_sub {c : Char} {k : Nat} (h : k ≤ c.toNat) :
    Char.ofNat (k + (c.toNat - k)) = c := by
  rw [Nat.add_sub_cancel' h, Char.ofNat_toNat]

/-- A character has at most one value, and the symbol for that value is the character. -/
theorem sextet?_eq_some {c : Char} {n : Nat} (h : sextet? c = some n) :
    n < 64 ∧ symbol n = c := by
  unfold sextet? at h
  split at h
  · rename_i hc
    have hlo : 65 ≤ c.toNat := hc.1
    have hhi : c.toNat ≤ 90 := hc.2
    obtain rfl : c.toNat - 65 = n := by simpa using h
    refine ⟨by omega, ?_⟩
    unfold symbol
    rw [if_pos (by omega)]
    exact ofNat_add_sub hlo
  · split at h
    · rename_i hc
      have hlo : 97 ≤ c.toNat := hc.1
      have hhi : c.toNat ≤ 122 := hc.2
      obtain rfl : c.toNat - 71 = n := by simpa using h
      refine ⟨by omega, ?_⟩
      unfold symbol
      rw [if_neg (by omega), if_pos (by omega)]
      exact ofNat_add_sub (by omega)
    · split at h
      · rename_i hc
        have hlo : 48 ≤ c.toNat := hc.1
        have hhi : c.toNat ≤ 57 := hc.2
        obtain rfl : c.toNat + 4 = n := by simpa using h
        refine ⟨by omega, ?_⟩
        unfold symbol
        rw [if_neg (by omega), if_neg (by omega), if_pos (by omega), Nat.add_sub_cancel,
          Char.ofNat_toNat]
      · split at h
        · rename_i hc
          obtain rfl : 62 = n := by simpa using h
          exact ⟨by omega, by rw [hc]; rfl⟩
        · split at h
          · rename_i hc
            obtain rfl : 63 = n := by simpa using h
            exact ⟨by omega, by rw [hc]; rfl⟩
          · exact absurd h (by simp)

theorem sextet_eq_ok {c : Char} {i n : Nat} (h : sextet c i = .ok n) :
    n < 64 ∧ symbol n = c := by
  unfold sextet at h
  split at h
  · rename_i m hm
    obtain rfl : m = n := by simpa using h
    exact sextet?_eq_some hm
  · exact absurd h (by simp)

theorem sextet_symbol {n : Nat} (h : n < 64) (i : Nat) : sextet (symbol n) i = .ok n := by
  unfold sextet
  rw [sextet?_symbol h]

/-! ### Quads

Three bytes cut into four sextets and put together again.  The bounds are all that
`omega` needs.
-/

private theorem ofNat_eq {n : Nat} {x : UInt8} (h : n = x.toNat) : UInt8.ofNat n = x := by
  rw [h, UInt8.ofNat_toNat]

private theorem toNat_ofNat {n : Nat} (h : n < 256) : (UInt8.ofNat n).toNat = n := by
  rw [UInt8.toNat_ofNat']
  exact Nat.mod_eq_of_lt h

theorem quad_encode (i : Nat) (x y z : UInt8) :
    quad i (symbol (x.toNat / 4)) (symbol (x.toNat % 4 * 16 + y.toNat / 16))
      (symbol (y.toNat % 16 * 4 + z.toNat / 64)) (symbol (z.toNat % 64)) = .ok [x, y, z] := by
  have hx := x.toNat_lt
  have hy := y.toNat_lt
  have hz := z.toNat_lt
  unfold quad
  rw [sextet_symbol (by omega), sextet_symbol (by omega), sextet_symbol (by omega),
    sextet_symbol (by omega)]
  show Except.ok [UInt8.ofNat _, UInt8.ofNat _, UInt8.ofNat _] = _
  rw [ofNat_eq (x := x) (by omega), ofNat_eq (x := y) (by omega), ofNat_eq (x := z) (by omega)]

/-- The symbols of a quad are those of the bytes it stands for. -/
theorem encode_quad {s t u v : Nat} (hs : s < 64) (ht : t < 64) (hu : u < 64) (hv : v < 64)
    (rest : List UInt8) :
    encode (UInt8.ofNat (s * 4 + t / 16) :: UInt8.ofNat (t % 16 * 16 + u / 4) ::
        UInt8.ofNat (u % 4 * 64 + v) :: rest) =
      symbol s :: symbol t :: symbol u :: symbol v :: encode rest := by
  rw [encode, toNat_ofNat (by omega), toNat_ofNat (by omega), toNat_ofNat (by omega)]
  rw [show (s * 4 + t / 16) / 4 = s by omega,
    show (s * 4 + t / 16) % 4 * 16 + (t % 16 * 16 + u / 4) / 16 = t by omega,
    show (t % 16 * 16 + u / 4) % 16 * 4 + (u % 4 * 64 + v) / 64 = u by omega,
    show (u % 4 * 64 + v) % 64 = v by omega]

theorem encode_of_quad {i : Nat} {a b c d : Char} {bytes : List UInt8}
    (h : quad i a b c d = .ok bytes) (rest : List UInt8) :
    encode (bytes ++ rest) = a :: b :: c :: d :: encode rest := by
  obtain ⟨s, ha, h⟩ := bind_eq_ok.1 h
  obtain ⟨t, hb, h⟩ := bind_eq_ok.1 h
  obtain ⟨u, hc, h⟩ := bind_eq_ok.1 h
  obtain ⟨v, hd, h⟩ := bind_eq_ok.1 h
  cases h
  obtain ⟨hs, rfl⟩ := sextet_eq_ok ha
  obtain ⟨ht, rfl⟩ := sextet_eq_ok hb
  obtain ⟨hu, rfl⟩ := sextet_eq_ok hc
  obtain ⟨hv, rfl⟩ := sextet_eq_ok hd
  exact encode_quad hs ht hu hv rest

/-! ### The last quad

Here two more shapes are possible, and in each of them the check on the spare bits is
what leaves one spelling: without it the bits would be dropped and the symbol that
carried them could not be told from the one without.
-/

theorem lastQuad_unpadded {a b c d : Char} (i : Nat) (hc : c ≠ '=') (hd : d ≠ '=') :
    lastQuad i a b c d = quad i a b c d := by
  simp only [lastQuad, quad, if_neg hc, if_neg hd]

theorem lastQuad_padded_once {a b c : Char} (i : Nat) (hc : c ≠ '=') :
    lastQuad i a b c '=' = (do
      let s ← sextet a i
      let t ← sextet b (i + 1)
      let u ← sextet c (i + 2)
      if u % 4 = 0 then
        .ok [UInt8.ofNat (s * 4 + t / 16), UInt8.ofNat (t % 16 * 16 + u / 4)]
      else .error (.lastSymbol c (i + 2))) := by
  simp only [lastQuad, if_neg hc]
  rfl

theorem lastQuad_padded_twice (i : Nat) (a b : Char) :
    lastQuad i a b '=' '=' = (do
      let s ← sextet a i
      let t ← sextet b (i + 1)
      if t % 16 = 0 then .ok [UInt8.ofNat (s * 4 + t / 16)]
      else .error (.lastSymbol b (i + 1))) := rfl

/-- Padding is never followed by a symbol. -/
theorem lastQuad_pad_first {i : Nat} {a b d : Char} {bytes : List UInt8}
    (h : lastQuad i a b '=' d = .ok bytes) : d = '=' := by
  obtain ⟨s, -, h⟩ := bind_eq_ok.1 h
  obtain ⟨t, -, h⟩ := bind_eq_ok.1 h
  rw [if_pos rfl] at h
  by_cases hd : d = '='
  · exact hd
  · rw [if_neg hd] at h
    cases h

theorem lastQuad_encode_one (i : Nat) (x : UInt8) :
    lastQuad i (symbol (x.toNat / 4)) (symbol (x.toNat % 4 * 16)) '=' '=' = .ok [x] := by
  have hx := x.toNat_lt
  rw [lastQuad_padded_twice, sextet_symbol (by omega), sextet_symbol (by omega)]
  show (if x.toNat % 4 * 16 % 16 = 0 then Except.ok [UInt8.ofNat _] else _) = _
  rw [if_pos (by omega), ofNat_eq (x := x) (by omega)]

theorem lastQuad_encode_two (i : Nat) (x y : UInt8) :
    lastQuad i (symbol (x.toNat / 4)) (symbol (x.toNat % 4 * 16 + y.toNat / 16))
      (symbol (y.toNat % 16 * 4)) '=' = .ok [x, y] := by
  have hx := x.toNat_lt
  have hy := y.toNat_lt
  rw [lastQuad_padded_once i (symbol_ne_pad (by omega)), sextet_symbol (by omega),
    sextet_symbol (by omega), sextet_symbol (by omega)]
  show (if y.toNat % 16 * 4 % 4 = 0 then Except.ok [UInt8.ofNat _, UInt8.ofNat _] else _) = _
  rw [if_pos (by omega), ofNat_eq (x := x) (by omega), ofNat_eq (x := y) (by omega)]

theorem encode_of_padded_twice {i : Nat} {a b : Char} {bytes : List UInt8}
    (h : lastQuad i a b '=' '=' = .ok bytes) : encode bytes = [a, b, '=', '='] := by
  rw [lastQuad_padded_twice] at h
  obtain ⟨s, ha, h⟩ := bind_eq_ok.1 h
  obtain ⟨t, hb, h⟩ := bind_eq_ok.1 h
  split at h
  · rename_i hspare
    cases h
    obtain ⟨hs, rfl⟩ := sextet_eq_ok ha
    obtain ⟨ht, rfl⟩ := sextet_eq_ok hb
    rw [encode, toNat_ofNat (by omega), show (s * 4 + t / 16) / 4 = s by omega,
      show (s * 4 + t / 16) % 4 * 16 = t by omega]
  · cases h

theorem encode_of_padded_once {i : Nat} {a b c : Char} {bytes : List UInt8} (hc : c ≠ '=')
    (h : lastQuad i a b c '=' = .ok bytes) : encode bytes = [a, b, c, '='] := by
  rw [lastQuad_padded_once i hc] at h
  obtain ⟨s, ha, h⟩ := bind_eq_ok.1 h
  obtain ⟨t, hb, h⟩ := bind_eq_ok.1 h
  obtain ⟨u, hu, h⟩ := bind_eq_ok.1 h
  split at h
  · rename_i hspare
    cases h
    obtain ⟨hs, rfl⟩ := sextet_eq_ok ha
    obtain ⟨ht, rfl⟩ := sextet_eq_ok hb
    obtain ⟨hlt, rfl⟩ := sextet_eq_ok hu
    rw [encode, toNat_ofNat (by omega), toNat_ofNat (by omega),
      show (s * 4 + t / 16) / 4 = s by omega,
      show (s * 4 + t / 16) % 4 * 16 + (t % 16 * 16 + u / 4) / 16 = t by omega,
      show (t % 16 * 16 + u / 4) % 16 * 4 = u by omega]
  · cases h

theorem encode_of_lastQuad {i : Nat} {a b c d : Char} {bytes : List UInt8}
    (h : lastQuad i a b c d = .ok bytes) : encode bytes = [a, b, c, d] := by
  by_cases hc : c = '='
  · subst hc
    obtain rfl := lastQuad_pad_first h
    exact encode_of_padded_twice h
  · by_cases hd : d = '='
    · subst hd
      exact encode_of_padded_once hc h
    · rw [lastQuad_unpadded i hc hd] at h
      have hq := encode_of_quad h []
      rwa [List.append_nil] at hq

/-! ### Whole texts -/

theorem length_encode_mod (bytes : List UInt8) : (encode bytes).length % 4 = 0 := by
  fun_induction encode bytes with
  | case1 => rfl
  | case2 a => simp
  | case3 a b => simp
  | case4 a b c rest ih =>
      simp only [List.length_cons]
      omega

/-- Decoding reads back what was written, wherever the text begins. -/
theorem decodeFrom_encode (i : Nat) (bytes : List UInt8) :
    decodeFrom i (encode bytes) = .ok bytes := by
  fun_induction encode bytes generalizing i with
  | case1 => rfl
  | case2 a => exact lastQuad_encode_one i a
  | case3 a b => exact lastQuad_encode_two i a b
  | case4 a b c rest ih =>
      cases hrest : encode rest with
      | nil =>
          have hr := ih 0
          rw [hrest] at hr
          cases hr
          have hc := c.toNat_lt
          rw [decodeFrom, lastQuad_unpadded i (symbol_ne_pad (by omega))
            (symbol_ne_pad (by omega))]
          exact quad_encode i a b c
      | cons d ds =>
          rw [decodeFrom, quad_encode, ← hrest]
          · show (decodeFrom (i + 4) (encode rest) >>= fun bytes =>
              Except.ok ([a, b, c] ++ bytes)) = _
            rw [ih]
            rfl
          · simp

theorem encode_of_decodeFrom {i : Nat} {cs : List Char} {bytes : List UInt8}
    (h : decodeFrom i cs = .ok bytes) : encode bytes = cs := by
  fun_induction decodeFrom i cs generalizing bytes with
  | case1 =>
      cases h
      rfl
  | case2 i a b c d => exact encode_of_lastQuad h
  | case3 i a b c d rest _ ih =>
      obtain ⟨first, hfirst, h⟩ := bind_eq_ok.1 h
      obtain ⟨others, hothers, h⟩ := bind_eq_ok.1 h
      cases h
      rw [encode_of_quad hfirst, ih hothers]
  | case4 => cases h

/-- **A text decodes to the bytes whose encoding it is, and to nothing else.** -/
theorem decode_eq_ok_iff {cs : List Char} {bytes : List UInt8} :
    decode cs = .ok bytes ↔ encode bytes = cs := by
  unfold decode
  constructor
  · intro h
    split at h
    · exact encode_of_decodeFrom h
    · cases h
  · rintro rfl
    rw [if_pos (length_encode_mod bytes)]
    exact decodeFrom_encode 0 bytes

/-- Whole quads of an encoding encode the bytes that they stand for. -/
theorem take_encode (k : Nat) (bytes : List UInt8) :
    (encode bytes).take (4 * k) = encode (bytes.take (3 * k)) := by
  fun_induction encode bytes generalizing k with
  | case1 => simp [encode]
  | case2 a =>
      cases k with
      | zero => rfl
      | succ k => simp [Nat.mul_succ, encode]
  | case3 a b =>
      cases k with
      | zero => rfl
      | succ k => simp [Nat.mul_succ, encode]
  | case4 a b c rest ih =>
      cases k with
      | zero => rfl
      | succ k => simp [Nat.mul_succ, encode, ih]

theorem encode_injective {bytes bytes' : List UInt8} (h : encode bytes = encode bytes') :
    bytes = bytes' := by
  have hd := decode_eq_ok_iff.2 h
  rw [decode_eq_ok_iff.2 rfl] at hd
  cases hd
  rfl

/-! ### Faults

A text that divides into quads is never called misaligned: whatever is wrong with it is
wrong inside a quad.
-/

theorem sextet_ne_misaligned (c : Char) (i : Nat) : sextet c i ≠ .error .misaligned := by
  unfold sextet
  split
  · simp
  · simp

theorem quad_ne_misaligned (i : Nat) (a b c d : Char) : quad i a b c d ≠ .error .misaligned := by
  intro h
  rcases bind_eq_error.mp h with h | ⟨s, -, h⟩
  · exact sextet_ne_misaligned _ _ h
  rcases bind_eq_error.mp h with h | ⟨t, -, h⟩
  · exact sextet_ne_misaligned _ _ h
  rcases bind_eq_error.mp h with h | ⟨u, -, h⟩
  · exact sextet_ne_misaligned _ _ h
  rcases bind_eq_error.mp h with h | ⟨v, -, h⟩
  · exact sextet_ne_misaligned _ _ h
  · cases h

theorem lastQuad_ne_misaligned (i : Nat) (a b c d : Char) :
    lastQuad i a b c d ≠ .error .misaligned := by
  by_cases hc : c = '='
  · intro h
    rcases bind_eq_error.mp h with h | ⟨s, -, h⟩
    · exact sextet_ne_misaligned _ _ h
    rcases bind_eq_error.mp h with h | ⟨t, -, h⟩
    · exact sextet_ne_misaligned _ _ h
    rw [if_pos hc] at h
    split at h
    · split at h <;> cases h
    · cases h
  · by_cases hd : d = '='
    · rw [hd, lastQuad_padded_once i hc]
      intro h
      rcases bind_eq_error.mp h with h | ⟨s, -, h⟩
      · exact sextet_ne_misaligned _ _ h
      rcases bind_eq_error.mp h with h | ⟨t, -, h⟩
      · exact sextet_ne_misaligned _ _ h
      rcases bind_eq_error.mp h with h | ⟨u, -, h⟩
      · exact sextet_ne_misaligned _ _ h
      split at h <;> cases h
    · rw [lastQuad_unpadded i hc hd]
      exact quad_ne_misaligned i a b c d

theorem decodeFrom_ne_misaligned {i : Nat} {cs : List Char} (h : cs.length % 4 = 0) :
    decodeFrom i cs ≠ .error .misaligned := by
  fun_induction decodeFrom i cs with
  | case1 => simp
  | case2 i a b c d => exact lastQuad_ne_misaligned i a b c d
  | case3 i a b c d rest _ ih =>
      simp only [List.length_cons] at h
      intro herror
      rcases bind_eq_error.mp herror with herror | ⟨first, -, herror⟩
      · exact quad_ne_misaligned i a b c d herror
      rcases bind_eq_error.mp herror with herror | ⟨others, -, herror⟩
      · exact ih (by omega) herror
      · cases herror
  | case4 cs i hnil hfour hmore =>
      rcases cs with _ | ⟨a, _ | ⟨b, _ | ⟨c, _ | ⟨d, rest⟩⟩⟩⟩
      · exact absurd rfl hnil
      · cases h
      · cases h
      · cases h
      · exact absurd rfl (hmore a b c d rest)

/-- **A text is misaligned exactly if its length is not divisible by four.** -/
theorem decode_eq_misaligned_iff {cs : List Char} :
    decode cs = .error .misaligned ↔ cs.length % 4 ≠ 0 := by
  unfold decode
  split
  · rename_i h
    simp [h, decodeFrom_ne_misaligned h]
  · rename_i h
    simp [h]

/-- Encoding writes nothing but symbols and padding. -/
theorem isCodeChar_of_mem_encode {bytes : List UInt8} {c : Char} (h : c ∈ encode bytes) :
    isCodeChar c = true := by
  fun_induction encode bytes with
  | case1 => cases h
  | case2 x =>
      have hx := x.toNat_lt
      simp only [List.mem_cons, List.not_mem_nil, or_false] at h
      rcases h with rfl | rfl | rfl | rfl
      · exact isCodeChar_symbol (by omega)
      · exact isCodeChar_symbol (by omega)
      · rfl
      · rfl
  | case3 x y =>
      have hx := x.toNat_lt
      have hy := y.toNat_lt
      simp only [List.mem_cons, List.not_mem_nil, or_false] at h
      rcases h with rfl | rfl | rfl | rfl
      · exact isCodeChar_symbol (by omega)
      · exact isCodeChar_symbol (by omega)
      · exact isCodeChar_symbol (by omega)
      · rfl
  | case4 x y z rest ih =>
      have hx := x.toNat_lt
      have hy := y.toNat_lt
      have hz := z.toNat_lt
      simp only [List.mem_cons] at h
      rcases h with rfl | rfl | rfl | rfl | h
      · exact isCodeChar_symbol (by omega)
      · exact isCodeChar_symbol (by omega)
      · exact isCodeChar_symbol (by omega)
      · exact isCodeChar_symbol (by omega)
      · exact ih h

end TensorText.Base64

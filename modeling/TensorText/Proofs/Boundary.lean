/-
Where characters begin among their bytes.

A character that is written with one byte is this byte, and every byte of any other lies above
them all.  The first byte of a character is never one that can follow another.  So an index
behind the bytes of whole characters is a boundary, and what is cut out between two such is the
text of the characters in between.
-/
import TensorText.Proofs.Utf8
import TensorText.Tape

namespace TensorText.Tape

/-- The bytes of characters in a row. -/
def bytes (cs : List Char) : List UInt8 := cs.flatMap String.utf8EncodeChar

@[simp] theorem bytes_nil : bytes [] = [] := rfl

@[simp] theorem bytes_cons (c : Char) (cs : List Char) :
    bytes (c :: cs) = String.utf8EncodeChar c ++ bytes cs := rfl

@[simp] theorem bytes_append (cs ds : List Char) : bytes (cs ++ ds) = bytes cs ++ bytes ds :=
  List.flatMap_append

theorem encode_eq (text : String) : Utf8.encode text = bytes text.toList := rfl

theorem decode_bytes (cs : List Char) : Utf8.decode (bytes cs) = .ok (String.ofList cs) := by
  rw [Utf8.decode, bytes, Utf8.decodeFrom_encode]
  rfl

theorem length_bytes_le (cs ds : List Char) :
    (bytes cs).length ≤ (bytes (cs ++ ds)).length := by
  simp

/-! ### The bytes of one character -/

theorem encodeChar_of_lt {c : Char} (h : c.toNat < 128) :
    String.utf8EncodeChar c = [UInt8.ofNat c.toNat] := by
  rw [Utf8.encodeChar_eq rfl, if_pos (by omega)]

/-- Every byte of a longer spelling lies above those that stand for themselves. -/
theorem le_of_mem_encodeChar {c : Char} (h : 128 ≤ c.toNat) :
    ∀ b ∈ String.utf8EncodeChar c, 128 ≤ b.toNat := by
  have hbyte : ∀ n, 128 ≤ n → n < 256 → 128 ≤ (UInt8.ofNat n).toNat := by
    intro n hn hlt
    rwa [Utf8.toNat_byte hlt]
  rw [Utf8.encodeChar_eq rfl, if_neg (by omega)]
  split
  · simp only [List.forall_mem_cons]
    exact ⟨hbyte _ (by omega) (by omega), hbyte _ (by omega) (by omega), nofun⟩
  split
  · simp only [List.forall_mem_cons]
    exact ⟨hbyte _ (by omega) (by omega), hbyte _ (by omega) (by omega),
      hbyte _ (by omega) (by omega), nofun⟩
  · simp only [List.forall_mem_cons]
    exact ⟨hbyte _ (by omega) (by omega), hbyte _ (by omega) (by omega),
      hbyte _ (by omega) (by omega), hbyte _ (by omega) (by omega), nofun⟩

/-- The first byte of a character is none that follows another. -/
theorem exists_encodeChar (c : Char) : ∃ b bs, String.utf8EncodeChar c = b :: bs ∧
    Utf8.isTail b = false := by
  have hlead : ∀ n, n < 128 ∨ 192 ≤ n → n < 256 → Utf8.isTail (UInt8.ofNat n) = false := by
    intro n hn hlt
    rw [Bool.eq_false_iff, Ne, Utf8.isTail_iff, Utf8.toNat_byte hlt]
    omega
  rw [Utf8.encodeChar_eq rfl]
  split
  · exact ⟨_, _, rfl, hlead _ (by omega) (by omega)⟩
  split
  · exact ⟨_, _, rfl, hlead _ (by omega) (by omega)⟩
  split
  · exact ⟨_, _, rfl, hlead _ (by omega) (by omega)⟩
  · exact ⟨_, _, rfl, hlead _ (by omega) (by omega)⟩

theorem length_bytes_pos {cs : List Char} (h : cs ≠ []) : 0 < (bytes cs).length := by
  obtain ⟨c, cs, rfl⟩ := List.exists_cons_of_ne_nil h
  obtain ⟨b, bs, hc, -⟩ := exists_encodeChar c
  rw [bytes_cons, hc]
  exact Nat.succ_pos _

theorem length_bytes_of_lt {cs : List Char} (h : ∀ c ∈ cs, c.toNat < 128) :
    (bytes cs).length = cs.length := by
  induction cs with
  | nil => rfl
  | cons c cs ih =>
      obtain ⟨hc, hcs⟩ := List.forall_mem_cons.mp h
      rw [bytes_cons, encodeChar_of_lt hc, List.length_append, ih hcs, List.length_cons,
        Nat.add_comm]
      rfl

theorem ne_zero_of_mem_bytes {cs : List Char} (h : '\x00' ∉ cs) : ∀ b ∈ bytes cs, b ≠ 0 := by
  rintro b hb rfl
  obtain ⟨c, hc, hzero⟩ := List.mem_flatMap.mp hb
  exact h (Utf8.zero_mem_encodeChar.mp hzero ▸ hc)

/-! ### Boundaries -/

theorem isBoundary_length (cs ds : List Char) :
    isBoundary (bytes (cs ++ ds)) (bytes cs).length = true := by
  rw [isBoundary, Bool.or_eq_true]
  refine Or.inr ?_
  cases ds with
  | nil => simp
  | cons d ds =>
      obtain ⟨b, bs, hd, hb⟩ := exists_encodeChar d
      rw [bytes_append, bytes_cons, hd, List.getElem?_append_right (Nat.le_refl _), Nat.sub_self]
      simp [hb]

/-- What lies between the bytes of whole characters can be cut out. -/
theorem isSound_cut (a m z : List Char) :
    Cut.IsSound (bytes (a ++ m ++ z)) ⟨(bytes a).length, (bytes (a ++ m)).length⟩ := by
  refine ⟨length_bytes_le a m, length_bytes_le _ z, ?_, isBoundary_length _ z⟩
  rw [List.append_assoc]
  exact isBoundary_length a (m ++ z)

theorem slice_bytes (a m z : List Char) :
    ((bytes (a ++ m ++ z)).take (bytes (a ++ m)).length).drop (bytes a).length = bytes m := by
  rw [bytes_append (a ++ m) z, List.take_left, bytes_append a m, List.drop_left]

/-- **A cut between characters yields the text between them.** -/
theorem scan_cut (a m z : List Char) (head : Nat) :
    (cut (bytes a).length (bytes (a ++ m)).length).scan (bytes (a ++ m ++ z)) head =
      ⟨[], [⟨(bytes a).length, (bytes (a ++ m)).length⟩], [], head, .ok (String.ofList m)⟩ := by
  rw [cut]
  dsimp only
  rw [if_pos (isSound_cut a m z), slice_bytes, decode_bytes]
  rfl

/-! ### The byte under the head -/

/-- The byte that a character begins with, as the head sees it. -/
def lead (c : Char) : Option Char := byteAt? (String.utf8EncodeChar c) 0

/-- Behind whole characters the head sees the first byte of the next one. -/
theorem byteAt?_bytes (u s : List Char) :
    byteAt? (bytes (u ++ s)) (bytes u).length = s.head?.bind lead := by
  rw [byteAt?, bytes_append, List.getElem?_append_right (Nat.le_refl _), Nat.sub_self]
  cases s with
  | nil => rfl
  | cons c s =>
      obtain ⟨b, bs, hc, -⟩ := exists_encodeChar c
      rw [List.head?_cons, Option.bind_some, lead, byteAt?, bytes_cons, hc]
      rfl

theorem toNat_byteAt {tape : List UInt8} {i : Nat} {b : UInt8} (h : tape[i]? = some b) :
    ∃ c, byteAt? tape i = some c ∧ c.toNat = b.toNat := by
  have hb := b.toNat_lt
  exact ⟨Char.ofNat b.toNat, by rw [byteAt?, h]; rfl, Utf8.toNat_charOfNat (by omega)⟩

/-- Of a character with several bytes the head sees none that could be a character alone. -/
theorem exists_lead (c : Char) : ∃ b, lead c = some b ∧ (128 ≤ c.toNat → 128 ≤ b.toNat) := by
  obtain ⟨b, bs, hc, -⟩ := exists_encodeChar c
  have hfirst : (String.utf8EncodeChar c)[0]? = some b := by
    rw [hc]
    rfl
  obtain ⟨d, hd, hdb⟩ := toNat_byteAt hfirst
  refine ⟨d, hd, fun h => ?_⟩
  rw [hdb]
  exact le_of_mem_encodeChar h b (by rw [hc]; exact List.mem_cons_self)

theorem lead_of_lt {c : Char} (h : c.toNat < 128) : lead c = some c := by
  rw [lead, byteAt?, encodeChar_of_lt h]
  show some (Char.ofNat (UInt8.ofNat c.toNat).toNat) = some c
  rw [Utf8.toNat_byte (by omega), Char.ofNat_toNat]

/-- A character of one byte is told from every other by the byte under the head. -/
theorem lead_eq_iff {c d : Char} (hc : c.toNat < 128) : lead d = some c ↔ d = c := by
  constructor
  · intro h
    by_cases hd : d.toNat < 128
    · rw [lead_of_lt hd] at h
      exact Option.some.inj h
    · obtain ⟨b, hb, hhigh⟩ := exists_lead d
      have := hhigh (Nat.not_lt.mp hd)
      rw [hb] at h
      cases h
      omega
  · rintro rfl
    exact lead_of_lt hc

theorem bind_lead_eq_some_iff {c : Char} (hc : c.toNat < 128) {s : List Char} :
    s.head?.bind lead = some c ↔ s.head? = some c := by
  cases s with
  | nil => exact Iff.rfl
  | cons d s => rw [List.head?_cons, Option.bind_some, lead_eq_iff hc, Option.some.injEq]

theorem bind_lead_eq_none_iff {s : List Char} : s.head?.bind lead = none ↔ s = [] := by
  cases s with
  | nil => exact iff_of_true rfl rfl
  | cons d s =>
      obtain ⟨b, hb, -⟩ := exists_lead d
      rw [List.head?_cons, Option.bind_some, hb]
      simp

end TensorText.Tape

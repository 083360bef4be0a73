/-
Positions told from the text alone.

A position is reached by reading on, but it can be told without reading: the line is the number of
newlines up to the character, itself included, and the column is what stands behind the last of
them.  Both follow by taking characters off the end, as each one adds to what was reached before
it.

A head that counts bytes is between two characters exactly where whole characters lie in front of
it.  There it is located as the character behind it is, and farther on means later: a position and
the text give the place of the head back.
-/
import Mathlib.Data.List.DropRight
import TensorText.Proofs.Head

namespace TensorText

namespace Position

/-- The characters behind the last newline, all of them if there is none. -/
def lastLine (cs : List Char) : List Char := cs.rtakeWhile fun c => c != '\n'

theorem lastLine_newline (cs : List Char) : lastLine (cs ++ ['\n']) = [] :=
  List.rtakeWhile_concat_neg _ _ _ (by decide)

theorem lastLine_concat (cs : List Char) {c : Char} (h : c ≠ '\n') :
    lastLine (cs ++ [c]) = lastLine cs ++ [c] :=
  List.rtakeWhile_concat_pos _ _ _ (bne_iff_ne.mpr h)

/-- **Lines are counted by their newlines, and columns by what stands behind the last of them.** -/
theorem after_eq (cs : List Char) :
    after cs = ⟨1 + cs.count '\n', 1 + (lastLine cs).length⟩ := by
  induction cs using List.reverseRecOn with
  | nil => rfl
  | append_singleton cs c ih =>
      have hstep : after (cs ++ [c]) = (after cs).advance c := List.foldl_concat ..
      rw [hstep, ih, advance, List.count_append]
      split
      · rename_i hnewline
        rw [hnewline, lastLine_newline, List.count_singleton_self]
        rfl
      · rename_i hother
        rw [lastLine_concat cs hother, List.length_append, List.count_singleton, if_neg (by simpa)]
        rfl

end Position

namespace Tape

open Position

/-! ### Where whole characters end -/

/-- All bytes of a character but the first are such that can follow another. -/
theorem isTail_of_encodeChar {c : Char} {b : UInt8} {bs : List UInt8}
    (h : String.utf8EncodeChar c = b :: bs) : ∀ x ∈ bs, Utf8.isTail x = true := by
  have htail := Utf8.isTail_ofNat
  rw [Utf8.encodeChar_eq rfl] at h
  split at h
  · cases h
    exact nofun
  split at h
  · cases h
    exact List.forall_mem_cons.mpr ⟨htail _, nofun⟩
  split at h
  · cases h
    exact List.forall_mem_cons.mpr ⟨htail _, List.forall_mem_cons.mpr ⟨htail _, nofun⟩⟩
  · cases h
    exact List.forall_mem_cons.mpr ⟨htail _, List.forall_mem_cons.mpr ⟨htail _,
      List.forall_mem_cons.mpr ⟨htail _, nofun⟩⟩⟩

/-- No boundary lies within a character. -/
theorem length_le_of_isBoundary {c : Char} {rest : List UInt8} {h : Nat} (hpos : 0 < h)
    (hb : isBoundary (String.utf8EncodeChar c ++ rest) h = true) :
    (String.utf8EncodeChar c).length ≤ h := by
  by_contra hlt
  obtain ⟨b, bs, hbytes, -⟩ := exists_encodeChar c
  obtain ⟨k, rfl⟩ : ∃ k, h = k + 1 := ⟨h - 1, by omega⟩
  rw [hbytes, List.length_cons] at hlt
  obtain ⟨x, hx⟩ : ∃ x, bs[k]? = some x := ⟨_, List.getElem?_eq_getElem (by omega)⟩
  have htail := isTail_of_encodeChar hbytes x (List.mem_of_getElem? hx)
  rw [hbytes, isBoundary, List.cons_append, List.getElem?_cons_succ,
    List.getElem?_append_left (by omega), hx] at hb
  simp [htail] at hb

/-- What lies in front has no bearing on a boundary. -/
theorem isBoundary_of_append {before tape : List UInt8} {k : Nat}
    (h : isBoundary (before ++ tape) (before.length + k) = true) : isBoundary tape k = true := by
  rcases Nat.eq_zero_or_pos k with rfl | hpos
  · rfl
  · have hstart : (before.length + k == 0) = false := beq_eq_false_iff_ne.mpr (by omega)
    rw [isBoundary, List.getElem?_append_right (Nat.le_add_right _ _), Nat.add_sub_cancel_left,
      List.length_append, hstart, Bool.false_or] at h
    rw [isBoundary, Bool.or_eq_true]
    refine Or.inr ?_
    cases hbyte : tape[k]? with
    | none => simpa [hbyte] using h
    | some b => simpa [hbyte] using h

/-- **A boundary is where whole characters end.** -/
theorem isBoundary_bytes_iff {cs : List Char} {h : Nat} :
    isBoundary (bytes cs) h = true ↔ ∃ u s, cs = u ++ s ∧ h = (bytes u).length := by
  constructor
  · intro hb
    induction cs generalizing h with
    | nil =>
        refine ⟨[], [], rfl, ?_⟩
        simpa [isBoundary] using hb
    | cons c cs ih =>
        rcases Nat.eq_zero_or_pos h with rfl | hpos
        · exact ⟨[], c :: cs, rfl, rfl⟩
        · have hle := length_le_of_isBoundary hpos hb
          obtain ⟨k, rfl⟩ := Nat.exists_eq_add_of_le hle
          obtain ⟨u, s, rfl, rfl⟩ := ih (isBoundary_of_append hb)
          exact ⟨c :: u, s, rfl, (List.length_append ..).symm⟩
  · rintro ⟨u, s, rfl, rfl⟩
    exact isBoundary_length u s

/-- More bytes are those of more characters. -/
theorem length_lt_of_bytes {u v s r : List Char} (hsame : u ++ s = v ++ r)
    (h : (bytes u).length < (bytes v).length) : u.length < v.length := by
  by_contra hle
  have hshorter : v <+: u :=
    List.prefix_of_prefix_length_le ⟨r, hsame.symm⟩ (List.prefix_append u s) (not_lt.mp hle)
  obtain ⟨w, rfl⟩ := hshorter
  exact absurd h (not_lt.mpr (length_bytes_le v w))

/-! ### Locating the head -/

/-- The characters in front of a place and the one behind it, the terminator at the end. -/
def seen (u s : List Char) : List Char := u ++ [s.head?.getD '\x00']

theorem ofIndex_eq_seen (u s : List Char) : ofIndex (u ++ s) u.length =
    ⟨1 + (seen u s).count '\n', 1 + (lastLine (seen u s)).length⟩ := by
  have hlast : ofIndex (u ++ s) u.length = after (seen u s) := by
    rw [ofIndex_append, seen, after, after, List.foldl_concat]
  rw [hlast, after_eq]

theorem result_locate (u s : List Char) :
    (locate.scan (bytes (u ++ s)) (bytes u).length).result =
      .ok (ofIndex (u ++ s) u.length) :=
  (agrees_locate u s).result_eq

/-- **Farther on means later**, whatever characters lie in between. -/
theorem locate_lt {cs : List Char} {h h' : Nat} (hb : isBoundary (bytes cs) h = true)
    (hb' : isBoundary (bytes cs) h' = true) (hlt : h < h') :
    ∃ p p', (locate.scan (bytes cs) h).result = .ok p ∧
      (locate.scan (bytes cs) h').result = .ok p' ∧ p < p' := by
  obtain ⟨u, s, rfl, rfl⟩ := isBoundary_bytes_iff.mp hb
  obtain ⟨v, r, hsame, rfl⟩ := isBoundary_bytes_iff.mp hb'
  have hlength := length_lt_of_bytes hsame hlt
  have hlocate' := result_locate v r
  rw [← hsame] at hlocate'
  refine ⟨_, _, result_locate u s, hlocate', ofIndex_lt hlength ?_⟩
  rw [hsame, List.length_append]
  exact Nat.le_add_right _ _

theorem locate_inj {cs : List Char} {h h' : Nat} (hb : isBoundary (bytes cs) h = true)
    (hb' : isBoundary (bytes cs) h' = true)
    (hsame : (locate.scan (bytes cs) h).result = (locate.scan (bytes cs) h').result) : h = h' := by
  rcases Nat.lt_trichotomy h h' with hlt | heq | hlt
  · obtain ⟨p, p', hp, hp', hpp⟩ := locate_lt hb hb' hlt
    rw [hp, hp'] at hsame
    cases hsame
    exact absurd hpp (Position.lt_irrefl _)
  · exact heq
  · obtain ⟨p', p, hp', hp, hpp⟩ := locate_lt hb' hb hlt
    rw [hp, hp'] at hsame
    cases hsame
    exact absurd hpp (Position.lt_irrefl _)

/--
**Where the head is, is told by the text up to there.**  Between the characters `u` and `s` of a
text it is located on the line after as many newlines as there are up to the character under it,
and as many columns on as there are characters behind the last of them.  Of two boundaries the one
farther on is located later, so that no other has its position.
-/
theorem locate_boundary (text : String) :
    (∀ h, isBoundary (Utf8.encode text) h = true ↔
      ∃ u s, text.toList = u ++ s ∧ h = (bytes u).length) ∧
    (∀ u s, text.toList = u ++ s → ∃ p : Position,
      (locate.scan (Utf8.encode text) (bytes u).length).result = .ok p ∧
        p = ofIndex text.toList u.length ∧ p.line = 1 + (seen u s).count '\n' ∧
        p.column = 1 + (lastLine (seen u s)).length) ∧
    ∀ h h', isBoundary (Utf8.encode text) h = true → isBoundary (Utf8.encode text) h' = true →
      (h < h' → ∃ p p', (locate.scan (Utf8.encode text) h).result = .ok p ∧
        (locate.scan (Utf8.encode text) h').result = .ok p' ∧ p < p') ∧
      ((locate.scan (Utf8.encode text) h).result = (locate.scan (Utf8.encode text) h').result →
        h = h') := by
  rw [encode_eq]
  refine ⟨fun h => isBoundary_bytes_iff, fun u s htext => ?_, fun h h' hb hb' => ?_⟩
  · rw [htext]
    refine ⟨_, result_locate u s, rfl, ?_, ?_⟩
    · rw [ofIndex_eq_seen]
    · rw [ofIndex_eq_seen]
  · exact ⟨locate_lt hb hb', locate_inj hb hb'⟩

/-- A character of two bytes, and a newline under the head: it is located at the beginning of the
next line, and the character behind it later. -/
theorem locate_boundary_newline :
    "é\nx".toList = ['é'] ++ ['\n', 'x'] ∧
      (locate.scan (Utf8.encode "é\nx") 2).result = .ok ⟨2, 1⟩ ∧
      isBoundary (Utf8.encode "é\nx") 2 = true ∧ isBoundary (Utf8.encode "é\nx") 4 = true ∧
      ∃ p p', (locate.scan (Utf8.encode "é\nx") 2).result = .ok p ∧
        (locate.scan (Utf8.encode "é\nx") 4).result = .ok p' ∧ p < p' := by
  have htext : "é\nx".toList = ['é'] ++ ['\n', 'x'] := rfl
  obtain ⟨-, hplace, horder⟩ := locate_boundary "é\nx"
  obtain ⟨p, hp, -, hline, hcolumn⟩ := hplace _ _ htext
  have hposition : p = ⟨2, 1⟩ := by
    obtain ⟨line, column⟩ := p
    simp only at hline hcolumn
    subst hline hcolumn
    decide
  have htwo : isBoundary (Utf8.encode "é\nx") 2 = true := by decide
  have hfour : isBoundary (Utf8.encode "é\nx") 4 = true := by decide
  rw [hposition] at hp
  exact ⟨htext, hp, htwo, hfour, (horder 2 4 htwo hfour).1 (by decide)⟩

end Tape

end TensorText

/-
Which runs of base64 characters are payloads.

A run takes in every character of the alphabet and `=` wherever it stands, so much reaches the
decoder that no encoding looks like.  `exists_encode_iff` says what sets encodings apart, without
decoding: whole quads, `=` at the end of the last one only, and no bits left over in the symbol
before it.  Forth it follows the encoder, whose output has one of three endings; back it follows
the decoder quad by quad, and each of the three endings leads through its last step.

With it a run has three outcomes, told by its characters alone, and runs that are accepted are as
many as byte strings.
-/
import TensorText.Proofs.Fragment

namespace TensorText

namespace Base64

/-! ### The alphabet -/

theorem isCodeChar_iff {c : Char} : isCodeChar c = true ↔
    ('A' ≤ c ∧ c ≤ 'Z') ∨ ('a' ≤ c ∧ c ≤ 'z') ∨ ('0' ≤ c ∧ c ≤ '9') ∨
      c = '+' ∨ c = '/' ∨ c = '=' := by
  have hupper : c.isUpper = true ↔ 'A' ≤ c ∧ c ≤ 'Z' := decide_eq_true_iff
  have hlower : c.isLower = true ↔ 'a' ≤ c ∧ c ≤ 'z' := by
    show (decide ('a' ≤ c) && decide (c ≤ 'z')) = true ↔ _
    rw [Bool.and_eq_true, decide_eq_true_iff, decide_eq_true_iff]
  have hdigit : c.isDigit = true ↔ '0' ≤ c ∧ c ≤ '9' := by
    show (decide ('0' ≤ c) && decide (c ≤ '9')) = true ↔ _
    rw [Bool.and_eq_true, decide_eq_true_iff, decide_eq_true_iff]
  have hletter : c.isAlphanum = (c.isUpper || c.isLower || c.isDigit) := rfl
  simp only [isCodeChar, hletter, Bool.or_eq_true, beq_iff_eq, hupper, hlower, hdigit, or_assoc]

/-- A character of the alphabet that is no padding has a value. -/
theorem exists_sextet {c : Char} (h : isCodeChar c = true) (hpad : c ≠ '=') :
    ∃ n, sextet? c = some n := by
  cases hs : sextet? c with
  | some n => exact ⟨n, rfl⟩
  | none =>
      have hletter := isCodeChar_iff.mp h
      grind [sextet?]

theorem ne_pad_of_sextet {c : Char} {n : Nat} (h : sextet? c = some n) : c ≠ '=' := by
  rintro rfl
  cases h

/-! ### What sets encodings apart -/

/-- `=` stands at the end only, and there at most twice. -/
def PaddedAtEnd (cs : List Char) : Prop :=
  ∃ v : List Char, '=' ∉ v ∧ (cs = v ∨ cs = v ++ ['='] ∨ cs = v ++ ['=', '='])

/-- The last symbol in front of the padding has bits set that belong to no byte: some of its last
two in front of one `=`, some of its last four in front of two. -/
def HasSpareBits (cs : List Char) : Prop :=
  (∃ v c n, cs = v ++ [c, '='] ∧ sextet? c = some n ∧ n % 4 ≠ 0) ∨
    ∃ v c n, cs = v ++ [c, '=', '='] ∧ sextet? c = some n ∧ n % 16 ≠ 0

/-- The three ways in which an encoding ends, behind symbols that make up whole quads. -/
inductive Shape : List Char → Prop
  | whole {v : List Char} (hv : '=' ∉ v) : Shape v
  | once {v : List Char} {c : Char} {n : Nat} (hv : '=' ∉ v) (hc : sextet? c = some n)
      (hn : n % 4 = 0) : Shape (v ++ [c, '='])
  | twice {v : List Char} {c : Char} {n : Nat} (hv : '=' ∉ v) (hc : sextet? c = some n)
      (hn : n % 16 = 0) : Shape (v ++ [c, '=', '='])

theorem Shape.append {w cs : List Char} (hw : '=' ∉ w) (h : Shape cs) : Shape (w ++ cs) := by
  have hboth : ∀ {v : List Char}, '=' ∉ v → '=' ∉ w ++ v := by
    intro v hv hmem
    exact (List.mem_append.mp hmem).elim hw hv
  cases h with
  | whole hv => exact .whole (hboth hv)
  | once hv hc hn =>
      rw [← List.append_assoc]
      exact .once (hboth hv) hc hn
  | twice hv hc hn =>
      rw [← List.append_assoc]
      exact .twice (hboth hv) hc hn

theorem Shape.paddedAtEnd {cs : List Char} (h : Shape cs) : PaddedAtEnd cs := by
  have hsymbol : ∀ {v : List Char} {c : Char} {n : Nat}, '=' ∉ v → sextet? c = some n →
      '=' ∉ v ++ [c] := by
    intro v c n hv hc hmem
    rcases List.mem_append.mp hmem with hmem | hmem
    · exact hv hmem
    · exact ne_pad_of_sextet hc (List.mem_singleton.mp hmem).symm
  cases h with
  | whole hv => exact ⟨_, hv, Or.inl rfl⟩
  | once hv hc hn => exact ⟨_, hsymbol hv hc, Or.inr (Or.inl (by simp))⟩
  | twice hv hc hn => exact ⟨_, hsymbol hv hc, Or.inr (Or.inr (by simp))⟩

theorem Shape.not_hasSpareBits {cs : List Char} (h : Shape cs) : ¬HasSpareBits cs := by
  rintro (⟨w, d, m, hcs, hd, hm⟩ | ⟨w, d, m, hcs, hd, hm⟩)
  · cases h with
    | whole hv => exact hv (by rw [hcs]; simp)
    | once hv hc hn =>
        obtain ⟨-, hends⟩ := List.append_inj' hcs rfl
        cases hends
        rw [hc] at hd
        cases hd
        exact hm hn
    | @twice v c _ hv hc hn =>
        rw [show v ++ [c, '=', '='] = (v ++ [c]) ++ ['=', '='] by simp] at hcs
        obtain ⟨-, hends⟩ := List.append_inj' hcs rfl
        cases hends
        cases hd
  · cases h with
    | whole hv => exact hv (by rw [hcs]; simp)
    | @once v c _ hv hc hn =>
        rw [show w ++ [d, '=', '='] = (w ++ [d]) ++ ['=', '='] by simp] at hcs
        obtain ⟨-, hends⟩ := List.append_inj' hcs rfl
        cases hends
        cases hc
    | twice hv hc hn =>
        obtain ⟨-, hends⟩ := List.append_inj' hcs rfl
        cases hends
        rw [hc] at hd
        cases hd
        exact hm hn

/-- Symbols are no padding. -/
private theorem pad_not_mem_map_symbol {v : List Nat} (h : ∀ n ∈ v, n < 64) :
    '=' ∉ v.map symbol := by
  intro hmem
  obtain ⟨n, hn, heq⟩ := List.mem_map.mp hmem
  exact symbol_ne_pad (h n hn) heq

theorem shape_encode (bytes : List UInt8) : Shape (encode bytes) := by
  fun_induction encode bytes with
  | case1 => exact .whole (by simp)
  | case2 a =>
      have ha := a.toNat_lt
      exact .twice (v := [symbol (a.toNat / 4)])
        (pad_not_mem_map_symbol (v := [a.toNat / 4]) (by simp; omega))
        (sextet?_symbol (by omega)) (by omega)
  | case3 a b =>
      have ha := a.toNat_lt
      have hb := b.toNat_lt
      exact .once (v := [symbol (a.toNat / 4), symbol (a.toNat % 4 * 16 + b.toNat / 16)])
        (pad_not_mem_map_symbol (v := [a.toNat / 4, a.toNat % 4 * 16 + b.toNat / 16])
          (by simp; omega))
        (sextet?_symbol (by omega)) (by omega)
  | case4 a b c rest ih =>
      have ha := a.toNat_lt
      have hb := b.toNat_lt
      have hc := c.toNat_lt
      exact Shape.append (pad_not_mem_map_symbol (v := [a.toNat / 4,
        a.toNat % 4 * 16 + b.toNat / 16, b.toNat % 16 * 4 + c.toNat / 64, c.toNat % 64])
        (by simp; omega)) ih

/-! ### Everything else decodes

What was no encoding would be refused, so it is enough that a run of this form decodes to
something.
-/

theorem exists_sextet_ok {c : Char} (h : isCodeChar c = true) (hpad : c ≠ '=') (i : Nat) :
    ∃ n, sextet? c = some n ∧ sextet c i = .ok n := by
  obtain ⟨n, hn⟩ := exists_sextet h hpad
  exact ⟨n, hn, by rw [sextet, hn]⟩

theorem exists_quad (i : Nat) {a b c d : Char}
    (hcode : ∀ x ∈ [a, b, c, d], isCodeChar x = true) (hpad : '=' ∉ [a, b, c, d]) :
    ∃ bytes, quad i a b c d = .ok bytes := by
  have hne : ∀ x ∈ [a, b, c, d], x ≠ '=' := by
    rintro x hx rfl
    exact hpad hx
  simp only [List.forall_mem_cons] at hcode hne
  obtain ⟨s, -, hs⟩ := exists_sextet_ok hcode.1 hne.1 i
  obtain ⟨t, -, ht⟩ := exists_sextet_ok hcode.2.1 hne.2.1 (i + 1)
  obtain ⟨u, -, hu⟩ := exists_sextet_ok hcode.2.2.1 hne.2.2.1 (i + 2)
  obtain ⟨v, -, hv⟩ := exists_sextet_ok hcode.2.2.2.1 hne.2.2.2.1 (i + 3)
  rw [quad, hs, ht, hu, hv]
  exact ⟨_, rfl⟩

/-- The last quad decodes if only its end is padding and no bits are left over. -/
theorem exists_lastQuad (i : Nat) {a b c d : Char}
    (hcode : ∀ x ∈ [a, b, c, d], isCodeChar x = true) (hpad : PaddedAtEnd [a, b, c, d])
    (hspare : ¬HasSpareBits [a, b, c, d]) : ∃ bytes, lastQuad i a b c d = .ok bytes := by
  obtain ⟨v, hv, rfl | hends | hends⟩ := hpad
  · obtain ⟨hc, hd⟩ : c ≠ '=' ∧ d ≠ '=' := by
      constructor
      · rintro rfl
        exact hv (by simp)
      · rintro rfl
        exact hv (by simp)
    rw [lastQuad_unpadded i hc hd]
    exact exists_quad i hcode hv
  · obtain ⟨rfl, hd⟩ := List.append_inj' (show [a, b, c] ++ [d] = v ++ ['='] from hends) rfl
    cases hd
    simp only [List.mem_cons, List.not_mem_nil, or_false, not_or] at hv
    simp only [List.forall_mem_cons] at hcode
    obtain ⟨s, -, hs⟩ := exists_sextet_ok hcode.1 (Ne.symm hv.1) i
    obtain ⟨t, -, ht⟩ := exists_sextet_ok hcode.2.1 (Ne.symm hv.2.1) (i + 1)
    obtain ⟨u, hvalue, hu⟩ := exists_sextet_ok hcode.2.2.1 (Ne.symm hv.2.2) (i + 2)
    have hu4 : u % 4 = 0 := Decidable.byContradiction fun hne =>
      hspare (Or.inl ⟨[a, b], c, u, rfl, hvalue, hne⟩)
    rw [lastQuad_padded_once i (Ne.symm hv.2.2), hs, ht, hu]
    exact ⟨_, if_pos hu4⟩
  · obtain ⟨rfl, hcd⟩ := List.append_inj' (show [a, b] ++ [c, d] = v ++ ['=', '='] from hends) rfl
    cases hcd
    simp only [List.mem_cons, List.not_mem_nil, or_false, not_or] at hv
    simp only [List.forall_mem_cons] at hcode
    obtain ⟨s, -, hs⟩ := exists_sextet_ok hcode.1 (Ne.symm hv.1) i
    obtain ⟨t, hvalue, ht⟩ := exists_sextet_ok hcode.2.1 (Ne.symm hv.2) (i + 1)
    have ht16 : t % 16 = 0 := Decidable.byContradiction fun hne =>
      hspare (Or.inr ⟨[a], b, t, rfl, hvalue, hne⟩)
    rw [lastQuad_padded_twice, hs, ht]
    exact ⟨_, if_pos ht16⟩

theorem HasSpareBits.append {cs : List Char} (h : HasSpareBits cs) (w : List Char) :
    HasSpareBits (w ++ cs) := by
  rcases h with ⟨v, c, n, rfl, hc, hn⟩ | ⟨v, c, n, rfl, hc, hn⟩
  · exact Or.inl ⟨w ++ v, c, n, (List.append_assoc _ _ _).symm, hc, hn⟩
  · exact Or.inr ⟨w ++ v, c, n, (List.append_assoc _ _ _).symm, hc, hn⟩

/-- Padding at the end of more than a quad is none of the first quad. -/
theorem PaddedAtEnd.of_append {w cs : List Char} (h : PaddedAtEnd (w ++ cs))
    (hcs : 2 ≤ cs.length) : '=' ∉ w ∧ PaddedAtEnd cs := by
  obtain ⟨v, hv, hpad⟩ := h
  have hcut : ∀ p : List Char, p.length ≤ 2 → w ++ cs = v ++ p →
      ∃ v', v = w ++ v' ∧ cs = v' ++ p := by
    intro p hp heq
    rcases List.append_eq_append_iff.mp heq with ⟨v', hv', hcs'⟩ | ⟨p', hw, rfl⟩
    · exact ⟨v', hv', hcs'⟩
    · rw [List.length_append] at hp
      obtain rfl : p' = [] := List.eq_nil_of_length_eq_zero (by omega)
      exact ⟨[], by rw [hw, List.append_nil, List.append_nil], rfl⟩
  have hsplit : ∀ {v'}, v = w ++ v' → '=' ∉ w ∧ '=' ∉ v' := by
    rintro v' rfl
    exact ⟨fun h => hv (List.mem_append_left _ h), fun h => hv (List.mem_append_right _ h)⟩
  rcases hpad with hpad | hpad | hpad
  · obtain ⟨v', hv', rfl⟩ := hcut [] (by simp) (by rw [hpad, List.append_nil])
    exact ⟨(hsplit hv').1, v', (hsplit hv').2, Or.inl (List.append_nil _)⟩
  · obtain ⟨v', hv', rfl⟩ := hcut ['='] (by simp) hpad
    exact ⟨(hsplit hv').1, v', (hsplit hv').2, Or.inr (Or.inl rfl)⟩
  · obtain ⟨v', hv', rfl⟩ := hcut ['=', '='] (by simp) hpad
    exact ⟨(hsplit hv').1, v', (hsplit hv').2, Or.inr (Or.inr rfl)⟩

theorem exists_decodeFrom {i : Nat} {cs : List Char} (hlength : cs.length % 4 = 0)
    (hcode : ∀ c ∈ cs, isCodeChar c = true) (hpad : PaddedAtEnd cs) (hspare : ¬HasSpareBits cs) :
    ∃ bytes, decodeFrom i cs = .ok bytes := by
  fun_induction decodeFrom i cs with
  | case1 => exact ⟨[], rfl⟩
  | case2 i a b c d => exact exists_lastQuad i hcode hpad hspare
  | case3 i a b c d rest hmore ih =>
      have hrest : rest.length % 4 = 0 := by
        simp only [List.length_cons] at hlength
        omega
      have hlong : 2 ≤ rest.length := by
        have hpos : rest.length ≠ 0 := fun h => hmore (List.eq_nil_of_length_eq_zero h)
        omega
      obtain ⟨hfirst, hpad⟩ := PaddedAtEnd.of_append (w := [a, b, c, d]) hpad hlong
      obtain ⟨hquad, hcode⟩ := List.forall_mem_append.mp
        (show ∀ x ∈ [a, b, c, d] ++ rest, isCodeChar x = true from hcode)
      obtain ⟨first, hq⟩ := exists_quad i hquad hfirst
      obtain ⟨others, hothers⟩ := ih hrest hcode hpad fun h => hspare (h.append [a, b, c, d])
      exact ⟨first ++ others, bind_eq_ok.mpr ⟨_, hq, bind_eq_ok.mpr ⟨_, hothers, rfl⟩⟩⟩
  | case4 cs i hnil hfour hmore =>
      rcases cs with _ | ⟨a, _ | ⟨b, _ | ⟨c, _ | ⟨d, rest⟩⟩⟩⟩
      · exact absurd rfl hnil
      · cases hlength
      · cases hlength
      · cases hlength
      · exact absurd rfl (hmore a b c d rest)

/-- **A run is an encoding exactly if it is made of whole quads, is padded at its end only, and has
no bits left over.** -/
theorem exists_encode_iff {cs : List Char} (hcode : ∀ c ∈ cs, isCodeChar c = true) :
    (∃ bytes, encode bytes = cs) ↔
      cs.length % 4 = 0 ∧ PaddedAtEnd cs ∧ ¬HasSpareBits cs := by
  constructor
  · rintro ⟨bytes, rfl⟩
    have hshape := shape_encode bytes
    exact ⟨length_encode_mod bytes, hshape.paddedAtEnd, hshape.not_hasSpareBits⟩
  · rintro ⟨hlength, hpad, hspare⟩
    obtain ⟨bytes, hbytes⟩ := exists_decodeFrom (i := 0) hlength hcode hpad hspare
    exact ⟨bytes, encode_of_decodeFrom hbytes⟩

end Base64

namespace Scan

open Grammar

/-! ### The outcomes of a run -/

section Runs

variable {u r : List Char} (hu : ∀ c ∈ u, Base64.isCodeChar c = true)
  (hr : Halts (fun c => Base64.isCodeChar c = true) r)

include hu hr

theorem run_eq_ok_iff {bytes : List UInt8} {rest : List Char} :
    run (u ++ r) = .ok (bytes, rest) ↔ Base64.encode bytes = u ∧ rest = r := by
  unfold run
  rw [takeWhile_run hu hr, dropWhile_run hu hr]
  cases hdecode : Base64.decode u with
  | error fault =>
      constructor
      · intro h
        cases h
      · intro h
        rw [Base64.decode_eq_ok_iff.mpr h.1] at hdecode
        cases hdecode
  | ok bytes' =>
      rw [← Base64.decode_eq_ok_iff, hdecode]
      simp [eq_comm]

theorem run_eq_error_iff {cause : Cause} {rest : List Char} :
    run (u ++ r) = .error ⟨cause, rest⟩ ↔
      (∃ fault, Base64.decode u = .error fault ∧ cause = runCause u fault) ∧ rest = r := by
  unfold run
  rw [takeWhile_run hu hr, dropWhile_run hu hr]
  cases hdecode : Base64.decode u with
  | error fault => simp [eq_comm]
  | ok bytes => simp

/-- A run is ragged exactly if its length is not divisible by four. -/
theorem run_ragged_iff :
    run (u ++ r) = .error ⟨.raggedRun (String.ofList u), r⟩ ↔ u.length % 4 ≠ 0 := by
  rw [run_eq_error_iff hu hr, ← Base64.decode_eq_misaligned_iff]
  constructor
  · rintro ⟨⟨fault, hfault, hcause⟩, -⟩
    cases fault with
    | misaligned => exact hfault
    | symbol c i => cases hcause
    | lastSymbol c i => cases hcause
  · intro h
    exact ⟨⟨_, h, rfl⟩, rfl⟩

/-- A run is bad exactly if it is neither ragged nor an encoding. -/
theorem run_bad_iff :
    (∃ reason, run (u ++ r) = .error ⟨.badRun (String.ofList u) reason, r⟩) ↔
      u.length % 4 = 0 ∧ ¬∃ bytes, Base64.encode bytes = u := by
  constructor
  · rintro ⟨reason, h⟩
    obtain ⟨⟨fault, hfault, hcause⟩, -⟩ := (run_eq_error_iff hu hr).mp h
    constructor
    · refine Decidable.byContradiction fun hlength => ?_
      rw [Base64.decode_eq_misaligned_iff.mpr hlength] at hfault
      cases hfault
      cases hcause
    · rintro ⟨bytes, hbytes⟩
      rw [Base64.decode_eq_ok_iff.mpr hbytes] at hfault
      cases hfault
  · rintro ⟨hlength, hnone⟩
    cases hdecode : Base64.decode u with
    | ok bytes => exact absurd ⟨bytes, Base64.decode_eq_ok_iff.mp hdecode⟩ hnone
    | error fault =>
        cases fault with
        | misaligned => exact absurd hlength (Base64.decode_eq_misaligned_iff.mp hdecode)
        | symbol c i => exact ⟨_, (run_eq_error_iff hu hr).mpr ⟨⟨_, hdecode, rfl⟩, rfl⟩⟩
        | lastSymbol c i => exact ⟨_, (run_eq_error_iff hu hr).mpr ⟨⟨_, hdecode, rfl⟩, rfl⟩⟩

/-- A run that fails is ragged or bad, and the scan has then gone on to the character after it. -/
theorem run_fails {stop : Stop} (h : run (u ++ r) = .error stop) :
    stop.rest = r ∧ (stop.cause = .raggedRun (String.ofList u) ∨
      ∃ reason, stop.cause = .badRun (String.ofList u) reason) := by
  obtain ⟨⟨fault, -, hcause⟩, hrest⟩ := (run_eq_error_iff hu hr).mp h
  refine ⟨hrest, ?_⟩
  cases fault with
  | misaligned => exact Or.inl hcause
  | symbol c i => exact Or.inr ⟨_, hcause⟩
  | lastSymbol c i => exact Or.inr ⟨_, hcause⟩

end Runs

/-- Every byte string is that of one run. -/
theorem existsUnique_run (bytes : List UInt8) : ∃ u, run u = .ok (bytes, []) ∧
    ∀ u', run u' = .ok (bytes, []) → u' = u := by
  have hiff : ∀ u, run u = .ok (bytes, []) → Base64.encode bytes = u := by
    intro u h
    obtain ⟨v, hbytes, hu⟩ := run_eq_ok h
    rw [hu, List.append_nil, hbytes, v.encode_bytes]
  refine ⟨Base64.encode bytes, ?_, fun u' h => (hiff u' h).symm⟩
  have hencode := run_text (Run.ofBytes bytes) (halts_nil _)
  rwa [List.append_nil, Run.bytes_ofBytes] at hencode

/--
**A run and the bytes it stands for determine each other.**  A scan takes in the longest run of
letters, digits, `+`, `/` and `=` that a text begins with, whatever follows it.  It yields the
bytes whose encoding the run is; it is ragged exactly if its length is not divisible by four; and
it is bad exactly if its length is, but `=` stands elsewhere than once or twice at the end or the
last symbol before it has bits left over.  Nothing else comes of it.  Each byte string is yielded
by one run.
-/
theorem run_outcomes (s : List Char) :
    (∀ c, Base64.isCodeChar c = true ↔ ('A' ≤ c ∧ c ≤ 'Z') ∨ ('a' ≤ c ∧ c ≤ 'z') ∨
      ('0' ≤ c ∧ c ≤ '9') ∨ c = '+' ∨ c = '/' ∨ c = '=') ∧
    (∃ u r : List Char, s = u ++ r ∧ (∀ c ∈ u, Base64.isCodeChar c = true) ∧
      Halts (fun c => Base64.isCodeChar c = true) r ∧
      (∀ bytes rest, run s = .ok (bytes, rest) ↔ Base64.encode bytes = u ∧ rest = r) ∧
      (run s = .error ⟨.raggedRun (String.ofList u), r⟩ ↔ u.length % 4 ≠ 0) ∧
      ((∃ reason, run s = .error ⟨.badRun (String.ofList u) reason, r⟩) ↔
        u.length % 4 = 0 ∧ (¬Base64.PaddedAtEnd u ∨ Base64.HasSpareBits u)) ∧
      ∀ stop, run s = .error stop → stop.rest = r ∧
        (stop.cause = .raggedRun (String.ofList u) ∨
          ∃ reason, stop.cause = .badRun (String.ofList u) reason)) ∧
    ∀ bytes, ∃ u, run u = .ok (bytes, []) ∧ ∀ u', run u' = .ok (bytes, []) → u' = u := by
  refine ⟨fun c => Base64.isCodeChar_iff, ?_, existsUnique_run⟩
  have hu : ∀ c ∈ s.takeWhile Base64.isCodeChar, Base64.isCodeChar c = true :=
    fun c hc => List.all_eq_true.mp List.all_takeWhile c hc
  have hr := halts_dropWhile Base64.isCodeChar s
  have hsplit : s = s.takeWhile Base64.isCodeChar ++ s.dropWhile Base64.isCodeChar :=
    List.takeWhile_append_dropWhile.symm
  generalize s.takeWhile Base64.isCodeChar = u at hu hsplit
  generalize s.dropWhile Base64.isCodeChar = r at hr hsplit
  subst hsplit
  refine ⟨u, r, rfl, hu, hr, fun bytes rest => run_eq_ok_iff hu hr, run_ragged_iff hu hr, ?_,
    fun stop => run_fails hu hr⟩
  rw [run_bad_iff hu hr, Base64.exists_encode_iff hu, and_congr_right_iff]
  intro hlength
  rw [not_and, not_and, Classical.not_not]
  constructor
  · intro h
    by_cases hpad : Base64.PaddedAtEnd u
    · exact Or.inr (h hlength hpad)
    · exact Or.inl hpad
  · rintro (hpad | hspare) - h
    · exact absurd h hpad
    · exact hspare

/-- The symbol `B` sets bits that the only byte has no room for. -/
example : Base64.decode ['A', 'B', '=', '='] = .error (.lastSymbol 'B' 1) := rfl

end Scan

end TensorText

/-
Every diagnostic is true of the text.

A cause names characters and runs, and a position names a place.  `Cause.HoldsAt` is what
a cause says of a buffer and an index in it, without a word about the scanner: which
character stands there, that none does, that a run of base64 characters ends there, or
that the text was whole before it.

Each course that fails fails with a cause that holds at the index where it stopped.  The
position of a diagnostic stands for that index and for no other, so whoever has the text
and the diagnostic can find the place again and check what is said about it.
-/
import Mathlib
import TensorText.Proofs.Position
import TensorText.Proofs.Read

namespace TensorText

open Grammar

/-! ### What a cause says -/

/-- The longest run of base64 characters that ends at the index is `run`, and it stands
right behind a quote or a semicolon. -/
def RunEndsAt (b : List Char) (i : Nat) (run : List Char) : Prop :=
  (∃ q c, b.take i = q ++ c :: run ∧ (c = '"' ∨ c = ';')) ∧
    (∀ c ∈ run, Base64.isCodeChar c = true) ∧ ∀ c ∈ b[i]?, Base64.isCodeChar c = false

/-- What a cause says of a buffer and the index at which a scan of it stopped. -/
def Cause.HoldsAt (strict : Bool) (b : List Char) (i : Nat) : Cause → Prop
  | .wrongChar expected actual => b[i]? = some actual ∧ actual ≠ expected ∧ actual ≠ '\x00'
  | .ended _ => i = b.length
  | .raggedRun run => RunEndsAt b i run.toList ∧ run.length % 4 ≠ 0
  | .badRun run _ => RunEndsAt b i run.toList ∧ run.length % 4 = 0
  | .trailing actual => strict = true ∧ b[i]? = some actual ∧
      ∃ (l : Layout) (w : Gap), l.text = b ∧ w.chars <+: l.rest ∧
        i = l.brace + 1 + w.chars.length ∧ ¬IsBlank actual

namespace Scan

/-! ### The cause of a fault holds where the scan stopped -/

theorem holdsAt_missing {strict : Bool} {u r : List Char} {c : Char} (hnul : '\x00' ∉ u ++ r)
    (hdue : r.head? ≠ some c) : (missing c r).HoldsAt strict (u ++ r) u.length := by
  cases r with
  | nil =>
      show u.length = (u ++ []).length
      rw [List.append_nil]
  | cons a r =>
      refine ⟨getElem?_append_length u (a :: r), ?_, ?_⟩
      · rintro rfl
        exact hdue rfl
      · rintro rfl
        exact hnul (by simp)

/-- A payload begins right behind a quote or a semicolon. -/
theorem exists_text_payloadStart (p : PayloadStart) :
    ∃ q c, p.text = q ++ [c] ∧ (c = '"' ∨ c = ';') := by
  cases p with
  | shape n w v => exact ⟨_, '"', rfl, Or.inl rfl⟩
  | values n w v d => exact ⟨_, ';', rfl, Or.inr rfl⟩

theorem runEndsAt_payload (b : List Char) (p : PayloadStart) {run r : List Char}
    (hrun : ∀ c ∈ run, Base64.isCodeChar c = true)
    (hend : Halts (fun c => Base64.isCodeChar c = true) r) :
    RunEndsAt ((b ++ (p.text ++ run)) ++ r) (b ++ (p.text ++ run)).length run := by
  obtain ⟨q, c, hq, hc⟩ := exists_text_payloadStart p
  refine ⟨⟨b ++ q, c, ?_, hc⟩, hrun, ?_⟩
  · rw [List.take_left, hq]
    simp
  · intro d hd
    rw [getElem?_append_length] at hd
    exact Bool.eq_false_iff.mpr (hend d hd)

theorem holdsAt_runCause {strict : Bool} {b run : List Char} {i : Nat} {fault : Base64.Fault}
    (h : RunEndsAt b i run) (hfault : Base64.decode run = .error fault) :
    (runCause run fault).HoldsAt strict b i := by
  have hrun : RunEndsAt b i (String.ofList run).toList := by rwa [String.toList_ofList]
  have hlength : (String.ofList run).length = run.length := String.length_ofList
  have haligned : fault ≠ .misaligned → (String.ofList run).length % 4 = 0 := by
    intro hne
    rw [hlength]
    by_cases hmod : run.length % 4 = 0
    · exact hmod
    · rw [Base64.decode_eq_misaligned_iff.mpr hmod] at hfault
      cases hfault
      exact absurd rfl hne
  cases fault with
  | misaligned =>
      refine ⟨hrun, ?_⟩
      rw [hlength]
      exact Base64.decode_eq_misaligned_iff.mp hfault
  | symbol c j => exact ⟨hrun, haligned (by simp)⟩
  | lastSymbol c j => exact ⟨hrun, haligned (by simp)⟩

theorem Course.holdsAt {strict : Bool} {s : List Char} {es : List Entry} {stop : Stop}
    (h : Course strict s es (.error stop)) (hnul : '\x00' ∉ s) :
    ∃ u, s = u ++ stop.rest ∧ stop.cause.HoldsAt strict s u.length := by
  cases h with
  | unopened w hs hend hdue =>
      rw [hs] at hnul ⊢
      exact ⟨w.chars, rfl, holdsAt_missing hnul hdue⟩
  | faulty b hs hend hne hbrace hfault =>
      cases hfault with
      | missing f hr hend hdue =>
          rw [hr, ← List.append_assoc] at hs
          rw [hs] at hnul ⊢
          exact ⟨b.text ++ f.text, rfl, holdsAt_missing hnul hdue⟩
      | undecodable p hr hrun hend hfault =>
          rw [hr, ← List.append_assoc p.text, ← List.append_assoc] at hs
          rw [hs]
          exact ⟨_, rfl, holdsAt_runCause (runEndsAt_payload b.text p hrun hend) hfault⟩
  | unclosed b hs =>
      rw [hs]
      exact ⟨b.text, (List.append_nil _).symm, rfl⟩
  | @trailing l hs hstrict w c r hrest hc =>
      have htext : s = (l.toBody.text ++ '}' :: w.chars) ++ c :: r := by
        rw [hs, Layout.text, hrest]
        simp
      refine ⟨_, htext, hstrict, ?_, l, w, hs.symm, ?_, ?_, hc⟩
      · rw [htext, getElem?_append_length]
        rfl
      · exact ⟨c :: r, hrest.symm⟩
      · simp only [Layout.brace, List.length_append, List.length_cons]
        omega

end Scan

/-! ### The diagnostic of a reading -/

/-- A reading reports the end of its text exactly if that is where it stopped, unless a
payload is at fault. -/
theorem Cause.HoldsAt.ended_iff {strict : Bool} {b : List Char} {i : Nat} {cause : Cause}
    (h : cause.HoldsAt strict b i) :
    (cause.concernsLayout = true ∧ ∃ c, cause = .ended c) ↔
      i = b.length ∧ cause.concernsPayload = false := by
  have hinside : ∀ c, b[i]? = some c → i ≠ b.length := by
    rintro c hc rfl
    rw [List.getElem?_eq_none (Nat.le_refl _)] at hc
    cases hc
  cases cause with
  | wrongChar expected actual =>
      simp only [reduceCtorEq, exists_false, and_false, false_iff, not_and]
      exact fun hi => absurd hi (hinside actual h.1)
  | ended c =>
      have hi : i = b.length := h
      simp [Cause.concernsLayout, Cause.concernsPayload, hi]
  | raggedRun run => simp [Cause.concernsPayload]
  | badRun run reason => simp [Cause.concernsPayload]
  | trailing actual =>
      simp only [reduceCtorEq, exists_false, and_false, false_iff, not_and]
      exact fun hi => absurd hi (hinside actual h.2.1)

/--
**A diagnostic stands for one place in its text, and what it says is true there.**  The
position belongs to one index of the buffer or to its end; the end of the text is
reported exactly at the end, unless a payload is at fault; and every character and every
run that the cause names stands in the text at that index, as the cause says.
-/
theorem holdsAt_of_fault {σ : Type} [Sink σ] {text : String} {sink : σ} {options : Options}
    {d : Diagnostic} (h : (scanText text sink options).verdict = .error d) :
    (∃! i, i ≤ (buffer text).length ∧ d.position = Position.ofIndex (buffer text) i) ∧
      ∀ i ≤ (buffer text).length, d.position = Position.ofIndex (buffer text) i →
        ((d.cause.concernsLayout = true ∧ ∃ c, d.cause = .ended c) ↔
          i = (buffer text).length ∧ d.cause.concernsPayload = false) ∧
        d.cause.HoldsAt options.strict (buffer text) i := by
  rw [scanText_eq_foldl text sink options] at h
  obtain ⟨-, stop, hcourse, rfl⟩ := exists_course_of_fault h
  obtain ⟨u, hu, hholds⟩ := hcourse.holdsAt (nul_not_mem_buffer text)
  have hindex : stop.index (buffer text) = u.length := by rw [hu, index_append]
  have hle : u.length ≤ (buffer text).length := by
    rw [hu, List.length_append]
    exact Nat.le_add_right _ _
  have hposition : (stop.diagnostic (buffer text)).position =
      Position.ofIndex (buffer text) u.length := by
    rw [Stop.diagnostic, hindex]
  have hunique : ∀ i ≤ (buffer text).length,
      (stop.diagnostic (buffer text)).position = Position.ofIndex (buffer text) i →
        i = u.length := by
    intro i hi hpos
    exact Position.ofIndex_inj hi hle (hpos.symm.trans hposition)
  refine ⟨⟨u.length, ⟨hle, hposition⟩, fun i hi => hunique i hi.1 hi.2⟩, ?_⟩
  intro i hi hpos
  obtain rfl := hunique i hi hpos
  exact ⟨hholds.ended_iff, hholds⟩

/-- A character of two bytes and a line break stand in the name, and the payload behind them
is a character short. -/
theorem holdsAt_of_fault_ragged :
    (scanText "\x7b\"ü\n\":\"AQI;\"\x7d" Document.empty {}).verdict =
        .error ⟨⟨2, 8⟩, .raggedRun "AQI"⟩ ∧
      (∃! i, i ≤ (buffer "\x7b\"ü\n\":\"AQI;\"\x7d").length ∧
        Position.mk 2 8 = Position.ofIndex (buffer "\x7b\"ü\n\":\"AQI;\"\x7d") i) ∧
      RunEndsAt (buffer "\x7b\"ü\n\":\"AQI;\"\x7d") 10 ['A', 'Q', 'I'] := by
  have h : (scanText "\x7b\"ü\n\":\"AQI;\"\x7d" Document.empty {}).verdict =
      .error ⟨⟨2, 8⟩, .raggedRun "AQI"⟩ := by cbv
  exact ⟨h, (holdsAt_of_fault h).1,
    ((holdsAt_of_fault h).2 10 (by decide) (by decide)).2.1⟩

end TensorText

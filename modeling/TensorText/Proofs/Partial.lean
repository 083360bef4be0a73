/-
What a failed reading leaves behind.

A sink keeps what it was handed when a reading fails, and nothing tells it how far the
reading got.  The text does: the entries are those of the complete tensors before the
place where a tensor should have stood and did not, and the text has one such place.
Cut there and closed with a brace, it is an accepted text that says exactly what the
sink was handed.

Two kinds of failure are apart.  A text without its opening brace hands on nothing, and
a text that only goes on for too long was read to its end before that was noticed.
-/
import Mathlib
import TensorText.Proofs.Read

namespace TensorText

open Grammar

namespace Scan

/-! ### Trailing content is a cause of its own -/

/-- The scan stopped at something after the closing brace. -/
def IsTrailing (stop : Stop) : Prop := ∃ c, stop.cause = .trailing c

theorem not_isTrailing_missing (c : Char) (r : List Char) : ¬IsTrailing ⟨missing c r, r⟩ := by
  rintro ⟨d, hd⟩
  cases r <;> cases hd

theorem TensorFault.not_isTrailing {s : List Char} {stop : Stop} (h : TensorFault s stop) :
    ¬IsTrailing stop := by
  cases h with
  | missing f _ _ _ => exact not_isTrailing_missing f.due _
  | @undecodable _ _ _ fault _ _ _ _ =>
      rintro ⟨d, hd⟩
      cases fault <;> cases hd

/-- A scan fails for want of an opening brace, or after a body with which the text does not
go on, or at what follows the whole text. -/
theorem Course.of_error {strict : Bool} {s : List Char} {es : List Entry} {stop : Stop}
    (h : Course strict s es (.error stop)) :
    (¬HasOpening s ∧ es = [] ∧ ¬IsTrailing stop) ∨
      (∃ (b : Body) (r : List Char), s = b.text ++ r ∧ b.EndsBefore r ∧ ¬BeginsTensor r ∧
        r.head? ≠ some '}' ∧ es = b.entries ∧ ¬IsTrailing stop) ∨
      ∃ l : Layout, s = l.text ∧ es = l.entries ∧ IsTrailing stop := by
  cases h with
  | unopened w hs hend hdue =>
      rw [hs]
      exact Or.inl ⟨not_hasOpening w hend hdue, rfl, not_isTrailing_missing _ _⟩
  | faulty b hs hend hne hbrace hfault =>
      exact Or.inr (Or.inl ⟨b, _, hs, hend, hfault.not_beginsTensor, hbrace, rfl,
        hfault.not_isTrailing⟩)
  | unclosed b hs =>
      refine Or.inr (Or.inl ⟨b, [], ?_, b.endsBefore_nil, not_beginsTensor (by simp), by simp,
        rfl, ?_⟩)
      · rw [hs, List.append_nil]
      · rintro ⟨c, hc⟩
        cases hc
  | trailing l hs hstrict w hrest hc => exact Or.inr (Or.inr ⟨l, hs, rfl, ⟨_, rfl⟩⟩)

end Scan

/-! ### The place of the cut -/

/-- The text is cut into `q` and `r` between two turns of the loop over the tensors: `q`
ends with the blanks after the opening brace, or with a tensor's separator. -/
def CutsAtTurn (q r : List Char) : Prop := ∃ b : Body, b.text = q ∧ b.EndsBefore r

theorem Grammar.Body.hasOpening (b : Body) (r : List Char) : HasOpening (b.text ++ r) :=
  ⟨b.lead, _, b.text_append r⟩

/-- A body that is closed at once is accepted, and says what its tensors say. -/
theorem ofText_closed_body (b : Body) :
    Document.ofText (String.ofList (b.text ++ ['}'])) { strict := true } = .ok ⟨b.entries⟩ := by
  have hnul : '\x00' ∉ b.text ++ ['}'] := by
    intro h
    rcases List.mem_append.mp h with hb | hr
    · exact b.nul_not_mem_text hb
    · exact absurd hr (by decide)
  have hbuffer : buffer (String.ofList (b.text ++ ['}'])) = b.text ++ ['}'] := by
    rw [buffer_eq (by rwa [String.toList_ofList]), String.toList_ofList]
  refine ofText_of_layout (l := ⟨b, []⟩) hbuffer.symm ?_
  intro _ c hc
  cases hc

/-- **The complete tensors of a text that does not go on with its closing brace are told
by the one place where it can be cut.** -/
theorem existsUnique_cut {b : Body} {r : List Char} (hend : b.EndsBefore r)
    (ht : ¬BeginsTensor r) (hbrace : r.head? ≠ some '}') :
    ∃! q : List Char, ∃ r' : List Char, q ++ r' = b.text ++ r ∧ CutsAtTurn q r' ∧
      Document.ofText (String.ofList (q ++ ['}'])) { strict := true } = .ok ⟨b.entries⟩ ∧
      r'.head? ≠ some '}' ∧ ¬BeginsTensor r' := by
  refine ⟨b.text, ⟨r, rfl, ⟨b, rfl, hend⟩, ofText_closed_body b, hbrace, ht⟩, ?_⟩
  rintro q ⟨r', htext, ⟨b', rfl, hend'⟩, -, -, ht'⟩
  obtain ⟨rfl, -⟩ := Body.append_inj hend' hend ht' ht htext
  rfl

/--
**After a failure the sink holds exactly the complete tensors before it.**  With nothing
but trailing content at fault these are all tensors of the text; without an opening
brace there are none; and otherwise they are those before the one place, between two
turns of the loop, after which neither the closing brace nor a complete tensor follows.
-/
theorem handed_of_fault {text : String} {options : Options} {d : Diagnostic}
    (h : (scanText text Document.empty options).verdict = .error d) :
    (∀ (σ : Type) [Sink σ] (sink : σ), scanText text sink options =
        ⟨(handed text options).foldl Sink.push sink, .error d⟩) ∧
      ((∃ c, d.cause = .trailing c) →
        Document.ofText text { strict := false } = .ok ⟨handed text options⟩) ∧
      (¬HasOpening (buffer text) → handed text options = []) ∧
      ((∀ c, d.cause ≠ .trailing c) → HasOpening (buffer text) →
        ∃! q : List Char, ∃ r : List Char, q ++ r = buffer text ∧ CutsAtTurn q r ∧
          Document.ofText (String.ofList (q ++ ['}'])) { strict := true } =
            .ok ⟨handed text options⟩ ∧
          r.head? ≠ some '}' ∧ ¬BeginsTensor r) := by
  refine ⟨fun σ _ sink => by rw [scanText_eq_foldl text sink, h], ?_⟩
  have hb : buffer text ≠ [] := by
    intro hb
    rw [scanText_of_nil hb] at h
    cases h
  obtain ⟨verdict, hcourse, hscan⟩ := exists_course hb options
  rw [hscan] at h
  obtain ⟨stop, rfl, rfl⟩ := mapError_eq_error.mp h
  rcases hcourse.of_error with ⟨hopen, hes, htrail⟩ | ⟨b, r, hs, hend, ht, hbrace, hes, htrail⟩ |
    ⟨l, hs, hes, htrail⟩
  · exact ⟨fun hc => absurd hc htrail, fun _ => hes, fun _ hc => absurd hc hopen⟩
  · rw [hs, hes]
    refine ⟨fun hc => absurd hc htrail, fun hopen => absurd (b.hasOpening r) hopen, ?_⟩
    intro _ _
    exact existsUnique_cut hend ht hbrace
  · rw [hes]
    refine ⟨?_, ?_, ?_⟩
    · intro _
      exact ofText_of_layout hs.symm (fun hstrict => by cases hstrict)
    · intro hopen
      rw [hs] at hopen
      exact absurd (l.toBody.hasOpening _) hopen
    · intro hnot
      obtain ⟨c, hc⟩ := htrail
      exact absurd hc (hnot c)

/-- The second tensor has a payload that does not divide into quads: the sink holds the
first, and the cut is in front of the second. -/
theorem handed_of_fault_ragged :
    (scanText "\x7b\"a\":\"AAAA;\" , \"b\":\"AAA;AAAA\"\x7d" Document.empty {}).verdict =
        .error ⟨⟨1, 25⟩, .raggedRun "AAA"⟩ ∧
      ∃! q : List Char, ∃ r : List Char,
        q ++ r = buffer "\x7b\"a\":\"AAAA;\" , \"b\":\"AAA;AAAA\"\x7d" ∧ CutsAtTurn q r ∧
          Document.ofText (String.ofList (q ++ ['}'])) { strict := true } =
            .ok ⟨[⟨"a", [0, 0, 0], []⟩]⟩ ∧
          r.head? ≠ some '}' ∧ ¬BeginsTensor r := by
  have h : (scanText "\x7b\"a\":\"AAAA;\" , \"b\":\"AAA;AAAA\"\x7d" Document.empty {}).verdict =
      .error ⟨⟨1, 25⟩, .raggedRun "AAA"⟩ := by cbv
  have hes : handed "\x7b\"a\":\"AAAA;\" , \"b\":\"AAA;AAAA\"\x7d" {} =
      [⟨"a", [0, 0, 0], []⟩] := by cbv
  have hopen : HasOpening (buffer "\x7b\"a\":\"AAAA;\" , \"b\":\"AAA;AAAA\"\x7d") :=
    ⟨.none, _, rfl⟩
  refine ⟨h, ?_⟩
  rw [← hes]
  exact (handed_of_fault h).2.2.2 (fun c hc => by cases hc) hopen

end TensorText

/-
What strictness changes.

A strict reading goes on where another one stops, behind the closing brace, and nowhere
before it.  So a text that fails without being read strictly fails alike when it is, and
a text that is accepted hands on the same entries either way; the strict reading then
looks for something other than blanks behind the brace, and the first such character is
what it reports.
-/
import Mathlib
import TensorText.Proofs.Partial

namespace TensorText

open Grammar

namespace Scan

/-- A scan that fails without being strict fails in the same way when it is. -/
theorem Course.strict_of_error {s : List Char} {es : List Entry} {stop : Stop}
    (h : Course false s es (.error stop)) :
    Course true s es (.error stop) ∧ ¬IsTrailing stop := by
  cases h with
  | unopened w hs hend hdue => exact ⟨.unopened w hs hend hdue, not_isTrailing_missing _ _⟩
  | faulty b hs hend hne hbrace hfault =>
      exact ⟨.faulty b hs hend hne hbrace hfault, hfault.not_isTrailing⟩
  | unclosed b hs =>
      refine ⟨.unclosed b hs, ?_⟩
      rintro ⟨c, hc⟩
      cases hc
  | trailing l hs hstrict w hrest hc => cases hstrict

end Scan

/-- Nothing but blanks follows the closing brace; nor does anything in an empty buffer. -/
def NothingFollows (b : List Char) : Prop :=
  b = [] ∨ ∃ l : Layout, l.text = b ∧ ∀ c ∈ l.rest, IsBlank c

theorem nothingFollows_iff {b : List Char} {l : Layout} (hl : l.text = b) :
    NothingFollows b ↔ ∀ c ∈ l.rest, IsBlank c := by
  constructor
  · rintro (rfl | ⟨l', hl', hrest⟩)
    · simp [Layout.text] at hl
    · obtain rfl := Layout.text_injective (hl'.trans hl.symm)
      exact hrest
  · intro hrest
    exact Or.inr ⟨l, hl, hrest⟩

/-- The strict reading of a text with a closing brace reports the first character behind it
that is no blank, if there is one. -/
theorem scanText_strict_of_layout {text : String} {l : Layout} (hl : l.text = buffer text) :
    ((∀ c ∈ l.rest, IsBlank c) ∧ ∀ (σ : Type) [Sink σ] (sink : σ),
      scanText text sink { strict := true } = ⟨l.entries.foldl Sink.push sink, .ok ()⟩) ∨
    ∃ (w : Gap) (c : Char) (r : List Char), l.rest = w.chars ++ c :: r ∧ ¬IsBlank c ∧
      ∀ (σ : Type) [Sink σ] (sink : σ), scanText text sink { strict := true } =
        ⟨l.entries.foldl Sink.push sink,
          .error ⟨Position.ofIndex (buffer text) (l.brace + 1 + w.chars.length), .trailing c⟩⟩ := by
  rcases blank_or_other l.rest with hblank | ⟨w, c, r, hrest, hc⟩
  · refine Or.inl ⟨hblank, fun σ _ sink => ?_⟩
    exact scanText_of_layout hl (fun _ => hblank) sink
  · refine Or.inr ⟨w, c, r, hrest, hc, fun σ _ sink => ?_⟩
    have htext : buffer text = (l.toBody.text ++ '}' :: w.chars) ++ c :: r := by
      rw [← hl, Layout.text, hrest]
      simp
    have hindex : Stop.index (buffer text) ⟨.trailing c, c :: r⟩ =
        l.brace + 1 + w.chars.length := by
      rw [htext, index_append (l.toBody.text ++ '}' :: w.chars) ⟨.trailing c, c :: r⟩]
      simp only [Layout.brace, List.length_append, List.length_cons]
      omega
    rw [← hindex]
    exact scanText_of_course (buffer_ne_nil hl) (.trailing l hl.symm rfl w hrest hc) sink

/-- What fails without being read strictly fails in the same way when it is. -/
theorem scanText_strict_of_fault {text : String} {d : Diagnostic}
    (h : (scanText text Document.empty { strict := false }).verdict = .error d) :
    (∀ c, d.cause ≠ .trailing c) ∧ ∀ (σ : Type) [Sink σ] (sink : σ),
      scanText text sink { strict := true } = scanText text sink { strict := false } := by
  obtain ⟨hb, stop, hcourse, rfl⟩ := exists_course_of_fault h
  obtain ⟨hstrict, htrail⟩ := hcourse.strict_of_error
  refine ⟨fun c hc => htrail ⟨c, hc⟩, fun σ _ sink => ?_⟩
  rw [scanText_of_course hb hcourse sink, scanText_of_course hb hstrict sink]

/--
**A strict reading is any reading, and then a look behind the closing brace.**  A text
that fails otherwise fails with the same diagnostic and the same entries when it is read
strictly, and never for what follows its brace.  A text that is accepted otherwise hands
on the same entries; the strict reading accepts it too exactly if nothing but blanks
follows the brace, and else reports the first other character there.
-/
theorem scanText_strict (text : String) :
    (∀ d : Diagnostic,
      (scanText text Document.empty { strict := false }).verdict = .error d →
        (∀ c, d.cause ≠ .trailing c) ∧ ∀ (σ : Type) [Sink σ] (sink : σ),
          scanText text sink { strict := true } = scanText text sink { strict := false }) ∧
    ∀ doc : Document, Document.ofText text { strict := false } = .ok doc →
      (∀ (σ : Type) [Sink σ] (sink : σ) (options : Options),
        (scanText text sink options).sink = doc.entries.foldl Sink.push sink) ∧
      (Document.ofText text { strict := true } = .ok doc ↔ NothingFollows (buffer text)) ∧
      (¬NothingFollows (buffer text) →
        ∃ (l : Layout) (w : Gap) (c : Char) (r : List Char), l.text = buffer text ∧
          l.entries = doc.entries ∧ l.rest = w.chars ++ c :: r ∧ ¬IsBlank c ∧
          (scanText text Document.empty { strict := true }).verdict = .error
            ⟨Position.ofIndex (buffer text) (l.brace + 1 + w.chars.length), .trailing c⟩) := by
  refine ⟨fun d h => scanText_strict_of_fault h, ?_⟩
  intro doc h
  by_cases hb : buffer text = []
  · rw [ofText_of_nil hb] at h
    cases h
    have hnothing : NothingFollows (buffer text) := Or.inl hb
    refine ⟨fun σ _ sink options => ?_, ?_, fun hnot => absurd hnothing hnot⟩
    · rw [scanText_of_nil hb]
      rfl
    · rw [ofText_of_nil hb]
      exact iff_of_true rfl hnothing
  · obtain ⟨l, hl, -, rfl⟩ := exists_layout_of_ofText hb h
    refine ⟨fun σ _ sink options => ?_, ?_⟩
    · obtain ⟨verdict, hcourse⟩ := Scan.exists_course_of_layout options.strict l
      rw [hl] at hcourse
      rw [scanText_of_course hb hcourse sink]
    rw [nothingFollows_iff hl]
    rcases scanText_strict_of_layout hl with ⟨hblank, -⟩ | ⟨w, c, r, hrest, hc, hscan⟩
    · refine ⟨iff_of_true ?_ hblank, fun hnot => absurd hblank hnot⟩
      exact ofText_of_layout hl fun _ => hblank
    · have hother : ¬∀ c ∈ l.rest, IsBlank c := fun hall => hc (hall c (by simp [hrest]))
      refine ⟨iff_of_false ?_ hother, fun _ => ⟨l, w, c, r, hl, rfl, hrest, hc, ?_⟩⟩
      · rw [ofText_eq_map, hscan]
        simp [Except.map]
      · rw [hscan]

/-- A name is not closed; and a brace in a name is not the closing one, behind which stand a
blank, a character of two bytes and a NUL. -/
theorem scanText_strict_umlaut :
    (scanText "\x7b\"a\x7dü" Document.empty { strict := false }).verdict =
        .error ⟨⟨1, 7⟩, .ended '"'⟩ ∧
      scanText "\x7b\"a\x7dü" Document.empty { strict := true } =
        scanText "\x7b\"a\x7dü" Document.empty { strict := false } ∧
      Document.ofText "\x7b\"\x7d\":\";\"\x7d ü\x00" { strict := false } =
        .ok ⟨[⟨"\x7d", [], []⟩]⟩ ∧
      ¬NothingFollows (buffer "\x7b\"\x7d\":\";\"\x7d ü\x00") ∧
      ∃ (l : Layout) (w : Gap) (c : Char) (r : List Char),
        l.text = buffer "\x7b\"\x7d\":\";\"\x7d ü\x00" ∧
          l.entries = [⟨"\x7d", [], []⟩] ∧ l.rest = w.chars ++ c :: r ∧
          ¬IsBlank c ∧ (scanText "\x7b\"\x7d\":\";\"\x7d ü\x00" Document.empty
            { strict := true }).verdict = .error ⟨Position.ofIndex
              (buffer "\x7b\"\x7d\":\";\"\x7d ü\x00") (l.brace + 1 + w.chars.length),
                .trailing c⟩ := by
  have hfault : (scanText "\x7b\"a\x7dü" Document.empty { strict := false }).verdict =
      .error ⟨⟨1, 7⟩, .ended '"'⟩ := by cbv
  have hdoc : Document.ofText "\x7b\"\x7d\":\";\"\x7d ü\x00" { strict := false } =
      .ok ⟨[⟨"\x7d", [], []⟩]⟩ := by cbv
  have hstrict : Document.ofText "\x7b\"\x7d\":\";\"\x7d ü\x00" { strict := true } =
      .error ⟨⟨1, 12⟩, .trailing 'ü'⟩ := by cbv
  have hother : ¬NothingFollows (buffer "\x7b\"\x7d\":\";\"\x7d ü\x00") := by
    rw [← ((scanText_strict _).2 _ hdoc).2.1, hstrict]
    simp
  exact ⟨hfault, ((scanText_strict _).1 _ hfault).2 _ _, hdoc, hother,
    ((scanText_strict _).2 _ hdoc).2.2 hother⟩

end TensorText

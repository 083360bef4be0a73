/-
A reading looks no further than the character it stops at.

Where a part of the scanner ends depends on the next character and on nothing behind it,
and a fault in a tensor is told by what stands in front of the failing character and by
that character.  So the course of a scan that failed is also the course of every other
text that agrees with it that far, with the same entries and the same cause; and the
position counts only characters that both texts have.

The same goes for success, where the character to agree up to is the closing brace.
-/
import Mathlib
import TensorText.Proofs.Position
import TensorText.Proofs.Read

namespace TensorText

open Grammar

theorem head?_append_congr {α : Type} {r r' : List α} (u : List α) (h : r'.head? = r.head?) :
    (u ++ r').head? = (u ++ r).head? := by
  rw [List.head?_append, List.head?_append, h]

namespace Scan

/-! ### One fault for all texts that agree that far -/

theorem TensorFault.congr {s : List Char} {stop : Stop} (h : TensorFault s stop) :
    ∃ u, s = u ++ stop.rest ∧ ∀ r, r.head? = stop.rest.head? →
      TensorFault (u ++ r) ⟨stop.cause, r⟩ := by
  cases h with
  | missing f hs hend hdue =>
      refine ⟨f.text, hs, fun r hr => ?_⟩
      have hfault : TensorFault (f.text ++ r) ⟨Scan.missing f.due r, r⟩ :=
        .missing f rfl (hend.congr hr) (by rwa [hr])
      rwa [missing_congr hr] at hfault
  | @undecodable p u _ _ hs hu hend hfault =>
      refine ⟨p.text ++ u, ?_, fun r hr => ?_⟩
      · rw [hs, List.append_assoc]
      · exact .undecodable p (List.append_assoc _ _ _) hu (Halts.congr hend hr) hfault

theorem Course.congr {strict : Bool} {s : List Char} {es : List Entry} {stop : Stop}
    (h : Course strict s es (.error stop)) :
    ∃ u, s = u ++ stop.rest ∧ ∀ r, r.head? = stop.rest.head? →
      Course strict (u ++ r) es (.error ⟨stop.cause, r⟩) := by
  cases h with
  | unopened w hs hend hdue =>
      refine ⟨w.chars, hs, fun r hr => ?_⟩
      have hcourse : Course strict (w.chars ++ r) [] (.error ⟨missing '{' r, r⟩) :=
        .unopened w rfl (Halts.congr hend hr) (by rwa [hr])
      rwa [missing_congr hr] at hcourse
  | @faulty b r0 _ hs hend hne hbrace hfault =>
      obtain ⟨u, hu, hall⟩ := hfault.congr
      refine ⟨b.text ++ u, by rw [hs, hu, List.append_assoc], fun r hr => ?_⟩
      have hhead : (u ++ r).head? = r0.head? := by rw [hu, head?_append_congr u hr]
      refine .faulty b (List.append_assoc _ _ _) (EndBefore.congr hend hhead) ?_ ?_ (hall r hr)
      · intro hnil
        rw [hnil] at hhead
        exact hne (List.head?_eq_none_iff.mp hhead.symm)
      · rwa [hhead]
  | unclosed b hs =>
      refine ⟨b.text, by rw [hs, List.append_nil], fun r hr => ?_⟩
      obtain rfl := List.head?_eq_none_iff.mp hr
      exact .unclosed b (List.append_nil _)
  | @trailing l hs hstrict w c r0 hrest hc =>
      refine ⟨l.toBody.text ++ '}' :: w.chars, ?_, fun r hr => ?_⟩
      · rw [hs, Layout.text, hrest]
        simp
      · obtain ⟨r', rfl⟩ := List.head?_eq_some_iff.mp hr
        refine .trailing ⟨l.toBody, w.chars ++ c :: r'⟩ ?_ hstrict w rfl hc
        simp [Layout.text]

end Scan

/-! ### One diagnostic -/

/-- A diagnostic depends on what was read and on the next character alone. -/
theorem diagnostic_append (u : List Char) (stop : Stop) :
    stop.diagnostic (u ++ stop.rest) =
      ⟨(Position.after u).advance (stop.rest.head?.getD '\x00'), stop.cause⟩ := by
  rw [Stop.diagnostic, index_append, Position.ofIndex_append]

/-! ### Readings of texts that agree that far -/

/-- A text that agrees with a buffer up to and including one of its characters has a buffer
that does. -/
theorem exists_rest_of_agree {u r : List Char} {c : Char} {text : String}
    (hnul : '\x00' ∉ u ++ c :: r) (h : (u ++ c :: r).take (u.length + 1) <+: text.toList) :
    ∃ r', buffer text = u ++ c :: r' := by
  have htake : (u ++ c :: r).take (u.length + 1) = u ++ [c] := by
    rw [List.append_cons, List.take_left' (by simp)]
  rw [htake] at h
  rw [List.append_cons] at hnul
  obtain ⟨r', hr'⟩ := isPrefix_buffer h fun hmem => hnul (List.mem_append_left r hmem)
  exact ⟨r', by rw [← hr', ← List.append_cons]⟩

/-- The course of a scan that stopped. -/
theorem exists_course_of_stop {text : String} {options : Options} {stop : Stop}
    (h : (scanBuffer (buffer text) Document.empty options).verdict = .error stop) :
    buffer text ≠ [] ∧
      ∃ es : List Entry, Scan.Course options.strict (buffer text) es (.error stop) := by
  have hb : buffer text ≠ [] := by
    intro hb
    rw [scanBuffer, if_pos hb] at h
    cases h
  obtain ⟨es, verdict, hcourse⟩ :=
    Scan.exists_course_of_text options.strict (nul_not_mem_buffer text)
  rw [scanBuffer, if_neg hb, hcourse.document_eq] at h
  obtain rfl : verdict = .error stop := h
  exact ⟨hb, es, hcourse⟩

theorem scanText_congr {text text' : String} {options : Options} {stop : Stop}
    (h : (scanBuffer (buffer text) Document.empty options).verdict = .error stop)
    (hin : stop.index (buffer text) < (buffer text).length)
    (hagree : (buffer text).take (stop.index (buffer text) + 1) <+: text'.toList)
    {σ : Type} [Sink σ] (sink : σ) : scanText text' sink options = scanText text sink options := by
  obtain ⟨hb, es, hcourse⟩ := exists_course_of_stop h
  obtain ⟨u, hu, hall⟩ := hcourse.congr
  have hnul := nul_not_mem_buffer text
  rw [hu] at hnul hin hagree
  rw [index_append] at hin hagree
  cases hrest : stop.rest with
  | nil =>
      rw [hrest, List.append_nil] at hin
      exact absurd hin (Nat.lt_irrefl _)
  | cons c r =>
      rw [hrest] at hnul hagree
      obtain ⟨r', hr'⟩ := exists_rest_of_agree hnul hagree
      have hb' : buffer text' ≠ [] := by
        rw [hr']
        simp
      have hcourse' := hall (c :: r') (by rw [hrest]; rfl)
      rw [← hr'] at hcourse'
      have hsame : Stop.diagnostic (buffer text') ⟨stop.cause, c :: r'⟩ =
          stop.diagnostic (buffer text) := by
        rw [hu, diagnostic_append u stop, hrest, hr',
          diagnostic_append u ⟨stop.cause, c :: r'⟩]
        rfl
      rw [scanText_of_course hb hcourse sink, scanText_of_course hb' hcourse' sink]
      exact congrArg (fun d => Reading.mk (es.foldl Sink.push sink) (.error d)) hsame

/-- A text that agrees with an accepted one up to its closing brace is accepted. -/
theorem ofText_congr {text text' : String} {l : Layout} (hl : l.text = buffer text)
    (hagree : (buffer text).take (l.brace + 1) <+: text'.toList) :
    Document.ofText text' { strict := false } = .ok ⟨l.entries⟩ := by
  have hnul := nul_not_mem_buffer text
  rw [← hl, Layout.text] at hnul hagree
  obtain ⟨r', hr'⟩ := exists_rest_of_agree hnul hagree
  exact ofText_of_layout (l := ⟨l.toBody, r'⟩) hr'.symm (fun hstrict => by cases hstrict)

/--
**A reading stops at the first character that settles its outcome.**  A text that agrees
with a failing one up to and including the character where the scan stopped fails with
the same diagnostic and hands on the same entries, whatever comes afterwards; and a text
that agrees with an accepted one up to and including its closing brace is accepted with
the same document.
-/
theorem scanText_eq_of_agree (text : String) (options : Options) :
    (∀ stop : Stop, (scanBuffer (buffer text) Document.empty options).verdict = .error stop →
      stop.index (buffer text) < (buffer text).length →
      ∀ text' : String, (buffer text).take (stop.index (buffer text) + 1) <+: text'.toList →
        ∀ (σ : Type) [Sink σ] (sink : σ),
          (scanText text sink options).verdict = .error (stop.diagnostic (buffer text)) ∧
            scanText text' sink options = scanText text sink options) ∧
      ∀ doc : Document, Document.ofText text { strict := false } = .ok doc →
        ∀ l : Layout, l.text = buffer text →
          ∀ text' : String, (buffer text).take (l.brace + 1) <+: text'.toList →
            Document.ofText text' { strict := false } = .ok doc := by
  refine ⟨?_, ?_⟩
  · intro stop hstop hin text' hagree σ _ sink
    refine ⟨?_, scanText_congr hstop hin hagree sink⟩
    obtain ⟨hb, es, hcourse⟩ := exists_course_of_stop hstop
    rw [scanText_of_course hb hcourse sink]
    rfl
  · intro doc hdoc l hl text' hagree
    have hl' : Document.ofText text { strict := false } = .ok ⟨l.entries⟩ :=
      ofText_of_layout hl (fun hstrict => by cases hstrict)
    rw [hdoc] at hl'
    rw [ofText_congr hl hagree, hl']

/-- Where a colon is due, two texts have a question mark and differ only behind it; and two
accepted ones differ only behind their braces. -/
theorem scanText_eq_of_agree_colon :
    (scanBuffer (buffer "\x7b\"a\":\"AQID;\"\n\"b\" ?;x") Document.empty {}).verdict =
        .error ⟨.wrongChar ':' '?', ['?', ';', 'x']⟩ ∧
      scanText "\x7b\"a\":\"AQID;\"\n\"b\" ?\x00\x7d" Document.empty {} =
        scanText "\x7b\"a\":\"AQID;\"\n\"b\" ?;x" Document.empty {} ∧
      Document.ofText "\x7b \x7d\x7b" { strict := false } = .ok Document.empty ∧
      Document.ofText "\x7b \x7d?\x00" { strict := false } = .ok Document.empty := by
  have hstop : (scanBuffer (buffer "\x7b\"a\":\"AQID;\"\n\"b\" ?;x") Document.empty {}).verdict =
      .error ⟨.wrongChar ':' '?', ['?', ';', 'x']⟩ := by cbv
  have hdoc : Document.ofText "\x7b \x7d\x7b" { strict := false } = .ok Document.empty := by cbv
  refine ⟨hstop, ?_, hdoc, ?_⟩
  · refine ((scanText_eq_of_agree _ _).1 _ hstop (by decide) _ ?_ Document Document.empty).2
    exact ⟨['\x00', '}'], by decide⟩
  · refine (scanText_eq_of_agree _ {}).2 _ hdoc
      ⟨⟨.none, ⟨[' '], by simp [IsBlank]⟩, []⟩, ['{']⟩ ?_ _ ?_
    · decide
    · exact ⟨['?', '\x00'], by decide⟩

end TensorText

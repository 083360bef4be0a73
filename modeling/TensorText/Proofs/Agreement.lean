/-
All ways of reading a text come to the same.

A text can be parsed as a document, read into a sink as a feature string, or arrive as
the bytes of a source; strictness and the settings take different ways to the scanner,
and a source is cut at a zero byte before anyone knows that it holds a text.  What a
request comes to depends on none of this.  It is the document that the text spells, or
the diagnostic that says why there is none, as the failure of a caller.

Nothing has to be said here about the scan itself: `value_read` and `value_parse` tell
both kinds of requests by the same entries and the same verdict, and the bytes of a
source are those of its text.
-/
import TensorText.Proofs.Features
import TensorText.Proofs.Utf8

namespace TensorText

/-- What a reading comes to: what the sink then holds, if the text was accepted. -/
def Reading.outcome {ε σ : Type} (r : Reading ε σ) : Except ε σ := r.verdict.map fun _ => r.sink

/-! ### Texts with one buffer -/

theorem buffer_ofList_buffer (text : String) : buffer (String.ofList (buffer text)) = buffer text := by
  have hnul : '\x00' ∉ (String.ofList (buffer text)).toList := by
    rw [String.toList_ofList]
    exact nul_not_mem_buffer text
  rw [buffer_eq hnul, String.toList_ofList]

/-- What stands behind the first NUL of a text has no part in what it spells. -/
theorem ofText_ofList_buffer (text : String) (options : Options) :
    Document.ofText (String.ofList (buffer text)) options = Document.ofText text options := by
  simp only [Document.ofText, scanText, buffer_ofList_buffer]

/-- The bytes of a text before the first zero are those of its buffer. -/
theorem decode_takeWhile_encode (text : String) :
    Utf8.decode ((Utf8.encode text).takeWhile fun b => b != 0) =
      .ok (String.ofList (buffer text)) := by
  rw [Utf8.encode, Utf8.takeWhile_flatMap_encodeChar, ← buffer, Utf8.decode,
    Utf8.decodeFrom_encode]
  rfl

/-! ### Requests -/

/-- A feature string adds the entries of its document to what the sink holds. -/
theorem outcome_readText (text : String) (options : Options) {σ : Type} [Sink σ] (sink : σ) :
    (readText (some text) sink options).value.outcome =
      ((Document.ofText text options).mapError .malformed).map fun doc =>
        doc.entries.foldl Sink.push sink := by
  rw [value_readText, ofText_eq_map, Reading.outcome, Option.getD_some, judged]
  cases (scanText text Document.empty options).verdict with
  | error d => rfl
  | ok _ => rfl

namespace Settings

theorem outcome_read {s : Settings} (hs : s.enabled = true) (text : String) {σ : Type} [Sink σ]
    (sink : σ) : (s.read (some text) sink).value.outcome =
      (s.parse text).value.map fun doc => doc.entries.foldl Sink.push sink := by
  rw [read, if_pos hs, outcome_readText, value_parse]

/-- However the bytes of a text arrive, they are parsed as the text. -/
theorem value_parseSource {s : Settings} {source : Source} {text : String}
    (hfailure : source.failure = none) (hbytes : source.chunks.flatten = Utf8.encode text) :
    (s.parseSource source).value = (s.parse text).value := by
  have hcontents : source.contents = .ok (Utf8.encode text) := by
    rw [Source.contents, hfailure, hbytes]
  simp only [parseSource, hcontents, decode_takeWhile_encode]
  rw [value_parse, value_parse, ofText_ofList_buffer]

/--
**Whichever way a text is read, it comes to the same.**  Parsed, read into an empty sink,
or handed over as the bytes of a source in pieces of any size, a text yields the document
that it spells under the settings, or the failure that belongs to its diagnostic.
Without strictness the requests that know of no settings agree with these.  A text that
is not there is the empty text to all of them.
-/
theorem readings_agree (s : Settings) (text : String) :
    (s.parse text).value = (Document.ofText text s.options).mapError .malformed ∧
      (∀ d : Diagnostic, (Failure.malformed d).kind = .text ∧
        (Failure.malformed d).detail =
          "OnnxExtension: Failed to deserialize tensor: " ++ d.message) ∧
      (s.enabled = true →
        (s.read (some text) Document.empty).value.outcome = (s.parse text).value ∧
        (s.read (some text) ([] : List Entry)).value.outcome =
          (s.parse text).value.map Document.entries ∧
        (s.read (some text) Context.empty).value.outcome =
          (s.parse text).value.map fun doc => ⟨doc.entries⟩) ∧
      (∀ source : Source, source.failure = none → source.chunks.flatten = Utf8.encode text →
        (s.parseSource source).value = (s.parse text).value) ∧
      (s.strict = false →
        (readText (some text) Document.empty {}).value.outcome = (s.parse text).value ∧
        (Document.ofText text {}).mapError .malformed = (s.parse text).value ∧
        (Document.ofOptionalText (some text) {}).mapError .malformed = (s.parse text).value) ∧
      Document.ofOptionalText none {} = Document.ofOptionalText (some "") {} ∧
      (∀ (σ : Type) [Sink σ] (sink : σ), readText none sink {} = readText (some "") sink {} ∧
        s.read none sink = s.read (some "") sink) ∧
      s.tensors none = s.tensors (some "") ∧
      ∀ model : Option BoundModel, s.tensorsFor model none = s.tensorsFor model (some "") := by
  refine ⟨value_parse s text, fun d => ⟨rfl, rfl⟩, ?_,
    fun source hfailure hbytes => value_parseSource hfailure hbytes, ?_, ?_, ?_, rfl, ?_⟩
  · intro hs
    refine ⟨?_, ?_, ?_⟩
    · simp only [outcome_read hs, foldl_push_empty]
      exact congrFun Except.map_id _
    · simp only [outcome_read hs, foldl_push_list, List.nil_append]
    · simp only [outcome_read hs, foldl_push_context]
      rfl
  · intro hstrict
    have hoptions : s.options = {} := congrArg Options.mk hstrict
    rw [value_parse, hoptions, outcome_readText]
    refine ⟨?_, rfl, rfl⟩
    simp only [foldl_push_empty]
    exact congrFun Except.map_id _
  · have hnil : buffer "" = [] := rfl
    exact (ofText_of_nil hnil {}).symm
  · intro σ _ sink
    exact ⟨rfl, rfl⟩
  · intro model
    rfl

/-- The text goes on behind its brace and behind a NUL, and the second piece of its bytes
begins in the middle of a character. -/
theorem readings_agree_pieces :
    (default.parse "\x7b\"ü\":\";\"\x7dx\x00\x7b").value = .ok ⟨[⟨"ü", [], []⟩]⟩ ∧
      (default.read (some "\x7b\"ü\":\";\"\x7dx\x00\x7b") Document.empty).value.outcome =
        .ok ⟨[⟨"ü", [], []⟩]⟩ ∧
      (default.parseSource ⟨[[0x7B, 0x22, 0xC3], [0xBC, 0x22, 0x3A, 0x22, 0x3B, 0x22],
        [0x7D, 0x78, 0x00, 0x7B]], none⟩).value = .ok ⟨[⟨"ü", [], []⟩]⟩ ∧
      (readText (some "\x7b\"ü\":\";\"\x7dx\x00\x7b") Document.empty {}).value.outcome =
        .ok ⟨[⟨"ü", [], []⟩]⟩ := by
  have hdoc : Document.ofText "\x7b\"ü\":\";\"\x7dx\x00\x7b" {} = .ok ⟨[⟨"ü", [], []⟩]⟩ := by
    cbv
  have hparse : (default.parse "\x7b\"ü\":\";\"\x7dx\x00\x7b").value = .ok ⟨[⟨"ü", [], []⟩]⟩ :=
    (readings_agree default _).1.trans (congrArg (Except.mapError Failure.malformed) hdoc)
  refine ⟨hparse, ?_, ?_, ?_⟩
  · rw [← hparse]
    exact ((readings_agree default _).2.2.1 rfl).1
  · rw [← hparse]
    exact (readings_agree default _).2.2.2.1 _ rfl (by decide)
  · rw [← hparse]
    exact ((readings_agree default _).2.2.2.2.1 rfl).1

end Settings

end TensorText

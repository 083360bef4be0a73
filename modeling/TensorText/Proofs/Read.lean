/-
Which texts are read, and what a reading hands to its sink.

A reading differs from a scan in three things only: the text is cut at its first NUL,
an empty buffer is accepted without a scan, and a fault is turned into a diagnostic.
None of them touches the entries, so what `document_course` says of a scan carries over.

`handed` names the entries that a reading hands on, by what it leaves in an empty
document.  `scanText_eq_foldl` says that this is not special to documents: every sink
gets the same entries, in the same order, on top of what it held before.
-/
import TensorText.Read
import TensorText.Proofs.Course

namespace TensorText

open Grammar

/-! ### The buffer of a text -/

theorem nul_not_mem_buffer (text : String) : '\x00' ∉ buffer text := by
  intro h
  have hall := List.all_eq_true.mp List.all_takeWhile '\x00' h
  exact absurd hall (by decide)

/-- A text without NULs is read as a whole. -/
theorem buffer_eq {text : String} (h : '\x00' ∉ text.toList) : buffer text = text.toList := by
  have hall := Scan.takeWhile_run (p := fun c => c != '\x00') (a := text.toList) (r := [])
    (fun c hc => by
      rw [bne_iff_ne]
      rintro rfl
      exact h hc)
    (halts_nil _)
  rwa [List.append_nil] at hall

/-- What a text begins with is read, unless there is a NUL in it. -/
theorem isPrefix_buffer {text : String} {q : List Char} (h : q <+: text.toList)
    (hnul : '\x00' ∉ q) : q <+: buffer text := by
  obtain ⟨r, hr⟩ := h
  rw [buffer, ← hr, List.takeWhile_append_of_pos]
  · exact List.prefix_append _ _
  · intro c hc
    rw [bne_iff_ne]
    rintro rfl
    exact hnul hc

/-- A scan stops behind the characters it has read. -/
theorem index_append (u : List Char) (stop : Stop) : stop.index (u ++ stop.rest) = u.length := by
  rw [Stop.index, List.length_append, Nat.add_sub_cancel]

/-! ### The entries that a reading hands on -/

/-- Where a sink keeps the entries it is handed, it has them in their order. -/
theorem entries_foldl_push {σ : Type} [Sink σ] {entries : σ → List Entry}
    (hpush : ∀ s e, entries (Sink.push s e) = entries s ++ [e]) (es : List Entry) (s : σ) :
    entries (es.foldl Sink.push s) = entries s ++ es := by
  induction es generalizing s with
  | nil => rw [List.foldl_nil, List.append_nil]
  | cons e es ih =>
      rw [List.foldl_cons, ih, hpush, List.append_assoc, List.singleton_append]

theorem foldl_push_document (es : List Entry) (d : Document) :
    es.foldl Sink.push d = ⟨d.entries ++ es⟩ :=
  congrArg Document.mk (entries_foldl_push (fun _ _ => rfl) es d)

theorem foldl_push_empty (es : List Entry) : es.foldl Sink.push Document.empty = ⟨es⟩ :=
  foldl_push_document es Document.empty

/-- The entries that reading a text hands to its sink, in their order. -/
def handed (text : String) (options : Options) : List Entry :=
  (scanText text Document.empty options).sink.entries

section Sinks

variable {σ : Type} [Sink σ]

theorem scanText_of_nil {text : String} (hb : buffer text = []) (sink : σ) (options : Options) :
    scanText text sink options = ⟨sink, .ok ()⟩ := by
  simp only [scanText, scanBuffer, if_pos hb]
  rfl

theorem scanText_of_ne {text : String} (hb : buffer text ≠ []) (sink : σ) (options : Options)
    {es : List Entry} {verdict : Except Stop Unit}
    (h : Scan.document options.strict sink (buffer text) = ⟨es.foldl Sink.push sink, verdict⟩) :
    scanText text sink options =
      ⟨es.foldl Sink.push sink, verdict.mapError (Stop.diagnostic (buffer text))⟩ := by
  simp only [scanText, scanBuffer, if_neg hb, h]

theorem scanText_of_course {text : String} (hb : buffer text ≠ []) {options : Options}
    {es : List Entry} {verdict : Except Stop Unit}
    (h : Scan.Course options.strict (buffer text) es verdict) (sink : σ) :
    scanText text sink options =
      ⟨es.foldl Sink.push sink, verdict.mapError (Stop.diagnostic (buffer text))⟩ :=
  scanText_of_ne hb sink options (h.document_eq sink)

/-- A reading takes the course of a scan of its buffer. -/
theorem exists_course {text : String} (hb : buffer text ≠ []) (options : Options) :
    ∃ verdict : Except Stop Unit,
      Scan.Course options.strict (buffer text) (handed text options) verdict ∧
        ∀ {σ : Type} [Sink σ] (sink : σ), scanText text sink options =
          ⟨(handed text options).foldl Sink.push sink,
            verdict.mapError (Stop.diagnostic (buffer text))⟩ := by
  obtain ⟨es, verdict, hcourse, hscan⟩ :=
    Scan.document_course options.strict (nul_not_mem_buffer text)
  have hes : handed text options = es := by
    rw [handed, scanText_of_ne hb _ options (hscan Document.empty), foldl_push_empty]
  rw [hes]
  exact ⟨verdict, hcourse, fun sink => scanText_of_ne hb sink options (hscan sink)⟩

/-- A reading that fails takes a course that does. -/
theorem exists_course_of_fault {text : String} {options : Options} {d : Diagnostic}
    (h : (scanText text Document.empty options).verdict = .error d) :
    buffer text ≠ [] ∧ ∃ stop : Stop,
      Scan.Course options.strict (buffer text) (handed text options) (.error stop) ∧
        stop.diagnostic (buffer text) = d := by
  have hb : buffer text ≠ [] := by
    intro hb
    rw [scanText_of_nil hb] at h
    cases h
  obtain ⟨verdict, hcourse, hscan⟩ := exists_course hb options
  rw [hscan] at h
  obtain ⟨stop, rfl, hd⟩ := mapError_eq_error.mp h
  exact ⟨hb, stop, hcourse, hd⟩

theorem buffer_ne_nil {text : String} {l : Layout} (hl : l.text = buffer text) :
    buffer text ≠ [] := by
  rw [← hl, Layout.text]
  simp

/-- A text that is laid out by the grammar is accepted, and its entries are handed on. -/
theorem scanText_of_layout {text : String} {options : Options} {l : Layout}
    (hl : l.text = buffer text) (hrest : options.strict = true → ∀ c ∈ l.rest, IsBlank c)
    (sink : σ) : scanText text sink options = ⟨l.entries.foldl Sink.push sink, .ok ()⟩ :=
  scanText_of_course (buffer_ne_nil hl) (.closed l hl.symm hrest) sink

theorem handed_of_nil {text : String} (hb : buffer text = []) (options : Options) :
    handed text options = [] := by
  rw [handed, scanText_of_nil hb]
  rfl

/-- **A reading hands the same entries to every sink, and its verdict does not depend on
the sink.** -/
theorem scanText_eq_foldl (text : String) (sink : σ) (options : Options) :
    scanText text sink options =
      ⟨(handed text options).foldl Sink.push sink,
        (scanText text Document.empty options).verdict⟩ := by
  by_cases hb : buffer text = []
  · rw [handed_of_nil hb, scanText_of_nil hb, scanText_of_nil hb]
    rfl
  · obtain ⟨verdict, -, hscan⟩ := exists_course hb options
    rw [hscan sink, hscan Document.empty]

end Sinks

/-! ### Accepted texts -/

theorem ofText_eq_map (text : String) (options : Options) :
    Document.ofText text options =
      (scanText text Document.empty options).verdict.map fun _ => ⟨handed text options⟩ := rfl

theorem ofText_of_nil {text : String} (hb : buffer text = []) (options : Options) :
    Document.ofText text options = .ok Document.empty := by
  rw [ofText_eq_map, scanText_of_nil hb, handed_of_nil hb]
  rfl

theorem ofText_of_layout {text : String} {options : Options} {l : Layout}
    (hl : l.text = buffer text) (hrest : options.strict = true → ∀ c ∈ l.rest, IsBlank c) :
    Document.ofText text options = .ok ⟨l.entries⟩ := by
  simp only [Document.ofText, scanText_of_layout hl hrest, foldl_push_empty]
  rfl

theorem exists_layout_of_ofText {text : String} {options : Options} {doc : Document}
    (hb : buffer text ≠ []) (h : Document.ofText text options = .ok doc) :
    ∃ l : Layout, l.text = buffer text ∧
      (options.strict = true → ∀ c ∈ l.rest, IsBlank c) ∧ doc = ⟨l.entries⟩ := by
  obtain ⟨verdict, hcourse, hscan⟩ := exists_course hb options
  rw [ofText_eq_map, hscan] at h
  obtain ⟨_, hverdict, rfl⟩ := map_eq_ok.mp h
  obtain rfl := mapError_eq_ok.mp hverdict
  obtain ⟨l, hl, hrest, hes⟩ := hcourse.of_ok
  exact ⟨l, hl.symm, hrest, by rw [hes]⟩

/--
**A text is read exactly if it is empty or laid out by the grammar, and then it is laid
out in one way.**  The document has the tensors of the layout in their order: each name
as it stands in the text, each payload decoded.
-/
theorem ofText_eq_ok_iff (text : String) (options : Options) (doc : Document) :
    (Document.ofText text options = .ok doc ↔
      (buffer text = [] ∧ doc = Document.empty) ∨
        ∃ l : Layout, l.text = buffer text ∧
          (options.strict = true → ∀ c ∈ l.rest, IsBlank c) ∧ doc = ⟨l.entries⟩) ∧
      ∀ l l' : Layout, l.text = buffer text → l'.text = buffer text → l = l' := by
  refine ⟨⟨?_, ?_⟩, ?_⟩
  · intro h
    by_cases hb : buffer text = []
    · rw [ofText_of_nil hb] at h
      cases h
      exact Or.inl ⟨hb, rfl⟩
    · exact Or.inr (exists_layout_of_ofText hb h)
  · rintro (⟨hb, rfl⟩ | ⟨l, hl, hrest, rfl⟩)
    · exact ofText_of_nil hb options
    · exact ofText_of_layout hl hrest
  · intro l l' hl hl'
    exact Layout.text_injective (hl.trans hl'.symm)

end TensorText

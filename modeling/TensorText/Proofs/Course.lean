/-
Everything a scan can do.

A `Course` says how a scan of a text goes, and it says so by how the text is laid out:
with or without its opening brace, up to its closing brace or to the last complete
tensor before a fault, and with or without something else behind the brace.  The
scanner is not mentioned in it.

`document_course` is what the rest of the development uses.  Every text takes such a
course, and the scanner follows it: it hands on the entries the course tells, one by
one, whatever the sink, and ends with its verdict.  So no later proof opens the scanner.
-/
import TensorText.Proofs.Fragment

namespace TensorText.Scan

open Grammar

/-! ### Opening and closing a text -/

theorem not_hasOpening (w : Gap) {r : List Char} (hend : Halts IsBlank r)
    (hdue : r.head? ≠ some '{') : ¬HasOpening (w.chars ++ r) := by
  rintro ⟨w', r', h⟩
  obtain ⟨-, rfl⟩ := Gap.append_inj hend (halts_cons.mpr (by decide)) h
  exact hdue rfl

theorem onlyBlanks_eq_ok_iff {s : List Char} :
    onlyBlanks s = .ok () ↔ ∀ c ∈ s, IsBlank c := by
  obtain ⟨w, r, rfl, hr⟩ := exists_gap s
  unfold onlyBlanks
  rw [skipBlanks_gap w hr]
  cases r with
  | nil => simpa using w.blank
  | cons c r =>
      constructor
      · intro h
        cases h
      · intro h
        exact absurd (h c (by simp)) (halts_cons.mp hr)

theorem onlyBlanks_other (w : Gap) {c : Char} (hc : ¬IsBlank c) (r : List Char) :
    onlyBlanks (w.chars ++ c :: r) = .error ⟨.trailing c, c :: r⟩ := by
  unfold onlyBlanks
  rw [skipBlanks_gap w (halts_cons.mpr hc)]

/-! ### The courses -/

/--
The course that a scan of a text takes, told by how the text is laid out: which entries
it hands to its sink, and its verdict.
-/
inductive Course (strict : Bool) (s : List Char) : List Entry → Except Stop Unit → Prop
  /-- The opening brace is missing. -/
  | unopened (w : Gap) {r : List Char} (hs : s = w.chars ++ r) (hend : Halts IsBlank r)
      (hdue : r.head? ≠ some '{') : Course strict s [] (.error ⟨missing '{' r, r⟩)
  /-- After the last complete tensor stands something that is not one. -/
  | faulty (b : Body) {r : List Char} {stop : Stop} (hs : s = b.text ++ r)
      (hend : b.EndsBefore r) (hne : r ≠ []) (hbrace : r.head? ≠ some '}')
      (hfault : TensorFault r stop) : Course strict s b.entries (.error stop)
  /-- After the last complete tensor the text ends. -/
  | unclosed (b : Body) (hs : s = b.text) : Course strict s b.entries (.error ⟨.ended '}', []⟩)
  /-- The text is whole. -/
  | closed (l : Layout) (hs : s = l.text) (hrest : strict = true → ∀ c ∈ l.rest, IsBlank c) :
      Course strict s l.entries (.ok ())
  /-- The text is whole, but nothing else was to follow it. -/
  | trailing (l : Layout) (hs : s = l.text) (hstrict : strict = true) (w : Gap) {c : Char}
      {r : List Char} (hrest : l.rest = w.chars ++ c :: r) (hc : ¬IsBlank c) :
      Course strict s l.entries (.error ⟨.trailing c, c :: r⟩)

/-- A text with its closing brace is whole, and strictness decides about the rest. -/
theorem exists_course_of_layout (strict : Bool) (l : Layout) :
    ∃ verdict : Except Stop Unit, Course strict l.text l.entries verdict := by
  by_cases hstrict : strict = true
  · rcases blank_or_other l.rest with hblank | ⟨w, c, r, hrest, hc⟩
    · exact ⟨_, .closed l rfl fun _ => hblank⟩
    · exact ⟨_, .trailing l rfl hstrict w hrest hc⟩
  · exact ⟨_, .closed l rfl fun h => absurd h hstrict⟩

theorem exists_course_of_text (strict : Bool) {s : List Char} (hs : '\x00' ∉ s) :
    ∃ (es : List Entry) (verdict : Except Stop Unit), Course strict s es verdict := by
  obtain ⟨w, r, rfl, hend⟩ := exists_gap s
  by_cases hdue : r.head? = some '{'
  · obtain ⟨rest, rfl⟩ := List.head?_eq_some_iff.mp hdue
    obtain ⟨b, r, htext, hr, ht⟩ := exists_body ⟨w, rest, rfl⟩
    rw [htext] at hs ⊢
    by_cases hne : r = []
    · exact ⟨b.entries, _, .unclosed b (by rw [hne, List.append_nil])⟩
    by_cases hbrace : r.head? = some '}'
    · obtain ⟨rest, rfl⟩ := List.head?_eq_some_iff.mp hbrace
      obtain ⟨verdict, hcourse⟩ := exists_course_of_layout strict ⟨b, rest⟩
      exact ⟨b.entries, verdict, hcourse⟩
    have hnul : '\x00' ∉ r := fun h => hs (List.mem_append_right _ h)
    cases htensor : tensor r with
    | ok found =>
        obtain ⟨t, -, hfound⟩ := tensor_eq_ok htensor hnul
        exact absurd ⟨t, found.2, hfound⟩ ht
    | error stop =>
        exact ⟨b.entries, _, .faulty b rfl hr hne hbrace (.of_error htensor hnul)⟩
  · exact ⟨[], _, .unopened w rfl hend hdue⟩

/-- A scan follows the course of its text. -/
theorem Course.document_eq {σ : Type} [Sink σ] {strict : Bool} {s : List Char}
    {es : List Entry} {verdict : Except Stop Unit} (h : Course strict s es verdict) (sink : σ) :
    document strict sink s = ⟨es.foldl Sink.push sink, verdict⟩ := by
  cases h with
  | unopened w hs hend hdue =>
      rw [document, hs, skipBlanks_gap w hend, expect_eq_error_iff.mpr ⟨hdue, rfl⟩]
      rfl
  | faulty b hs hend hne hbrace hfault =>
      rw [hs, document_body b hend, tensors_fault hne hbrace hfault.tensor_eq]
  | unclosed b hs =>
      have hbody := document_body b b.endsBefore_nil strict sink
      rw [List.append_nil] at hbody
      rw [hs, hbody, tensors_stop (Or.inl rfl)]
      rfl
  | closed l hs hrest =>
      rw [hs, document_layout l strict]
      split
      · rename_i hstrict
        rw [onlyBlanks_eq_ok_iff.mpr (hrest hstrict)]
      · rfl
  | trailing l hs hstrict w hrest hc =>
      rw [hs, document_layout l strict, if_pos hstrict, hrest, onlyBlanks_other w hc]

/-- **A scan takes one of these courses, and hands on its entries one by one.** -/
theorem document_course (strict : Bool) {s : List Char} (hs : '\x00' ∉ s) :
    ∃ (es : List Entry) (verdict : Except Stop Unit), Course strict s es verdict ∧
      ∀ {σ : Type} [Sink σ] (sink : σ),
        document strict sink s = ⟨es.foldl Sink.push sink, verdict⟩ := by
  obtain ⟨es, verdict, h⟩ := exists_course_of_text strict hs
  exact ⟨es, verdict, h, fun sink => h.document_eq sink⟩

/-- A scan succeeds only on a whole text, and strictly only if nothing but blanks follow it. -/
theorem Course.of_ok {strict : Bool} {s : List Char} {es : List Entry}
    (h : Course strict s es (.ok ())) :
    ∃ l : Layout, s = l.text ∧ (strict = true → ∀ c ∈ l.rest, IsBlank c) ∧ es = l.entries := by
  cases h with
  | closed l hs hrest => exact ⟨l, hs, hrest, rfl⟩

end TensorText.Scan

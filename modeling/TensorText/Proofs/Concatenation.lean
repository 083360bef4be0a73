/-
Bodies put side by side.

What stands between the braces of an accepted text is a row of tensors behind some blanks, and
the brace at the end is the one that closes it: a brace before it would leave something that is
no blank behind the text.  `ofText_braced_iff` says so, and turns a question about texts into one
about rows.

Of two rows the second can be put behind the first, with any blanks in between.  The blanks of
the seam become a part of what separates the tensors next to it, or of the blanks at the front
if there is no tensor before it; and where the first row ends without a comma, the seam has
room for one.
-/
import Mathlib
import TensorText.Proofs.Read

namespace TensorText

open Grammar

namespace Grammar

/-! ### Gaps and separators side by side -/

/-- One run of blanks behind another. -/
def Gap.append (w v : Gap) : Gap where
  chars := w.chars ++ v.chars
  blank := by
    intro c hc
    rcases List.mem_append.mp hc with hc | hc
    · exact w.blank c hc
    · exact v.blank c hc

/-- A separator with more blanks at its end. -/
def Separator.widen : Separator → Gap → Separator
  | blanks w, v => .blanks (w.append v)
  | comma w u, v => .comma w (u.append v)

theorem Separator.text_widen (p : Separator) (v : Gap) : (p.widen v).text = p.text ++ v.chars := by
  cases p with
  | blanks w => rfl
  | comma w u => simp [Separator.widen, Separator.text, Gap.append]

/-- A text can be cut in one way at its last character that is no blank. -/
theorem last_other_inj {p q : List Char} {c d : Char} {w v : Gap} (hc : ¬IsBlank c)
    (hd : ¬IsBlank d) (h : p ++ c :: w.chars = q ++ d :: v.chars) : p = q ∧ c = d ∧ w = v := by
  have hrev : w.chars.reverse ++ c :: p.reverse = v.chars.reverse ++ d :: q.reverse := by
    simpa using congrArg List.reverse h
  have hw : ∀ a ∈ w.chars.reverse, IsBlank a := fun a ha => w.blank a (List.mem_reverse.mp ha)
  have hv : ∀ a ∈ v.chars.reverse, IsBlank a := fun a ha => v.blank a (List.mem_reverse.mp ha)
  obtain ⟨hgap, hrest⟩ := span_inj hw hv (halts_cons.mpr hc) (halts_cons.mpr hd) hrev
  obtain ⟨hchar, hfront⟩ := List.cons.inj hrest
  exact ⟨List.reverse_inj.mp hfront, hchar, Gap.ext (List.reverse_inj.mp hgap)⟩

/-! ### Rows of tensors side by side -/

theorem spell_append (items items' : List Item) :
    spell (items ++ items') = spell items ++ spell items' :=
  List.flatMap_append

theorem spell_singleton (i : Item) : spell [i] = i.tensor.text ++ i.separator.text := by
  simp [spell]

/-- What may stand between the braces of a text: blanks, and tensors with what separates them. -/
structure Row where
  lead : Gap
  items : List Item

namespace Row

def text (r : Row) : List Char := r.lead.chars ++ spell r.items

/-- What the tensors of a row say. -/
def entries (r : Row) : List Entry := r.items.map fun i => i.tensor.entry

/-- A row goes on with blanks. -/
theorem exists_widen (r : Row) (w : Gap) :
    ∃ r' : Row, r'.text = r.text ++ w.chars ∧ r'.entries = r.entries := by
  obtain ⟨lead, items⟩ := r
  rcases List.eq_nil_or_concat items with rfl | ⟨init, i, rfl⟩
  · exact ⟨⟨lead.append w, []⟩, by simp [text, spell_nil, Gap.append], rfl⟩
  · refine ⟨⟨lead, init ++ [⟨i.tensor, i.separator.widen w⟩]⟩, ?_, by simp [entries]⟩
    simp [text, spell_append, spell_singleton, Separator.text_widen]

/-- **Two rows with blanks between them are a row.** -/
theorem exists_append (r s : Row) (w : Gap) :
    ∃ t : Row, t.text = r.text ++ w.chars ++ s.text ∧ t.entries = r.entries ++ s.entries := by
  obtain ⟨r', htext, hentries⟩ := r.exists_widen (w.append s.lead)
  refine ⟨⟨r'.lead, r'.items ++ s.items⟩, ?_, ?_⟩
  · calc r'.lead.chars ++ spell (r'.items ++ s.items)
        = r'.text ++ spell s.items := by rw [spell_append, ← List.append_assoc, text]
      _ = r.text ++ w.chars ++ s.text := by rw [htext]; simp [text, Gap.append]
  · rw [← hentries]
    exact List.map_append

/-- The row ends in a tensor without a comma behind it. -/
def EndsOpen (r : Row) : Prop :=
  ∃ (init : List Item) (t : Spelling) (w : Gap), r.items = init ++ [⟨t, .blanks w⟩]

/-- A row that ends so is one whose last character, blanks apart, is a quote. -/
theorem endsOpen_of_quote {r : Row} {p : List Char} {w : Gap} (h : r.text = p ++ '"' :: w.chars) :
    r.EndsOpen := by
  obtain ⟨lead, items⟩ := r
  rcases List.eq_nil_or_concat items with rfl | ⟨init, ⟨t, sep⟩, rfl⟩
  · have hquote : '"' ∈ lead.chars := by
      rw [text, spell_nil, List.append_nil] at h
      rw [h]
      simp
    exact absurd (lead.blank _ hquote) (by decide)
  · cases sep with
    | blanks v => exact ⟨init, t, v, List.concat_eq_append⟩
    | comma v u =>
        have hcomma : (lead.chars ++ spell init ++ t.text ++ v.chars) ++ ',' :: u.chars =
            p ++ '"' :: w.chars := by
          rw [← h]
          simp [text, spell_append, spell_singleton, Separator.text]
        exact absurd (last_other_inj (by decide) (by decide) hcomma).2.1 (by decide)

/-- **Where the first of two rows ends without a comma, one can be put between them.** -/
theorem EndsOpen.exists_append_comma {r : Row} (hr : r.EndsOpen) (s : Row) (w v : Gap) :
    ∃ t : Row, t.text = r.text ++ w.chars ++ ',' :: v.chars ++ s.text ∧
      t.entries = r.entries ++ s.entries := by
  obtain ⟨lead, items⟩ := r
  obtain ⟨init, t, u, rfl⟩ := hr
  refine ⟨⟨lead, init ++ ⟨t, .comma (u.append w) (v.append s.lead)⟩ :: s.items⟩, ?_, ?_⟩
  · simp [text, spell, Separator.text, Gap.append]
  · simp [entries]

end Row

end Grammar

/-! ### Texts in braces -/

/-- A body in braces. -/
def braced (body : String) : String := "\x7b" ++ body ++ "\x7d"

theorem toList_braced (body : String) : (braced body).toList = '{' :: body.toList ++ ['}'] := by
  simp [braced]

/-- A row in braces is read. -/
theorem ofText_braced_row {body : String} {r : Row} (h : r.text = body.toList)
    (options : Options) : Document.ofText (braced body) options = .ok ⟨r.entries⟩ := by
  let l : Layout := ⟨⟨.none, r.lead, r.items⟩, []⟩
  have htext : l.text = (braced body).toList := by
    rw [toList_braced, ← h]
    simp [l, Layout.text, Body.text, Row.text, Gap.none]
  have hnul : '\x00' ∉ (braced body).toList := by
    rw [← htext, Layout.text, List.mem_append, not_or]
    exact ⟨l.toBody.nul_not_mem_text, by simp [l]⟩
  exact ofText_of_layout (l := l) (htext.trans (buffer_eq hnul).symm) (by simp [l])

/-- **What stands in the braces of an accepted text is a row.** -/
theorem ofText_braced_iff {body : String} (hnul : '\x00' ∉ body.toList) {doc : Document} :
    Document.ofText (braced body) { strict := true } = .ok doc ↔
      ∃ r : Row, r.text = body.toList ∧ doc = ⟨r.entries⟩ := by
  constructor
  · intro h
    have hbuffer : buffer (braced body) = '{' :: body.toList ++ ['}'] := by
      rw [buffer_eq, toList_braced]
      simp [toList_braced, hnul]
    obtain ⟨⟨⟨w, v, items⟩, rest⟩, hl, hrest, rfl⟩ :=
      exists_layout_of_ofText (by rw [hbuffer]; simp) h
    refine ⟨⟨v, items⟩, ?_, rfl⟩
    have hopen : w.chars ++ '{' :: (v.chars ++ spell items ++ '}' :: rest) =
        Gap.none.chars ++ '{' :: (body.toList ++ '}' :: Gap.none.chars) := by
      rw [hbuffer] at hl
      simpa [Layout.text, Body.text, Gap.none] using hl
    obtain ⟨-, hbody⟩ :=
      Gap.append_inj (halts_cons.mpr (by decide)) (halts_cons.mpr (by decide)) hopen
    -- What comes after the closing brace is blank, so the last brace is the closing one.
    exact (last_other_inj (w := ⟨rest, hrest rfl⟩) (by decide) (by decide)
      (List.cons.inj hbody).2).1
  · rintro ⟨r, h, rfl⟩
    exact ofText_braced_row h _

/-- A body ends in a tensor; there may be blanks behind it, but no comma. -/
def EndsInTensor (body : String) : Prop :=
  ∃ (p : List Char) (t : Spelling) (w : Gap), body.toList = p ++ t.text ++ w.chars

theorem EndsInTensor.endsOpen {body : String} (h : EndsInTensor body) {r : Row}
    (hr : r.text = body.toList) : r.EndsOpen := by
  obtain ⟨p, t, w, hbody⟩ := h
  obtain ⟨q, hq⟩ : ∃ q, t.text = q ++ ['"'] := ⟨_, rfl⟩
  refine Row.endsOpen_of_quote (p := p ++ q) (w := w) ?_
  rw [hr, hbody, hq]
  simp

/--
**Bodies of accepted texts concatenate.**  If two bodies are accepted in braces, one behind the
other is accepted in braces as well, with any blanks between them, and has the tensors of both
in order.  Where the first ends in a tensor without a comma, a comma may be put between them.
-/
theorem ofText_concat (body body' : String) (doc doc' : Document)
    (hnul : '\x00' ∉ body.toList) (hnul' : '\x00' ∉ body'.toList)
    (h : Document.ofText (braced body) { strict := true } = .ok doc)
    (h' : Document.ofText (braced body') { strict := true } = .ok doc') :
    (∀ w : Gap, Document.ofText (braced (body ++ String.ofList w.chars ++ body'))
      { strict := true } = .ok ⟨doc.entries ++ doc'.entries⟩) ∧
    (EndsInTensor body → ∀ w v : Gap,
      Document.ofText (braced (body ++ String.ofList (w.chars ++ ',' :: v.chars) ++ body'))
        { strict := true } = .ok ⟨doc.entries ++ doc'.entries⟩) := by
  obtain ⟨r, hr, rfl⟩ := (ofText_braced_iff hnul).mp h
  obtain ⟨s, hs, rfl⟩ := (ofText_braced_iff hnul').mp h'
  refine ⟨?_, ?_⟩
  · intro w
    obtain ⟨t, ht, hentries⟩ := r.exists_append s w
    rw [← hentries]
    refine ofText_braced_row ?_ _
    rw [ht, hr, hs]
    simp
  · intro hends w v
    obtain ⟨t, ht, hentries⟩ := (hends.endsOpen hr).exists_append_comma s w v
    rw [← hentries]
    refine ofText_braced_row ?_ _
    rw [ht, hr, hs]
    simp

/-- The name in the first body has a brace behind a quote; the second body ends in a comma. -/
theorem ofText_concat_brace : ∃ body body' : String,
    body = "\"\\\"\x7d\\\" : \";\" " ∧ body' = "\"b\":\"AAAA;\"," ∧
    '\x00' ∉ body.toList ∧ '\x00' ∉ body'.toList ∧
    Document.ofText (braced body) { strict := true } = .ok ⟨[⟨"\\\"\x7d\\", [], []⟩]⟩ ∧
    Document.ofText (braced body') { strict := true } = .ok ⟨[⟨"b", [0, 0, 0], []⟩]⟩ ∧
    EndsInTensor body ∧
    Document.ofText (braced (body ++ String.ofList ([] ++ ',' :: ['\n']) ++ body'))
      { strict := true } = .ok ⟨[⟨"\\\"\x7d\\", [], []⟩, ⟨"b", [0, 0, 0], []⟩]⟩ := by
  refine ⟨_, _, rfl, rfl, ?_⟩
  have hnul : '\x00' ∉ "\"\\\"\x7d\\\" : \";\" ".toList := by decide
  have hnul' : '\x00' ∉ "\"b\":\"AAAA;\",".toList := by decide
  have h : Document.ofText (braced "\"\\\"\x7d\\\" : \";\" ") { strict := true } =
      .ok ⟨[⟨"\\\"\x7d\\", [], []⟩]⟩ := by cbv
  have h' : Document.ofText (braced "\"b\":\"AAAA;\",") { strict := true } =
      .ok ⟨[⟨"b", [0, 0, 0], []⟩]⟩ := by cbv
  have hname : IsName ['\\', '"', '}', '\\'] := by decide
  have hspace : ∀ c ∈ [' '], IsBlank c := by simp [IsBlank]
  have hends : EndsInTensor "\"\\\"\x7d\\\" : \";\" " :=
    ⟨[], ⟨⟨_, hname⟩, ⟨_, hspace⟩, ⟨_, hspace⟩, .ofBytes [], .ofBytes []⟩, ⟨_, hspace⟩, rfl⟩
  exact ⟨hnul, hnul', h, h', hends,
    (ofText_concat _ _ _ _ hnul hnul' h h').2 hends .none ⟨['\n'], by simp [IsBlank]⟩⟩

end TensorText

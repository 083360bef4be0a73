/-
The canonical text of a document.

Writing a document gives the tightest layout of its tensors: no gap anywhere, one comma
between two tensors and none after the last.  `tightLayout` is that layout and
`encodeEntries_eq_tight` says that it is what is written.  Reading is settled for every
layout, so three things follow without another look at the scanner: what was written is
read back, reading and writing again changes nothing but the gaps and commas, and a text
that is tight already comes back as it was.

Names are written as they stand and nothing in them is escaped.  So the condition on
names is not one of the writer: it is the condition under which a name can stand in a
text at all, and `isName_of_mem_entries` is why it cannot be weakened.
-/
import Mathlib
import TensorText.Encode
import TensorText.Proofs.Read

namespace TensorText

open Grammar

namespace Grammar

/-! ### Tight texts -/

/-- A tensor without the gaps around its colon. -/
def Spelling.tight (t : Spelling) : List Char :=
  '"' :: t.name.chars ++ '"' :: ':' :: '"' :: t.dimensions.chars ++ ';' :: t.values.chars ++ ['"']

/-- Tensors without gaps, parted by single commas and enclosed in braces. -/
def tightText (ts : List Spelling) : List Char :=
  '{' :: [','].intercalate (ts.map Spelling.tight) ++ ['}']

/-- A row of tensors without gaps, a comma after each but the last. -/
def tightItems : List Spelling → List Item
  | [] => []
  | [t] => [⟨{ t with beforeColon := .none, afterColon := .none }, .blanks .none⟩]
  | t :: u :: ts =>
    ⟨{ t with beforeColon := .none, afterColon := .none }, .comma .none .none⟩ ::
      tightItems (u :: ts)

/-- The layout of a tight text. -/
def tightLayout (ts : List Spelling) : Layout := ⟨⟨.none, .none, tightItems ts⟩, []⟩

theorem spell_tightItems (ts : List Spelling) :
    spell (tightItems ts) = [','].intercalate (ts.map Spelling.tight) := by
  fun_induction tightItems ts with
  | case1 => rfl
  | case2 t => simp [spell, Spelling.text, Spelling.tight, Separator.text, Gap.none]
  | case3 t u ts ih =>
      rw [List.map_cons, List.map_cons, List.intercalate_cons_cons, ← List.map_cons, ← ih]
      simp [spell, Spelling.text, Spelling.tight, Separator.text, Gap.none]

theorem text_tightLayout (ts : List Spelling) : (tightLayout ts).text = tightText ts := by
  simp [tightLayout, Layout.text, Body.text, tightText, spell_tightItems, Gap.none]

theorem entries_tightLayout (ts : List Spelling) :
    (tightLayout ts).entries = ts.map Spelling.entry := by
  show (tightItems ts).map (fun i => i.tensor.entry) = _
  fun_induction tightItems ts with
  | case1 => rfl
  | case2 t => rfl
  | case3 t u ts ih =>
      rw [List.map_cons, ih]
      rfl

theorem nul_not_mem_tightText (ts : List Spelling) : '\x00' ∉ tightText ts := by
  rw [← text_tightLayout]
  intro h
  rcases List.mem_append.mp h with hb | hr
  · exact Body.nul_not_mem_text _ hb
  · exact absurd hr (by simp [tightLayout])

end Grammar

/-! ### Writing -/

theorem toList_encode_entry (t : Spelling) : t.entry.encode.toList = t.tight := by
  simp [Entry.encode, Spelling.entry, Spelling.tight]

/-- **What is written for tensors is their tight text.** -/
theorem encodeEntries_eq_tight (ts : List Spelling) :
    (encodeEntries (ts.map Spelling.entry)).toList = tightText ts := by
  have hrow : ts.map (String.toList ∘ Entry.encode ∘ Spelling.entry) = ts.map Spelling.tight :=
    List.map_congr_left fun t _ => toList_encode_entry t
  simp [encodeEntries, tightText, String.toList_intercalate, hrow]

/-- What is written for tensors is read back, strictly or not, also with blanks behind it. -/
theorem ofText_encode_spellings_append (ts : List Spelling) {rest : List Char}
    (hrest : ∀ c ∈ rest, IsBlank c) (options : Options) :
    Document.ofText (encodeEntries (ts.map Spelling.entry) ++ String.ofList rest) options =
      .ok ⟨ts.map Spelling.entry⟩ := by
  have htext : (encodeEntries (ts.map Spelling.entry) ++ String.ofList rest).toList =
      tightText ts ++ rest := by
    rw [String.toList_append, encodeEntries_eq_tight, String.toList_ofList]
  have hnul : '\x00' ∉ tightText ts ++ rest := by
    intro h
    rcases List.mem_append.mp h with hts | hblank
    · exact nul_not_mem_tightText ts hts
    · exact absurd (hrest _ hblank) (by decide)
  have hlayout : ({ tightLayout ts with rest := rest } : Layout).text = tightText ts ++ rest := by
    rw [← text_tightLayout]
    simp [Layout.text, tightLayout]
  rw [← entries_tightLayout]
  refine ofText_of_layout (l := { tightLayout ts with rest := rest }) ?_ fun _ => hrest
  rw [hlayout, entries_tightLayout, buffer_eq (by rw [htext]; exact hnul), htext]

theorem ofText_encode_spellings (ts : List Spelling) (options : Options) :
    Document.ofText (encodeEntries (ts.map Spelling.entry)) options =
      .ok ⟨ts.map Spelling.entry⟩ := by
  have hnone : ∀ c ∈ ([] : List Char), IsBlank c := by simp
  have h := ofText_encode_spellings_append ts hnone options
  rwa [String.ofList_nil, String.append_empty] at h

/-! ### Names that survive -/

/-- The spelling of an entry whose name can stand in a text. -/
def Entry.spelling (e : Entry) (h : IsName e.name.toList) : Spelling :=
  ⟨⟨e.name.toList, h⟩, .none, .none, .ofBytes e.dimensions, .ofBytes e.values⟩

theorem entry_spelling (e : Entry) (h : IsName e.name.toList) : (e.spelling h).entry = e := by
  simp [Entry.spelling, Spelling.entry]

theorem exists_spellings {es : List Entry} (h : ∀ e ∈ es, IsName e.name.toList) :
    ∃ ts : List Spelling, ts.map Spelling.entry = es := by
  induction es with
  | nil => exact ⟨[], rfl⟩
  | cons e es ih =>
      obtain ⟨ts, hts⟩ := ih fun e he => h e (List.mem_cons_of_mem _ he)
      refine ⟨e.spelling (h e List.mem_cons_self) :: ts, ?_⟩
      rw [List.map_cons, entry_spelling, hts]

theorem ofText_encodeEntries {es : List Entry} (h : ∀ e ∈ es, IsName e.name.toList)
    (options : Options) : Document.ofText (encodeEntries es) options = .ok ⟨es⟩ := by
  obtain ⟨ts, rfl⟩ := exists_spellings h
  exact ofText_encode_spellings ts options

theorem ofText_encodeEntries_append {es : List Entry} (h : ∀ e ∈ es, IsName e.name.toList)
    {rest : List Char} (hrest : ∀ c ∈ rest, IsBlank c) (options : Options) :
    Document.ofText (encodeEntries es ++ String.ofList rest) options = .ok ⟨es⟩ := by
  obtain ⟨ts, rfl⟩ := exists_spellings h
  exact ofText_encode_spellings_append ts hrest options

/-- **Whatever text is read, no name in the document breaks the rule.** -/
theorem isName_of_mem_entries {text : String} {options : Options} {doc : Document}
    (h : Document.ofText text options = .ok doc) :
    ∀ e ∈ doc.entries, IsName e.name.toList := by
  intro e he
  by_cases hb : buffer text = []
  · rw [ofText_of_nil hb] at h
    cases h
    cases he
  · obtain ⟨l, -, -, rfl⟩ := exists_layout_of_ofText hb h
    obtain ⟨i, -, rfl⟩ := List.mem_map.mp he
    rw [Spelling.entry, String.toList_ofList]
    exact i.tensor.name.isName

/--
**Entries are read back from what is written for them exactly if their names can stand
in a text.**  So writing is injective on such entries, and with one bad name among them
the text is refused or says something else.
-/
theorem ofText_encodeEntries_iff (es : List Entry) (options : Options) :
    (Document.ofText (encodeEntries es) options = .ok ⟨es⟩ ↔
      ∀ e ∈ es, IsName e.name.toList) ∧
      (∀ es' : List Entry, (∀ e ∈ es, IsName e.name.toList) →
        (∀ e ∈ es', IsName e.name.toList) → encodeEntries es = encodeEntries es' → es = es') ∧
      ((∃ e ∈ es, ¬IsName e.name.toList) → ∀ doc : Document,
        Document.ofText (encodeEntries es) options = .ok doc → doc ≠ ⟨es⟩) := by
  refine ⟨⟨?_, ?_⟩, ?_, ?_⟩
  · intro h
    exact isName_of_mem_entries h
  · intro h
    exact ofText_encodeEntries h options
  · intro es' h h' heq
    have hread := ofText_encodeEntries h options
    rw [heq, ofText_encodeEntries h' options] at hread
    cases hread
    rfl
  · rintro ⟨e, he, hbad⟩ doc h rfl
    exact hbad (isName_of_mem_entries h e he)

/-- A name that closes itself makes two tensors out of one. -/
example : Document.ofText (encodeEntries [⟨"a\":\";\",\"b", [], []⟩]) {} =
    .ok ⟨[⟨"a", [], []⟩, ⟨"b", [], []⟩]⟩ := by cbv

/-! ### Reading and writing again -/

/-- The tensors of a layout in their order. -/
def Grammar.Body.tensors (b : Body) : List Spelling := b.items.map Item.tensor

theorem encode_of_layout (l : Layout) :
    (Document.mk l.entries).encode.toList = tightText l.tensors := by
  rw [← encodeEntries_eq_tight, Body.tensors, List.map_map]
  rfl

theorem ofText_encode {text : String} {options : Options} {doc : Document}
    (h : Document.ofText text options = .ok doc) (options' : Options) :
    Document.ofText doc.encode options' = .ok doc :=
  ofText_encodeEntries (isName_of_mem_entries h) options'

/--
**Reading a text and writing it again changes nothing but its gaps and commas.**  The
names and payloads are the characters that stood in the text; what is written is
accepted strictly and says the same; and a text that is tight already comes back as it
was.
-/
theorem encode_of_ofText {text : String} {options : Options} {doc : Document}
    (h : Document.ofText text options = .ok doc) :
    (buffer text = [] → doc.encode = "\x7b\x7d") ∧
      (buffer text ≠ [] → ∃! l : Layout, l.text = buffer text ∧
        (options.strict = true → ∀ c ∈ l.rest, IsBlank c) ∧
        doc.encode.toList = tightText l.tensors) ∧
      Document.ofText doc.encode { strict := true } = .ok doc ∧
      ∀ (ts : List Spelling) (options' : Options), ∃ doc' : Document,
        Document.ofText (String.ofList (tightText ts)) options' = .ok doc' ∧
          doc'.encode = String.ofList (tightText ts) := by
  refine ⟨?_, ?_, ofText_encode h _, ?_⟩
  · intro hb
    rw [ofText_of_nil hb] at h
    cases h
    rfl
  · intro hb
    obtain ⟨l, hl, hrest, rfl⟩ := exists_layout_of_ofText hb h
    refine ⟨l, ⟨hl, hrest, encode_of_layout l⟩, ?_⟩
    rintro l' ⟨hl', -, -⟩
    exact Layout.text_injective (hl'.trans hl.symm)
  · intro ts options'
    have htext : String.ofList (tightText ts) = encodeEntries (ts.map Spelling.entry) := by
      rw [← encodeEntries_eq_tight, String.ofList_toList]
    refine ⟨⟨ts.map Spelling.entry⟩, ?_, htext.symm⟩
    rw [htext]
    exact ofText_encode_spellings ts options'

/-- A text with every freedom the grammar allows: gaps, a comma left out, one too many,
an escaped quote in a name, and content after the closing brace. -/
theorem encode_of_ofText_loose :
    Document.ofText "\t\x7b \"a\\\"\\\" : \"AQID;\"\n\"b\":\"/w==;AAAA\" , \x7d rest" {} =
        .ok ⟨[⟨"a\\\"\\", [1, 2, 3], []⟩, ⟨"b", [255], [0, 0, 0]⟩]⟩ ∧
      Document.ofText
          (Document.mk [⟨"a\\\"\\", [1, 2, 3], []⟩, ⟨"b", [255], [0, 0, 0]⟩]).encode
          { strict := true } =
        .ok ⟨[⟨"a\\\"\\", [1, 2, 3], []⟩, ⟨"b", [255], [0, 0, 0]⟩]⟩ := by
  have h : Document.ofText
      "\t\x7b \"a\\\"\\\" : \"AQID;\"\n\"b\":\"/w==;AAAA\" , \x7d rest" {} =
        .ok ⟨[⟨"a\\\"\\", [1, 2, 3], []⟩, ⟨"b", [255], [0, 0, 0]⟩]⟩ := by cbv
  exact ⟨h, (encode_of_ofText h).2.2.1⟩

end TensorText

/-
How a text of named tensors is laid out.

The types below are the ways to lay one out, and none of them mentions the scanner: a
`Gap`, a `Name` and a `Run` carry the proof that they may stand where they stand, and a
`Layout` is put together from them.  What a layout says is `text` on one side and
`entries` on the other.

A layout can be read off its text in one way only.  Every part ends where it has to: a
gap or a run at the first character it could not take in, a name at its first quote
that is not escaped.  So two layouts of one text agree part by part from the left, and
that is all that `Layout.text_injective` says.

Texts that are not laid out in this way still begin like one.  `exists_body` cuts any
text with an opening brace behind the last complete tensor before its closing brace or
its first fault, and `Body.append_inj` says that there is one place for the cut.
-/
import TensorText.Entry
import TensorText.Proofs.Base64

namespace TensorText.Grammar

/-! ### Where a run of characters ends -/

/-- The text does not begin with a character of the class. -/
def Halts (p : Char → Prop) (r : List Char) : Prop := ∀ c ∈ r.head?, ¬p c

theorem halts_nil (p : Char → Prop) : Halts p [] := by
  intro c hc
  cases hc

theorem halts_cons {p : Char → Prop} {c : Char} {r : List Char} :
    Halts p (c :: r) ↔ ¬p c := by
  constructor
  · intro h
    exact h c rfl
  · intro h d hd
    cases hd
    exact h

/-- Whether a text begins with a character of the class is told by its first one. -/
theorem Halts.congr {p : Char → Prop} {r r' : List Char} (h : Halts p r)
    (hr : r'.head? = r.head?) : Halts p r' := by
  intro c hc
  rw [hr] at hc
  exact h c hc

/-- A run of a class can be cut off in one way if what follows does not go on with it. -/
theorem span_inj {p : Char → Prop} {a a' r r' : List Char} (ha : ∀ c ∈ a, p c)
    (ha' : ∀ c ∈ a', p c) (hr : Halts p r) (hr' : Halts p r') (h : a ++ r = a' ++ r') :
    a = a' ∧ r = r' := by
  rcases List.append_eq_append_iff.mp h with ⟨x, hx, hrx⟩ | ⟨x, hx, hrx⟩
  · cases x with
    | nil => exact ⟨by simpa using hx.symm, by simpa using hrx⟩
    | cons c x =>
        rw [hrx] at hr
        exact absurd (ha' c (by rw [hx]; simp)) (halts_cons.mp hr)
  · cases x with
    | nil => exact ⟨by simpa using hx, by simpa using hrx.symm⟩
    | cons c x =>
        rw [hrx] at hr'
        exact absurd (ha c (by rw [hx]; simp)) (halts_cons.mp hr')

/-! ### Gaps -/

/-- The four characters that may stand between the parts of a text. -/
def IsBlank (c : Char) : Prop := c = ' ' ∨ c = '\t' ∨ c = '\r' ∨ c = '\n'

instance (c : Char) : Decidable (IsBlank c) := inferInstanceAs (Decidable (_ ∨ _))

/-- A run of blanks, possibly an empty one. -/
@[ext] structure Gap where
  chars : List Char
  blank : ∀ c ∈ chars, IsBlank c

/-- No blanks at all. -/
def Gap.none : Gap := ⟨[], by simp⟩

theorem Gap.append_inj {w w' : Gap} {r r' : List Char} (hr : Halts IsBlank r)
    (hr' : Halts IsBlank r') (h : w.chars ++ r = w'.chars ++ r') : w = w' ∧ r = r' := by
  obtain ⟨hw, hrr⟩ := span_inj w.blank w'.blank hr hr' h
  exact ⟨Gap.ext hw, hrr⟩

theorem exists_gap (s : List Char) :
    ∃ (w : Gap) (r : List Char), s = w.chars ++ r ∧ Halts IsBlank r := by
  induction s with
  | nil => exact ⟨Gap.none, [], rfl, halts_nil _⟩
  | cons c s ih =>
      by_cases hc : IsBlank c
      · obtain ⟨w, r, rfl, hr⟩ := ih
        refine ⟨⟨c :: w.chars, ?_⟩, r, rfl, hr⟩
        intro d hd
        rcases List.mem_cons.mp hd with rfl | hd
        · exact hc
        · exact w.blank d hd
      · exact ⟨Gap.none, c :: s, rfl, halts_cons.mpr hc⟩

/-- A text is all blanks, or it has a first character that is none. -/
theorem blank_or_other (s : List Char) : (∀ c ∈ s, IsBlank c) ∨
    ∃ (w : Gap) (c : Char) (r : List Char), s = w.chars ++ c :: r ∧ ¬IsBlank c := by
  obtain ⟨w, r, rfl, hend⟩ := exists_gap s
  cases r with
  | nil =>
      rw [List.append_nil]
      exact Or.inl w.blank
  | cons c r => exact Or.inr ⟨w, c, r, rfl, halts_cons.mp hend⟩

/-! ### Names

A backslash opens an escape or closes the one that is open, and nothing else does, so
what matters before a character is only how many backslashes there are in all.
-/

/-- What may stand between the quotes of a name. -/
structure IsName (n : List Char) : Prop where
  noNul : '\x00' ∉ n
  /-- Every quote in it is escaped. -/
  escaped : ∀ p q, n = p ++ '"' :: q → p.count '\\' % 2 = 1
  /-- No escape is left open at its end. -/
  closed : n.count '\\' % 2 = 0

/-- The characters of a name as they stand between its quotes. -/
@[ext] structure Name where
  chars : List Char
  isName : IsName chars

theorem Name.append_inj {n n' : Name} {r r' : List Char}
    (h : n.chars ++ '"' :: r = n'.chars ++ '"' :: r') : n = n' ∧ r = r' := by
  -- The longer of two names would have the closing quote of the shorter one in it, at a
  -- place where no escape is open.
  rcases List.append_eq_append_iff.mp h with ⟨x, hx, hrx⟩ | ⟨x, hx, hrx⟩
  · cases x with
    | nil => exact ⟨Name.ext (by simpa using hx.symm), by simpa using hrx⟩
    | cons c x =>
        obtain ⟨rfl, -⟩ := List.cons.inj hrx
        have hodd := n'.isName.escaped _ _ hx
        have heven := n.isName.closed
        omega
  · cases x with
    | nil => exact ⟨Name.ext (by simpa using hx), by simpa using hrx.symm⟩
    | cons c x =>
        obtain ⟨rfl, -⟩ := List.cons.inj hrx
        have hodd := n.isName.escaped _ _ hx
        have heven := n'.isName.closed
        omega

/-! ### Payloads -/

/-- A payload as it is written: what encoding writes for some bytes. -/
@[ext] structure Run where
  chars : List Char
  canonical : ∃ bytes, Base64.encode bytes = chars

namespace Run

theorem isSome_decode (u : Run) : (Base64.decode u.chars).toOption.isSome = true := by
  obtain ⟨bytes, h⟩ := u.canonical
  rw [Base64.decode_eq_ok_iff.mpr h]
  rfl

/-- The bytes that a payload decodes to. -/
def bytes (u : Run) : List UInt8 := (Base64.decode u.chars).toOption.get u.isSome_decode

theorem decode_chars (u : Run) : Base64.decode u.chars = .ok u.bytes := by
  obtain ⟨bytes, h⟩ := u.canonical
  have hd := Base64.decode_eq_ok_iff.mpr h
  rw [hd]
  simp [Run.bytes, hd, Except.toOption]

@[simp] theorem encode_bytes (u : Run) : Base64.encode u.bytes = u.chars :=
  Base64.decode_eq_ok_iff.mp u.decode_chars

theorem bytes_eq {u : Run} {bytes : List UInt8} (h : Base64.encode bytes = u.chars) :
    u.bytes = bytes :=
  Base64.encode_injective (u.encode_bytes.trans h.symm)

/-- The payload that spells the given bytes. -/
def ofBytes (bytes : List UInt8) : Run := ⟨Base64.encode bytes, bytes, rfl⟩

@[simp] theorem bytes_ofBytes (bytes : List UInt8) : (ofBytes bytes).bytes = bytes :=
  bytes_eq rfl

theorem isCodeChar (u : Run) : ∀ c ∈ u.chars, Base64.isCodeChar c = true := by
  intro c hc
  rw [← u.encode_bytes] at hc
  exact Base64.isCodeChar_of_mem_encode hc

theorem append_inj {u u' : Run} {r r' : List Char}
    (hr : Halts (fun c => Base64.isCodeChar c = true) r)
    (hr' : Halts (fun c => Base64.isCodeChar c = true) r')
    (h : u.chars ++ r = u'.chars ++ r') : u = u' ∧ r = r' := by
  obtain ⟨hu, hrr⟩ := span_inj u.isCodeChar u'.isCodeChar hr hr' h
  exact ⟨Run.ext hu, hrr⟩

end Run

/-! ### One tensor -/

/-- A tensor as it stands in a text. -/
structure Spelling where
  name : Name
  beforeColon : Gap
  afterColon : Gap
  dimensions : Run
  values : Run

namespace Spelling

/-- The characters of a tensor, from the first quote to the last. -/
def text (t : Spelling) : List Char :=
  '"' :: t.name.chars ++ '"' :: t.beforeColon.chars ++ ':' :: t.afterColon.chars ++
    '"' :: t.dimensions.chars ++ ';' :: t.values.chars ++ ['"']

/-- What a tensor says: its name as it stands and the bytes of its payloads. -/
def entry (t : Spelling) : Entry :=
  ⟨String.ofList t.name.chars, t.dimensions.bytes, t.values.bytes⟩

/-- A tensor in front of the rest of its text, one part after the other. -/
theorem text_append (t : Spelling) (r : List Char) :
    t.text ++ r = '"' :: (t.name.chars ++ '"' :: (t.beforeColon.chars ++
      ':' :: (t.afterColon.chars ++ '"' :: (t.dimensions.chars ++
        ';' :: (t.values.chars ++ '"' :: r))))) := by
  simp [text]

theorem append_inj {t t' : Spelling} {r r' : List Char} (h : t.text ++ r = t'.text ++ r') :
    t = t' ∧ r = r' := by
  obtain ⟨n, w, v, d, x⟩ := t
  obtain ⟨n', w', v', d', x'⟩ := t'
  rw [text_append, text_append] at h
  obtain ⟨rfl, h1⟩ := Name.append_inj (List.cons.inj h).2
  obtain ⟨rfl, h2⟩ :=
    Gap.append_inj (halts_cons.mpr (by decide)) (halts_cons.mpr (by decide)) h1
  obtain ⟨rfl, h3⟩ := Gap.append_inj (halts_cons.mpr (by decide))
    (halts_cons.mpr (by decide)) (List.cons.inj h2).2
  obtain ⟨rfl, h4⟩ := Run.append_inj (halts_cons.mpr (by decide))
    (halts_cons.mpr (by decide)) (List.cons.inj h3).2
  obtain ⟨rfl, h5⟩ := Run.append_inj (halts_cons.mpr (by decide))
    (halts_cons.mpr (by decide)) (List.cons.inj h4).2
  exact ⟨rfl, (List.cons.inj h5).2⟩

end Spelling

/-- A complete tensor stands at the front of the text. -/
def BeginsTensor (r : List Char) : Prop := ∃ (t : Spelling) (r' : List Char), r = t.text ++ r'

theorem head?_of_beginsTensor {r : List Char} (h : BeginsTensor r) : r.head? = some '"' := by
  obtain ⟨t, r', rfl⟩ := h
  rw [Spelling.text_append]
  rfl

theorem not_beginsTensor {r : List Char} (h : r.head? ≠ some '"') : ¬BeginsTensor r :=
  fun ht => h (head?_of_beginsTensor ht)

/-! ### What stands between two tensors -/

/-- What follows a tensor: blanks, or a comma with blanks on either side. -/
inductive Separator
  | blanks (w : Gap)
  | comma (before after : Gap)

namespace Separator

def text : Separator → List Char
  | blanks w => w.chars
  | comma w v => w.chars ++ ',' :: v.chars

/-- The text that follows cannot be taken for a part of the separator. -/
def EndsBefore : Separator → List Char → Prop
  | blanks _, r => Halts IsBlank r ∧ r.head? ≠ some ','
  | comma .., r => Halts IsBlank r

theorem EndsBefore.halts {p : Separator} {r : List Char} (h : p.EndsBefore r) :
    Halts IsBlank r := by
  cases p with
  | blanks w => exact h.1
  | comma w v => exact h

theorem EndsBefore.congr {p : Separator} {r r' : List Char} (h : p.EndsBefore r)
    (hr : r'.head? = r.head?) : p.EndsBefore r' := by
  cases p with
  | blanks w => exact ⟨Halts.congr h.1 hr, by rw [hr]; exact h.2⟩
  | comma w v => exact Halts.congr h hr

/-- Neither a quote nor a brace is a part of a separator. -/
theorem endsBefore_cons (p : Separator) {c : Char} (hb : ¬IsBlank c) (hc : c ≠ ',')
    (r : List Char) : p.EndsBefore (c :: r) := by
  cases p with
  | blanks w => exact ⟨halts_cons.mpr hb, by simpa using hc⟩
  | comma w v => exact halts_cons.mpr hb

theorem endsBefore_nil (p : Separator) : p.EndsBefore [] := by
  cases p with
  | blanks w => exact ⟨halts_nil _, by simp⟩
  | comma w v => exact halts_nil _

theorem append_inj {p p' : Separator} {r r' : List Char} (hr : p.EndsBefore r)
    (hr' : p'.EndsBefore r') (h : p.text ++ r = p'.text ++ r') : p = p' ∧ r = r' := by
  have hcomma : ∀ s : List Char, Halts IsBlank (',' :: s) := fun s => halts_cons.mpr (by decide)
  cases p with
  | blanks w =>
      cases p' with
      | blanks w' =>
          obtain ⟨rfl, rfl⟩ := Gap.append_inj hr.1 hr'.1 h
          exact ⟨rfl, rfl⟩
      | comma w' v' =>
          simp only [text, List.append_assoc, List.cons_append] at h
          obtain ⟨-, rfl⟩ := Gap.append_inj hr.1 (hcomma _) h
          exact absurd rfl hr.2
  | comma w v =>
      simp only [text, List.append_assoc, List.cons_append] at h
      cases p' with
      | blanks w' =>
          obtain ⟨-, rfl⟩ := Gap.append_inj (hcomma _) hr'.1 h
          exact absurd rfl hr'.2
      | comma w' v' =>
          simp only [List.append_assoc, List.cons_append] at h
          obtain ⟨rfl, htail⟩ := Gap.append_inj (hcomma _) (hcomma _) h
          obtain ⟨rfl, rfl⟩ := Gap.append_inj hr hr' (List.cons.inj htail).2
          exact ⟨rfl, rfl⟩

end Separator

theorem exists_separator (s : List Char) :
    ∃ (p : Separator) (r : List Char), s = p.text ++ r ∧ p.EndsBefore r := by
  obtain ⟨w, r, rfl, hr⟩ := exists_gap s
  by_cases hc : r.head? = some ','
  · obtain ⟨r, rfl⟩ := List.head?_eq_some_iff.mp hc
    obtain ⟨v, r, rfl, hv⟩ := exists_gap r
    exact ⟨.comma w v, r, by simp [Separator.text], hv⟩
  · exact ⟨.blanks w, r, rfl, hr, hc⟩

/-! ### A row of tensors -/

/-- A tensor and what separates it from what follows. -/
structure Item where
  tensor : Spelling
  separator : Separator

/-- The characters of tensors one after the other, each with its separator. -/
def spell (items : List Item) : List Char :=
  items.flatMap fun i => i.tensor.text ++ i.separator.text

theorem spell_nil : spell [] = [] := rfl

theorem spell_cons_append (i : Item) (items : List Item) (r : List Char) :
    spell (i :: items) ++ r = i.tensor.text ++ (i.separator.text ++ (spell items ++ r)) := by
  simp [spell]

/-- The text that follows cannot be taken for a part of the last separator; where there is
no tensor yet, it does not begin with blanks. -/
def EndBefore (items : List Item) (r : List Char) : Prop :=
  Halts IsBlank r ∧ ∀ i ∈ items.getLast?, i.separator.EndsBefore r

theorem endBefore_nil {r : List Char} : EndBefore [] r ↔ Halts IsBlank r := by
  simp [EndBefore]

theorem endBefore_cons {i : Item} {items : List Item} {r : List Char} :
    EndBefore (i :: items) r ↔ i.separator.EndsBefore (spell items ++ r) ∧ EndBefore items r := by
  cases items with
  | nil =>
      constructor
      · intro h
        exact ⟨h.2 i rfl, endBefore_nil.mpr h.1⟩
      · rintro ⟨hi, h⟩
        refine ⟨h.1, fun j hj => ?_⟩
        cases hj
        exact hi
  | cons j items =>
      -- Between two tensors the next quote ends the separator, so nothing is asked for.
      have hi : i.separator.EndsBefore (spell (j :: items) ++ r) := by
        rw [spell_cons_append, Spelling.text_append]
        exact i.separator.endsBefore_cons (by decide) (by decide) _
      rw [EndBefore, List.getLast?_cons_cons]
      exact ⟨fun h => ⟨hi, h⟩, fun h => h.2⟩

theorem EndBefore.congr {items : List Item} {r r' : List Char} (h : EndBefore items r)
    (hr : r'.head? = r.head?) : EndBefore items r' :=
  ⟨Halts.congr h.1 hr, fun i hi => (h.2 i hi).congr hr⟩

/-- Neither a quote nor a brace goes on with a row of tensors. -/
theorem endBefore_of_head {c : Char} (hb : ¬IsBlank c) (hc : c ≠ ',') (items : List Item)
    (r : List Char) : EndBefore items (c :: r) :=
  ⟨halts_cons.mpr hb, fun i _ => i.separator.endsBefore_cons hb hc r⟩

/-- At the end of a text nothing follows that could be taken for a part of it. -/
theorem endBefore_end (items : List Item) : EndBefore items [] :=
  ⟨halts_nil _, fun i _ => i.separator.endsBefore_nil⟩

/-- A row of tensors is cut off in one way if nothing more of it follows. -/
theorem spell_append_inj {items items' : List Item} {r r' : List Char}
    (hr : EndBefore items r) (hr' : EndBefore items' r') (ht : ¬BeginsTensor r)
    (ht' : ¬BeginsTensor r') (h : spell items ++ r = spell items' ++ r') :
    items = items' ∧ r = r' := by
  induction items generalizing items' with
  | nil =>
      cases items' with
      | nil => exact ⟨rfl, h⟩
      | cons j items' =>
          rw [spell_nil, List.nil_append, spell_cons_append] at h
          exact absurd ⟨j.tensor, _, h⟩ ht
  | cons i items ih =>
      cases items' with
      | nil =>
          rw [spell_nil, List.nil_append, spell_cons_append] at h
          exact absurd ⟨i.tensor, _, h.symm⟩ ht'
      | cons j items' =>
          obtain ⟨ti, pi⟩ := i
          obtain ⟨tj, pj⟩ := j
          rw [spell_cons_append, spell_cons_append] at h
          rw [endBefore_cons] at hr hr'
          obtain ⟨rfl, hsep⟩ := Spelling.append_inj h
          obtain ⟨rfl, htail⟩ := Separator.append_inj hr.1 hr'.1 hsep
          obtain ⟨rfl, rfl⟩ := ih hr.2 hr'.2 htail
          exact ⟨rfl, rfl⟩

/-- Every text begins with a row of tensors after which there is no further one. -/
theorem exists_items {s : List Char} (hs : Halts IsBlank s) :
    ∃ (items : List Item) (r : List Char),
      s = spell items ++ r ∧ EndBefore items r ∧ ¬BeginsTensor r := by
  by_cases ht : BeginsTensor s
  · obtain ⟨t, s', rfl⟩ := ht
    obtain ⟨p, s'', rfl, hp⟩ := exists_separator s'
    obtain ⟨items, r, rfl, hr, hnt⟩ := exists_items hp.halts
    refine ⟨⟨t, p⟩ :: items, r, ?_, endBefore_cons.mpr ⟨hp, hr⟩, hnt⟩
    rw [spell_cons_append]
  · exact ⟨[], s, rfl, endBefore_nil.mpr hs, ht⟩
termination_by s.length
decreasing_by
  subst_vars
  rw [Spelling.text_append]
  simp only [List.length_cons, List.length_append]
  omega

/-! ### Whole texts -/

/-- A text up to a point between two tensors: the opening brace and the tensors so far. -/
structure Body where
  lead : Gap
  inner : Gap
  items : List Item

namespace Body

def text (b : Body) : List Char := b.lead.chars ++ '{' :: b.inner.chars ++ spell b.items

/-- What the tensors so far say, in their order. -/
def entries (b : Body) : List Entry := b.items.map fun i => i.tensor.entry

/-- The body goes up to the point where it has to end before the given rest. -/
def EndsBefore (b : Body) (r : List Char) : Prop := EndBefore b.items r

theorem endsBefore_nil (b : Body) : b.EndsBefore [] := endBefore_end b.items

theorem text_append (b : Body) (r : List Char) :
    b.text ++ r = b.lead.chars ++ '{' :: (b.inner.chars ++ (spell b.items ++ r)) := by
  simp [text]

/-- After the opening brace, the first quote or what follows the body ends the blanks. -/
theorem halts_items {b : Body} {r : List Char} (h : b.EndsBefore r) :
    Halts IsBlank (spell b.items ++ r) := by
  cases hi : b.items with
  | nil =>
      rw [spell_nil, List.nil_append]
      exact h.1
  | cons i items =>
      rw [spell_cons_append, Spelling.text_append]
      exact halts_cons.mpr (by decide)

/-- **A text can be cut behind its last complete tensor in one way.** -/
theorem append_inj {b b' : Body} {r r' : List Char} (hr : b.EndsBefore r)
    (hr' : b'.EndsBefore r') (ht : ¬BeginsTensor r) (ht' : ¬BeginsTensor r')
    (h : b.text ++ r = b'.text ++ r') : b = b' ∧ r = r' := by
  have hin := halts_items hr
  have hin' := halts_items hr'
  obtain ⟨w, v, items⟩ := b
  obtain ⟨w', v', items'⟩ := b'
  rw [text_append, text_append] at h
  obtain ⟨rfl, h1⟩ := Gap.append_inj (halts_cons.mpr (by decide)) (halts_cons.mpr (by decide)) h
  obtain ⟨rfl, h2⟩ := Gap.append_inj hin hin' (List.cons.inj h1).2
  obtain ⟨rfl, rfl⟩ := spell_append_inj hr hr' ht ht' h2
  exact ⟨rfl, rfl⟩

/-- No part of a body has a NUL in it. -/
theorem nul_not_mem_text (b : Body) : '\x00' ∉ b.text := by
  have hgap : ∀ w : Gap, '\x00' ∉ w.chars := fun w h => absurd (w.blank _ h) (by decide)
  have hrun : ∀ u : Run, '\x00' ∉ u.chars := fun u h => absurd (u.isCodeChar _ h) (by decide)
  have hitem : ∀ i : Item, '\x00' ∉ i.tensor.text ++ i.separator.text := by
    intro i h
    rcases List.mem_append.mp h with ht | hp
    · simp [Spelling.text, i.tensor.name.isName.noNul, hgap, hrun] at ht
    · cases hsep : i.separator with
      | blanks w => simp [hsep, Separator.text, hgap] at hp
      | comma w v => simp [hsep, Separator.text, hgap] at hp
  intro h
  simp only [text, List.mem_append, List.mem_cons, hgap, false_or, or_false] at h
  rcases h with h | h
  · exact absurd h (by decide)
  · obtain ⟨i, -, hi⟩ := List.mem_flatMap.mp h
    exact hitem i hi

end Body

/-- The text has its opening brace, with nothing but blanks in front of it. -/
def HasOpening (s : List Char) : Prop := ∃ (w : Gap) (r : List Char), s = w.chars ++ '{' :: r

/-- **A text with an opening brace can be cut behind its last complete tensor.** -/
theorem exists_body {s : List Char} (h : HasOpening s) :
    ∃ (b : Body) (r : List Char), s = b.text ++ r ∧ b.EndsBefore r ∧ ¬BeginsTensor r := by
  obtain ⟨w, s, rfl⟩ := h
  obtain ⟨v, s, rfl, hs⟩ := exists_gap s
  obtain ⟨items, r, rfl, hr, ht⟩ := exists_items hs
  refine ⟨⟨w, v, items⟩, r, ?_, hr, ht⟩
  rw [Body.text_append]

/-- A whole text: a body, its closing brace, and whatever comes after it. -/
structure Layout extends Body where
  rest : List Char

namespace Layout

def text (l : Layout) : List Char := l.toBody.text ++ '}' :: l.rest

/-- The index of the closing brace. -/
def brace (l : Layout) : Nat := l.toBody.text.length

/-- A closing brace ends every body. -/
theorem endsBefore (l : Layout) : l.toBody.EndsBefore ('}' :: l.rest) :=
  endBefore_of_head (by decide) (by decide) l.items l.rest

/-- **A text is laid out in one way.** -/
theorem text_injective {l l' : Layout} (h : l.text = l'.text) : l = l' := by
  obtain ⟨hb, hr⟩ := Body.append_inj l.endsBefore l'.endsBefore
    (not_beginsTensor (by simp)) (not_beginsTensor (by simp)) h
  obtain ⟨b, r⟩ := l
  obtain ⟨b', r'⟩ := l'
  obtain rfl : b = b' := hb
  obtain rfl : r = r' := (List.cons.inj hr).2
  rfl

end Layout

end TensorText.Grammar

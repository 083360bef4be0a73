/-
Texts that end too soon.

Cut a whole text anywhere before its closing brace.  Then the cut falls between two
tensors, or it makes a fragment of one: the beginning of a name is the beginning of a
name, fewer blanks are blanks, and as much of a payload as divides into quads is a
payload.  So what is left fails at its end, with the character that is due there or with
a payload that does not divide into quads, and with the tensors that are complete.

The other way round, a text that fails for want of a character at its end needs only to
be continued: every fragment is the beginning of a tensor.
-/
import TensorText.Proofs.Partial
import TensorText.Proofs.Position

namespace TensorText

open Grammar

namespace Grammar

/-! ### The beginning of a part is again such a part -/

/-- A text in two pieces is cut in the first piece or behind it. -/
theorem prefix_append {α : Type} {q a r : List α} (h : q <+: a ++ r) :
    q <+: a ∨ ∃ q', q = a ++ q' ∧ q' <+: r := by
  rcases List.prefix_or_prefix_of_prefix h (List.prefix_append a r) with hq | ⟨q', rfl⟩
  · exact Or.inl hq
  · exact Or.inr ⟨q', rfl, (List.prefix_append_right_inj a).mp h⟩

/-- A text in two pieces with a character between them is cut in the first piece or behind
that character. -/
theorem prefix_append_cons {α : Type} {q a r : List α} {c : α} (h : q <+: a ++ c :: r) :
    q <+: a ∨ ∃ q', q = a ++ c :: q' ∧ q' <+: r := by
  rcases prefix_append h with hq | ⟨q', rfl, hq'⟩
  · exact Or.inl hq
  cases q' with
  | nil => exact Or.inl (by rw [List.append_nil])
  | cons d q' =>
      obtain ⟨rfl, hr⟩ := List.cons_prefix_cons.mp hq'
      exact Or.inr ⟨q', rfl, hr⟩

theorem Gap.exists_of_cut {q : List Char} {w : Gap} (h : q <+: w.chars) :
    ∃ w' : Gap, q = w'.chars :=
  ⟨⟨q, fun c hc => w.blank c (h.subset hc)⟩, rfl⟩

theorem Name.exists_start_of_cut {q : List Char} {n : Name} (h : q <+: n.chars) :
    ∃ n' : NameStart, q = n'.chars := by
  obtain ⟨r, hr⟩ := h
  refine ⟨⟨q, fun hnul => n.isName.noNul ?_, ?_⟩, rfl⟩
  · rw [← hr]
    exact List.mem_append_left r hnul
  · intro p q' hq
    refine n.isName.escaped p (q' ++ r) ?_
    rw [← hr, hq, List.append_assoc, List.cons_append]

theorem Run.exists_of_cut {q : List Char} {u : Run} (h : q <+: u.chars)
    (hmod : q.length % 4 = 0) : ∃ u' : Run, q = u'.chars := by
  have hlength : q.length = 4 * (q.length / 4) := by omega
  refine ⟨.ofBytes (u.bytes.take (3 * (q.length / 4))), ?_⟩
  show q = Base64.encode _
  rw [← Base64.take_encode, u.encode_bytes, ← hlength]
  exact List.prefix_iff_eq_take.mp h

theorem Separator.exists_of_cut {q : List Char} {p : Separator} (h : q <+: p.text) :
    ∃ p' : Separator, q = p'.text := by
  cases p with
  | blanks w =>
      obtain ⟨w', rfl⟩ := Gap.exists_of_cut h
      exact ⟨.blanks w', rfl⟩
  | comma w v =>
      rcases prefix_append_cons h with hw | ⟨q', rfl, hv⟩
      · obtain ⟨w', rfl⟩ := Gap.exists_of_cut hw
        exact ⟨.blanks w', rfl⟩
      · obtain ⟨v', rfl⟩ := Gap.exists_of_cut hv
        exact ⟨.comma w v', rfl⟩

/-! ### Where the tensors of a text end -/

/-- What the tensors of a row say that begins at an index of its text, each with the index
of its closing quote. -/
def closings (i : Nat) : List Item → List (Entry × Nat)
  | [] => []
  | a :: items =>
    (a.tensor.entry, i + a.tensor.text.length - 1) ::
      closings (i + a.tensor.text.length + a.separator.text.length) items

/-- What those tensors of a row say whose closing quotes stand before index `n`. -/
def entriesBefore (n i : Nat) (items : List Item) : List Entry :=
  ((closings i items).filter fun x => x.2 < n).map Prod.fst

/-- The index at which the tensors of a body begin. -/
def Body.start (b : Body) : Nat := (b.lead.chars ++ '{' :: b.inner.chars).length

/-- What the tensors of a body say, each with the index of its closing quote. -/
def Body.closings (b : Body) : List (Entry × Nat) := Grammar.closings b.start b.items

/-- What the tensors of a body say whose closing quotes are among the first `n` characters. -/
def Body.entriesWithin (b : Body) (n : Nat) : List Entry := entriesBefore n b.start b.items

theorem map_fst_closings (i : Nat) (items : List Item) :
    (closings i items).map Prod.fst = items.map fun a => a.tensor.entry := by
  induction items generalizing i with
  | nil => rfl
  | cons a items ih => rw [closings, List.map_cons, List.map_cons, ih]

/-- A quote stands at each of the indices. -/
theorem getElem?_closings (u : List Char) (items : List Item) (r : List Char) :
    ∀ x ∈ closings u.length items, (u ++ (spell items ++ r))[x.2]? = some '"' := by
  induction items generalizing u with
  | nil =>
      intro x hx
      cases hx
  | cons a items ih =>
      intro x hx
      rw [spell_cons_append]
      rcases List.mem_cons.mp hx with rfl | hx
      · obtain ⟨q, hq⟩ : ∃ q, a.tensor.text = q ++ ['"'] := ⟨_, rfl⟩
        have hindex : u.length + a.tensor.text.length - 1 = (u ++ q).length := by
          rw [hq]
          simp only [List.length_append, List.length_singleton]
          omega
        show _[u.length + a.tensor.text.length - 1]? = _
        rw [hindex, hq, List.append_assoc q, ← List.append_assoc u, getElem?_append_length]
        rfl
      · have hlater := ih (u ++ a.tensor.text ++ a.separator.text) x
        simp only [List.length_append, List.append_assoc] at hlater
        exact hlater (by rwa [← Nat.add_assoc])

theorem Body.getElem?_closings (b : Body) (r : List Char) :
    ∀ x ∈ b.closings, (b.text ++ r)[x.2]? = some '"' := by
  have htext : b.text ++ r = (b.lead.chars ++ '{' :: b.inner.chars) ++ (spell b.items ++ r) := by
    rw [Body.text, List.append_assoc]
  rw [htext]
  exact Grammar.getElem?_closings _ b.items r

theorem length_text_pos (t : Spelling) : 0 < t.text.length := by
  simp [Spelling.text]

/-- Nothing of a row closes before the row begins. -/
theorem entriesBefore_of_le {n i : Nat} (h : n ≤ i) (items : List Item) :
    entriesBefore n i items = [] := by
  induction items generalizing i with
  | nil => rfl
  | cons a items ih =>
      have hpos := length_text_pos a.tensor
      rw [entriesBefore, closings, List.filter_cons_of_neg]
      · exact ih (by omega)
      · simp only [decide_eq_true_eq]
        omega

/-- A tensor that ends in time is among those that do. -/
theorem entriesBefore_cons {n i : Nat} {a : Item} (h : i + a.tensor.text.length ≤ n)
    (items : List Item) : entriesBefore n i (a :: items) = a.tensor.entry ::
      entriesBefore n (i + a.tensor.text.length + a.separator.text.length) items := by
  have hpos := length_text_pos a.tensor
  rw [entriesBefore, closings, List.filter_cons_of_pos]
  · rfl
  · simp only [decide_eq_true_eq]
    omega

/-- A tensor that does not end in time is not, and neither is one behind it. -/
theorem entriesBefore_cons_of_lt {n i : Nat} {a : Item} (h : n < i + a.tensor.text.length)
    (items : List Item) : entriesBefore n i (a :: items) = [] := by
  rw [entriesBefore, closings, List.filter_cons_of_neg]
  · exact entriesBefore_of_le (by omega) items
  · simp only [decide_eq_true_eq]
    omega

end Grammar

namespace Scan

/-! ### A tensor that is cut off -/

/-- A cause that blames nothing that stands in the text, only that it ends where it does. -/
def IsCutOff (cause : Cause) : Prop := (∃ c, cause = .ended c) ∨ ∃ run, cause = .raggedRun run

/-- A fragment at the end of a text. -/
theorem fault_of_fragment (f : Fragment) :
    ∃ cause, IsCutOff cause ∧ TensorFault f.text ⟨cause, []⟩ :=
  ⟨_, Or.inl ⟨f.due, rfl⟩,
    .missing f (List.append_nil _).symm f.endsBefore_nil (by simp)⟩

/-- A payload that is cut off decodes as far as it goes, or does not divide into quads. -/
theorem fault_of_payload (p : PayloadStart) {q : List Char} {u : Run} (h : q <+: u.chars) :
    ∃ cause, IsCutOff cause ∧ TensorFault (p.text ++ q) ⟨cause, []⟩ := by
  by_cases hmod : q.length % 4 = 0
  · obtain ⟨u', rfl⟩ := Run.exists_of_cut h hmod
    exact fault_of_fragment (.payload p u')
  · refine ⟨_, Or.inr ⟨String.ofList q, rfl⟩, ?_⟩
    refine .undecodable p ?_ ?_ (halts_nil _) (Base64.decode_eq_misaligned_iff.mpr hmod)
    · rw [List.append_nil]
    · exact fun c hc => u.isCodeChar c (h.subset hc)

/-- **A tensor that is cut off fails at the end of the text.** -/
theorem fault_of_cut {q : List Char} {t : Spelling} (h : q <+: t.text) :
    q = t.text ∨ ∃ cause, IsCutOff cause ∧ TensorFault q ⟨cause, []⟩ := by
  have htext := t.text_append []
  rw [List.append_nil] at htext
  rw [htext] at h ⊢
  -- One part of the tensor after the other: the cut is in it, or behind the character after it.
  rcases prefix_append_cons (a := []) h with hq | ⟨q1, rfl, h1⟩
  · obtain rfl := List.prefix_nil.mp hq
    exact Or.inr (fault_of_fragment .none)
  rcases prefix_append_cons h1 with hq | ⟨q2, rfl, h2⟩
  · obtain ⟨n, rfl⟩ := Name.exists_start_of_cut hq
    exact Or.inr (fault_of_fragment (.unnamed n))
  rcases prefix_append_cons h2 with hq | ⟨q3, rfl, h3⟩
  · obtain ⟨w, rfl⟩ := Gap.exists_of_cut hq
    have hfault := fault_of_fragment (.named t.name w)
    simp only [Fragment.text, List.cons_append] at hfault
    exact Or.inr hfault
  rcases prefix_append_cons h3 with hq | ⟨q4, rfl, h4⟩
  · obtain ⟨v, rfl⟩ := Gap.exists_of_cut hq
    have hfault := fault_of_fragment (.parted t.name t.beforeColon v)
    simp only [Fragment.text, List.cons_append, List.append_assoc] at hfault
    exact Or.inr hfault
  rcases prefix_append_cons h4 with hq | ⟨q5, rfl, h5⟩
  · have hfault := fault_of_payload (.shape t.name t.beforeColon t.afterColon) hq
    simp only [PayloadStart.text, List.cons_append, List.append_assoc, List.nil_append] at hfault
    exact Or.inr hfault
  rcases prefix_append_cons h5 with hq | ⟨q6, rfl, h6⟩
  · have hfault := fault_of_payload
      (.values t.name t.beforeColon t.afterColon t.dimensions) hq
    simp only [PayloadStart.text, List.cons_append, List.append_assoc, List.nil_append] at hfault
    exact Or.inr hfault
  · obtain rfl := List.prefix_nil.mp h6
    exact Or.inl rfl

/-- A tensor that is cut off is too short for its closing quote. -/
theorem length_lt_of_fault {q : List Char} {t : Spelling} (h : q <+: t.text) {stop : Stop}
    (hfault : TensorFault q stop) : q.length < t.text.length := by
  refine lt_of_le_of_ne h.length_le fun hlength => ?_
  obtain rfl := h.eq_of_length hlength
  exact hfault.not_beginsTensor ⟨t, [], (List.append_nil _).symm⟩

/-- A tensor that is cut off still begins with a quote, if anything is left of it. -/
theorem head?_of_cut {q : List Char} {t : Spelling} (h : q <+: t.text) (hne : q ≠ []) :
    q.head? = some '"' := by
  obtain ⟨c, q, rfl⟩ := List.exists_cons_of_ne_nil hne
  have htext : c :: q <+: '"' :: t.text.tail := h
  rw [(List.cons_prefix_cons.mp htext).1]
  rfl

/-! ### A text that is cut off -/

/-- What is left of a row of tensors is a shorter row, or a shorter row and then what is left
of a tensor. -/
def IsRowCut (q : List Char) (items : List Item) : Prop :=
  q = spell items ∨ ∃ r, q = spell items ++ r ∧ r.head? = some '"' ∧
    ∃ cause, IsCutOff cause ∧ TensorFault r ⟨cause, []⟩

theorem isRowCut_of_cut {q : List Char} {t : Spelling} (h : q <+: t.text) {cause : Cause}
    (hcause : IsCutOff cause) (hfault : TensorFault q ⟨cause, []⟩) : IsRowCut q [] := by
  by_cases hq : q = []
  · exact Or.inl hq
  · exact Or.inr ⟨q, rfl, head?_of_cut h hq, cause, hcause, hfault⟩

theorem IsRowCut.cons {q : List Char} {items : List Item} (h : IsRowCut q items) (a : Item) :
    IsRowCut (a.tensor.text ++ (a.separator.text ++ q)) (a :: items) := by
  rcases h with rfl | ⟨r, rfl, hr⟩
  · exact Or.inl (by simp [spell])
  · exact Or.inr ⟨r, by simp [spell], hr⟩

/-- **A row of tensors that is cut off is a shorter row, or goes on with the beginning of a
tensor.**  The shorter row says what the tensors say that close before the cut. -/
theorem exists_items_of_cut (i : Nat) {q : List Char} {items : List Item}
    (h : q <+: spell items) : ∃ items' : List Item, IsRowCut q items' ∧
      entriesBefore (i + q.length) i items = items'.map fun a => a.tensor.entry := by
  induction items generalizing i q with
  | nil => exact ⟨[], Or.inl (List.prefix_nil.mp h), rfl⟩
  | cons a items ih =>
      have htext := spell_cons_append a items []
      simp only [List.append_nil] at htext
      rw [htext] at h
      by_cases hwhole : a.tensor.text <+: q
      · -- The tensor is complete, and the cut is in its separator or further on.
        obtain ⟨q, rfl⟩ := hwhole
        rw [List.length_append]
        rw [entriesBefore_cons (by omega)]
        rcases prefix_append ((List.prefix_append_right_inj _).mp h) with hsep | ⟨q, rfl, hrest⟩
        · have hlength := hsep.length_le
          obtain ⟨p, rfl⟩ := Separator.exists_of_cut hsep
          refine ⟨[⟨a.tensor, p⟩], Or.inl (by simp [spell]), ?_⟩
          rw [entriesBefore_of_le (by omega)]
          rfl
        · obtain ⟨items', hrow, hentries⟩ :=
            ih (i + a.tensor.text.length + a.separator.text.length) hrest
          refine ⟨a :: items', hrow.cons a, ?_⟩
          rw [List.map_cons, ← hentries]
          simp only [List.length_append, Nat.add_assoc]
      · -- The cut is in the tensor.
        have hq : q <+: a.tensor.text :=
          (List.prefix_or_prefix_of_prefix h (List.prefix_append _ _)).resolve_right hwhole
        obtain ⟨cause, hcause, hfault⟩ :=
          (fault_of_cut hq).resolve_left fun heq => hwhole (heq ▸ List.prefix_rfl)
        have hlength := length_lt_of_fault hq hfault
        refine ⟨[], isRowCut_of_cut hq hcause hfault, ?_⟩
        rw [entriesBefore_cons_of_lt (by omega)]
        rfl

/-- **A text that is cut off fails at its end.**  What it hands on are the tensors that
close before the cut. -/
theorem course_of_cut {p : List Char} {b : Body} (h : p <+: b.text) (strict : Bool) :
    ∃ cause, IsCutOff cause ∧
      Course strict p (b.entriesWithin p.length) (.error ⟨cause, []⟩) := by
  have htext := b.text_append []
  simp only [List.append_nil] at htext
  rw [htext] at h
  have hstart : b.start = b.lead.chars.length + 1 + b.inner.chars.length := by
    simp only [Body.start, List.length_append, List.length_cons]
    omega
  rcases prefix_append_cons h with hlead | ⟨q, rfl, hq⟩
  · have hle := hlead.length_le
    rw [Body.entriesWithin, entriesBefore_of_le (by omega)]
    obtain ⟨w, rfl⟩ := Gap.exists_of_cut hlead
    exact ⟨_, Or.inl ⟨'{', rfl⟩, .unopened w (List.append_nil _).symm (halts_nil _) (by simp)⟩
  have hlength : (b.lead.chars ++ '{' :: q).length = b.lead.chars.length + 1 + q.length := by
    simp only [List.length_append, List.length_cons]
    omega
  rw [hlength, Body.entriesWithin]
  rcases prefix_append hq with hinner | ⟨q, rfl, hitems⟩
  · have hle := hinner.length_le
    rw [entriesBefore_of_le (by omega)]
    obtain ⟨v, rfl⟩ := Gap.exists_of_cut hinner
    refine ⟨_, Or.inl ⟨'}', rfl⟩, .unclosed ⟨b.lead, v, []⟩ ?_⟩
    simp [Body.text, spell]
  · obtain ⟨items, hrow, hentries⟩ := exists_items_of_cut b.start hitems
    rw [List.length_append, ← Nat.add_assoc, ← hstart, hentries]
    rcases hrow with rfl | ⟨r, rfl, hhead, cause, hcause, hfault⟩
    · refine ⟨_, Or.inl ⟨'}', rfl⟩, .unclosed ⟨b.lead, b.inner, items⟩ ?_⟩
      simp [Body.text]
    · obtain ⟨r, rfl⟩ := List.head?_eq_some_iff.mp hhead
      refine ⟨cause, hcause, .faulty ⟨b.lead, b.inner, items⟩ ?_ ?_ (by simp) (by simp) hfault⟩
      · simp [Body.text]
      · exact endBefore_of_head (by decide) (by decide) items r

end Scan

namespace Grammar

/-! ### Beginnings can be continued -/

/-- The beginning of a name is one, unless an escape is open at its end: a backslash closes
it. -/
theorem NameStart.exists_name (n : NameStart) : ∃ (z : List Char) (n' : Name),
    n.chars ++ z = n'.chars := by
  by_cases heven : n.chars.count '\\' % 2 = 0
  · exact ⟨[], ⟨n.chars, n.noNul, n.escaped, heven⟩, List.append_nil _⟩
  refine ⟨['\\'], ⟨n.chars ++ ['\\'], ?_, ?_, ?_⟩, rfl⟩
  · simp [n.noNul]
  · intro p q hpq
    have hprefix : p ++ ['"'] <+: n.chars ++ ['\\'] :=
      ⟨q, by rw [hpq, List.append_assoc, List.singleton_append]⟩
    rcases List.prefix_concat_iff.mp hprefix with hlast | ⟨q', hq'⟩
    · exact absurd (List.append_inj_right' hlast rfl) (by decide)
    · exact n.escaped p q' (by rw [← hq', List.append_assoc, List.singleton_append])
  · rw [List.count_append, List.count_singleton_self]
    omega

/-- **Every fragment is the beginning of a tensor.** -/
theorem Fragment.exists_spelling (f : Fragment) : ∃ (z : List Char) (t : Spelling),
    f.text ++ z = t.text := by
  have hempty : (Run.ofBytes []).chars = [] := rfl
  cases f with
  | none => exact ⟨_, ⟨⟨[], by simp, by simp, rfl⟩, .none, .none, .ofBytes [], .ofBytes []⟩, rfl⟩
  | unnamed n =>
      obtain ⟨z, n', hz⟩ := n.exists_name
      refine ⟨z ++ ['"', ':', '"', ';', '"'], ⟨n', .none, .none, .ofBytes [], .ofBytes []⟩, ?_⟩
      simp [Fragment.text, Spelling.text, Gap.none, hempty, ← hz]
  | named n w =>
      refine ⟨[':', '"', ';', '"'], ⟨n, w, .none, .ofBytes [], .ofBytes []⟩, ?_⟩
      simp [Fragment.text, Spelling.text, Gap.none, hempty]
  | parted n w v =>
      refine ⟨['"', ';', '"'], ⟨n, w, v, .ofBytes [], .ofBytes []⟩, ?_⟩
      simp [Fragment.text, Spelling.text, hempty]
  | payload p u =>
      cases p with
      | shape n w v =>
          refine ⟨[';', '"'], ⟨n, w, v, u, .ofBytes []⟩, ?_⟩
          simp [Fragment.text, PayloadStart.text, Spelling.text, hempty]
      | values n w v d =>
          refine ⟨['"'], ⟨n, w, v, d, u⟩, ?_⟩
          simp [Fragment.text, PayloadStart.text, Spelling.text]

end Grammar

namespace Scan

theorem missing_eq_ended {c d : Char} {r : List Char} (h : missing c r = .ended d) : r = [] := by
  cases r with
  | nil => rfl
  | cons a r => cases h

/-- **A text that fails for want of a character at its end is the beginning of a whole one.**
The tensors it handed on are the first of those. -/
theorem Course.exists_completion {strict : Bool} {s : List Char} {es : List Entry} {stop : Stop}
    (h : Course strict s es (.error stop)) {c : Char} (hended : stop.cause = .ended c) :
    ∃ (z : List Char) (b : Body), s ++ z = b.text ++ ['}'] ∧ es <+: b.entries := by
  cases h with
  | unopened w hs hend hdue =>
      obtain rfl := missing_eq_ended hended
      refine ⟨['{', '}'], ⟨w, .none, []⟩, ?_, List.nil_prefix⟩
      rw [hs]
      simp [Body.text, Gap.none, spell_nil]
  | faulty b hs hend hne hbrace hfault =>
      cases hfault with
      | missing f hr hend hdue =>
          obtain rfl := missing_eq_ended hended
          obtain ⟨z, t, hz⟩ := f.exists_spelling
          refine ⟨z ++ ['}'], ⟨b.lead, b.inner, b.items ++ [⟨t, .blanks .none⟩]⟩, ?_, ?_⟩
          · rw [hs, hr]
            simp [Body.text, spell, Separator.text, Gap.none, ← hz]
          · simp [Body.entries]
      | @undecodable p u r fault hr hu hend hfault => cases fault <;> cases hended
  | unclosed b hs => exact ⟨['}'], b, by rw [hs], List.prefix_rfl⟩
  | trailing l hs hstrict w hrest hc => cases hended

end Scan

/-! ### Readings of texts that end too soon -/

theorem scanText_of_cut {p : String} {b : Body} (hne : p ≠ "") (h : p.toList <+: b.text)
    (options : Options) : ∃ cause, Scan.IsCutOff cause ∧
      ∀ (σ : Type) [Sink σ] (sink : σ), scanText p sink options =
        ⟨(b.entriesWithin p.toList.length).foldl Sink.push sink,
          .error ⟨Position.ofIndex p.toList p.toList.length, cause⟩⟩ := by
  have hbuffer : buffer p = p.toList := buffer_eq fun hnul => b.nul_not_mem_text (h.subset hnul)
  have hb : buffer p ≠ [] := by
    rw [hbuffer]
    exact fun hnil => hne (String.toList_eq_nil_iff.mp hnil)
  obtain ⟨cause, hcause, hcourse⟩ := Scan.course_of_cut h options.strict
  rw [← hbuffer] at hcourse ⊢
  exact ⟨cause, hcause, fun σ _ sink => scanText_of_course hb hcourse sink⟩

/--
**A text that ends too soon is told from a wrong one.**  Cut an accepted text before its
closing brace, and what is left fails at its end, for want of a character or of a quad,
with the tensors whose closing quotes are still there.  And a text that fails for want of
a character at its end can be continued to an accepted one, which begins with what it
handed on.
-/
theorem scanText_of_truncated (text : String) (options : Options) :
    (∀ doc : Document, '\x00' ∉ text.toList → text ≠ "" →
      Document.ofText text options = .ok doc →
        ∃ l : Layout, l.text = text.toList ∧ l.closings.map Prod.fst = doc.entries ∧
          (∀ x ∈ l.closings, text.toList[x.2]? = some '"') ∧
          ∀ p : String, p ≠ "" → p.toList <+: text.toList → p.toList.length ≤ l.brace →
            ∀ options' : Options, ∃ cause : Cause, Scan.IsCutOff cause ∧
              ∀ (σ : Type) [Sink σ] (sink : σ), scanText p sink options' =
                ⟨(l.entriesWithin p.toList.length).foldl Sink.push sink,
                  .error ⟨Position.ofIndex p.toList p.toList.length, cause⟩⟩) ∧
      ∀ d : Diagnostic, (scanText text Document.empty options).verdict = .error d →
        ∀ c : Char, d.cause = .ended c →
          ∃ (s : String) (doc : Document),
            Document.ofText (String.ofList (buffer text) ++ s) { strict := true } = .ok doc ∧
              handed text options <+: doc.entries := by
  refine ⟨?_, ?_⟩
  · intro doc hnul hne hdoc
    have hbuffer := buffer_eq hnul
    have hb : buffer text ≠ [] := by
      rw [hbuffer]
      exact fun hnil => hne (String.toList_eq_nil_iff.mp hnil)
    obtain ⟨l, hl, -, rfl⟩ := exists_layout_of_ofText hb hdoc
    rw [hbuffer] at hl
    refine ⟨l, hl, map_fst_closings _ l.items, ?_, ?_⟩
    · rw [← hl]
      exact l.toBody.getElem?_closings _
    · intro p hp hprefix hle
      rw [← hl] at hprefix
      have hbody : p.toList <+: l.toBody.text :=
        List.prefix_of_prefix_length_le hprefix (List.prefix_append _ _) hle
      exact scanText_of_cut hp hbody
  · intro d hd c hc
    obtain ⟨-, stop, hcourse, rfl⟩ := exists_course_of_fault hd
    obtain ⟨z, b, hz, hes⟩ := hcourse.exists_completion hc
    refine ⟨String.ofList z, ⟨b.entries⟩, ?_, hes⟩
    rw [← String.ofList_append, hz]
    exact ofText_closed_body b

/-- The cut is behind a backslash in the second name.  The first tensor was handed on, and the
name can still be closed. -/
theorem scanText_of_truncated_escape :
    Document.ofText "\x7b\"a\":\"AAAA;\" , \"\\\"b\\\":\";AAAA\"\x7d" {} =
        .ok ⟨[⟨"a", [0, 0, 0], []⟩, ⟨"\\\"b\\", [], [0, 0, 0]⟩]⟩ ∧
      scanText "\x7b\"a\":\"AAAA;\" , \"\\" Document.empty {} =
        ⟨⟨[⟨"a", [0, 0, 0], []⟩]⟩, .error ⟨⟨1, 19⟩, .ended '"'⟩⟩ ∧
      (∃ l : Layout, l.text = "\x7b\"a\":\"AAAA;\" , \"\\\"b\\\":\";AAAA\"\x7d".toList ∧
        l.entriesWithin 17 = [⟨"a", [0, 0, 0], []⟩]) ∧
      ∃ (s : String) (doc : Document),
        Document.ofText ("\x7b\"a\":\"AAAA;\" , \"\\" ++ s) { strict := true } = .ok doc ∧
          [⟨"a", [0, 0, 0], []⟩] <+: doc.entries := by
  have hdoc : Document.ofText "\x7b\"a\":\"AAAA;\" , \"\\\"b\\\":\";AAAA\"\x7d" {} =
      .ok ⟨[⟨"a", [0, 0, 0], []⟩, ⟨"\\\"b\\", [], [0, 0, 0]⟩]⟩ := by cbv
  have hcut : scanText "\x7b\"a\":\"AAAA;\" , \"\\" Document.empty {} =
      ⟨⟨[⟨"a", [0, 0, 0], []⟩]⟩, .error ⟨⟨1, 19⟩, .ended '"'⟩⟩ := by cbv
  refine ⟨hdoc, hcut, ?_, ?_⟩
  · obtain ⟨l, hl, -, -, hall⟩ :=
      (scanText_of_truncated _ _).1 _ (by decide) (by decide) hdoc
    have hprefix : "\x7b\"a\":\"AAAA;\" , \"\\".toList <+: l.text := by
      rw [hl]
      decide
    have hbody : "\x7b\"a\":\"AAAA;\" , \"\\".toList <+: l.toBody.text := by
      refine (prefix_append_cons hprefix).resolve_right ?_
      rintro ⟨q, hq, -⟩
      have hbrace : '}' ∉ "\x7b\"a\":\"AAAA;\" , \"\\".toList := by decide
      rw [hq] at hbrace
      simp at hbrace
    obtain ⟨cause, -, hscan⟩ := hall _ (by decide) (hl ▸ hprefix) hbody.length_le {}
    have hsame := congrArg (fun r => r.sink.entries)
      ((hscan Document Document.empty).symm.trans hcut)
    simp only [foldl_push_empty] at hsame
    exact ⟨l, hl, hsame⟩
  · have hes : handed "\x7b\"a\":\"AAAA;\" , \"\\" {} = [⟨"a", [0, 0, 0], []⟩] :=
      congrArg (fun r => r.sink.entries) hcut
    have hbuffer : String.ofList (buffer "\x7b\"a\":\"AAAA;\" , \"\\") =
        "\x7b\"a\":\"AAAA;\" , \"\\" := by decide
    rw [← hes]
    nth_rewrite 1 [← hbuffer]
    exact (scanText_of_truncated _ {}).2 _ (congrArg Reading.verdict hcut) '"' rfl

end TensorText

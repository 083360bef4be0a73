/-
The scanner follows the grammar.

Each part of the scanner is tied to the part of the grammar that it reads, in both
directions: what the grammar writes is read back, whatever comes after it, and what was
read had been written by the grammar.  The second direction is where the text must be
free of NULs, since a name may not contain one and only the cut made before the scan
keeps them out.

The loop over the tensors comes last.  Its sink is carried along and never read, so over
a whole row of tensors it is the entries folded into it, one by one.
-/
import TensorText.Scan
import TensorText.Proofs.Grammar

namespace TensorText.Scan

open Grammar

/-! ### Blanks and single characters -/

theorem isBlank_iff {c : Char} : isBlank c = true ↔ IsBlank c := by
  simp only [isBlank, IsBlank, Bool.or_eq_true, beq_iff_eq, or_assoc]

theorem dropWhile_run {p : Char → Bool} {a r : List Char} (ha : ∀ c ∈ a, p c = true)
    (hr : Halts (fun c => p c = true) r) : (a ++ r).dropWhile p = r := by
  rw [List.dropWhile_append_of_pos ha]
  cases r with
  | nil => rfl
  | cons c r => exact List.dropWhile_cons_of_neg (halts_cons.mp hr)

theorem takeWhile_run {p : Char → Bool} {a r : List Char} (ha : ∀ c ∈ a, p c = true)
    (hr : Halts (fun c => p c = true) r) : (a ++ r).takeWhile p = a := by
  rw [List.takeWhile_append_of_pos ha]
  cases r with
  | nil => exact List.append_nil a
  | cons c r => rw [List.takeWhile_cons_of_neg (halts_cons.mp hr), List.append_nil]

theorem halts_dropWhile (p : Char → Bool) (s : List Char) :
    Halts (fun c => p c = true) (s.dropWhile p) := by
  intro c hc
  have hhead := List.head?_dropWhile_not p s
  rw [Option.mem_def.mp hc] at hhead
  simpa using hhead

theorem halts_skipBlanks (s : List Char) : Halts IsBlank (skipBlanks s) := by
  intro c hc hb
  exact halts_dropWhile isBlank s c hc (isBlank_iff.mpr hb)

theorem skipBlanks_gap (w : Gap) {r : List Char} (hr : Halts IsBlank r) :
    skipBlanks (w.chars ++ r) = r := by
  refine dropWhile_run (fun c hc => isBlank_iff.mpr (w.blank c hc)) ?_
  intro c hc hb
  exact hr c hc (isBlank_iff.mp hb)

theorem exists_gap_skipBlanks (s : List Char) : ∃ w : Gap, s = w.chars ++ skipBlanks s := by
  obtain ⟨w, r, rfl, hr⟩ := exists_gap s
  exact ⟨w, by rw [skipBlanks_gap w hr]⟩

theorem expect_cons (c : Char) (s : List Char) : expect c (c :: s) = .ok s := by
  rw [expect, if_pos rfl]

theorem expect_gap (w : Gap) {c : Char} (hc : ¬IsBlank c) (s : List Char) :
    expect c (skipBlanks (w.chars ++ c :: s)) = .ok s := by
  rw [skipBlanks_gap w (halts_cons.mpr hc), expect_cons]

theorem expect_eq_ok {c : Char} {s r : List Char} (h : expect c s = .ok r) : s = c :: r := by
  cases s with
  | nil => cases h
  | cons a s =>
      rw [expect] at h
      split at h
      · rename_i hac
        cases h
        rw [hac]
      · cases h

/-- What follows a tensor is taken up to where its separator ends. -/
theorem skipSeparator_text (p : Separator) {r : List Char} (hr : p.EndsBefore r) :
    skipSeparator (p.text ++ r) = r := by
  unfold skipSeparator
  cases p with
  | blanks w =>
      rw [Separator.text, skipBlanks_gap w hr.1]
      split
      · exact absurd rfl hr.2
      · rfl
  | comma w v =>
      rw [Separator.text, List.append_assoc, List.cons_append,
        skipBlanks_gap w (halts_cons.mpr (by decide))]
      exact skipBlanks_gap v hr

/-! ### Names

The scanner keeps one flag; the grammar counts all backslashes so far.  The flag is the
parity of that count, and the inductions below carry the count `k` made before the part
of the name that is still to come.
-/

private theorem count_cons_split (c : Char) (p : List Char) :
    (c :: p).count '\\' = [c].count '\\' + p.count '\\' := by
  rw [← List.count_append, List.singleton_append]

private theorem flag_step (k : Nat) (c : Char) :
    (if c = '\\' then !decide (k % 2 = 1) else decide (k % 2 = 1)) =
      decide ((k + [c].count '\\') % 2 = 1) := by
  by_cases hc : c = '\\'
  · rw [if_pos hc, hc, ← decide_not, decide_eq_decide, List.count_cons_self, List.count_nil]
    omega
  · rw [if_neg hc, List.count_cons_of_ne (by simpa using hc), List.count_nil]
    rfl

/-- The scanner passes over a text in which every quote is escaped. -/
theorem splitName_append {n : List Char} :
    ∀ {k : Nat}, (∀ p q, n = p ++ '"' :: q → (k + p.count '\\') % 2 = 1) → ∀ s : List Char,
      splitName (decide (k % 2 = 1)) (n ++ s) =
        (n ++ (splitName (decide ((k + n.count '\\') % 2 = 1)) s).1,
          (splitName (decide ((k + n.count '\\') % 2 = 1)) s).2) := by
  induction n with
  | nil =>
      intro k _ s
      rw [List.nil_append, List.count_nil, Nat.add_zero, List.nil_append]
  | cons c n ih =>
      intro k hquotes s
      have hopen : ¬(c = '"' ∧ decide (k % 2 = 1) = false) := by
        rintro ⟨rfl, hk⟩
        have := hquotes [] n rfl
        exact of_decide_eq_false hk this
      have hrest : ∀ p q, n = p ++ '"' :: q →
          (k + [c].count '\\' + p.count '\\') % 2 = 1 := by
        intro p q hpq
        have := hquotes (c :: p) q (by rw [hpq]; rfl)
        rwa [count_cons_split, ← Nat.add_assoc] at this
      rw [List.cons_append, splitName, if_neg hopen, flag_step, ih hrest,
        count_cons_split c n, ← Nat.add_assoc]
      rfl

/-- Where the scanner ends a name, every quote it passed was escaped, and no escape is
open if it stopped at a quote. -/
theorem splitName_spec {s : List Char} :
    ∀ {k : Nat} {n r : List Char}, splitName (decide (k % 2 = 1)) s = (n, r) →
      s = n ++ r ∧ (∀ p q, n = p ++ '"' :: q → (k + p.count '\\') % 2 = 1) ∧
        (r ≠ [] → (k + n.count '\\') % 2 = 0) := by
  induction s with
  | nil =>
      intro k n r h
      cases h
      exact ⟨rfl, by simp, fun hr => absurd rfl hr⟩
  | cons c s ih =>
      intro k n r h
      rw [splitName] at h
      split at h
      · rename_i hstop
        cases h
        refine ⟨rfl, by simp, fun _ => ?_⟩
        have hk := of_decide_eq_false hstop.2
        rw [List.count_nil]
        omega
      · rename_i hopen
        rw [flag_step] at h
        cases h
        obtain ⟨hs, hquotes, hclosed⟩ := ih (k := k + [c].count '\\') rfl
        refine ⟨by rw [List.cons_append, ← hs], ?_, ?_⟩
        · intro p q hpq
          cases p with
          | nil =>
              obtain ⟨hc, -⟩ := List.cons.inj hpq
              by_cases hk : k % 2 = 1
              · exact hk
              · exact absurd ⟨hc, decide_eq_false hk⟩ hopen
          | cons d p =>
              obtain ⟨hcd, htail⟩ := List.cons.inj hpq
              rw [← hcd, count_cons_split, ← Nat.add_assoc]
              exact hquotes p q htail
        · intro hr
          rw [count_cons_split, ← Nat.add_assoc]
          exact hclosed hr

/-- A name ends at a quote, or else with the text. -/
theorem splitName_rest (escaped : Bool) (s : List Char) :
    (splitName escaped s).2 = [] ∨ (splitName escaped s).2.head? = some '"' := by
  induction s generalizing escaped with
  | nil => exact Or.inl rfl
  | cons c s ih =>
      rw [splitName]
      split
      · rename_i hstop
        exact Or.inr (congrArg some hstop.1)
      · exact ih _

theorem splitName_isName {n : List Char} (h : IsName n) (r : List Char) :
    splitName false (n ++ '"' :: r) = (n, '"' :: r) := by
  have hquotes : ∀ p q, n = p ++ '"' :: q → (0 + p.count '\\') % 2 = 1 := by
    intro p q hpq
    rw [Nat.zero_add]
    exact h.escaped p q hpq
  have hclosed : decide ((0 + n.count '\\') % 2 = 1) = false := by
    rw [Nat.zero_add, h.closed]
    rfl
  have hpass := splitName_append hquotes ('"' :: r)
  rw [hclosed, splitName, if_pos ⟨rfl, rfl⟩, List.append_nil] at hpass
  exact hpass

theorem name_text (n : Name) (r : List Char) :
    name ('"' :: (n.chars ++ '"' :: r)) = .ok (String.ofList n.chars, r) := by
  refine bind_eq_ok.mpr ⟨_, expect_cons _ _, ?_⟩
  rw [splitName_isName n.isName]
  exact bind_eq_ok.mpr ⟨r, expect_cons _ _, rfl⟩

theorem name_eq_ok {s r : List Char} {x : String} (h : name s = .ok (x, r))
    (hs : '\x00' ∉ s) :
    ∃ n : Name, x = String.ofList n.chars ∧ s = '"' :: (n.chars ++ '"' :: r) := by
  obtain ⟨s1, h1, h⟩ := bind_eq_ok.mp h
  obtain ⟨s2, h2, h⟩ := bind_eq_ok.mp h
  cases h
  obtain rfl := expect_eq_ok h1
  have hrest := expect_eq_ok h2
  obtain ⟨hsplit, hquotes, hclosed⟩ := splitName_spec (k := 0) (s := s1) rfl
  have hclosed := hclosed (by rw [show decide (0 % 2 = 1) = false from rfl, hrest]; simp)
  rw [show decide (0 % 2 = 1) = false from rfl, hrest] at hsplit
  refine ⟨⟨(splitName false s1).1, ?_, ?_, ?_⟩, rfl, by rw [← hsplit]⟩
  · intro hnul
    refine hs (List.mem_cons_of_mem _ ?_)
    rw [hsplit]
    exact List.mem_append_left _ hnul
  · intro p q hpq
    have := hquotes p q hpq
    rwa [Nat.zero_add] at this
  · rwa [Nat.zero_add] at hclosed

/-- A name is what the scanner takes in as a whole in front of a quote. -/
theorem isName_iff {n : List Char} :
    IsName n ↔ '\x00' ∉ n ∧ splitName false (n ++ ['"']) = (n, ['"']) := by
  constructor
  · intro h
    exact ⟨h.noNul, splitName_isName h []⟩
  · rintro ⟨hnul, hsplit⟩
    obtain ⟨-, hquotes, hclosed⟩ := splitName_spec (k := 0) hsplit
    refine ⟨hnul, ?_, ?_⟩
    · intro p q hpq
      have := hquotes p q hpq
      rwa [Nat.zero_add] at this
    · have := hclosed (by simp)
      rwa [Nat.zero_add] at this

instance (n : List Char) : Decidable (IsName n) := decidable_of_iff' _ isName_iff

/-- An escaped quote can stand in a name if a second backslash follows it. -/
example : IsName ['a', '\\', '"', '\\'] ∧ ¬IsName ['a', '\\', '"'] := by decide

/-! ### Payloads and tensors -/

theorem run_text (u : Run) {r : List Char}
    (hr : Halts (fun c => Base64.isCodeChar c = true) r) :
    run (u.chars ++ r) = .ok (u.bytes, r) := by
  unfold run
  rw [takeWhile_run u.isCodeChar hr, dropWhile_run u.isCodeChar hr, u.decode_chars]

theorem run_eq_ok {s r : List Char} {bytes : List UInt8} (h : run s = .ok (bytes, r)) :
    ∃ u : Run, bytes = u.bytes ∧ s = u.chars ++ r := by
  unfold run at h
  split at h
  · rename_i hdecode
    cases h
    have hcanonical := Base64.decode_eq_ok_iff.mp hdecode
    refine ⟨⟨s.takeWhile Base64.isCodeChar, bytes, hcanonical⟩, ?_, ?_⟩
    · exact (Run.bytes_eq hcanonical).symm
    · exact List.takeWhile_append_dropWhile.symm
  · cases h

/-- Quotes, colons and semicolons end a run of base64 characters. -/
private theorem halts_code {c : Char} (hc : Base64.isCodeChar c = false) (r : List Char) :
    Halts (fun c => Base64.isCodeChar c = true) (c :: r) := by
  rw [halts_cons, hc]
  decide

theorem payloads_text (u v : Run) (r : List Char) :
    payloads ('"' :: (u.chars ++ ';' :: (v.chars ++ '"' :: r))) =
      .ok ((u.bytes, v.bytes), r) := by
  refine bind_eq_ok.mpr ⟨_, expect_cons _ _, ?_⟩
  refine bind_eq_ok.mpr ⟨_, run_text u (halts_code (by decide) _), ?_⟩
  refine bind_eq_ok.mpr ⟨_, expect_cons _ _, ?_⟩
  refine bind_eq_ok.mpr ⟨_, run_text v (halts_code (by decide) _), ?_⟩
  exact bind_eq_ok.mpr ⟨_, expect_cons _ _, rfl⟩

theorem payloads_eq_ok {s r : List Char} {p : List UInt8 × List UInt8}
    (h : payloads s = .ok (p, r)) :
    ∃ u v : Run, p = (u.bytes, v.bytes) ∧
      s = '"' :: (u.chars ++ ';' :: (v.chars ++ '"' :: r)) := by
  obtain ⟨s1, h1, h⟩ := bind_eq_ok.mp h
  obtain ⟨⟨dimensions, s2⟩, h2, h⟩ := bind_eq_ok.mp h
  obtain ⟨s3, h3, h⟩ := bind_eq_ok.mp h
  obtain ⟨⟨values, s4⟩, h4, h⟩ := bind_eq_ok.mp h
  obtain ⟨s5, h5, h⟩ := bind_eq_ok.mp h
  cases h
  obtain rfl := expect_eq_ok h1
  obtain ⟨u, rfl, rfl⟩ := run_eq_ok h2
  obtain rfl := expect_eq_ok h3
  obtain ⟨v, rfl, rfl⟩ := run_eq_ok h4
  obtain rfl := expect_eq_ok h5
  exact ⟨u, v, rfl, rfl⟩

theorem tensor_text (t : Spelling) (r : List Char) : tensor (t.text ++ r) = .ok (t.entry, r) := by
  rw [Spelling.text_append]
  refine bind_eq_ok.mpr ⟨_, name_text t.name _, ?_⟩
  refine bind_eq_ok.mpr ⟨_, expect_gap t.beforeColon (by decide) _, ?_⟩
  have hpayloads := payloads_text t.dimensions t.values r
  rw [← skipBlanks_gap t.afterColon (halts_cons.mpr (by decide))] at hpayloads
  exact bind_eq_ok.mpr ⟨_, hpayloads, rfl⟩

/-- **The scanner reads as a tensor exactly what the grammar writes as one.** -/
theorem tensor_eq_ok {s r : List Char} {e : Entry} (h : tensor s = .ok (e, r))
    (hs : '\x00' ∉ s) : ∃ t : Spelling, e = t.entry ∧ s = t.text ++ r := by
  obtain ⟨⟨x, s1⟩, h1, h⟩ := bind_eq_ok.mp h
  obtain ⟨s2, h2, h⟩ := bind_eq_ok.mp h
  obtain ⟨⟨p, s3⟩, h3, h⟩ := bind_eq_ok.mp h
  cases h
  obtain ⟨n, rfl, rfl⟩ := name_eq_ok h1 hs
  obtain ⟨u, v, rfl, hp⟩ := payloads_eq_ok h3
  obtain ⟨w, hw⟩ := exists_gap_skipBlanks s1
  obtain ⟨w', hw'⟩ := exists_gap_skipBlanks s2
  refine ⟨⟨n, w, w', u, v⟩, rfl, ?_⟩
  rw [Spelling.text_append, hw, expect_eq_ok h2, hw', hp]

/-! ### The loop over the tensors

One turn hands one entry on and leaves the text after the separator; over a whole row
this is a fold of the entries into the sink.
-/

section Loop

variable {σ : Type} [Sink σ]

theorem tensors_stop {s : List Char} (h : s = [] ∨ s.head? = some '}') (sink : σ) :
    tensors sink s = (sink, .ok s) := by
  unfold tensors
  rw [if_pos h]

theorem tensors_fault {s : List Char} {stop : Stop} (hne : s ≠ []) (hbrace : s.head? ≠ some '}')
    (h : tensor s = .error stop) (sink : σ) : tensors sink s = (sink, .error stop) := by
  unfold tensors
  rw [if_neg fun hs => hs.elim hne hbrace]
  split
  · rename_i hstop
    rw [h] at hstop
    cases hstop
    rfl
  · rename_i hok
    rw [h] at hok
    cases hok

theorem tensors_step (i : Item) {s : List Char} (hs : i.separator.EndsBefore s) (sink : σ) :
    tensors sink (i.tensor.text ++ (i.separator.text ++ s)) =
      tensors (Sink.push sink i.tensor.entry) s := by
  have htensor := tensor_text i.tensor (i.separator.text ++ s)
  have hhead : (i.tensor.text ++ (i.separator.text ++ s)).head? = some '"' := by
    rw [Spelling.text_append]
    rfl
  have hnot : ¬(i.tensor.text ++ (i.separator.text ++ s) = [] ∨
      (i.tensor.text ++ (i.separator.text ++ s)).head? = some '}') := by
    rintro (hnil | hbrace)
    · rw [hnil] at hhead
      cases hhead
    · rw [hhead] at hbrace
      exact absurd hbrace (by decide)
  rw [tensors, if_neg hnot]
  split
  · rename_i hstop
    rw [htensor] at hstop
    cases hstop
  · rename_i hok
    rw [htensor] at hok
    cases hok
    rw [skipSeparator_text i.separator hs]

theorem tensors_spell {items : List Item} {r : List Char} (hr : EndBefore items r) (sink : σ) :
    tensors sink (spell items ++ r) =
      tensors ((items.map fun i => i.tensor.entry).foldl Sink.push sink) r := by
  induction items generalizing sink with
  | nil => rfl
  | cons i items ih =>
      rw [endBefore_cons] at hr
      rw [spell_cons_append, tensors_step i hr.1, ih hr.2, List.map_cons, List.foldl_cons]

/-- A scan gets through a body, whatever comes after it. -/
theorem document_body (b : Body) {r : List Char} (hr : b.EndsBefore r) (strict : Bool)
    (sink : σ) :
    document strict sink (b.text ++ r) =
      match tensors (b.entries.foldl Sink.push sink) r with
      | (sink, .error stop) => ⟨sink, .error stop⟩
      | (sink, .ok s) => ⟨sink, closing strict s⟩ := by
  rw [document, Body.text_append, expect_gap b.lead (by decide)]
  simp only [skipBlanks_gap b.inner (Body.halts_items hr), tensors_spell hr]
  rfl

theorem document_layout (l : Layout) (strict : Bool) (sink : σ) :
    document strict sink l.text =
      ⟨l.entries.foldl Sink.push sink, if strict then onlyBlanks l.rest else .ok ()⟩ := by
  rw [Layout.text, document_body l.toBody l.endsBefore, tensors_stop (Or.inr rfl)]
  cases strict <;> rfl

end Loop

end TensorText.Scan

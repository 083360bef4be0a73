/-
Where a tensor breaks off.

A text that should go on with a tensor and does not goes on with the beginning of one.
A `Fragment` is such a beginning up to a point where one certain character is due, a
`PayloadStart` one up to where a payload begins.  `TensorFault.of_error` says that these
are all: a tensor fails where something else than the due character follows a fragment,
or at the end of a payload that decodes to nothing.  `TensorFault.tensor_eq` says that it
does fail there.

So whatever is to be said of failing tensors is said of two cases: that the scanner has
not looked past the failing character, that the diagnostic is true of the text, and that
a text which merely ended too soon can be completed.
-/
import TensorText.Proofs.Scan

namespace TensorText

namespace Grammar

/-! ### Beginnings of tensors -/

/-- The beginning of a name: every quote in it is escaped, but an escape may be open at
its end. -/
structure NameStart where
  chars : List Char
  noNul : '\x00' ∉ chars
  escaped : ∀ p q, chars = p ++ '"' :: q → p.count '\\' % 2 = 1

/-- A tensor up to where a payload begins. -/
inductive PayloadStart
  /-- Up to the quote in front of the shape. -/
  | shape (n : Name) (w v : Gap)
  /-- Up to the semicolon in front of the values. -/
  | values (n : Name) (w v : Gap) (dimensions : Run)

namespace PayloadStart

def text : PayloadStart → List Char
  | shape n w v => '"' :: n.chars ++ '"' :: w.chars ++ ':' :: v.chars ++ ['"']
  | values n w v d => '"' :: n.chars ++ '"' :: w.chars ++ ':' :: v.chars ++ '"' :: d.chars ++ [';']

/-- The character that is due after the payload. -/
def due : PayloadStart → Char
  | shape .. => ';'
  | values .. => '"'

end PayloadStart

/-- A tensor up to a point where a certain character is due. -/
inductive Fragment
  /-- Nothing of it stands yet. -/
  | none
  /-- It breaks off in its name. -/
  | unnamed (n : NameStart)
  /-- Its name is complete. -/
  | named (n : Name) (w : Gap)
  /-- Its colon stands. -/
  | parted (n : Name) (w v : Gap)
  /-- One of its payloads is complete. -/
  | payload (p : PayloadStart) (u : Run)

namespace Fragment

def text : Fragment → List Char
  | none => []
  | unnamed n => '"' :: n.chars
  | named n w => '"' :: n.chars ++ '"' :: w.chars
  | parted n w v => '"' :: n.chars ++ '"' :: w.chars ++ ':' :: v.chars
  | payload p u => p.text ++ u.chars

/-- The character that is due after the fragment. -/
def due : Fragment → Char
  | none => '"'
  | unnamed _ => '"'
  | named .. => ':'
  | parted .. => '"'
  | payload p _ => p.due

/-- The text that follows cannot be taken for a part of the fragment.  A name takes in
everything but its closing quote, so nothing at all may follow one that is not closed. -/
def EndsBefore : Fragment → List Char → Prop
  | none, _ => True
  | unnamed _, r => r = []
  | named .., r => Halts IsBlank r
  | parted .., r => Halts IsBlank r
  | payload .., r => Halts (fun c => Base64.isCodeChar c = true) r

theorem endsBefore_nil (f : Fragment) : f.EndsBefore [] := by
  cases f with
  | none => trivial
  | unnamed n => rfl
  | named n w => exact halts_nil _
  | parted n w v => exact halts_nil _
  | payload p u => exact halts_nil _

/-- Where a fragment ends depends on the next character alone. -/
theorem EndsBefore.congr {f : Fragment} {r r' : List Char} (h : f.EndsBefore r)
    (hr : r'.head? = r.head?) : f.EndsBefore r' := by
  cases f with
  | none => trivial
  | unnamed n =>
      have hnil : r = [] := h
      rw [hnil] at hr
      exact List.head?_eq_none_iff.mp hr
  | named n w => exact Halts.congr h hr
  | parted n w v => exact Halts.congr h hr
  | payload p u => exact Halts.congr h hr

end Fragment

end Grammar

namespace Scan

open Grammar

/-! ### A character that is missing -/

/-- The cause that is reported where a character is due and the text goes on in another
way. -/
def missing (c : Char) : List Char → Cause
  | [] => .ended c
  | a :: _ => .wrongChar c a

theorem missing_congr {c : Char} {s s' : List Char} (h : s'.head? = s.head?) :
    missing c s' = missing c s := by
  cases s with
  | nil =>
      rw [List.head?_eq_none_iff.mp h]
  | cons a r =>
      obtain ⟨r', rfl⟩ := List.head?_eq_some_iff.mp h
      rfl

theorem expect_eq_error_iff {c : Char} {s : List Char} {stop : Stop} :
    expect c s = .error stop ↔ s.head? ≠ some c ∧ stop = ⟨missing c s, s⟩ := by
  cases s with
  | nil => simp [expect, missing, eq_comm]
  | cons a r =>
      by_cases hac : a = c
      · simp [expect, hac]
      · simp [expect, missing, hac, eq_comm (a := stop)]

theorem run_eq_error {s : List Char} {stop : Stop} (h : run s = .error stop) :
    ∃ fault, Base64.decode (s.takeWhile Base64.isCodeChar) = .error fault ∧
      stop = ⟨runCause (s.takeWhile Base64.isCodeChar) fault,
        s.dropWhile Base64.isCodeChar⟩ := by
  unfold run at h
  split at h
  · cases h
  · rename_i fault hfault
    cases h
    exact ⟨fault, hfault, rfl⟩

theorem run_error {u r : List Char} (hu : ∀ c ∈ u, Base64.isCodeChar c = true)
    (hr : Halts (fun c => Base64.isCodeChar c = true) r) {fault : Base64.Fault}
    (hfault : Base64.decode u = .error fault) :
    run (u ++ r) = .error ⟨runCause u fault, r⟩ := by
  unfold run
  rw [takeWhile_run hu hr, dropWhile_run hu hr, hfault]

/-! ### Everything that can go wrong in a tensor -/

/-- The ways in which a text that should go on with a tensor does not. -/
inductive TensorFault (s : List Char) : Stop → Prop
  /-- After a fragment, the due character is missing. -/
  | missing (f : Fragment) {r : List Char} (hs : s = f.text ++ r) (hend : f.EndsBefore r)
      (hdue : r.head? ≠ some f.due) : TensorFault s ⟨missing f.due r, r⟩
  /-- A payload decodes to nothing. -/
  | undecodable (p : PayloadStart) {u r : List Char} {fault : Base64.Fault}
      (hs : s = p.text ++ (u ++ r)) (hu : ∀ c ∈ u, Base64.isCodeChar c = true)
      (hend : Halts (fun c => Base64.isCodeChar c = true) r)
      (hfault : Base64.decode u = .error fault) : TensorFault s ⟨runCause u fault, r⟩

/-! ### A fault stops the scanner -/

theorem splitName_start (n : NameStart) : splitName false n.chars = (n.chars, []) := by
  have hquotes : ∀ p q, n.chars = p ++ '"' :: q → (0 + p.count '\\') % 2 = 1 := by
    intro p q hpq
    rw [Nat.zero_add]
    exact n.escaped p q hpq
  have hpass := splitName_append hquotes []
  rw [List.append_nil, splitName, List.append_nil] at hpass
  exact hpass

theorem tensor_of_payloads (n : Name) (w : Gap) {s : List Char} {stop : Stop}
    (h : payloads (skipBlanks s) = .error stop) :
    tensor ('"' :: (n.chars ++ '"' :: (w.chars ++ ':' :: s))) = .error stop := by
  refine bind_eq_error.mpr (Or.inr ⟨_, name_text n _, ?_⟩)
  refine bind_eq_error.mpr (Or.inr ⟨_, expect_gap w (by decide) s, ?_⟩)
  exact bind_eq_error.mpr (Or.inl h)

/-- From the start of a payload on, a scan goes on with the payload and the character due
after it. -/
theorem tensor_of_payloadStart (p : PayloadStart) {s : List Char} {stop : Stop}
    (h : (run s >>= fun found => expect p.due found.2) = .error stop) :
    tensor (p.text ++ s) = .error stop := by
  cases p with
  | shape n w v =>
      have hpayloads : payloads (skipBlanks (v.chars ++ '"' :: s)) = .error stop := by
        rw [skipBlanks_gap v (halts_cons.mpr (by decide))]
        refine bind_eq_error.mpr (Or.inr ⟨_, expect_cons _ _, ?_⟩)
        rcases bind_eq_error.mp h with h | ⟨found, hrun, h⟩
        · exact bind_eq_error.mpr (Or.inl h)
        · refine bind_eq_error.mpr (Or.inr ⟨_, hrun, ?_⟩)
          exact bind_eq_error.mpr (Or.inl h)
      simpa [PayloadStart.text] using tensor_of_payloads n w hpayloads
  | values n w v d =>
      have hpayloads : payloads (skipBlanks (v.chars ++ '"' :: (d.chars ++ ';' :: s))) =
          .error stop := by
        rw [skipBlanks_gap v (halts_cons.mpr (by decide))]
        refine bind_eq_error.mpr (Or.inr ⟨_, expect_cons _ _, ?_⟩)
        refine bind_eq_error.mpr (Or.inr ⟨_, run_text d (halts_cons.mpr (by decide)), ?_⟩)
        refine bind_eq_error.mpr (Or.inr ⟨_, expect_cons _ _, ?_⟩)
        rcases bind_eq_error.mp h with h | ⟨found, hrun, h⟩
        · exact bind_eq_error.mpr (Or.inl h)
        · refine bind_eq_error.mpr (Or.inr ⟨_, hrun, ?_⟩)
          exact bind_eq_error.mpr (Or.inl h)
      simpa [PayloadStart.text] using tensor_of_payloads n w hpayloads

theorem tensor_fragment (f : Fragment) {r : List Char} (hend : f.EndsBefore r)
    (hdue : r.head? ≠ some f.due) : tensor (f.text ++ r) = .error ⟨missing f.due r, r⟩ := by
  have hexpect : expect f.due r = .error ⟨missing f.due r, r⟩ :=
    expect_eq_error_iff.mpr ⟨hdue, rfl⟩
  cases f with
  | none => exact bind_eq_error.mpr (Or.inl (bind_eq_error.mpr (Or.inl hexpect)))
  | unnamed n =>
      obtain rfl : r = [] := hend
      rw [List.append_nil]
      refine bind_eq_error.mpr (Or.inl ?_)
      refine bind_eq_error.mpr (Or.inr ⟨_, expect_cons _ _, ?_⟩)
      rw [splitName_start]
      exact bind_eq_error.mpr (Or.inl hexpect)
  | named n w =>
      have hcolon : expect ':' (skipBlanks (w.chars ++ r)) = .error ⟨missing ':' r, r⟩ := by
        rw [skipBlanks_gap w hend]
        exact hexpect
      have htensor : tensor ('"' :: (n.chars ++ '"' :: (w.chars ++ r))) =
          .error ⟨missing ':' r, r⟩ := by
        refine bind_eq_error.mpr (Or.inr ⟨_, name_text n _, ?_⟩)
        exact bind_eq_error.mpr (Or.inl hcolon)
      simpa [Fragment.text, Fragment.due] using htensor
  | parted n w v =>
      have hpayloads : payloads (skipBlanks (v.chars ++ r)) = .error ⟨missing '"' r, r⟩ := by
        rw [skipBlanks_gap v hend]
        exact bind_eq_error.mpr (Or.inl hexpect)
      simpa [Fragment.text, Fragment.due] using tensor_of_payloads n w hpayloads
  | payload p u =>
      have hrun : (run (u.chars ++ r) >>= fun found => expect p.due found.2) =
          .error ⟨missing p.due r, r⟩ :=
        bind_eq_error.mpr (Or.inr ⟨_, run_text u hend, hexpect⟩)
      simpa [Fragment.text, Fragment.due] using tensor_of_payloadStart p hrun

/-! ### Nothing else stops it -/

theorem name_eq_error {s : List Char} {stop : Stop} (h : name s = .error stop)
    (hs : '\x00' ∉ s) :
    (s.head? ≠ some '"' ∧ stop = ⟨missing '"' s, s⟩) ∨
      ∃ n : NameStart, s = '"' :: n.chars ∧ stop = ⟨missing '"' [], []⟩ := by
  rcases bind_eq_error.mp h with hopen | ⟨s1, hopen, hrest⟩
  · exact Or.inl (expect_eq_error_iff.mp hopen)
  rcases bind_eq_error.mp hrest with hclose | ⟨s2, -, hdone⟩
  · obtain ⟨hquote, rfl⟩ := expect_eq_error_iff.mp hclose
    have hend : (splitName false s1).2 = [] := (splitName_rest false s1).resolve_right hquote
    obtain ⟨hsplit, hquotes, -⟩ := splitName_spec (k := 0) (s := s1) rfl
    rw [show decide (0 % 2 = 1) = false from rfl] at hsplit hquotes
    rw [hend, List.append_nil] at hsplit
    have htext := expect_eq_ok hopen
    refine Or.inr ⟨⟨s1, fun hnul => hs ?_, ?_⟩, htext, by rw [hend]⟩
    · rw [htext]
      exact List.mem_cons_of_mem _ hnul
    · intro p q hpq
      have hodd := hquotes p q (hsplit ▸ hpq)
      rwa [Nat.zero_add] at hodd
  · cases hdone

theorem payloads_eq_error {s : List Char} {stop : Stop} (h : payloads s = .error stop) :
    (s.head? ≠ some '"' ∧ stop = ⟨missing '"' s, s⟩) ∨
      (∃ s1, s = '"' :: s1 ∧ (run s1 >>= fun found => expect ';' found.2) = .error stop) ∨
      ∃ (d : Run) (s2 : List Char), s = '"' :: (d.chars ++ ';' :: s2) ∧
        (run s2 >>= fun found => expect '"' found.2) = .error stop := by
  rcases bind_eq_error.mp h with hquote | ⟨s1, hquote, hrest⟩
  · exact Or.inl (expect_eq_error_iff.mp hquote)
  have htext := expect_eq_ok hquote
  rcases bind_eq_error.mp hrest with hshape | ⟨⟨dimensions, s2⟩, hshape, hrest⟩
  · exact Or.inr (Or.inl ⟨s1, htext, bind_eq_error.mpr (Or.inl hshape)⟩)
  rcases bind_eq_error.mp hrest with hsemi | ⟨s3, hsemi, hrest⟩
  · exact Or.inr (Or.inl ⟨s1, htext, bind_eq_error.mpr (Or.inr ⟨_, hshape, hsemi⟩)⟩)
  obtain ⟨d, -, hd⟩ := run_eq_ok hshape
  refine Or.inr (Or.inr ⟨d, s3, by rw [htext, hd, expect_eq_ok hsemi], ?_⟩)
  rcases bind_eq_error.mp hrest with hvalues | ⟨⟨values, s4⟩, hvalues, hrest⟩
  · exact bind_eq_error.mpr (Or.inl hvalues)
  rcases bind_eq_error.mp hrest with hclose | ⟨s5, -, hdone⟩
  · exact bind_eq_error.mpr (Or.inr ⟨_, hvalues, hclose⟩)
  · cases hdone

theorem halts_run {s r : List Char} {bytes : List UInt8} (h : run s = .ok (bytes, r)) :
    Halts (fun c => Base64.isCodeChar c = true) r := by
  unfold run at h
  split at h
  · cases h
    exact halts_dropWhile _ s
  · cases h

theorem TensorFault.of_payloadStart (p : PayloadStart) {s : List Char} {stop : Stop}
    (h : (run s >>= fun found => expect p.due found.2) = .error stop) :
    TensorFault (p.text ++ s) stop := by
  rcases bind_eq_error.mp h with hrun | ⟨⟨bytes, r⟩, hrun, hexpect⟩
  · obtain ⟨fault, hfault, rfl⟩ := run_eq_error hrun
    refine .undecodable p ?_ ?_ (halts_dropWhile _ s) hfault
    · rw [List.takeWhile_append_dropWhile]
    · exact fun c hc => List.all_eq_true.mp List.all_takeWhile c hc
  · obtain ⟨hdue, rfl⟩ := expect_eq_error_iff.mp hexpect
    obtain ⟨u, -, hu⟩ := run_eq_ok hrun
    refine .missing (.payload p u) ?_ (halts_run hrun) hdue
    rw [hu, Fragment.text, List.append_assoc]

theorem TensorFault.of_error {s : List Char} {stop : Stop} (h : tensor s = .error stop)
    (hs : '\x00' ∉ s) : TensorFault s stop := by
  rcases bind_eq_error.mp h with hname | ⟨⟨x, s1⟩, hname, hrest⟩
  · rcases name_eq_error hname hs with ⟨hdue, rfl⟩ | ⟨n, htext, rfl⟩
    · exact .missing .none rfl trivial hdue
    · refine .missing (.unnamed n) ?_ rfl ?_
      · rw [htext, List.append_nil]
        rfl
      · simp
  obtain ⟨n, -, htext⟩ := name_eq_ok hname hs
  obtain ⟨w, hw⟩ := exists_gap_skipBlanks s1
  rw [hw] at htext
  rcases bind_eq_error.mp hrest with hcolon | ⟨s2, hcolon, hrest⟩
  · obtain ⟨hdue, rfl⟩ := expect_eq_error_iff.mp hcolon
    refine .missing (.named n w) (htext.trans ?_) (halts_skipBlanks s1) hdue
    simp [Fragment.text]
  obtain ⟨v, hv⟩ := exists_gap_skipBlanks s2
  rw [expect_eq_ok hcolon, hv] at htext
  rcases bind_eq_error.mp hrest with hpayloads | ⟨⟨p, s3⟩, -, hdone⟩
  · rcases payloads_eq_error hpayloads with ⟨hdue, rfl⟩ | ⟨s3, hs3, hrun⟩ | ⟨d, s3, hs3, hrun⟩
    · refine .missing (.parted n w v) (htext.trans ?_) (halts_skipBlanks s2) hdue
      simp [Fragment.text]
    · have hstart := TensorFault.of_payloadStart (.shape n w v) hrun
      rw [htext, hs3]
      simpa [PayloadStart.text] using hstart
    · have hstart := TensorFault.of_payloadStart (.values n w v d) hrun
      rw [htext, hs3]
      simpa [PayloadStart.text] using hstart
  · cases hdone

theorem TensorFault.tensor_eq {s : List Char} {stop : Stop} (h : TensorFault s stop) :
    tensor s = .error stop := by
  cases h with
  | missing f htext hend hdue =>
      rw [htext]
      exact tensor_fragment f hend hdue
  | undecodable p htext hu hend hfault =>
      rw [htext]
      exact tensor_of_payloadStart p (bind_eq_error.mpr (Or.inl (run_error hu hend hfault)))

theorem TensorFault.not_beginsTensor {s : List Char} {stop : Stop} (h : TensorFault s stop) :
    ¬BeginsTensor s := by
  rintro ⟨t, r, rfl⟩
  have hstop := h.tensor_eq
  rw [tensor_text] at hstop
  cases hstop

end Scan

end TensorText

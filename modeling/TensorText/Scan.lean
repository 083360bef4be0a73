/-
One forward scan over a text of named tensors.

The text is a brace, tensors, a closing brace:

    { "name" : "shape;values", "name" : "shape;values" }

Blanks may stand between these parts, but not inside the quoted payloads; a comma after
a tensor may be left out, and one may stand after the last.  Every function here takes
what is left of the text and returns what is left after it, so nothing is ever read
twice and nothing after the failing character is ever looked at.  A failure is a `Stop`:
the cause, and the text from the failing character on.
-/
import TensorText.Base64
import TensorText.Diagnostic
import TensorText.Entry
import TensorText.Steps

namespace TensorText

/-- A failed scan: why it stopped, and what it had left, the failing character first. -/
structure Stop where
  cause : Cause
  rest : List Char
deriving DecidableEq

/-- What became of a reading: the sink as it was left, and whether the text was accepted. -/
structure Reading (ε σ : Type) where
  sink : σ
  verdict : Except ε Unit

namespace Scan

/-- The characters that may stand between the parts of a text. -/
def isBlank (c : Char) : Bool := c == ' ' || c == '\t' || c == '\r' || c == '\n'

/-- The text after its leading blanks. -/
def skipBlanks (s : List Char) : List Char := s.dropWhile isBlank

/-- The text after the character that has to come first. -/
def expect (c : Char) : List Char → Except Stop (List Char)
  | [] => .error ⟨.ended c, []⟩
  | a :: s => if a = c then .ok s else .error ⟨.wrongChar c a, a :: s⟩

/-- Splits a text where its name ends: before the first quote that is not escaped.  A
backslash turns escaping on, the next backslash turns it off, and no other character
changes it. -/
def splitName (escaped : Bool) : List Char → List Char × List Char
  | [] => ([], [])
  | c :: s =>
    if c = '"' ∧ escaped = false then ([], c :: s)
    else
      let (name, rest) := splitName (if c = '\\' then !escaped else escaped) s
      (c :: name, rest)

/-- A quoted name; its escapes are kept as they stand. -/
def name (s : List Char) : Except Stop (String × List Char) := do
  let s ← expect '"' s
  let (name, s) := splitName false s
  let s ← expect '"' s
  return (String.ofList name, s)

/-- The cause that a faulty run of base64 characters gives rise to. -/
def runCause (run : List Char) : Base64.Fault → Cause
  | .misaligned => .raggedRun (String.ofList run)
  | fault => .badRun (String.ofList run) fault.reason

/-- The bytes of the longest run of base64 characters.  A faulty run is reported at the
character after it. -/
def run (s : List Char) : Except Stop (List UInt8 × List Char) :=
  match Base64.decode (s.takeWhile Base64.isCodeChar) with
  | .ok bytes => .ok (bytes, s.dropWhile Base64.isCodeChar)
  | .error fault =>
    .error ⟨runCause (s.takeWhile Base64.isCodeChar) fault, s.dropWhile Base64.isCodeChar⟩

/-- The quoted payloads of a tensor, parted by a semicolon. -/
def payloads (s : List Char) : Except Stop ((List UInt8 × List UInt8) × List Char) := do
  let s ← expect '"' s
  let (dimensions, s) ← run s
  let s ← expect ';' s
  let (values, s) ← run s
  let s ← expect '"' s
  return ((dimensions, values), s)

/-- One tensor: its name, a colon and its payloads. -/
def tensor (s : List Char) : Except Stop (Entry × List Char) := do
  let (name, s) ← name s
  let s ← expect ':' (skipBlanks s)
  let ((dimensions, values), s) ← payloads (skipBlanks s)
  return (⟨name, dimensions, values⟩, s)

/-- The text after the blanks and the comma, if there is one, that follow a tensor. -/
def skipSeparator (s : List Char) : List Char :=
  match skipBlanks s with
  | ',' :: s => skipBlanks s
  | s => s

/-! ### Each part leaves less than it was given

The loop over the tensors of a text ends because a tensor takes up at least its opening
quote.
-/

theorem length_dropWhile_le (p : Char → Bool) (s : List Char) :
    (s.dropWhile p).length ≤ s.length :=
  (List.dropWhile_sublist p).length_le

theorem length_skipBlanks_le (s : List Char) : (skipBlanks s).length ≤ s.length :=
  length_dropWhile_le _ s

theorem length_expect {c : Char} {s r : List Char} (h : expect c s = .ok r) :
    s.length = r.length + 1 := by
  cases s with
  | nil => simp [expect] at h
  | cons a s =>
    by_cases hac : a = c
    · simp [expect, hac] at h
      simp [h]
    · simp [expect, hac] at h

theorem length_splitName_le (escaped : Bool) (s : List Char) :
    (splitName escaped s).2.length ≤ s.length := by
  induction s generalizing escaped with
  | nil => simp [splitName]
  | cons c s ih =>
    by_cases h : c = '"' ∧ escaped = false
    · simp [splitName, h]
    · simp only [splitName, h, if_false, List.length_cons]
      exact Nat.le_succ_of_le (ih _)

theorem length_run_le {s r : List Char} {bytes : List UInt8} (h : run s = .ok (bytes, r)) :
    r.length ≤ s.length := by
  unfold run at h
  split at h
  · cases h
    exact length_dropWhile_le _ s
  · cases h

theorem length_name_lt {s r : List Char} {n : String} (h : name s = .ok (n, r)) :
    r.length < s.length := by
  obtain ⟨s1, h1, h⟩ := bind_eq_ok.1 h
  obtain ⟨s2, h2, h⟩ := bind_eq_ok.1 h
  cases h
  have := length_expect h1
  have := length_expect h2
  have := length_splitName_le false s1
  omega

theorem length_payloads_lt {s r : List Char} {p : List UInt8 × List UInt8}
    (h : payloads s = .ok (p, r)) : r.length < s.length := by
  obtain ⟨s1, h1, h⟩ := bind_eq_ok.1 h
  obtain ⟨⟨dimensions, s2⟩, h2, h⟩ := bind_eq_ok.1 h
  obtain ⟨s3, h3, h⟩ := bind_eq_ok.1 h
  obtain ⟨⟨values, s4⟩, h4, h⟩ := bind_eq_ok.1 h
  obtain ⟨s5, h5, h⟩ := bind_eq_ok.1 h
  cases h
  have := length_expect h1
  have := length_run_le h2
  have := length_expect h3
  have := length_run_le h4
  have := length_expect h5
  omega

theorem length_tensor_lt {s r : List Char} {e : Entry} (h : tensor s = .ok (e, r)) :
    r.length < s.length := by
  obtain ⟨⟨n, s1⟩, h1, h⟩ := bind_eq_ok.1 h
  obtain ⟨s2, h2, h⟩ := bind_eq_ok.1 h
  obtain ⟨⟨⟨dimensions, values⟩, s3⟩, h3, h⟩ := bind_eq_ok.1 h
  cases h
  have := length_name_lt h1
  have := length_skipBlanks_le s1
  have := length_expect h2
  have := length_skipBlanks_le s2
  have := length_payloads_lt h3
  omega

theorem length_skipSeparator_le (s : List Char) : (skipSeparator s).length ≤ s.length := by
  unfold skipSeparator
  have hs := length_skipBlanks_le s
  split
  · rename_i r hr
    have := length_skipBlanks_le r
    rw [hr, List.length_cons] at hs
    omega
  · exact hs

/-! ### The whole text -/

/-- The tensors up to the closing brace or the end of the text, whichever comes first,
each handed to the sink as soon as it is complete. -/
def tensors {σ : Type} [Sink σ] (sink : σ) (s : List Char) : σ × Except Stop (List Char) :=
  if s = [] ∨ s.head? = some '}' then (sink, .ok s)
  else
    match _h : tensor s with
    | .error stop => (sink, .error stop)
    | .ok (e, rest) => tensors (Sink.push sink e) (skipSeparator rest)
termination_by s.length
decreasing_by exact Nat.lt_of_le_of_lt (length_skipSeparator_le rest) (length_tensor_lt _h)

/-- What may follow the closing brace when trailing content is refused: blanks. -/
def onlyBlanks (s : List Char) : Except Stop Unit :=
  match skipBlanks s with
  | [] => .ok ()
  | c :: s => .error ⟨.trailing c, c :: s⟩

/-- The end of a text: the closing brace and, if asked for, nothing but blanks after it. -/
def closing (strict : Bool) (s : List Char) : Except Stop Unit := do
  let s ← expect '}' s
  if strict then onlyBlanks s

/-- Scans a whole text into a sink. -/
def document {σ : Type} [Sink σ] (strict : Bool) (sink : σ) (s : List Char) :
    Reading Stop σ :=
  match expect '{' (skipBlanks s) with
  | .error stop => ⟨sink, .error stop⟩
  | .ok s =>
    match tensors sink (skipBlanks s) with
    | (sink, .error stop) => ⟨sink, .error stop⟩
    | (sink, .ok s) => ⟨sink, closing strict s⟩

end Scan

end TensorText

/-
Texts inside JSON, and the white space around its parts.

A text stands between quotes.  A quote, a backslash and the control characters are
escaped when written: the usual ones by a letter, the others by four hexadecimal digits.
When read, any character may be escaped by its code, a pair of surrogates standing for
one character.
-/
import TensorText.Steps

namespace TensorText.Json

/-- The white space of JSON. -/
def isSpace (c : Char) : Bool := c == ' ' || c == '\n' || c == '\t' || c == '\r'

/-- The text after its leading white space. -/
def skipSpace (s : List Char) : List Char := s.dropWhile isSpace

/-! ### Writing -/

/-- One character of a written text. -/
def escaped (c : Char) : List Char :=
  if c = '"' then ['\\', '"']
  else if c = '\\' then ['\\', '\\']
  else if c = '\x08' then ['\\', 'b']
  else if c = '\x0c' then ['\\', 'f']
  else if c = '\n' then ['\\', 'n']
  else if c = '\r' then ['\\', 'r']
  else if c = '\t' then ['\\', 't']
  else if c.toNat < 32 then
    ['\\', 'u', '0', '0', Nat.digitChar (c.toNat / 16), Nat.digitChar (c.toNat % 16)]
  else [c]

/-- A text with its quotes. -/
def quote (s : String) : List Char := '"' :: s.toList.flatMap escaped ++ ['"']

/-! ### Reading -/

/-- Why a text is not the JSON that was wanted.  Of several faults the first one counts. -/
inductive Fault
  /-- A part of the wrong type or range, a repeated field, or a missing one. -/
  | mismatch
  /-- No JSON at all. -/
  | malformed
  /-- The beginning of some JSON. -/
  | truncated
deriving DecidableEq

/-- The value of a hexadecimal digit. -/
def hexDigit? (c : Char) : Option Nat :=
  if c.isDigit then some (c.toNat - 48)
  else if 'a' ≤ c ∧ c ≤ 'f' then some (c.toNat - 87)
  else if 'A' ≤ c ∧ c ≤ 'F' then some (c.toNat - 55)
  else none

/-- The number of four hexadecimal digits.  With fewer than four bytes left the text is
too short, whatever they are. -/
def hexCode (s : List Char) : Except Fault (Nat × List Char) :=
  match s with
  | a :: b :: c :: d :: rest =>
    match hexDigit? a, hexDigit? b, hexDigit? c, hexDigit? d with
    | some a, some b, some c, some d => .ok (((a * 16 + b) * 16 + c) * 16 + d, rest)
    | _, _, _, _ => .error .malformed
  | s => .error (if (String.ofList s).utf8ByteSize < 4 then .truncated else .malformed)

/-- The low surrogate that has to follow a high one. -/
def lowSurrogate (s : List Char) : Except Fault (Nat × List Char) :=
  match s with
  | [] => .error .truncated
  | '\\' :: [] => .error .truncated
  | '\\' :: 'u' :: s => do
    let (n, s) ← hexCode s
    if 0xDC00 ≤ n ∧ n ≤ 0xDFFF then return (n, s) else throw .malformed
  | _ => .error .malformed

/-- The character whose code follows `\u`. -/
def unicodeEscape (s : List Char) : Except Fault (Char × List Char) := do
  let (n, s) ← hexCode s
  if 0xDC00 ≤ n ∧ n ≤ 0xDFFF then throw .malformed
  else if 0xD800 ≤ n ∧ n ≤ 0xDBFF then
    let (m, s) ← lowSurrogate s
    return (Char.ofNat ((n - 0xD800) * 1024 + (m - 0xDC00) + 0x10000), s)
  else return (Char.ofNat n, s)

/-- The character that a letter after a backslash stands for. -/
def letterEscape? (c : Char) : Option Char :=
  if c = '"' ∨ c = '\\' ∨ c = '/' then some c
  else if c = 'b' then some '\x08'
  else if c = 'f' then some '\x0c'
  else if c = 'n' then some '\n'
  else if c = 'r' then some '\r'
  else if c = 't' then some '\t'
  else none

/-- The character that stands after a backslash. -/
def escape (s : List Char) : Except Fault (Char × List Char) :=
  match s with
  | [] => .error .truncated
  | 'u' :: s => unicodeEscape s
  | c :: s =>
    match letterEscape? c with
    | some c => .ok (c, s)
    | none => .error .malformed

/-- Passes over what stands after a backslash, whether or not it makes a character. -/
def skipEscape (s : List Char) : Except Fault (List Char) :=
  match s with
  | [] => .error .truncated
  | 'u' :: s => (hexCode s).map Prod.snd
  | c :: s => if (letterEscape? c).isSome then .ok s else .error .malformed

theorem length_hexCode {s r : List Char} {n : Nat} (h : hexCode s = .ok (n, r)) :
    r.length < s.length := by
  unfold hexCode at h
  split at h
  · split at h
    · cases h
      simp only [List.length_cons]
      omega
    · cases h
  · cases h

theorem length_lowSurrogate {s r : List Char} {n : Nat} (h : lowSurrogate s = .ok (n, r)) :
    r.length < s.length := by
  unfold lowSurrogate at h
  split at h
  · cases h
  · cases h
  · obtain ⟨⟨m, s1⟩, h1, h⟩ := bind_eq_ok.1 h
    have := length_hexCode h1
    dsimp only at h
    split at h
    · cases h
      simp only [List.length_cons]
      omega
    · cases h
  · cases h

theorem length_unicodeEscape {s r : List Char} {c : Char} (h : unicodeEscape s = .ok (c, r)) :
    r.length < s.length := by
  obtain ⟨⟨n, s1⟩, h1, h⟩ := bind_eq_ok.1 h
  have := length_hexCode h1
  dsimp only at h
  split at h
  · cases h
  · split at h
    · obtain ⟨⟨m, s2⟩, h2, h⟩ := bind_eq_ok.1 h
      have := length_lowSurrogate h2
      have hr : s2 = r := (Prod.mk.inj (Except.ok.inj h)).2
      subst hr
      omega
    · cases h
      assumption

theorem length_escape {s r : List Char} {c : Char} (h : escape s = .ok (c, r)) :
    r.length < s.length := by
  unfold escape at h
  split at h
  · cases h
  · exact Nat.lt_succ_of_lt (length_unicodeEscape h)
  · split at h
    · cases h
      exact Nat.lt_succ_self _
    · cases h

theorem length_skipEscape {s r : List Char} (h : skipEscape s = .ok r) :
    r.length < s.length := by
  unfold skipEscape at h
  split at h
  · cases h
  · obtain ⟨⟨n, s1⟩, h1, rfl⟩ := map_eq_ok.1 h
    exact Nat.lt_succ_of_lt (length_hexCode h1)
  · split at h
    · cases h
      exact Nat.lt_succ_self _
    · cases h

/-- The characters up to the closing quote, and what comes after it. -/
def characters (s : List Char) : Except Fault (List Char × List Char) :=
  match s with
  | [] => .error .truncated
  | c :: s =>
    if c = '"' then .ok ([], s)
    else if c = '\\' then
      match _h : escape s with
      | .error fault => .error fault
      | .ok (c, s) => (characters s).map fun p => (c :: p.1, p.2)
    else if c.toNat < 32 then .error .malformed
    else (characters s).map fun p => (c :: p.1, p.2)
termination_by s.length
decreasing_by
  · have := length_escape _h
    simp only [List.length_cons]
    omega
  · simp

/-- Passes over the characters up to and including the closing quote. -/
def skipCharacters (s : List Char) : Except Fault (List Char) :=
  match s with
  | [] => .error .truncated
  | c :: s =>
    if c = '"' then .ok s
    else if c = '\\' then
      match _h : skipEscape s with
      | .error fault => .error fault
      | .ok s => skipCharacters s
    else if c.toNat < 32 then .error .malformed
    else skipCharacters s
termination_by s.length
decreasing_by
  · have := length_skipEscape _h
    simp only [List.length_cons]
    omega
  · simp

end TensorText.Json

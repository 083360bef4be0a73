/-
The scan as a head that moves over bytes.

`Scan` hands the rest of a text from part to part.  Here the same scan is told as a machine does
it: the text lies there as bytes, a head counts those that were read, and whatever is captured is
cut out between two positions of the head.  The head looks at one byte and goes on by one byte,
through characters of several bytes too.  A cut that is out of range, or does not lie between
characters, is a crash.

What happened on the way is kept in a `Trace`: where the head went, what was cut out, and the
entries that were handed on.
-/
import TensorText.Read
import TensorText.Utf8

namespace TensorText.Tape

/-- Whether an index lies between two characters, or at one of the ends. -/
def isBoundary (tape : List UInt8) (i : Nat) : Bool :=
  i == 0 ||
    match tape[i]? with
    | none => i == tape.length
    | some b => !Utf8.isTail b

/-- A piece of the bytes, from one index up to another. -/
structure Cut where
  start : Nat
  stop : Nat
deriving DecidableEq

/-- The piece is in range, and it begins and ends between characters. -/
def Cut.IsSound (tape : List UInt8) (c : Cut) : Prop :=
  c.start ≤ c.stop ∧ c.stop ≤ tape.length ∧
    isBoundary tape c.start = true ∧ isBoundary tape c.stop = true

instance (tape : List UInt8) (c : Cut) : Decidable (c.IsSound tape) :=
  inferInstanceAs (Decidable (_ ∧ _ ∧ _ ∧ _))

/-- Why a scanner came to a halt. -/
inductive Halt
  /-- It made a cut that is not sound. -/
  | crash
  /-- The text is malformed. -/
  | fault (d : Diagnostic)
deriving DecidableEq

/-- What a scanner did, and what came of it. -/
structure Trace (α : Type) where
  /-- The positions that the head went to, in order. -/
  heads : List Nat
  /-- The pieces that were cut out. -/
  cuts : List Cut
  /-- The entries that were handed on. -/
  pushed : List Entry
  /-- Where the head was left. -/
  head : Nat
  result : Except Halt α

/-- A scanner, which starts with its head at some position over the bytes. -/
structure Scanner (α : Type) where
  scan : List UInt8 → Nat → Trace α

/-- The trace of going on after a trace from where it left the head. -/
def Trace.andThen {α β : Type} (t : Trace α) (f : α → Nat → Trace β) : Trace β :=
  match t.result with
  | .error halt => ⟨t.heads, t.cuts, t.pushed, t.head, .error halt⟩
  | .ok a =>
    let u := f a t.head
    ⟨t.heads ++ u.heads, t.cuts ++ u.cuts, t.pushed ++ u.pushed, u.head, u.result⟩

/-- The trace of yielding a result without doing anything. -/
def Trace.still {α : Type} (head : Nat) (result : Except Halt α) : Trace α :=
  ⟨[], [], [], head, result⟩

instance : Monad Scanner where
  pure a := ⟨fun _ head => .still head (.ok a)⟩
  bind p f := ⟨fun tape head => (p.scan tape head).andThen fun a => (f a).scan tape⟩

/-! ### What a head can do -/

/-- Where the head is. -/
def position : Scanner Nat := ⟨fun _ head => .still head (.ok head)⟩

/-- The number of bytes. -/
def length : Scanner Nat := ⟨fun tape head => .still head (.ok tape.length)⟩

/-- A byte as the character with its number, which it is if it stands for a character alone. -/
def byteAt? (tape : List UInt8) (i : Nat) : Option Char :=
  tape[i]?.map fun b => Char.ofNat b.toNat

theorem lt_length_of_byteAt {tape : List UInt8} {i : Nat} {c : Char}
    (h : byteAt? tape i = some c) : i < tape.length := by
  obtain ⟨b, hb, -⟩ := Option.map_eq_some_iff.mp h
  exact (List.getElem?_eq_some_iff.mp hb).1

/-- The byte under the head. -/
def peek : Scanner (Option Char) := ⟨fun tape head => .still head (.ok (byteAt? tape head))⟩

/-- Moves the head on by one byte. -/
def advance : Scanner Unit := ⟨fun _ head => ⟨[head + 1], [], [], head + 1, .ok ()⟩⟩

/-- The trace of moving on from byte to byte for as long as a gate lets them pass; a byte that
passes may change the state of the gate. -/
def passFrom {σ : Type} (gate : σ → Char → Option σ) (s : σ) (tape : List UInt8) (head : Nat) :
    Trace Unit :=
  match _h : (byteAt? tape head).bind (gate s) with
  | none => .still head (.ok ())
  | some s => (advance.scan tape head).andThen fun _ _ => passFrom gate s tape (head + 1)
termination_by tape.length - head
decreasing_by
  obtain ⟨c, hc, -⟩ := Option.bind_eq_some_iff.mp _h
  have := lt_length_of_byteAt hc
  omega

/-- Moves on over the bytes that a gate lets pass. -/
def pass {σ : Type} (gate : σ → Char → Option σ) (s : σ) : Scanner Unit := ⟨passFrom gate s⟩

/-- Cuts a piece out. -/
def cut (start stop : Nat) : Scanner String := ⟨fun tape head =>
  ⟨[], [⟨start, stop⟩], [], head,
    if Cut.IsSound tape ⟨start, stop⟩ then
      (Utf8.decode ((tape.take stop).drop start)).mapError fun _ => .crash
    else .error .crash⟩⟩

/-- Hands an entry on. -/
def push (e : Entry) : Scanner Unit := ⟨fun _ head => ⟨[], [], [e], head, .ok ()⟩⟩

/-- Comes to a halt. -/
def halt {α : Type} (h : Halt) : Scanner α := ⟨fun _ head => .still head (.error h)⟩

/-! ### The parts of a scan -/

/-- The character under the head, or NUL at the end. -/
def currentChar : Scanner Char := do
  let rest ← cut (← position) (← length)
  return rest.toList.head?.getD '\x00'

/-- The line and column of the character under the head. -/
def locate : Scanner Position := do
  let stop := min (← position) (← length)
  let rest ← cut stop (← length)
  let before ← cut 0 stop
  return (Position.after before.toList).advance (rest.toList.head?.getD '\x00')

/-- Fails at the character under the head. -/
def fail {α : Type} (cause : Cause) : Scanner α := do
  let position ← locate
  halt (.fault ⟨position, cause⟩)

/-- Moves on over the character that has to come next. -/
def expect (c : Char) : Scanner Unit := do
  match ← peek with
  | none => fail (.ended c)
  | some b =>
    if b = c then advance
    else
      let actual ← currentChar
      fail (.wrongChar c actual)

/-- The text that a scanner moves over. -/
def capture (p : Scanner Unit) : Scanner String := do
  let start ← position
  p
  cut start (← position)

/-- Moves on over blanks. -/
def skipBlanks : Scanner Unit := pass (fun _ c => if Scan.isBlank c then some () else none) ()

/-- The bytes of the longest run of base64 characters. -/
def run : Scanner (List UInt8) := do
  let run ← capture (pass (fun _ c => if Base64.isCodeChar c then some () else none) ())
  if (Utf8.encode run).length % 4 ≠ 0 then fail (.raggedRun run)
  else
    match Base64.decode run.toList with
    | .ok bytes => return bytes
    | .error fault => fail (.badRun run fault.reason)

/-- Whether escaping is on after a character of a name, unless the character ends the name. -/
def nameGate (escaped : Bool) (c : Char) : Option Bool :=
  if c = '"' ∧ escaped = false then none
  else some (if c = '\\' then !escaped else escaped)

/-- A quoted name. -/
def name : Scanner String := do
  expect '"'
  let name ← capture (pass nameGate false)
  expect '"'
  return name

/-- The quoted payloads of a tensor, parted by a semicolon. -/
def payloads : Scanner (List UInt8 × List UInt8) := do
  expect '"'
  let dimensions ← run
  expect ';'
  let values ← run
  expect '"'
  return (dimensions, values)

/-- One tensor. -/
def tensor : Scanner Entry := do
  let name ← name
  skipBlanks
  expect ':'
  skipBlanks
  let payloads ← payloads
  return ⟨name, payloads.1, payloads.2⟩

/-- Moves on over the blanks and the comma, if there is one, that follow a tensor. -/
def skipSeparator : Scanner Unit := do
  skipBlanks
  if (← peek) = some ',' then
    expect ','
    skipBlanks

/-- One tensor, which is handed on. -/
def handOn : Scanner Unit := do
  let e ← tensor
  push e

/-- One turn of the loop over the tensors of a text. -/
def turn : Scanner Unit := do
  handOn
  skipSeparator

/-! ### The head only moves on

The loop over the tensors of a text ends because a tensor takes up six bytes at least: four
quotes, a colon and a semicolon.
-/

/-- The head went on from `head`, byte by byte.  It has room behind it for six bytes an entry,
and for `n` more if there is a result. -/
def Trace.Goes {α : Type} (n head : Nat) (t : Trace α) : Prop :=
  ∃ k, t.head = head + k ∧ t.heads = List.range' (head + 1) k ∧ 6 * t.pushed.length ≤ k ∧
    ∀ a, t.result = .ok a → 6 * t.pushed.length + n ≤ k

/-- Wherever its head begins, the scanner makes it go on. -/
def Scanner.Advances {α : Type} (n : Nat) (p : Scanner α) : Prop :=
  ∀ tape head, (p.scan tape head).Goes n head

section Advances

variable {α β : Type} {m n : Nat}

theorem Trace.andThen_of_error {t : Trace α} {halt : Halt} (h : t.result = .error halt)
    (f : α → Nat → Trace β) :
    t.andThen f = ⟨t.heads, t.cuts, t.pushed, t.head, .error halt⟩ := by
  rw [andThen, h]

theorem Trace.andThen_of_ok {t : Trace α} {a : α} (h : t.result = .ok a)
    (f : α → Nat → Trace β) : t.andThen f =
      ⟨t.heads ++ (f a t.head).heads, t.cuts ++ (f a t.head).cuts,
        t.pushed ++ (f a t.head).pushed, (f a t.head).head, (f a t.head).result⟩ := by
  rw [andThen, h]

theorem scan_bind (p : Scanner α) (f : α → Scanner β) (tape : List UInt8) (head : Nat) :
    (p >>= f).scan tape head = (p.scan tape head).andThen fun a => (f a).scan tape := rfl

theorem Trace.Goes.andThen {t : Trace α} {f : α → Nat → Trace β} {head : Nat}
    (ht : t.Goes m head) (hf : ∀ a, t.result = .ok a → (f a t.head).Goes n t.head) :
    (t.andThen f).Goes (m + n) head := by
  obtain ⟨k, hhead, hheads, hroom, hk⟩ := ht
  cases hresult : t.result with
  | error halt =>
      rw [andThen_of_error hresult]
      exact ⟨k, hhead, hheads, hroom, fun b hb => nomatch hb⟩
  | ok a =>
      obtain ⟨k', hhead', hheads', hroom', hk'⟩ := hf a hresult
      rw [andThen_of_ok hresult]
      refine ⟨k + k', ?_, ?_, ?_, fun b hb => ?_⟩
      · rw [hhead', hhead, Nat.add_assoc]
      · show t.heads ++ _ = _
        rw [hheads, hheads', hhead, Nat.add_right_comm, List.range'_append_1]
      · rw [List.length_append]
        omega
      · have := hk a hresult
        have := hk' b hb
        rw [List.length_append]
        omega

theorem Scanner.Advances.bind {p : Scanner α} {f : α → Scanner β} (hp : p.Advances m)
    (hf : ∀ a, (f a).Advances n) : (p >>= f).Advances (m + n) :=
  fun tape head => (hp tape head).andThen fun a _ => hf a tape _

theorem Scanner.Advances.mono {p : Scanner α} (hp : p.Advances n) (hmn : m ≤ n) :
    p.Advances m := by
  intro tape head
  obtain ⟨k, hhead, hheads, hroom, hk⟩ := hp tape head
  exact ⟨k, hhead, hheads, hroom, fun a ha => Nat.le_trans (Nat.add_le_add_left hmn _) (hk a ha)⟩

/-- A scanner that leaves the head where it is and hands nothing on. -/
theorem advances_still {p : Scanner α} {cuts : List UInt8 → Nat → List Cut}
    {result : List UInt8 → Nat → Except Halt α}
    (h : ∀ tape head, p.scan tape head = ⟨[], cuts tape head, [], head, result tape head⟩) :
    p.Advances 0 := by
  intro tape head
  rw [h]
  exact ⟨0, rfl, rfl, Nat.le_refl 0, fun _ _ => Nat.le_refl 0⟩

theorem advances_pure (a : α) : (pure a : Scanner α).Advances 0 :=
  advances_still fun _ _ => rfl

theorem advances_position : position.Advances 0 :=
  advances_still fun _ _ => rfl

theorem advances_length : length.Advances 0 :=
  advances_still fun _ _ => rfl

theorem advances_peek : peek.Advances 0 :=
  advances_still fun _ _ => rfl

theorem advances_cut (start stop : Nat) : (cut start stop).Advances 0 :=
  advances_still fun _ _ => rfl

theorem advances_halt (h : Halt) : (halt h : Scanner α).Advances n :=
  fun _ _ => ⟨0, rfl, rfl, Nat.le_refl 0, fun _ ha => nomatch ha⟩

theorem advances_advance : advance.Advances 1 :=
  fun _ _ => ⟨1, rfl, rfl, Nat.zero_le 1, fun _ _ => Nat.le_refl 1⟩

theorem advances_pass {σ : Type} (gate : σ → Char → Option σ) (s : σ) :
    (pass gate s).Advances 0 := by
  intro tape head
  rw [pass]
  dsimp only
  fun_induction passFrom gate s tape head with
  | case1 s head h => exact ⟨0, rfl, rfl, Nat.le_refl 0, fun _ _ => Nat.le_refl 0⟩
  | case2 s head s' h ih =>
      obtain ⟨k, hhead, hheads, hroom, -⟩ := ih
      rw [Trace.andThen_of_ok rfl]
      refine ⟨k + 1, ?_, ?_, Nat.le_succ_of_le hroom, fun _ _ => Nat.le_succ_of_le hroom⟩
      · rw [hhead, Nat.add_right_comm, Nat.add_assoc]
      · rw [hheads]
        rfl

theorem advances_currentChar : currentChar.Advances 0 :=
  advances_position.bind fun _ => advances_length.bind fun _ =>
    (advances_cut _ _).bind fun _ => advances_pure _

theorem advances_locate : locate.Advances 0 :=
  advances_position.bind fun _ => advances_length.bind fun _ =>
    advances_length.bind fun _ => (advances_cut _ _).bind fun _ =>
      (advances_cut _ _).bind fun _ => advances_pure _

theorem advances_fail (cause : Cause) : (fail cause : Scanner α).Advances n := by
  have h : (fail cause : Scanner α).Advances (0 + n) :=
    advances_locate.bind fun _ => advances_halt _
  rwa [Nat.zero_add] at h

theorem advances_expect (c : Char) : (expect c).Advances 1 := by
  refine advances_peek.bind (n := 1) fun b => ?_
  cases b with
  | none => exact advances_fail _
  | some b =>
      dsimp only
      split
      · exact advances_advance
      · exact advances_currentChar.bind (n := 1) fun _ => advances_fail _

theorem advances_capture {p : Scanner Unit} (hp : p.Advances n) : (capture p).Advances n := by
  have h : (capture p).Advances (0 + (n + (0 + 0))) :=
    advances_position.bind fun _ => hp.bind fun _ =>
      advances_position.bind fun _ => advances_cut _ _
  simpa using h

theorem advances_run : run.Advances 0 := by
  refine (advances_capture (advances_pass _ _)).bind (n := 0) fun run => ?_
  split
  · exact advances_fail _
  · cases Base64.decode run.toList with
    | ok bytes => exact advances_pure bytes
    | error fault => exact advances_fail _

theorem advances_name : name.Advances 2 :=
  (advances_expect _).bind fun _ => (advances_capture (advances_pass _ _)).bind fun _ =>
    (advances_expect _).bind fun _ => advances_pure _

theorem advances_payloads : payloads.Advances 3 :=
  (advances_expect _).bind fun _ => advances_run.bind fun _ => (advances_expect _).bind fun _ =>
    advances_run.bind fun _ => (advances_expect _).bind fun _ => advances_pure _

theorem advances_skipBlanks : skipBlanks.Advances 0 := advances_pass _ _

theorem advances_tensor : tensor.Advances 6 :=
  advances_name.bind fun _ => advances_skipBlanks.bind fun _ => (advances_expect _).bind fun _ =>
    advances_skipBlanks.bind fun _ => advances_payloads.bind fun _ => advances_pure _

theorem advances_skipSeparator : skipSeparator.Advances 0 := by
  refine advances_skipBlanks.bind fun _ => advances_peek.bind (n := 0) fun b => ?_
  split
  · exact ((advances_expect _).bind fun _ => advances_skipBlanks).mono (Nat.zero_le _)
  · exact advances_pure _

theorem scan_handOn (tape : List UInt8) (head : Nat) : handOn.scan tape head =
    (tensor.scan tape head).andThen fun e head => ⟨[], [], [e], head, .ok ()⟩ := rfl

/-- An entry is handed on once its six bytes are read. -/
theorem advances_handOn : handOn.Advances 0 := by
  intro tape head
  obtain ⟨k, hhead, hheads, hroom, hk⟩ := advances_tensor tape head
  rw [scan_handOn]
  cases hresult : (tensor.scan tape head).result with
  | error halt =>
      rw [Trace.andThen_of_error hresult]
      exact ⟨k, hhead, hheads, hroom, fun a ha => nomatch ha⟩
  | ok e =>
      have hsix := hk e hresult
      rw [Trace.andThen_of_ok hresult]
      refine ⟨k, hhead, (List.append_nil _).trans hheads, ?_, fun a ha => ?_⟩
      · rw [List.length_append]
        exact hsix
      · rw [List.length_append]
        exact hsix

theorem advances_turn : turn.Advances 0 := advances_handOn.bind fun _ => advances_skipSeparator

/-- **A turn that succeeds takes the head on by six bytes at least.** -/
theorem six_le_of_turn {tape : List UInt8} {head : Nat} {a : Unit}
    (h : (turn.scan tape head).result = .ok a) : head + 6 ≤ (turn.scan tape head).head := by
  obtain ⟨k, hhead, -, -, hk⟩ := advances_tensor tape head
  rw [turn, scan_bind, scan_handOn] at h ⊢
  cases hresult : (tensor.scan tape head).result with
  | error halt =>
      rw [Trace.andThen_of_error hresult] at h
      cases h
  | ok e =>
      obtain ⟨k', hhead', -⟩ := advances_skipSeparator tape (tensor.scan tape head).head
      have hsix := hk e hresult
      rw [Trace.andThen_of_ok hresult, Trace.andThen_of_ok rfl]
      dsimp only
      omega

end Advances

/-! ### The whole text -/

/-- The trace of the loop over the tensors, up to the closing brace or the end of the text. -/
def tensorsFrom (tape : List UInt8) (head : Nat) : Trace Unit :=
  if _hend : byteAt? tape head = none ∨ byteAt? tape head = some '\x7d' then .still head (.ok ())
  else
    match _h : (turn.scan tape head).result with
    | .error _ => turn.scan tape head
    | .ok () =>
      (turn.scan tape head).andThen fun _ _ => tensorsFrom tape (turn.scan tape head).head
termination_by tape.length - head
decreasing_by
  obtain ⟨c, hc⟩ := Option.ne_none_iff_exists'.mp fun hnone => _hend (Or.inl hnone)
  have := lt_length_of_byteAt hc
  have := six_le_of_turn _h
  omega

/-- The tensors up to the closing brace or the end of the text. -/
def tensors : Scanner Unit := ⟨tensorsFrom⟩

/-- One turn after another, until there is no more to turn to. -/
theorem scan_tensors (tape : List UInt8) (head : Nat) : tensors.scan tape head =
    if byteAt? tape head = none ∨ byteAt? tape head = some '\x7d' then .still head (.ok ())
    else (turn >>= fun _ => tensors).scan tape head := by
  show tensorsFrom tape head = _
  rw [tensorsFrom]
  split
  · rfl
  · rw [scan_bind]
    split
    · rename_i hresult
      rw [Trace.andThen_of_error hresult, ← hresult]
    · rename_i hresult
      rw [Trace.andThen_of_ok hresult, Trace.andThen_of_ok hresult]
      rfl

/-- The closing brace and, if asked for, nothing but blanks after it. -/
def closing (strict : Bool) : Scanner Unit := do
  expect '\x7d'
  if strict then
    skipBlanks
    if (← peek).isSome then
      let actual ← currentChar
      fail (.trailing actual)

/-- The opening brace and the blanks about it. -/
def opening : Scanner Unit := do
  skipBlanks
  expect '\x7b'
  skipBlanks

/-- A whole text. -/
def document (strict : Bool) : Scanner Unit := do
  opening
  tensors
  closing strict

/-- A whole buffer, which may be empty. -/
def reading (strict : Bool) : Scanner Unit := do
  if (← length) = 0 then return ()
  else document strict

/-- The part of a text before its first NUL, cut out where there is one. -/
def terminated (text : String) : Trace String :=
  match (Utf8.encode text).findIdx? (· == 0) with
  | none => .still 0 (.ok text)
  | some stop => (cut 0 stop).scan (Utf8.encode text) 0

end TensorText.Tape

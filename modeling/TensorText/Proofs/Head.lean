/-
The head between characters.

Between two characters, a scanner over bytes does what `Scan` does with the characters that are
left: it fails with the same diagnostic or yields the same, hands the same entries on, and leaves
the head between two characters again; all its cuts are sound on the way.  `Agrees` says this of
one place in a text.  Where a scanner agrees with a part of `Scan` at every place, it `Follows` it,
and scanners that follow something can be put one behind another.
-/
import TensorText.Proofs.Boundary
import TensorText.Proofs.Position
import TensorText.Proofs.Read

namespace TensorText.Tape

variable {α β : Type}

/-- What is left of a text: what was not read, or the failing character and all behind it. -/
def restOf : Except Stop (α × List Char) → List Char
  | .error stop => stop.rest
  | .ok (_, r) => r

/-- What a scanner yields where the characters of a buffer yield this. -/
def resultOf (b : List Char) : Except Stop (α × List Char) → Except Halt α
  | .error stop => .error (.fault (stop.diagnostic b))
  | .ok (a, _) => .ok a

/-- Between the characters `u` and `s`, a scanner comes to `x` and hands `es` on. -/
structure Agrees (p : Scanner α) (u s : List Char) (es : List Entry)
    (x : Except Stop (α × List Char)) : Prop where
  result_eq : (p.scan (bytes (u ++ s)) (bytes u).length).result = resultOf (u ++ s) x
  pushed_eq : (p.scan (bytes (u ++ s)) (bytes u).length).pushed = es
  sound : ∀ c ∈ (p.scan (bytes (u ++ s)) (bytes u).length).cuts, c.IsSound (bytes (u ++ s))
  /-- What was read is a row of characters, and the head stands behind it. -/
  head_eq : ∃ v, s = v ++ restOf x ∧
    (p.scan (bytes (u ++ s)) (bytes u).length).head = (bytes (u ++ v)).length

section Steps

variable {p : Scanner α} {f : α → Scanner β} {u s r : List Char} {es es' : List Entry}

/-- Only what a scanner does at this place counts. -/
theorem Agrees.of_scan_eq {q : Scanner α} {x : Except Stop (α × List Char)}
    (hq : Agrees q u s es x) (hscan : p.scan (bytes (u ++ s)) (bytes u).length =
      q.scan (bytes (u ++ s)) (bytes u).length) : Agrees p u s es x := by
  constructor
  · rw [hscan]
    exact hq.result_eq
  · rw [hscan]
    exact hq.pushed_eq
  · rw [hscan]
    exact hq.sound
  · rw [hscan]
    exact hq.head_eq

theorem Agrees.bind_error {stop : Stop} (hp : Agrees p u s es (.error stop)) :
    Agrees (p >>= f) u s es (.error stop) := by
  have hresult := hp.result_eq
  constructor
  · rw [scan_bind, Trace.andThen_of_error hresult]
    rfl
  · rw [scan_bind, Trace.andThen_of_error hresult]
    exact hp.pushed_eq
  · rw [scan_bind, Trace.andThen_of_error hresult]
    exact hp.sound
  · rw [scan_bind, Trace.andThen_of_error hresult]
    exact hp.head_eq

theorem Agrees.bind_ok {a : α} {y : Except Stop (β × List Char)}
    (hp : Agrees p u s es (.ok (a, r)))
    (hf : ∀ v, s = v ++ r → Agrees (f a) (u ++ v) r es' y) :
    Agrees (p >>= f) u s (es ++ es') y := by
  obtain ⟨hresult, hpushed, hsound, v, hs, hhead⟩ := hp
  change s = v ++ r at hs
  subst hs
  obtain ⟨hresult', hpushed', hsound', w, hw, hhead'⟩ := hf v rfl
  simp only [List.append_assoc, ← hhead] at hresult' hpushed' hsound' hhead'
  constructor
  · rw [scan_bind, Trace.andThen_of_ok hresult]
    exact hresult'
  · rw [scan_bind, Trace.andThen_of_ok hresult]
    show _ ++ _ = _
    rw [hpushed, hpushed']
  · rw [scan_bind, Trace.andThen_of_ok hresult]
    intro c hc
    rcases List.mem_append.mp hc with hc | hc
    · exact hsound c hc
    · exact hsound' c hc
  · rw [scan_bind, Trace.andThen_of_ok hresult]
    refine ⟨v ++ w, ?_, hhead'⟩
    rw [hw, List.append_assoc]

/-- A scanner that leaves the head where it is. -/
theorem agrees_still {cuts : List Cut} {a : α}
    (h : p.scan (bytes (u ++ s)) (bytes u).length = ⟨[], cuts, [], (bytes u).length, .ok a⟩)
    (hcuts : ∀ c ∈ cuts, c.IsSound (bytes (u ++ s))) : Agrees p u s [] (.ok (a, s)) := by
  constructor
  · rw [h]
    rfl
  · rw [h]
  · rw [h]
    exact hcuts
  · rw [h]
    exact ⟨[], rfl, by rw [List.append_nil]⟩

theorem agrees_pure (a : α) (u s : List Char) : Agrees (pure a) u s [] (.ok (a, s)) :=
  agrees_still rfl nofun

theorem agrees_halt (cause : Cause) (u s : List Char) :
    Agrees (halt (.fault (Stop.diagnostic (u ++ s) ⟨cause, s⟩)) : Scanner α) u s []
      (.error ⟨cause, s⟩) :=
  ⟨rfl, rfl, nofun, [], rfl, by rw [List.append_nil]; rfl⟩

theorem agrees_position {f : Nat → Scanner β} {y : Except Stop (β × List Char)}
    (h : Agrees (f (bytes u).length) u s es y) : Agrees (position >>= f) u s es y :=
  h.of_scan_eq rfl

theorem agrees_length {f : Nat → Scanner β} {y : Except Stop (β × List Char)}
    (h : Agrees (f (bytes (u ++ s)).length) u s es y) : Agrees (length >>= f) u s es y :=
  h.of_scan_eq rfl

theorem agrees_peek {f : Option Char → Scanner β} {y : Except Stop (β × List Char)}
    (h : Agrees (f (s.head?.bind lead)) u s es y) : Agrees (peek >>= f) u s es y := by
  rw [← byteAt?_bytes u s] at h
  exact h.of_scan_eq rfl

theorem agrees_cut {a m z : List Char} (h : u ++ s = a ++ m ++ z) :
    Agrees (cut (bytes a).length (bytes (a ++ m)).length) u s [] (.ok (String.ofList m, s)) := by
  have hscan := scan_cut a m z (bytes u).length
  have hsound := isSound_cut a m z
  rw [← h] at hscan hsound
  exact agrees_still hscan (List.forall_mem_singleton.mpr hsound)

/-- The first step leaves the text as it is. -/
theorem Agrees.bind_still {a : α} {y : Except Stop (β × List Char)}
    (hp : Agrees p u s [] (.ok (a, s))) (hf : Agrees (f a) u s es y) :
    Agrees (p >>= f) u s es y := by
  refine hp.bind_ok fun v hv => ?_
  rw [List.self_eq_append_left.mp hv, List.append_nil]
  exact hf

/-! ### Failing -/

theorem agrees_currentChar (u s : List Char) :
    Agrees currentChar u s [] (.ok (s.head?.getD '\x00', s)) := by
  refine agrees_position (agrees_length ?_)
  refine (agrees_cut (List.append_nil _).symm).bind_still ?_
  have hs : (String.ofList s).toList = s := String.toList_ofList
  rw [hs]
  exact agrees_pure _ u s

theorem agrees_locate (u s : List Char) :
    Agrees locate u s [] (.ok (Position.ofIndex (u ++ s) u.length, s)) := by
  have hmin : min (bytes u).length (bytes (u ++ s)).length = (bytes u).length :=
    Nat.min_eq_left (length_bytes_le u s)
  refine agrees_position (agrees_length (agrees_length ?_))
  rw [hmin]
  refine (agrees_cut (List.append_nil _).symm).bind_still ?_
  have hbefore := agrees_cut (u := u) (s := s) (a := []) (m := u) (z := s) rfl
  refine hbefore.bind_still ?_
  rw [Position.ofIndex_append, String.toList_ofList, String.toList_ofList]
  exact agrees_pure _ u s

theorem agrees_fail (cause : Cause) (u s : List Char) :
    Agrees (fail cause : Scanner α) u s [] (.error ⟨cause, s⟩) := by
  have hindex : Stop.diagnostic (u ++ s) ⟨cause, s⟩ =
      ⟨Position.ofIndex (u ++ s) u.length, cause⟩ := by
    rw [Stop.diagnostic, index_append u ⟨cause, s⟩]
  refine (agrees_locate u s).bind_still ?_
  rw [← hindex]
  exact agrees_halt cause u s

end Steps

/-! ### Scanners that follow a part of the scan -/

/-- Between any two characters, a scanner comes to what a part of the scan comes to, and hands
nothing on. -/
def Follows (p : Scanner α) (g : List Char → Except Stop (α × List Char)) : Prop :=
  ∀ u s, Agrees p u s [] (g s)

theorem Follows.bind {p : Scanner α} {f : α → Scanner β}
    {g : List Char → Except Stop (α × List Char)}
    {h : α → List Char → Except Stop (β × List Char)} (hp : Follows p g)
    (hf : ∀ a, Follows (f a) (h a)) : Follows (p >>= f) fun s => g s >>= fun x => h x.1 x.2 := by
  intro u s
  have hp := hp u s
  dsimp only
  cases hg : g s with
  | error stop =>
      rw [hg] at hp
      exact hp.bind_error
  | ok x =>
      rw [hg] at hp
      exact hp.bind_ok fun v _ => hf x.1 (u ++ v) x.2

theorem Follows.congr {p : Scanner α} {g g' : List Char → Except Stop (α × List Char)}
    (hp : Follows p g) (hg : ∀ s, g s = g' s) : Follows p g' := by
  intro u s
  rw [← hg]
  exact hp u s

theorem follows_pure (a : α) : Follows (pure a) fun s => .ok (a, s) := agrees_pure a

theorem agrees_advance {c : Char} (h : c.toNat < 128) (u s : List Char) :
    Agrees advance u (c :: s) [] (.ok ((), s)) := by
  refine ⟨rfl, rfl, nofun, [c], rfl, ?_⟩
  show (bytes u).length + 1 = _
  rw [bytes_append, List.length_append, bytes_cons, encodeChar_of_lt h]
  rfl

theorem follows_expect {c : Char} (hc : c.toNat < 128) :
    Follows (expect c) fun s => (Scan.expect c s).map fun r => ((), r) := by
  intro u s
  refine agrees_peek ?_
  cases s with
  | nil => exact agrees_fail _ u []
  | cons d s =>
      show Agrees _ u (d :: s) [] ((if d = c then .ok s else .error ⟨.wrongChar c d, d :: s⟩ :
        Except Stop (List Char)).map fun r => ((), r))
      obtain ⟨b, hb, -⟩ := exists_lead d
      have hbc : b = c ↔ d = c := by
        rw [← lead_eq_iff (d := d) hc, hb, Option.some.injEq]
      rw [List.head?_cons, Option.bind_some, hb]
      dsimp only
      by_cases hdc : d = c
      · rw [if_pos (hbc.mpr hdc), if_pos hdc, hdc]
        exact agrees_advance hc u s
      · rw [if_neg (hdc ∘ hbc.mp), if_neg hdc]
        exact (agrees_currentChar u (d :: s)).bind_still (agrees_fail _ u (d :: s))

section Continued

variable {f : Unit → Scanner β} {h : List Char → Except Stop (β × List Char)}

theorem Follows.expect {c : Char} (hc : c.toNat < 128) (hf : ∀ a, Follows (f a) h) :
    Follows (Tape.expect c >>= f) fun s => Scan.expect c s >>= h := by
  refine ((follows_expect hc).bind hf).congr fun s => ?_
  cases Scan.expect c s with
  | error stop => rfl
  | ok r => rfl

end Continued

end TensorText.Tape

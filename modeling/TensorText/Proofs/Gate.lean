/-
Loops that let bytes pass.

Such a loop looks at bytes, and so at the inside of characters, where no scanner ought to stop.  It
does not stop there because its gate is coarse: of the bytes of longer spellings it lets all pass
without heeding them, or none.  So it stops in front of the same character as if it had been
looking at characters, and what it went over can be cut out.
-/
import TensorText.Proofs.Head
import TensorText.Proofs.Padding

namespace TensorText.Tape

section Gates

variable {σ : Type} {gate : σ → Char → Option σ}

/-- A gate that does not tell the characters of several bytes apart, nor heeds them. -/
def Coarse (gate : σ → Char → Option σ) : Prop :=
  ∀ s, (∀ c : Char, 128 ≤ c.toNat → gate s c = none) ∨
    ∀ c : Char, 128 ≤ c.toNat → gate s c = some s

/-- The characters that a gate lets pass, and the rest. -/
def through (gate : σ → Char → Option σ) (s : σ) : List Char → List Char × List Char
  | [] => ([], [])
  | c :: cs =>
    match gate s c with
    | none => ([], c :: cs)
    | some s =>
      let (passed, rest) := through gate s cs
      (c :: passed, rest)

theorem through_append (s : σ) (cs : List Char) :
    (through gate s cs).1 ++ (through gate s cs).2 = cs := by
  induction cs generalizing s with
  | nil => rfl
  | cons c cs ih =>
      rw [through]
      cases gate s c with
      | none => rfl
      | some s' => exact congrArg (c :: ·) (ih s')

theorem passFrom_of_none {s : σ} {tape : List UInt8} {head : Nat}
    (h : (byteAt? tape head).bind (gate s) = none) :
    passFrom gate s tape head = .still head (.ok ()) := by
  rw [passFrom]
  split
  · rfl
  · rename_i h'
    rw [h] at h'
    cases h'

theorem passFrom_of_some {s s' : σ} {tape : List UInt8} {head : Nat}
    (h : (byteAt? tape head).bind (gate s) = some s') : passFrom gate s tape head =
      ⟨(head + 1) :: (passFrom gate s' tape (head + 1)).heads,
        (passFrom gate s' tape (head + 1)).cuts, (passFrom gate s' tape (head + 1)).pushed,
        (passFrom gate s' tape (head + 1)).head, (passFrom gate s' tape (head + 1)).result⟩ := by
  rw [passFrom]
  split
  · rename_i h'
    rw [h] at h'
    cases h'
  · rename_i s'' h'
    rw [h] at h'
    cases h'
    rfl

/-- High bytes that pass leave only the way of the head behind. -/
theorem passFrom_high {s : σ} (hopen : ∀ c : Char, 128 ≤ c.toNat → gate s c = some s)
    (a bs z : List UInt8) (hbs : ∀ b ∈ bs, 128 ≤ b.toNat) :
    ∃ hs, passFrom gate s (a ++ (bs ++ z)) a.length =
      ⟨hs, (passFrom gate s (a ++ (bs ++ z)) (a ++ bs).length).cuts,
        (passFrom gate s (a ++ (bs ++ z)) (a ++ bs).length).pushed,
        (passFrom gate s (a ++ (bs ++ z)) (a ++ bs).length).head,
        (passFrom gate s (a ++ (bs ++ z)) (a ++ bs).length).result⟩ := by
  induction bs generalizing a with
  | nil =>
      rw [List.append_nil]
      exact ⟨_, rfl⟩
  | cons b bs ih =>
      obtain ⟨hb, hbs⟩ := List.forall_mem_cons.mp hbs
      have hfirst : (a ++ (b :: bs ++ z))[a.length]? = some b := by simp
      obtain ⟨c, hc, hcb⟩ := toNat_byteAt hfirst
      have hgate : (byteAt? (a ++ (b :: bs ++ z)) a.length).bind (gate s) = some s := by
        rw [hc, Option.bind_some, hopen c (hcb ▸ hb)]
      obtain ⟨hs, hpass⟩ := ih (a ++ [b]) hbs
      simp only [List.append_assoc, List.cons_append, List.nil_append, List.length_append,
        List.length_cons, List.length_nil] at hpass hgate ⊢
      rw [passFrom_of_some hgate, hpass]
      exact ⟨_, rfl⟩

/-- A coarse gate lets the bytes of those characters pass that it lets pass itself. -/
theorem scan_pass (hgate : Coarse gate) (s : σ) (u cs : List Char) :
    ∃ hs, (pass gate s).scan (bytes (u ++ cs)) (bytes u).length =
      ⟨hs, [], [], (bytes (u ++ (through gate s cs).1)).length, .ok ()⟩ := by
  rw [pass]
  dsimp only
  induction cs generalizing u s with
  | nil =>
      have hsees : (byteAt? (bytes (u ++ [])) (bytes u).length).bind (gate s) = none := by
        rw [byteAt?_bytes]
        rfl
      rw [passFrom_of_none hsees, through, List.append_nil]
      exact ⟨[], rfl⟩
  | cons c cs ih =>
      have hsees : (byteAt? (bytes (u ++ c :: cs)) (bytes u).length).bind (gate s) =
          (lead c).bind (gate s) := by
        rw [byteAt?_bytes]
        rfl
      have hnext (s' : σ) := ih s' (u ++ [c])
      simp only [List.append_assoc, List.cons_append, List.nil_append] at hnext
      by_cases hc : c.toNat < 128
      · have hsize : (bytes (u ++ [c])).length = (bytes u).length + 1 := by
          rw [bytes_append, List.length_append, bytes_cons, encodeChar_of_lt hc]
          rfl
        rw [lead_of_lt hc, Option.bind_some] at hsees
        cases hs : gate s c with
        | none =>
            rw [passFrom_of_none (hsees.trans hs), through, hs, List.append_nil]
            exact ⟨[], rfl⟩
        | some s' =>
            obtain ⟨hs', hpass⟩ := hnext s'
            rw [hsize] at hpass
            rw [passFrom_of_some (hsees.trans hs), hpass, through, hs]
            exact ⟨_, rfl⟩
      -- The bytes of any other character are all stopped, or they all pass and leave the state.
      · have hhigh := Nat.not_lt.mp hc
        rcases hgate s with hshut | hopen
        · obtain ⟨b, hb, hbhigh⟩ := exists_lead c
          rw [hb, Option.bind_some, hshut b (hbhigh hhigh)] at hsees
          rw [passFrom_of_none hsees, through, hshut c hhigh, List.append_nil]
          exact ⟨[], rfl⟩
        · obtain ⟨hs, hbytes⟩ := passFrom_high hopen (bytes u) (String.utf8EncodeChar c)
            (bytes cs) (le_of_mem_encodeChar hhigh)
          obtain ⟨hs', hpass⟩ := hnext s
          have htape : bytes u ++ (String.utf8EncodeChar c ++ bytes cs) = bytes (u ++ c :: cs) :=
            (bytes_append u (c :: cs)).symm
          have hpos : bytes u ++ String.utf8EncodeChar c = bytes (u ++ [c]) := by simp
          rw [htape, hpos, hpass] at hbytes
          rw [hbytes, through, hopen c hhigh]
          exact ⟨hs, rfl⟩

theorem follows_pass (hgate : Coarse gate) (s : σ) :
    Follows (pass gate s) fun cs => .ok ((), (through gate s cs).2) := by
  intro u cs
  obtain ⟨hs, hscan⟩ := scan_pass hgate s u cs
  refine ⟨?_, ?_, ?_, (through gate s cs).1, (through_append s cs).symm, ?_⟩
  · rw [hscan]
    rfl
  · rw [hscan]
  · rw [hscan]
    exact nofun
  · rw [hscan]

/-- What a gate lets pass is captured. -/
theorem follows_capture (hgate : Coarse gate) (s : σ) :
    Follows (capture (pass gate s)) fun cs =>
      .ok (String.ofList (through gate s cs).1, (through gate s cs).2) := by
  intro u cs
  refine agrees_position ((follows_pass hgate s u cs).bind_ok fun v hv => ?_)
  have hpassed : v = (through gate s cs).1 :=
    List.append_cancel_right (hv.symm.trans (through_append s cs).symm)
  rw [hpassed]
  exact agrees_position (agrees_cut rfl)

end Gates

/-! ### The gates of a scan -/

theorem through_eq_span {p : Char → Bool} (cs : List Char) :
    through (fun _ c => if p c then some () else none) () cs =
      (cs.takeWhile p, cs.dropWhile p) := by
  induction cs with
  | nil => rfl
  | cons c cs ih =>
      rw [through]
      by_cases hc : p c = true
      · simp [hc, ih]
      · simp [hc]

theorem coarse_of_lt {p : Char → Bool} (hp : ∀ c, p c = true → c.toNat < 128) :
    Coarse fun (_ : Unit) c => if p c then some () else none := by
  intro s
  refine Or.inl fun c hc => if_neg fun hpc => ?_
  have := hp c hpc
  omega

theorem lt_of_isBlank {c : Char} (h : Scan.isBlank c = true) : c.toNat < 128 := by
  simp only [Scan.isBlank, Bool.or_eq_true, beq_iff_eq] at h
  rcases h with ((rfl | rfl) | rfl) | rfl <;> decide

theorem lt_of_isCodeChar {c : Char} (h : Base64.isCodeChar c = true) : c.toNat < 128 := by
  have hle {d : Char} (hd : c ≤ d) : c.toNat ≤ d.toNat := hd
  rcases Base64.isCodeChar_iff.mp h with ⟨-, h⟩ | ⟨-, h⟩ | ⟨-, h⟩ | rfl | rfl | rfl
  · exact Nat.lt_of_le_of_lt (hle h) (by decide)
  · exact Nat.lt_of_le_of_lt (hle h) (by decide)
  · exact Nat.lt_of_le_of_lt (hle h) (by decide)
  · decide
  · decide
  · decide

theorem through_nameGate (escaped : Bool) (cs : List Char) :
    through nameGate escaped cs = Scan.splitName escaped cs := by
  induction cs generalizing escaped with
  | nil => rfl
  | cons c cs ih =>
      rw [through, nameGate, Scan.splitName]
      by_cases hc : c = '"' ∧ escaped = false
      · simp only [if_pos hc]
      · simp only [if_neg hc, ih]

theorem coarse_nameGate : Coarse nameGate := by
  intro escaped
  refine Or.inr fun c hc => ?_
  have hne {d : Char} (hd : d.toNat < 128) : c ≠ d := by
    rintro rfl
    omega
  rw [nameGate, if_neg fun h => hne (by decide) h.1, if_neg (hne (by decide))]

end TensorText.Tape

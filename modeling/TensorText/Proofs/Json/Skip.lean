/-
JSON that is passed over.

A value that nobody asked for is passed over, and nothing is made of it.  So it only has to look
like a value (`IsValue`): its codes need not be those of characters, and its numbers may have any
size.  Whatever is spelt looks like a value.

Going from member to member of an object is one loop, whatever is done with a member
(`eachMember`).  What it takes to go through a whole object is said for one member: a condition on
what is kept and on the members that are left, which each step hands on to the next.
-/
import TensorText.Proofs.Json.Reader

namespace TensorText.Json

open Grammar

/-! ### What a value looks like -/

/-- A piece of a text, whether or not it makes a character. -/
inductive IsPiece : List Char → Prop
  | plain {c : Char} (hcontrol : 32 ≤ c.toNat) (hquote : c ≠ '"') (hescape : c ≠ '\\') :
      IsPiece [c]
  | letter {l : Char} (h : (letterEscape? l).isSome = true) : IsPiece ['\\', l]
  | code {code : List Char} {n : Nat} (h : IsCode code n) : IsPiece ('\\' :: 'u' :: code)

/-- What may stand between quotes. -/
inductive IsPieces : List Char → Prop
  | nil : IsPieces []
  | cons {piece body : List Char} (hpiece : IsPiece piece) (hbody : IsPieces body) :
      IsPieces (piece ++ body)

/-- A member with any key. -/
inductive AnyMember (P : List Char → Unit → Prop) : List Char → Unit → Prop
  | mk {body before after cs : List Char} (hkey : IsPieces body) (hbefore : IsSpaces before)
      (hafter : IsSpaces after) (h : P cs ()) :
      AnyMember P ('"' :: (body ++ '"' :: (before ++ ':' :: (after ++ cs)))) ()

/-- The text looks like a value; nothing is made of it. -/
inductive IsValue : List Char → Unit → Prop
  | null : IsValue ['n', 'u', 'l', 'l'] ()
  | yes : IsValue ['t', 'r', 'u', 'e'] ()
  | no : IsValue ['f', 'a', 'l', 's', 'e'] ()
  | number {cs : List Char} {x : Numeral} (h : x.IsSpelt cs) : IsValue cs ()
  | text {body : List Char} (h : IsPieces body) : IsValue ('"' :: (body ++ ['"'])) ()
  | noItems {spaces : List Char} (h : IsSpaces spaces) : IsValue ('[' :: (spaces ++ [']'])) ()
  | items {body : List Char} {us : List Unit} (h : Parted IsValue body us) :
      IsValue ('[' :: (body ++ [']'])) ()
  | noMembers {spaces : List Char} (h : IsSpaces spaces) : IsValue ('{' :: (spaces ++ ['}'])) ()
  | members {body : List Char} {us : List Unit} (h : Parted (AnyMember IsValue) body us) :
      IsValue ('{' :: (body ++ ['}'])) ()

/-! ### Whatever is spelt looks like a value -/

theorem IsPieces.append {body body' : List Char} (h : IsPieces body) (h' : IsPieces body') :
    IsPieces (body ++ body') := by
  induction h with
  | nil => exact h'
  | cons hpiece _ ih =>
      rw [List.append_assoc]
      exact .cons hpiece ih

theorem IsPiece.pieces {piece : List Char} (h : IsPiece piece) : IsPieces piece := by
  have hone := IsPieces.cons h .nil
  rwa [List.append_nil] at hone

theorem IsCharacter.pieces {piece : List Char} {c : Char} (h : IsCharacter piece c) :
    IsPieces piece := by
  cases h with
  | plain hcontrol hquote hescape => exact (IsPiece.plain hcontrol hquote hescape).pieces
  | letter h => exact (IsPiece.letter (by rw [h]; rfl)).pieces
  | code h => exact (IsPiece.code h).pieces
  | surrogates hhigh hlow hn hm hc =>
      exact (IsPiece.code hhigh).pieces.append (IsPiece.code hlow).pieces

theorem IsBody.pieces {body cs : List Char} (h : IsBody body cs) : IsPieces body := by
  induction h with
  | nil => exact .nil
  | cons hpiece _ ih => exact hpiece.pieces.append ih

/-- **Whatever is spelt looks like a value.** -/
theorem Spells.isValue {cs : List Char} {t : Tree} (h : Spells cs t) : IsValue cs () := by
  -- The parts of an array or an object are shorter than the whole, so the induction is on length.
  generalize hn : cs.length = n
  induction n using Nat.strongRecOn generalizing cs t with
  | _ n ih =>
      cases h with
      | null => exact .null
      | yes => exact .yes
      | no => exact .no
      | number h => exact .number h
      | text h => exact .text h.pieces
      | noItems h => exact .noItems h
      | items h =>
          simp only [List.length_cons, List.length_append] at hn
          refine .items (h.map_of_length (fun _ => ()) (Nat.le_refl _) fun s a ha hs => ?_)
          exact ih s.length (by omega) ha rfl
      | noMembers h => exact .noMembers h
      | members h =>
          simp only [List.length_cons, List.length_append] at hn
          refine .members (h.map_of_length (fun _ => ()) (Nat.le_refl _) fun s m hm hs => ?_)
          cases hm with
          | mk hkey hbefore hafter ha =>
              simp only [List.length_cons, List.length_append] at hs
              exact .mk hkey.pieces hbefore hafter (ih _ (by omega) ha rfl)

/-! ### Passing over a text -/

theorem skipEscape_letter {l : Char} (h : (letterEscape? l).isSome = true) (rest : List Char) :
    skipEscape (l :: rest) = .ok rest := by
  unfold skipEscape
  split
  · rename_i hnil
    cases hnil
  · rename_i hcons
    cases hcons
    exact absurd h (by decide)
  · rename_i hcons
    cases hcons
    exact if_pos h

theorem skipEscape_code {code : List Char} {n : Nat} (h : IsCode code n) (rest : List Char) :
    skipEscape ('u' :: (code ++ rest)) = .ok rest := by
  simp only [skipEscape, hexCode_append h]
  rfl

theorem skipCharacters_escape {s rest : List Char} (h : skipEscape s = .ok rest) :
    skipCharacters ('\\' :: s) = skipCharacters rest := by
  rw [skipCharacters, if_neg (by decide), if_pos rfl]
  split
  · rename_i fault hfault
    rw [h] at hfault
    cases hfault
  · rename_i s' hs'
    rw [h] at hs'
    cases hs'
    rfl

theorem skipCharacters_piece {piece : List Char} (h : IsPiece piece) (rest : List Char) :
    skipCharacters (piece ++ rest) = skipCharacters rest := by
  cases h with
  | plain hcontrol hquote hbackslash =>
      rw [List.singleton_append, skipCharacters, if_neg hquote, if_neg hbackslash,
        if_neg (by omega)]
  | letter h => exact skipCharacters_escape (skipEscape_letter h rest)
  | code h => exact skipCharacters_escape (skipEscape_code h rest)

/-- **A text is passed over up to its closing quote.** -/
theorem skipCharacters_pieces {body : List Char} (h : IsPieces body) (rest : List Char) :
    skipCharacters (body ++ '"' :: rest) = .ok rest := by
  induction h with
  | nil =>
      rw [List.nil_append, skipCharacters]
      exact if_pos rfl
  | cons hpiece _ ih => rw [List.append_assoc, skipCharacters_piece hpiece, ih]

/-! ### From member to member -/

section Members

variable {σ γ α : Type} {step : σ → Decoder σ} {P : List Char → α → Prop}

/-- Goes from member to member and does a step with each, from the inside of its key on. -/
def eachMember (step : σ → Decoder σ) : (fuel : Nat) → (first : Bool) → σ → Decoder σ
  | 0, _, _, _ => .error .malformed
  | fuel + 1, first, r, s => do
    match ← nextKey first s with
    | none => return (r, s)
    | some s =>
      let (r, s) ← step r s
      eachMember step fuel false r s

/-- What it takes to go through members: the condition `Fits` on what is kept (as `view` shows it)
and the members that are left is handed on from step to step. -/
structure GoesOn (step : σ → Decoder σ) (view : γ → σ) (P : List Char → α → Prop)
    (Fits : γ → List α → Prop) : Prop where
  next : ∀ {g a as cs rest}, Fits g (a :: as) → P cs a → Ends rest →
    ∃ s g', cs = '"' :: s ∧ step (view g) (s ++ rest) = .ok (view g', rest) ∧ Fits g' as

theorem eachMember_end {fuel : Nat} {first : Bool} {r : σ} {spaces rest : List Char}
    (h : IsSpaces spaces) : eachMember step (fuel + 1) first r (spaces ++ '}' :: rest) =
      .ok (r, spaces ++ '}' :: rest) := by
  rw [eachMember, nextKey_end h]
  rfl

/-- One member is gone through, and then those behind it. -/
theorem eachMember_member {view : γ → σ} {Fits : γ → List α → Prop}
    (hstep : GoesOn step view P Fits) (fuel : Nat) {first : Bool} {lead before cs s : List Char}
    {g : γ} {a : α} {as : List α} (hlead : IsLead first lead) (hbefore : IsSpaces before)
    (ha : P cs a) (hs : Ends s) (hfits : Fits g (a :: as)) :
    ∃ g', Fits g' as ∧ eachMember step (fuel + 1) first (view g) (lead ++ (before ++ (cs ++ s))) =
      eachMember step fuel false (view g') s := by
  obtain ⟨cs, g', rfl, hread, hfits'⟩ := hstep.next hfits ha hs
  refine ⟨g', hfits', ?_⟩
  rw [eachMember, List.cons_append, nextKey_lead hlead hbefore]
  simp only [ok_bind, hread]

/-- **All members are gone through, up to the closing brace.** -/
theorem eachMember_parted {view : γ → σ} {Fits : γ → List α → Prop}
    (hstep : GoesOn step view P Fits) {cs : List Char} {as : List α} (hparted : Parted P cs as)
    {g : γ} (hfits : Fits g as) {fuel : Nat} (hfuel : as.length < fuel) {first : Bool}
    {lead : List Char} (hlead : IsLead first lead) (rest : List Char) :
    ∃ g' spaces, Fits g' [] ∧ IsSpaces spaces ∧
      eachMember step fuel first (view g) (lead ++ (cs ++ '}' :: rest)) =
        .ok (view g', spaces ++ '}' :: rest) := by
  induction hparted generalizing g fuel first lead with
  | @one before cs after a hbefore ha hafter =>
      rw [List.length_singleton] at hfuel
      obtain ⟨fuel, rfl⟩ : ∃ n, fuel = n + 1 + 1 := ⟨fuel - 2, by omega⟩
      have hends : Ends (after ++ '}' :: rest) := ends_append_cons hafter (by decide)
      obtain ⟨g', hfits', heach⟩ :=
        eachMember_member hstep (fuel + 1) hlead hbefore ha hends hfits
      refine ⟨g', after, hfits', hafter, ?_⟩
      simp only [List.append_assoc]
      rw [heach, eachMember_end hafter]
  | @cons before cs after more a as hbefore ha hafter _ ih =>
      rw [List.length_cons] at hfuel
      obtain ⟨fuel, rfl⟩ : ∃ n, fuel = n + 1 := ⟨fuel - 1, by omega⟩
      have hends : Ends (after ++ ',' :: (more ++ '}' :: rest)) :=
        ends_append_cons hafter (by decide)
      obtain ⟨g₁, hfits₁, heach⟩ :=
        eachMember_member hstep fuel hlead hbefore ha hends hfits
      obtain ⟨g', spaces, hfits', hspaces, hmore⟩ :=
        @ih g₁ hfits₁ fuel (by omega) false _ (.comma hafter)
      refine ⟨g', spaces, hfits', hspaces, ?_⟩
      simp only [List.append_assoc, List.singleton_append] at hmore
      simp only [List.append_assoc, List.cons_append]
      rw [heach, hmore]

end Members

/-! ### Passing over a value -/

/-- Passes over one member, from the inside of its key on. -/
def skipMember (value : Decoder Unit) : Decoder Unit := fun s => do
  value (← expectMark ':' (← skipCharacters s))

theorem skipMembers_eq (value : Decoder Unit) (fuel : Nat) (first : Bool) (s : List Char) :
    skipMembers value fuel first s = (eachMember (fun _ => skipMember value) fuel first () s).bind
      fun p => (expectMark '}' p.2).map ((), ·) := by
  induction fuel generalizing first s with
  | zero => rfl
  | succ fuel ih =>
      rw [skipMembers, eachMember]
      cases nextKey first s with
      | error fault => rfl
      | ok key =>
          cases key with
          | none =>
              show (expectMark '}' s >>= fun s => pure ((), s)) = (expectMark '}' s).map ((), ·)
              cases expectMark '}' s <;> rfl
          | some s =>
              simp only [ok_bind, skipMember]
              cases skipCharacters s with
              | error fault => rfl
              | ok s =>
                  simp only [ok_bind]
                  cases expectMark ':' s with
                  | error fault => rfl
                  | ok s =>
                      simp only [ok_bind]
                      cases value s with
                      | error fault => rfl
                      | ok p => exact ih false p.2

section Nested

/-- What looks like a value and has fewer than so many characters. -/
def IsValueWithin (depth : Nat) (cs : List Char) (u : Unit) : Prop :=
  IsValue cs u ∧ cs.length < depth

theorem goesOn_skipMember {value : Decoder Unit} {P : List Char → Unit → Prop}
    (hvalue : Reads value P) : GoesOn (fun _ => skipMember value) (id : Unit → Unit) (AnyMember P)
      fun _ _ => True := by
  constructor
  rintro _ _ _ cs rest - hmember hrest
  cases hmember with
  | @mk body before after cs hkey hbefore hafter h =>
      refine ⟨body ++ '"' :: (before ++ ':' :: (after ++ cs)), (), rfl, ?_, trivial⟩
      simp only [skipMember, List.append_assoc, List.cons_append, skipCharacters_pieces hkey,
        ok_bind, expectMark_append ':' hbefore (by decide), hvalue.read h hafter hrest]

theorem AnyMember.imp_of_length {P Q : List Char → Unit → Prop} {cs : List Char} {u : Unit}
    (hmember : AnyMember P cs u) (h : ∀ s, P s () → s.length ≤ cs.length → Q s ()) :
    AnyMember Q cs u := by
  cases hmember with
  | mk hkey hbefore hafter ha =>
      refine .mk hkey hbefore hafter (h _ ha ?_)
      simp only [List.length_append, List.length_cons]
      omega

variable {depth fuel : Nat} {body rest : List Char}

theorem skip_items (hreads : Reads (skipNested depth) (IsValueWithin depth)) {us : List Unit}
    (h : Parted IsValue body us) (hdepth : body.length < depth) (hfuel : body.length + 1 < fuel) :
    items (skipNested depth) fuel true (body ++ ']' :: rest) = .ok (us, rest) := by
  have hbody : Parted (IsValueWithin depth) body us :=
    h.imp_of_length (Nat.le_refl _) fun s a ha hs => ⟨ha, by omega⟩
  have hlength := h.length_le
  exact items_parted hreads hbody (by omega) .start

theorem skip_noMembers {value : Decoder Unit} {spaces : List Char} (h : IsSpaces spaces) :
    skipMembers value (fuel + 1) true (spaces ++ '}' :: rest) = .ok ((), rest) := by
  rw [skipMembers_eq, eachMember_end h]
  simp [Except.bind, expectMark_append '}' h (by decide), Except.map]

theorem skip_members (hreads : Reads (skipNested depth) (IsValueWithin depth)) {us : List Unit}
    (h : Parted (AnyMember IsValue) body us) (hdepth : body.length < depth)
    (hfuel : body.length + 1 < fuel) :
    skipMembers (skipNested depth) fuel true (body ++ '}' :: rest) = .ok ((), rest) := by
  have hbody : Parted (AnyMember (IsValueWithin depth)) body us :=
    h.imp_of_length (Nat.le_refl _) fun s u hm hs =>
      hm.imp_of_length fun s' ha hs' => ⟨ha, by omega⟩
  have hlength := h.length_le
  have hfuel' : us.length < fuel := by omega
  obtain ⟨_, spaces, -, hspaces, heach⟩ :=
    eachMember_parted (goesOn_skipMember hreads) hbody (g := ()) trivial hfuel' .start rest
  rw [List.nil_append, id_eq] at heach
  rw [skipMembers_eq, heach]
  simp [Except.bind, expectMark_append '}' hspaces (by decide), Except.map]

end Nested

theorem IsValue.head {cs : List Char} {u : Unit} (h : IsValue cs u) :
    ∃ c s, cs = c :: s ∧ isSpace c = false ∧ c ≠ ']' := by
  cases h with
  | number h =>
      obtain ⟨c, s, hcs, hc⟩ := h.head
      have hne := ne_of_begins_number hc
      exact ⟨c, s, hcs, hne.1, hne.2.1⟩
  | _ => exact ⟨_, _, rfl, by decide, by decide⟩

/-- **Any value is passed over**, however it is nested and whatever stands behind it. -/
theorem reads_skipNested (depth : Nat) : Reads (skipNested depth) (IsValueWithin depth) := by
  refine ⟨fun h => h.1.head, ?_⟩
  induction depth with
  | zero => exact fun h => absurd h.2 (Nat.not_lt_zero _)
  | succ depth ih =>
      rintro cs u spaces rest ⟨h, hdepth⟩ hspaces hrest
      have hreads : Reads (skipNested depth) (IsValueWithin depth) := ⟨fun h => h.1.head, ih⟩
      have hskip : skipSpace (spaces ++ (cs ++ rest)) = cs ++ rest := by
        obtain ⟨c, s, rfl, hspace, -⟩ := h.head
        exact skipSpace_append_cons hspaces hspace
      rw [skipNested, hskip]
      cases h with
      | null => rfl
      | yes => rfl
      | no => rfl
      | @number cs x h =>
          have hread : skipNumber (cs ++ rest) = .ok rest := by
            rw [skipNumber, numeral_append h hrest]
            rfl
          obtain ⟨c, s, rfl, hc⟩ := h.head
          obtain ⟨-, -, hn, ht, hf, hquote, hbracket, hbrace⟩ := ne_of_begins_number hc
          rw [List.cons_append] at hread ⊢
          simp only [if_neg hn, if_neg ht, if_neg hf, if_neg hquote, if_neg hbracket,
            if_neg hbrace, if_pos hc, hread]
          rfl
      | text h => simp [skipCharacters_pieces h, Except.map]
      | noItems h => simp [items_end h, Except.map]
      | items h =>
          simp only [List.length_cons, List.length_append] at hdepth
          simp [skip_items hreads h (by omega), Except.map]
      | noMembers h => simp [skip_noMembers h]
      | members h =>
          simp only [List.length_cons, List.length_append] at hdepth
          simp [skip_members hreads h (by omega)]

theorem reads_skipValue : Reads skipValue IsValue := by
  refine ⟨fun h => h.head, ?_⟩
  intro cs u spaces rest h hspaces hrest
  refine (reads_skipNested _).read ⟨h, ?_⟩ hspaces hrest
  simp only [List.length_append]
  omega

end TensorText.Json

/-
JSON as it is read.

What the grammar allows is read, and nothing behind it is touched.  For a text this needs no
condition, as a quote ends it.  A number goes on as long as it can, so what stands behind it must
not look like more of it (`Ends`); around the values of an array and the members of an object this
takes care of itself.

`Tree.read` reads any JSON as its tree.  It goes down as far as the text is long, which is
farther than the text can be nested.  As it reads every text that `Spells` allows and comes to one
result, no text stands for two trees.
-/
import TensorText.Proofs.Json.Grammar

namespace TensorText.Json

open Grammar

/-! ### White space -/

theorem skipSpace_append {spaces rest : List Char} (h : IsSpaces spaces)
    (hrest : Halts (fun c => isSpace c = true) rest) : skipSpace (spaces ++ rest) = rest :=
  Scan.dropWhile_run h hrest

theorem skipSpace_append_cons {spaces rest : List Char} {c : Char} (h : IsSpaces spaces)
    (hc : isSpace c = false) : skipSpace (spaces ++ c :: rest) = c :: rest :=
  skipSpace_append h (halts_cons.mpr (by rw [hc]; decide))

theorem expectMark_append (mark : Char) {spaces rest : List Char} (h : IsSpaces spaces)
    (hmark : isSpace mark = false) : expectMark mark (spaces ++ mark :: rest) = .ok rest := by
  rw [expectMark, skipSpace_append_cons h hmark]
  exact if_pos rfl

/-! ### Texts -/

theorem hexCode_append {code : List Char} {n : Nat} (h : IsCode code n) (rest : List Char) :
    hexCode (code ++ rest) = .ok (n, rest) := by
  cases h with
  | mk ha hb hc hd => simp only [List.cons_append, List.nil_append, hexCode, ha, hb, hc, hd]

/-- The code of a character is not that of a surrogate. -/
theorem unicodeEscape_code {code : List Char} {c : Char} (h : IsCode code c.toNat)
    (rest : List Char) : unicodeEscape (code ++ rest) = .ok (c, rest) := by
  have hvalid : c.toNat < 0xD800 ∨ 0xDFFF < c.toNat := by
    rcases c.valid with hlow | ⟨hhigh, -⟩
    · exact Or.inl hlow
    · exact Or.inr hhigh
  rw [unicodeEscape, hexCode_append h, ok_bind]
  dsimp only
  rw [if_neg (by omega), if_neg (by omega), Char.ofNat_toNat]
  rfl

theorem lowSurrogate_append {low : List Char} {m : Nat} (h : IsCode low (0xDC00 + m))
    (hm : m < 1024) (rest : List Char) :
    lowSurrogate ('\\' :: 'u' :: (low ++ rest)) = .ok (0xDC00 + m, rest) := by
  simp only [lowSurrogate, hexCode_append h, ok_bind]
  rw [if_pos (by omega)]
  rfl

theorem unicodeEscape_surrogates {high low : List Char} {n m : Nat} {c : Char}
    (hhigh : IsCode high (0xD800 + n)) (hlow : IsCode low (0xDC00 + m)) (hn : n < 1024)
    (hm : m < 1024) (hc : c.toNat = 0x10000 + n * 1024 + m) (rest : List Char) :
    unicodeEscape (high ++ '\\' :: 'u' :: (low ++ rest)) = .ok (c, rest) := by
  have hcode : (0xD800 + n - 0xD800) * 1024 + (0xDC00 + m - 0xDC00) + 0x10000 = c.toNat := by
    omega
  rw [unicodeEscape, hexCode_append hhigh, ok_bind]
  dsimp only
  rw [if_neg (by omega), if_pos (by omega), lowSurrogate_append hlow hm, ok_bind]
  dsimp only
  rw [hcode, Char.ofNat_toNat]
  rfl

theorem escape_letter {l c : Char} (h : letterEscape? l = some c) (rest : List Char) :
    escape (l :: rest) = .ok (c, rest) := by
  have hu : l ≠ 'u' := by
    rintro rfl
    have hnone : letterEscape? 'u' = none := by decide
    rw [hnone] at h
    cases h
  unfold escape
  split
  · rename_i hnil
    cases hnil
  · rename_i hcons
    cases hcons
    exact absurd rfl hu
  · rename_i hcons
    cases hcons
    rw [h]

theorem characters_escape {s rest : List Char} {c : Char} (h : escape s = .ok (c, rest)) :
    characters ('\\' :: s) = (characters rest).map fun p => (c :: p.1, p.2) := by
  rw [characters, if_neg (by decide), if_pos rfl]
  split
  · rename_i fault hfault
    rw [h] at hfault
    cases hfault
  · rename_i d s' hd
    rw [h] at hd
    cases hd
    rfl

/-- A character is read as it is written. -/
theorem characters_piece {piece : List Char} {c : Char} (h : IsCharacter piece c)
    (rest : List Char) :
    characters (piece ++ rest) = (characters rest).map fun p => (c :: p.1, p.2) := by
  cases h with
  | plain hcontrol hquote hbackslash =>
      rw [List.singleton_append, characters, if_neg hquote, if_neg hbackslash,
        if_neg (by omega)]
  | letter h => exact characters_escape (escape_letter h rest)
  | code h => exact characters_escape (unicodeEscape_code h rest)
  | surrogates hhigh hlow hn hm hc =>
      rw [List.cons_append, List.cons_append, List.append_assoc]
      exact characters_escape (unicodeEscape_surrogates hhigh hlow hn hm hc rest)

/-- **A text is read up to its closing quote, as it is written.** -/
theorem characters_body {body cs : List Char} (h : IsBody body cs) (rest : List Char) :
    characters (body ++ '"' :: rest) = .ok (cs, rest) := by
  induction h with
  | nil =>
      rw [List.nil_append, characters]
      exact if_pos rfl
  | cons hpiece _ ih =>
      rw [List.append_assoc, characters_piece hpiece, ih]
      rfl

/-! ### Numbers -/

/-- What cannot go on with a number. -/
def Ends (rest : List Char) : Prop := Halts IsNumberChar rest

theorem ends_nil : Ends [] := halts_nil _

theorem Ends.halts_digit {rest : List Char} (h : Ends rest) :
    Halts (fun c => c.isDigit = true) rest :=
  fun c hc hdigit => h c hc (.of_isDigit hdigit)

theorem not_isNumberChar_of_isSpace {c : Char} (h : isSpace c = true) : ¬IsNumberChar c := by
  simp only [isSpace, Bool.or_eq_true, beq_iff_eq] at h
  rcases h with ((rfl | rfl) | rfl) | rfl
  · decide
  · decide
  · decide
  · decide

/-- White space ends a number, and so does what stands behind it. -/
theorem ends_append {spaces rest : List Char} (h : IsSpaces spaces) (hrest : Ends rest) :
    Ends (spaces ++ rest) := by
  cases spaces with
  | nil => exact hrest
  | cons c spaces =>
      exact halts_cons.mpr (not_isNumberChar_of_isSpace (h c List.mem_cons_self))

theorem ends_append_cons {spaces rest : List Char} {mark : Char} (h : IsSpaces spaces)
    (hmark : ¬IsNumberChar mark) : Ends (spaces ++ mark :: rest) :=
  ends_append h (halts_cons.mpr hmark)

variable {tooShort : Fault} {rest : List Char}

theorem digitRun_append {ds : List Char} (h : IsDigits ds)
    (hrest : Halts (fun c => c.isDigit = true) rest) :
    digitRun tooShort (ds ++ rest) = .ok (ds, rest) := by
  have htake := Scan.takeWhile_run h.digit hrest
  have hdrop := Scan.dropWhile_run h.digit hrest
  obtain ⟨c, ds, rfl⟩ := List.exists_cons_of_ne_nil h.ne_nil
  rw [List.cons_append] at htake hdrop ⊢
  rw [digitRun, if_pos (h.digit c List.mem_cons_self), htake, hdrop]

theorem wholeDigits_append {whole : List Char} (h : IsWhole whole)
    (hrest : Halts (fun c => c.isDigit = true) rest) :
    wholeDigits tooShort (whole ++ rest) = .ok (whole, rest) := by
  rw [wholeDigits, digitRun_append h.toIsDigits hrest, ok_bind]
  dsimp only
  split
  · exact absurd (h.no_zero _ rfl) (List.cons_ne_nil _ _)
  · rfl

theorem fractionDigits_append {fraction : List Char} {part : Option (List Char)}
    (h : IsFraction fraction part)
    (hrest : Halts (fun c => c.isDigit = true ∨ c = '.') rest) :
    fractionDigits tooShort (fraction ++ rest) = .ok (part, rest) := by
  cases h with
  | none =>
      rw [List.nil_append]
      unfold fractionDigits
      split
      · exact absurd (Or.inr rfl) (halts_cons.mp hrest)
      · rfl
  | some h =>
      rw [List.cons_append, fractionDigits,
        digitRun_append h fun c hc hdigit => hrest c hc (Or.inl hdigit)]
      rfl

/-- The exponent behind its mark. -/
def exponentDigits (tooShort : Fault) (s : List Char) : Except Fault (Option Int × List Char) :=
  (digitRun tooShort (splitSign s).2).map fun p =>
    (some (signed (splitSign s).1 (Decimal.ofDigits p.1)), p.2)

theorem exponentPart_cons {mark : Char} (hmark : mark = 'e' ∨ mark = 'E') (s : List Char) :
    exponentPart tooShort (mark :: s) = exponentDigits tooShort s := by
  simp only [exponentPart, if_pos hmark]
  unfold exponentDigits
  fun_cases splitSign s with
  | case1 s => rfl
  | case2 s => rfl
  | case3 s hminus hplus =>
      split
      · exact absurd rfl (hminus _)
      · exact absurd rfl (hplus _)
      · rfl

theorem exponentPart_append {power : List Char} {e : Option Int} (h : IsPower power e)
    (hrest : Ends rest) : exponentPart tooShort (power ++ rest) = .ok (e, rest) := by
  cases h with
  | none =>
      cases rest with
      | nil => rfl
      | cons c rest =>
          have hmark : ¬(c = 'e' ∨ c = 'E') := by
            rintro (rfl | rfl)
            · exact halts_cons.mp hrest (by decide)
            · exact halts_cons.mp hrest (by decide)
          simp only [List.nil_append, exponentPart, if_neg hmark]
  | some h =>
      cases h with
      | @marked mark negative sign ds hmark hsign hds =>
          rw [List.cons_append, exponentPart_cons hmark, List.append_assoc, exponentDigits,
            splitSign_append hsign (hds.halts_sign_append rest),
            digitRun_append hds hrest.halts_digit]
          rfl

theorem IsPower.halts {power : List Char} {e : Option Int} (h : IsPower power e)
    (hrest : Ends rest) : Halts (fun c => c.isDigit = true ∨ c = '.') (power ++ rest) := by
  cases h with
  | none =>
      intro c hc hbad
      refine hrest c hc ?_
      rcases hbad with hdigit | rfl
      · exact .of_isDigit hdigit
      · decide
  | some h => exact halts_cons.mpr (halts_cons.mp h.halts)

theorem IsFraction.halts {fraction cs : List Char} {part : Option (List Char)}
    (h : IsFraction fraction part) (hcs : Halts (fun c => c.isDigit = true) cs) :
    Halts (fun c => c.isDigit = true) (fraction ++ cs) := by
  cases h with
  | none => exact hcs
  | some h => exact halts_cons.mpr (by decide)

/-- A number whose sign has been read. -/
def unsignedNumeral (tooShort : Fault) (negative : Bool) (s : List Char) :
    Except Fault (Numeral × List Char) := do
  let (whole, s) ← wholeDigits tooShort s
  let (fraction, s) ← fractionDigits tooShort s
  let (exponent, s) ← exponentPart tooShort s
  return (⟨negative, whole, fraction, exponent⟩, s)

theorem numeral_minus (negative : Bool) {s : List Char} (h : Halts (fun c => c = '-') s) :
    numeral tooShort (minus negative ++ s) = unsignedNumeral tooShort negative s := by
  cases negative with
  | true => rfl
  | false =>
      have hs : minus false ++ s = s := rfl
      rw [hs]
      unfold numeral
      split
      rename_i negative s' hsplit
      split at hsplit
      · exact (halts_cons.mp h rfl).elim
      · cases hsplit
        rfl

/-- **A number is read as it is written, unless what follows looks like more of it.** -/
theorem numeral_append {cs : List Char} {x : Numeral} (h : x.IsSpelt cs) (hrest : Ends rest) :
    numeral tooShort (cs ++ rest) = .ok (x, rest) := by
  cases h with
  | @mk negative whole fraction power part e hwhole hfraction hpower =>
      have hstop := hpower.halts hrest
      have hdigit : Halts (fun c => c.isDigit = true) (power ++ rest) :=
        fun c hc h => hstop c hc (Or.inl h)
      have hhead : Halts (fun c => c = '-') (whole ++ (fraction ++ (power ++ rest))) :=
        fun c hc h => hwhole.toIsDigits.halts_sign_append _ c hc (Or.inl h)
      simp only [List.append_assoc]
      rw [numeral_minus negative hhead]
      simp only [unsignedNumeral, wholeDigits_append hwhole (hfraction.halts hdigit),
        fractionDigits_append hfraction hstop, exponentPart_append hpower hrest, ok_bind]
      rfl

/-! ### Arrays and objects -/

section Parts

variable {α : Type} {P Q : List Char → α → Prop} {cs : List Char} {as : List α}

/-- Parts may be made into something else, and what holds of them may use that they are no longer
than the whole. -/
theorem Parted.map_of_length {β : Type} {R : List Char → β → Prop} (f : α → β)
    (hparted : Parted P cs as) {n : Nat} (hn : cs.length ≤ n)
    (h : ∀ s a, P s a → s.length ≤ n → R s (f a)) : Parted R cs (as.map f) := by
  induction hparted with
  | one hbefore ha hafter =>
      simp only [List.length_append] at hn
      exact .one hbefore (h _ _ ha (by omega)) hafter
  | cons hbefore ha hafter _ ih =>
      simp only [List.length_append, List.length_cons] at hn
      exact .cons hbefore (h _ _ ha (by omega)) hafter (ih (by omega))

theorem Parted.imp_of_length (hparted : Parted P cs as) {n : Nat} (hn : cs.length ≤ n)
    (h : ∀ s a, P s a → s.length ≤ n → Q s a) : Parted Q cs as := by
  have hmap := hparted.map_of_length id hn h
  rwa [List.map_id] at hmap

theorem Member.imp_of_length {m : String × α} (hmember : Member P cs m)
    (h : ∀ s a, P s a → s.length ≤ cs.length → Q s a) : Member Q cs m := by
  cases hmember with
  | mk hkey hbefore hafter ha =>
      refine .mk hkey hbefore hafter (h _ _ ha ?_)
      simp only [List.length_append, List.length_cons]
      omega

theorem Parted.length_le (hparted : Parted P cs as) : as.length ≤ cs.length + 1 := by
  induction hparted with
  | one _ _ _ =>
      rw [List.length_singleton]
      omega
  | cons _ _ _ _ ih =>
      simp only [List.length_append, List.length_cons]
      omega

/-- A decoder reads what the relation allows, and can see where it begins. -/
structure Reads (item : Decoder α) (P : List Char → α → Prop) : Prop where
  head : ∀ {cs a}, P cs a → ∃ c s, cs = c :: s ∧ isSpace c = false ∧ c ≠ ']'
  read : ∀ {cs a spaces rest}, P cs a → IsSpaces spaces → Ends rest →
    item (spaces ++ (cs ++ rest)) = .ok (a, rest)

/-- What stands between a bracket or a part and the next part. -/
inductive IsLead : Bool → List Char → Prop
  | start : IsLead true []
  | comma {spaces : List Char} (h : IsSpaces spaces) : IsLead false (spaces ++ [','])

theorem nextItem_lead {first : Bool} {lead before s : List Char} {c : Char}
    (hlead : IsLead first lead) (hbefore : IsSpaces before) (hspace : isSpace c = false)
    (hc : c ≠ ']') : nextItem first (lead ++ (before ++ c :: s)) = .ok (some (c :: s)) := by
  have hskip : skipSpace (before ++ c :: s) = c :: s := skipSpace_append_cons hbefore hspace
  cases hlead with
  | start =>
      rw [List.nil_append, nextItem, hskip]
      simp [hc]
  | comma h =>
      rw [List.append_assoc, List.singleton_append, nextItem,
        skipSpace_append_cons h (by decide)]
      simp [hskip, hc]

theorem nextItem_end {first : Bool} {spaces : List Char} (h : IsSpaces spaces) :
    nextItem first (spaces ++ ']' :: rest) = .ok none := by
  rw [nextItem, skipSpace_append_cons h (by decide)]
  exact if_pos rfl

theorem items_end {item : Decoder α} {fuel : Nat} {first : Bool} {spaces : List Char}
    (h : IsSpaces spaces) :
    items item (fuel + 1) first (spaces ++ ']' :: rest) = .ok ([], rest) := by
  rw [items, nextItem_end h, ok_bind, expectMark_append ']' h (by decide), ok_bind]
  rfl

/-- One value is read, and then those behind it. -/
theorem items_item {item : Decoder α} (hitem : Reads item P) {fuel : Nat} {first : Bool}
    {lead before s : List Char} {a : α} (hlead : IsLead first lead) (hbefore : IsSpaces before)
    (ha : P cs a) (hs : Ends s) :
    items item (fuel + 1) first (lead ++ (before ++ (cs ++ s))) =
      (items item fuel false s).map fun p => (a :: p.1, p.2) := by
  have hnext : nextItem first (lead ++ (before ++ (cs ++ s))) = .ok (some (cs ++ s)) := by
    obtain ⟨c, cs, rfl, hspace, hc⟩ := hitem.head ha
    exact nextItem_lead hlead hbefore hspace hc
  have hread := hitem.read ha isSpaces_nil hs
  rw [List.nil_append] at hread
  rw [items, hnext]
  simp only [ok_bind, hread]
  cases items item fuel false s <;> rfl

/-- **The values of an array are read one after another, up to its bracket.** -/
theorem items_parted {item : Decoder α} (hitem : Reads item P) (hparted : Parted P cs as)
    {fuel : Nat} (hfuel : as.length < fuel) {first : Bool} {lead : List Char}
    (hlead : IsLead first lead) :
    items item fuel first (lead ++ (cs ++ ']' :: rest)) = .ok (as, rest) := by
  induction hparted generalizing fuel first lead with
  | one hbefore ha hafter =>
      rw [List.length_singleton] at hfuel
      obtain ⟨fuel, rfl⟩ : ∃ n, fuel = n + 1 + 1 := ⟨fuel - 2, by omega⟩
      simp only [List.append_assoc]
      rw [items_item hitem hlead hbefore ha (ends_append_cons hafter (by decide)),
        items_end hafter]
      rfl
  | cons hbefore ha hafter _ ih =>
      rw [List.length_cons] at hfuel
      obtain ⟨fuel, rfl⟩ : ∃ n, fuel = n + 1 := ⟨fuel - 1, by omega⟩
      have hrest := @ih fuel (by omega) false _ (.comma hafter)
      simp only [List.append_assoc, List.singleton_append] at hrest
      simp only [List.append_assoc, List.cons_append]
      rw [items_item hitem hlead hbefore ha (ends_append_cons hafter (by decide)), hrest]
      rfl

theorem nextKey_lead {first : Bool} {lead before s : List Char} (hlead : IsLead first lead)
    (hbefore : IsSpaces before) : nextKey first (lead ++ (before ++ '"' :: s)) = .ok (some s) := by
  have hskip : skipSpace (before ++ '"' :: s) = '"' :: s :=
    skipSpace_append_cons hbefore (by decide)
  cases hlead with
  | start =>
      rw [List.nil_append, nextKey, hskip]
      simp
  | comma h =>
      rw [List.append_assoc, List.singleton_append, nextKey, skipSpace_append_cons h (by decide)]
      simp [hskip]

theorem nextKey_end {first : Bool} {spaces : List Char} (h : IsSpaces spaces) :
    nextKey first (spaces ++ '}' :: rest) = .ok none := by
  rw [nextKey, skipSpace_append_cons h (by decide)]
  exact if_pos rfl

/-- The members of an object after its opening brace, given enough fuel for their number. -/
def members (value : Decoder α) : (fuel : Nat) → (first : Bool) → Decoder (List (String × α))
  | 0, _, _ => .error .malformed
  | fuel + 1, first, s => do
    match ← nextKey first s with
    | none => return ([], ← expectMark '}' s)
    | some s =>
      let (key, s) ← characters s
      let (a, s) ← value (← expectMark ':' s)
      let (ms, s) ← members value fuel false s
      return ((String.ofList key, a) :: ms, s)

theorem members_end {value : Decoder α} {fuel : Nat} {first : Bool} {spaces : List Char}
    (h : IsSpaces spaces) :
    members value (fuel + 1) first (spaces ++ '}' :: rest) = .ok ([], rest) := by
  rw [members, nextKey_end h, ok_bind, expectMark_append '}' h (by decide), ok_bind]
  rfl

/-- One member is read, and then those behind it. -/
theorem members_member {value : Decoder α} (hvalue : Reads value P) {fuel : Nat} {first : Bool}
    {lead before s : List Char} {m : String × α} (hlead : IsLead first lead)
    (hbefore : IsSpaces before) (hmember : Member P cs m) (hs : Ends s) :
    members value (fuel + 1) first (lead ++ (before ++ (cs ++ s))) =
      (members value fuel false s).map fun p => (m :: p.1, p.2) := by
  cases hmember with
  | @mk key body spaces after cs a hkey hspaces hafter ha =>
      simp only [List.cons_append, List.append_assoc]
      rw [members, nextKey_lead hlead hbefore]
      simp only [ok_bind, characters_body hkey, expectMark_append ':' hspaces (by decide),
        hvalue.read ha hafter hs, String.ofList_toList]
      cases members value fuel false s <;> rfl

/-- **The members of an object are read one after another, up to its brace.** -/
theorem members_parted {value : Decoder α} (hvalue : Reads value P) {ms : List (String × α)}
    (hparted : Parted (Member P) cs ms) {fuel : Nat} (hfuel : ms.length < fuel) {first : Bool}
    {lead : List Char} (hlead : IsLead first lead) :
    members value fuel first (lead ++ (cs ++ '}' :: rest)) = .ok (ms, rest) := by
  induction hparted generalizing fuel first lead with
  | one hbefore hm hafter =>
      rw [List.length_singleton] at hfuel
      obtain ⟨fuel, rfl⟩ : ∃ n, fuel = n + 1 + 1 := ⟨fuel - 2, by omega⟩
      simp only [List.append_assoc]
      rw [members_member hvalue hlead hbefore hm (ends_append_cons hafter (by decide)),
        members_end hafter]
      rfl
  | cons hbefore hm hafter _ ih =>
      rw [List.length_cons] at hfuel
      obtain ⟨fuel, rfl⟩ : ∃ n, fuel = n + 1 := ⟨fuel - 1, by omega⟩
      have hrest := @ih fuel (by omega) false _ (.comma hafter)
      simp only [List.append_assoc, List.singleton_append] at hrest
      simp only [List.append_assoc, List.cons_append]
      rw [members_member hvalue hlead hbefore hm (ends_append_cons hafter (by decide)), hrest]
      rfl

end Parts

/-! ### Values -/

/-- Reads any value that is nested no deeper than `depth`. -/
def Tree.readNested : (depth : Nat) → Decoder Tree
  | 0, _ => .error .malformed
  | depth + 1, s =>
    match skipSpace s with
    | [] => .error .truncated
    | c :: s =>
      if c = 'n' then (expectWord ['u', 'l', 'l'] s).map (.null, ·)
      else if c = 't' then (expectWord ['r', 'u', 'e'] s).map (.bool true, ·)
      else if c = 'f' then (expectWord ['a', 'l', 's', 'e'] s).map (.bool false, ·)
      else if c = '"' then (characters s).map fun p => (.text (String.ofList p.1), p.2)
      else if c = '[' then
        (items (Tree.readNested depth) (s.length + 1) true s).map fun p => (.array p.1, p.2)
      else if c = '{' then
        (members (Tree.readNested depth) (s.length + 1) true s).map fun p => (.object p.1, p.2)
      else (numeral .malformed (c :: s)).map fun p => (.number p.1, p.2)

/-- Reads any value. -/
def Tree.read : Decoder Tree := fun s => Tree.readNested (s.length + 1) s

/-- A number begins with a minus or a digit. -/
theorem Numeral.IsSpelt.head {cs : List Char} {x : Numeral} (h : x.IsSpelt cs) :
    ∃ c s, cs = c :: s ∧ (c = '-' ∨ c.isDigit = true) := by
  cases h with
  | @mk negative whole fraction power part e hwhole hfraction hpower =>
      obtain ⟨c, ds, rfl⟩ := List.exists_cons_of_ne_nil hwhole.ne_nil
      cases negative with
      | true => exact ⟨'-', _, rfl, Or.inl rfl⟩
      | false => exact ⟨c, _, rfl, Or.inr (hwhole.digit c List.mem_cons_self)⟩

/-- What begins a number begins nothing else. -/
theorem ne_of_begins_number {c : Char} (h : c = '-' ∨ c.isDigit = true) :
    isSpace c = false ∧ c ≠ ']' ∧ c ≠ 'n' ∧ c ≠ 't' ∧ c ≠ 'f' ∧ c ≠ '"' ∧ c ≠ '[' ∧ c ≠ '{' := by
  have hspace : isSpace c = false := by
    rw [Bool.eq_false_iff]
    intro hspace
    refine not_isNumberChar_of_isSpace hspace ?_
    rcases h with rfl | hdigit
    · decide
    · exact .of_isDigit hdigit
  refine ⟨hspace, ?_, ?_, ?_, ?_, ?_, ?_, ?_⟩ <;>
  · rintro rfl
    revert h
    decide

/-- A value begins with a character that is neither white space nor a closing bracket. -/
theorem Spells.head {cs : List Char} {t : Tree} (h : Spells cs t) :
    ∃ c s, cs = c :: s ∧ isSpace c = false ∧ c ≠ ']' := by
  cases h with
  | number h =>
      obtain ⟨c, s, hcs, hc⟩ := h.head
      have hne := ne_of_begins_number hc
      exact ⟨c, s, hcs, hne.1, hne.2.1⟩
  | _ => exact ⟨_, _, rfl, by decide, by decide⟩

section Nested

/-- What is spelt by fewer than so many characters. -/
def SpellsWithin (depth : Nat) (cs : List Char) (t : Tree) : Prop :=
  Spells cs t ∧ cs.length < depth

variable {depth fuel : Nat} {body : List Char}

theorem items_body (hreads : Reads (Tree.readNested depth) (SpellsWithin depth)) {ts : List Tree}
    (h : Parted Spells body ts) (hdepth : body.length < depth) (hfuel : body.length + 1 < fuel) :
    items (Tree.readNested depth) fuel true (body ++ ']' :: rest) = .ok (ts, rest) := by
  have hbody : Parted (SpellsWithin depth) body ts :=
    h.imp_of_length (Nat.le_refl _) fun s a ha hs => ⟨ha, by omega⟩
  have hlength := h.length_le
  exact items_parted hreads hbody (by omega) .start

theorem members_body (hreads : Reads (Tree.readNested depth) (SpellsWithin depth))
    {ms : List (String × Tree)} (h : Parted (Member Spells) body ms) (hdepth : body.length < depth)
    (hfuel : body.length + 1 < fuel) :
    members (Tree.readNested depth) fuel true (body ++ '}' :: rest) = .ok (ms, rest) := by
  have hbody : Parted (Member (SpellsWithin depth)) body ms :=
    h.imp_of_length (Nat.le_refl _) fun s m hm hs =>
      hm.imp_of_length fun s' a ha hs' => ⟨ha, by omega⟩
  have hlength := h.length_le
  exact members_parted hreads hbody (by omega) .start

/-- **Any value is read as its tree**, however it is nested and whatever stands behind it. -/
theorem reads_readNested (depth : Nat) : Reads (Tree.readNested depth) (SpellsWithin depth) := by
  refine ⟨fun h => h.1.head, ?_⟩
  induction depth with
  | zero => exact fun h => absurd h.2 (Nat.not_lt_zero _)
  | succ depth ih =>
      rintro cs t spaces rest ⟨h, hdepth⟩ hspaces hrest
      have hreads : Reads (Tree.readNested depth) (SpellsWithin depth) := ⟨fun h => h.1.head, ih⟩
      have hskip : skipSpace (spaces ++ (cs ++ rest)) = cs ++ rest := by
        obtain ⟨c, s, rfl, hspace, -⟩ := h.head
        exact skipSpace_append_cons hspaces hspace
      rw [Tree.readNested, hskip]
      cases h with
      | null => rfl
      | yes => rfl
      | no => rfl
      | @number cs x h =>
          have hread : numeral .malformed (cs ++ rest) = .ok (x, rest) := numeral_append h hrest
          obtain ⟨c, s, rfl, hc⟩ := h.head
          obtain ⟨-, -, hn, ht, hf, hquote, hbracket, hbrace⟩ := ne_of_begins_number hc
          rw [List.cons_append] at hread ⊢
          simp only [if_neg hn, if_neg ht, if_neg hf, if_neg hquote, if_neg hbracket,
            if_neg hbrace, hread]
          rfl
      | text h => simp [characters_body h, Except.map]
      | noItems h => simp [items_end h, Except.map]
      | items h =>
          simp only [List.length_cons, List.length_append] at hdepth
          simp [items_body hreads h (by omega), Except.map]
      | noMembers h => simp [members_end h, Except.map]
      | members h =>
          simp only [List.length_cons, List.length_append] at hdepth
          simp [members_body hreads h (by omega), Except.map]

end Nested

/-- **A text is no more than one document.** -/
theorem IsDocument.unique {cs : List Char} {t t' : Tree} (h : IsDocument cs t)
    (h' : IsDocument cs t') : t = t' := by
  have hread : ∀ {cs t}, IsDocument cs t → ∃ rest, Tree.read cs = .ok (t, rest) := by
    intro cs t h
    cases h with
    | mk hbefore h hafter =>
        have hends := ends_append hafter ends_nil
        rw [List.append_nil] at hends
        refine ⟨_, (reads_readNested _).read ⟨h, ?_⟩ hbefore hends⟩
        simp only [List.length_append]
        omega
  obtain ⟨rest, hrest⟩ := hread h
  obtain ⟨rest', hrest'⟩ := hread h'
  rw [hrest] at hrest'
  cases hrest'
  rfl

end TensorText.Json

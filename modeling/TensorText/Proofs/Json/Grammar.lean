/-
JSON as it is written.

`Spells` says which texts are JSON and which tree each of them stands for, without saying how it is
found.  White space may stand around every part.  A character of a text stands for itself, or is
written with a backslash: as a letter, as its code, or as the codes of two surrogates.  A number has
digits in front of its point, and no zero in front of these.

Arrays and objects are both `Parted` by commas, and `Parted` does not know what it parts: values in
one, keys with their values in the other.  So what is proved of it by induction is proved of both.
-/
import TensorText.Json.Decoder
import TensorText.Proofs.Numerals

namespace TensorText.Json

open Grammar

/-! ### Trees -/

/-- What JSON says.  Numbers are as they are written, and members are in the order they are written
in, repeated keys and all. -/
inductive Tree
  | null
  | bool (b : Bool)
  | number (x : Numeral)
  | text (s : String)
  | array (ts : List Tree)
  | object (members : List (String × Tree))

/-! ### Texts -/

/-- White space and nothing else. -/
def IsSpaces (cs : List Char) : Prop := ∀ c ∈ cs, isSpace c = true

theorem isSpaces_nil : IsSpaces [] := by
  intro c hc
  cases hc

/-- Four hexadecimal digits with this value. -/
inductive IsCode : List Char → Nat → Prop
  | mk {a b c d : Char} {i j k l : Nat} (ha : hexDigit? a = some i) (hb : hexDigit? b = some j)
      (hc : hexDigit? c = some k) (hd : hexDigit? d = some l) :
      IsCode [a, b, c, d] (((i * 16 + j) * 16 + k) * 16 + l)

/-- How one character of a text is written. -/
inductive IsCharacter : List Char → Char → Prop
  | plain {c : Char} (hcontrol : 32 ≤ c.toNat) (hquote : c ≠ '"') (hescape : c ≠ '\\') :
      IsCharacter [c] c
  | letter {l c : Char} (h : letterEscape? l = some c) : IsCharacter ['\\', l] c
  | code {code : List Char} {c : Char} (h : IsCode code c.toNat) :
      IsCharacter ('\\' :: 'u' :: code) c
  | surrogates {high low : List Char} {n m : Nat} {c : Char} (hhigh : IsCode high (0xD800 + n))
      (hlow : IsCode low (0xDC00 + m)) (hn : n < 1024) (hm : m < 1024)
      (hc : c.toNat = 0x10000 + n * 1024 + m) :
      IsCharacter ('\\' :: 'u' :: (high ++ '\\' :: 'u' :: low)) c

/-- How a text is written between its quotes. -/
inductive IsBody : List Char → List Char → Prop
  | nil : IsBody [] []
  | cons {piece body cs : List Char} {c : Char} (hpiece : IsCharacter piece c)
      (hbody : IsBody body cs) : IsBody (piece ++ body) (c :: cs)

/-! ### Numbers -/

/-- The minus in front of a number, if there is one. -/
def minus (negative : Bool) : List Char := if negative then ['-'] else []

/-- The digits behind a point, if there is one. -/
inductive IsFraction : List Char → Option (List Char) → Prop
  | none : IsFraction [] none
  | some {ds : List Char} (h : IsDigits ds) : IsFraction ('.' :: ds) (some ds)

/-- The exponent behind its mark, if there is one. -/
inductive IsPower : List Char → Option Int → Prop
  | none : IsPower [] none
  | some {mark : Char} {power : List Char} {e : Int} (h : Literal.IsExponent e (mark :: power)) :
      IsPower (mark :: power) (some e)

/-- The digits of a whole number, with no zero in front of others. -/
structure IsWhole (ds : List Char) : Prop extends IsDigits ds where
  no_zero : ∀ rest, ds = '0' :: rest → rest = []

/-- The text is the number. -/
inductive Numeral.IsSpelt : List Char → Numeral → Prop
  | mk {negative : Bool} {whole fraction power : List Char} {part : Option (List Char)}
      {e : Option Int} (hwhole : IsWhole whole) (hfraction : IsFraction fraction part)
      (hpower : IsPower power e) :
      IsSpelt (minus negative ++ (whole ++ (fraction ++ power))) ⟨negative, whole, part, e⟩

/-! ### Values -/

section Parts

variable {α : Type}

/-- At least one thing, parted by commas and with white space around each. -/
inductive Parted (P : List Char → α → Prop) : List Char → List α → Prop
  | one {before cs after : List Char} {a : α} (hbefore : IsSpaces before) (h : P cs a)
      (hafter : IsSpaces after) : Parted P (before ++ (cs ++ after)) [a]
  | cons {before cs after rest : List Char} {a : α} {as : List α} (hbefore : IsSpaces before)
      (h : P cs a) (hafter : IsSpaces after) (hrest : Parted P rest as) :
      Parted P (before ++ (cs ++ (after ++ ',' :: rest))) (a :: as)

/-- A key and what belongs to it. -/
inductive Member (P : List Char → α → Prop) : List Char → String × α → Prop
  | mk {key : String} {body before after cs : List Char} {a : α} (hkey : IsBody body key.toList)
      (hbefore : IsSpaces before) (hafter : IsSpaces after) (h : P cs a) :
      Member P ('"' :: (body ++ '"' :: (before ++ ':' :: (after ++ cs)))) (key, a)

end Parts

/-- The text is the value, without white space around it. -/
inductive Spells : List Char → Tree → Prop
  | null : Spells ['n', 'u', 'l', 'l'] .null
  | yes : Spells ['t', 'r', 'u', 'e'] (.bool true)
  | no : Spells ['f', 'a', 'l', 's', 'e'] (.bool false)
  | number {cs : List Char} {x : Numeral} (h : x.IsSpelt cs) : Spells cs (.number x)
  | text {body : List Char} {s : String} (h : IsBody body s.toList) :
      Spells ('"' :: (body ++ ['"'])) (.text s)
  | noItems {spaces : List Char} (h : IsSpaces spaces) :
      Spells ('[' :: (spaces ++ [']'])) (.array [])
  | items {body : List Char} {ts : List Tree} (h : Parted Spells body ts) :
      Spells ('[' :: (body ++ [']'])) (.array ts)
  | noMembers {spaces : List Char} (h : IsSpaces spaces) :
      Spells ('{' :: (spaces ++ ['}'])) (.object [])
  | members {body : List Char} {ms : List (String × Tree)} (h : Parted (Member Spells) body ms) :
      Spells ('{' :: (body ++ ['}'])) (.object ms)

/-- The whole text is one value, possibly with white space around it. -/
inductive IsDocument : List Char → Tree → Prop
  | mk {before cs after : List Char} {t : Tree} (hbefore : IsSpaces before) (h : Spells cs t)
      (hafter : IsSpaces after) : IsDocument (before ++ (cs ++ after)) t

end TensorText.Json

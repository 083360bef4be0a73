/-
Reading JSON of a known shape.

A `Decoder` reads one value of the shape it stands for and leaves the rest of the text.
It goes through the text once from left to right, so that the fault it reports is the
first one, be it a fault of the JSON or of the shape.  A record is read from an object,
whatever the order of its fields and whatever else the object holds, or from an array of
exactly its fields in their order.
-/
import TensorText.Json.Number

namespace TensorText.Json

/-- Reads a value off a text and leaves the rest. -/
abbrev Decoder (α : Type) := List Char → Except Fault (α × List Char)

/-! ### Words, and values of the wrong type -/

/-- The text after the letters it has to begin with. -/
def expectWord : List Char → List Char → Except Fault (List Char)
  | [], s => .ok s
  | _ :: _, [] => .error .truncated
  | w :: ws, c :: s => if c = w then expectWord ws s else .error .malformed

/-- The fault of a value that is not of the wanted type: first of all, its own. -/
def wrongType (s : List Char) : Fault :=
  let after {α : Type} (result : Except Fault α) : Fault :=
    match result with
    | .error fault => fault
    | .ok _ => .mismatch
  match s with
  | [] => .malformed
  | c :: rest =>
    if c = 'n' then after (expectWord ['u', 'l', 'l'] rest)
    else if c = 't' then after (expectWord ['r', 'u', 'e'] rest)
    else if c = 'f' then after (expectWord ['a', 'l', 's', 'e'] rest)
    else if c = '"' then after (characters rest)
    else if c = '[' ∨ c = '{' then .mismatch
    else if c = '-' ∨ c.isDigit then after (number (c :: rest))
    else .malformed

/-! ### Arrays and objects -/

/-- Where the next item of an array begins, or nothing at its end. -/
def nextItem (first : Bool) (s : List Char) : Except Fault (Option (List Char)) :=
  match skipSpace s with
  | [] => .error .truncated
  | c :: s =>
    if c = ']' then .ok none
    else if first then .ok (some (c :: s))
    else if c = ',' then
      match skipSpace s with
      | [] => .error .truncated
      | d :: s => if d = ']' then .error .malformed else .ok (some (d :: s))
    else .error .malformed

/-- Where the key of the next member begins, inside its quotes, or nothing at the end of
the object. -/
def nextKey (first : Bool) (s : List Char) : Except Fault (Option (List Char)) :=
  match skipSpace s with
  | [] => .error .truncated
  | c :: s =>
    if c = '}' then .ok none
    else if first then
      if c = '"' then .ok (some s) else .error .malformed
    else if c = ',' then
      match skipSpace s with
      | [] => .error .truncated
      | d :: s => if d = '"' then .ok (some s) else .error .malformed
    else .error .malformed

/-- The text after a character that may have white space before it. -/
def expectMark (mark : Char) (s : List Char) : Except Fault (List Char) :=
  match skipSpace s with
  | [] => .error .truncated
  | c :: s => if c = mark then .ok s else .error .malformed

/-- The items of an array after its opening bracket, given enough fuel for their number. -/
def items {α : Type} (item : Decoder α) : (fuel : Nat) → (first : Bool) → Decoder (List α)
  | 0, _, _ => .error .malformed
  | fuel + 1, first, s => do
    match ← nextItem first s with
    | none => return ([], ← expectMark ']' s)
    | some s =>
      let (a, s) ← item s
      let (as, s) ← items item fuel false s
      return (a :: as, s)

/-- Passes over the members of an object after its opening brace. -/
def skipMembers (value : Decoder Unit) : (fuel : Nat) → (first : Bool) → Decoder Unit
  | 0, _, _ => .error .malformed
  | fuel + 1, first, s => do
    match ← nextKey first s with
    | none => return ((), ← expectMark '}' s)
    | some s =>
      let s ← expectMark ':' (← skipCharacters s)
      let (_, s) ← value s
      skipMembers value fuel false s

/-- Passes over any value that is nested no deeper than `depth`. -/
def skipNested : (depth : Nat) → Decoder Unit
  | 0, _ => .error .malformed
  | depth + 1, s =>
    match skipSpace s with
    | [] => .error .truncated
    | c :: s =>
      if c = 'n' then (expectWord ['u', 'l', 'l'] s).map ((), ·)
      else if c = 't' then (expectWord ['r', 'u', 'e'] s).map ((), ·)
      else if c = 'f' then (expectWord ['a', 'l', 's', 'e'] s).map ((), ·)
      else if c = '"' then (skipCharacters s).map ((), ·)
      else if c = '[' then (items (skipNested depth) (s.length + 1) true s).map fun p => ((), p.2)
      else if c = '{' then skipMembers (skipNested depth) (s.length + 1) true s
      else if c = '-' ∨ c.isDigit then (skipNumber (c :: s)).map ((), ·)
      else .error .malformed

/-- Passes over any value. -/
def skipValue : Decoder Unit := fun s => skipNested (s.length + 1) s

/-! ### The shapes -/

/-- A text. -/
def text : Decoder String := fun s =>
  match skipSpace s with
  | [] => .error .truncated
  | c :: s =>
    if c = '"' then (characters s).map fun p => (String.ofList p.1, p.2)
    else .error (wrongType (c :: s))

/-- A whole number below a bound. -/
def natural (bound : Nat) : Decoder Nat := fun s =>
  match skipSpace s with
  | [] => .error .truncated
  | c :: s =>
    if c = '-' ∨ c.isDigit then do
      match ← number (c :: s) with
      | (some n, s) => if n < bound then return (n, s) else throw .mismatch
      | (none, _) => throw .mismatch
    else .error (wrongType (c :: s))

/-- A list of values of one shape. -/
def list {α : Type} (item : Decoder α) : Decoder (List α) := fun s =>
  match skipSpace s with
  | [] => .error .truncated
  | c :: s =>
    if c = '[' then items item (s.length + 1) true s else .error (wrongType (c :: s))

/-- A field of a record: its key, and how its value is read into a record that is being
put together. -/
structure Field (σ : Type) where
  key : String
  /-- Whether the record has a value for the field already. -/
  isSet : σ → Bool
  /-- Reads a value for the field. -/
  read : σ → Decoder σ

/-- The fields of a record in their order, after the opening bracket of an array. -/
def fieldsInOrder {σ : Type} : List (Field σ) → (first : Bool) → σ → Decoder σ
  | [], _, record, s => (expectMark ']' s).map (record, ·)
  | field :: fields, first, record, s => do
    match ← nextItem first s with
    | none => throw .mismatch
    | some s =>
      let (record, s) ← field.read record s
      fieldsInOrder fields false record s

/-- The fields of a record in any order, after the opening brace of an object. -/
def fieldsByKey {σ : Type} (fields : List (Field σ)) :
    (fuel : Nat) → (first : Bool) → σ → Decoder σ
  | 0, _, _, _ => .error .malformed
  | fuel + 1, first, record, s => do
    match ← nextKey first s with
    | none => return (record, s)
    | some s =>
      let (key, s) ← characters s
      match fields.find? fun f => f.key == String.ofList key with
      | none =>
        let (_, s) ← skipValue (← expectMark ':' s)
        fieldsByKey fields fuel false record s
      | some field =>
        if field.isSet record then throw .mismatch
        else
          let (record, s) ← field.read record (← expectMark ':' s)
          fieldsByKey fields fuel false record s

/-- A record: `empty` is the record without any field set, and `finish` is what it makes
when all of them are. -/
def record {σ α : Type} (fields : List (Field σ)) (empty : σ) (finish : σ → Option α) :
    Decoder α := fun s =>
  match skipSpace s with
  | [] => .error .truncated
  | c :: s =>
    if c = '[' then do
      let (record, s) ← fieldsInOrder fields true empty s
      match finish record with
      | some a => return (a, s)
      | none => throw .mismatch
    else if c = '{' then do
      let (record, s) ← fieldsByKey fields (s.length + 1) true empty s
      match finish record with
      | some a => return (a, ← expectMark '}' s)
      | none => throw .mismatch
    else .error (wrongType (c :: s))

/-- Reads a whole text as one value with nothing after it. -/
def decode {α : Type} (decoder : Decoder α) (source : String) : Except Fault α := do
  let (a, s) ← decoder source.toList
  if skipSpace s = [] then return a else throw .malformed

end TensorText.Json

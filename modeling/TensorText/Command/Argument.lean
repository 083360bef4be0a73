/-
Tensors spelt on a command line, as `NAME:DIMS:VALUES`.

The last two colons part the three sections, so a name may hold colons of its own.
Dimensions and values are lists with commas; white space around an item does not count,
and a section with nothing else in it is the empty list.
-/
import TensorText.Decimal.Integer
import TensorText.Tensor
import TensorText.Text.Blank

namespace TensorText.Argument

/-- An item of a list that cannot be read, and why. -/
structure BadItem where
  item : String
  reason : String
deriving DecidableEq

/-- Why an argument is no tensor. -/
inductive Fault
  /-- There are fewer than two colons. -/
  | sections (argument : String)
  | dimensions (argument : String) (bad : BadItem)
  | values (argument : String) (bad : BadItem)
  | tensor (fault : InputFault)
deriving DecidableEq

/-- The fault and its causes in words, outermost first. -/
def Fault.chain : Fault → List String
  | .sections argument => ["expected NAME:DIMS:VALUES, got '" ++ argument ++ "'"]
  | .dimensions argument bad =>
    ["bad dims in '" ++ argument ++ "'", "cannot parse '" ++ bad.item ++ "'", bad.reason]
  | .values argument bad =>
    ["bad values in '" ++ argument ++ "'", "cannot parse '" ++ bad.item ++ "'", bad.reason]
  | .tensor fault => [fault.message]

/-- The parts of a text before and after its last colon. -/
def splitLastColon (cs : List Char) : Option (List Char × List Char) :=
  let after := (cs.reverse.takeWhile fun c => c != ':').reverse
  match cs.reverse.dropWhile fun c => c != ':' with
  | [] => none
  | _ :: before => some (before.reverse, after)

/-- The three sections of an argument. -/
def sections? (cs : List Char) : Option (List Char × List Char × List Char) := do
  let (rest, values) ← splitLastColon cs
  let (name, dimensions) ← splitLastColon rest
  return (name, dimensions, values)

/-- The parts of a text between its commas, at least one. -/
def splitCommas : List Char → List (List Char)
  | [] => [[]]
  | c :: cs =>
    if c = ',' then [] :: splitCommas cs
    else
      match splitCommas cs with
      | [] => [[c]]
      | part :: parts => (c :: part) :: parts

/-- The items of a section. -/
def items (cs : List Char) : List (List Char) :=
  if Text.trim cs = [] then [] else (splitCommas cs).map Text.trim

/-- Reads one item, or says why it cannot be read. -/
def readItem {ε α : Type} (read : List Char → Except ε α) (message : ε → String)
    (item : List Char) : Except BadItem α :=
  (read item).mapError fun fault => ⟨String.ofList item, message fault⟩

/-- The dimensions of a section. -/
def readDimensions (cs : List Char) : Except BadItem (List Int64) :=
  (items cs).mapM (readItem Integer.read Integer.Fault.message)

/-- The values of a section. -/
def readValues (cs : List Char) : Except BadItem (List Binary32) :=
  (items cs).mapM fun item =>
    (readItem Literal.read Literal.Fault.message item).map Binary32.ofLiteral

/-- The tensor that an argument spells. -/
def read (argument : String) : Except Fault Tensor :=
  match sections? argument.toList with
  | none => .error (.sections argument)
  | some (name, dimensions, values) => do
    let shape ← (readDimensions dimensions).mapError (.dimensions argument)
    let values ← (readValues values).mapError (.values argument)
    (Tensor.new (String.ofList name) shape values).mapError .tensor

end TensorText.Argument

/-
What can be wrong with a text of named tensors, and how it is said.

A reading of a text yields at most one `Diagnostic`: a `Cause` and the position of the
character at which reading could not go on.
-/
import TensorText.Position

namespace TensorText

/-- What was wrong at the failing character. -/
inductive Cause
  /-- A character of the layout was due and another one stood there. -/
  | wrongChar (expected actual : Char)
  /-- A character of the layout was due and the text had ended. -/
  | ended (expected : Char)
  /-- A run of base64 characters does not divide into quads. -/
  | raggedRun (run : String)
  /-- A run of base64 characters encodes no byte string. -/
  | badRun (run : String) (reason : String)
  /-- Something other than blanks follows the closing brace, and that was forbidden. -/
  | trailing (actual : Char)
deriving DecidableEq

namespace Cause

/-- The cause in words; the length of a run is counted in bytes. -/
def message : Cause → String
  | .wrongChar expected actual =>
    "Expecting '" ++ expected.toString ++ "'; actual '" ++ actual.toString ++ "'."
  | .ended expected =>
    "Expecting '" ++ expected.toString ++ "'; actual end of input."
  | .raggedRun run =>
    "Base64 string \"" ++ run ++ "\" length is not divisible by 4: " ++
      toString run.utf8ByteSize ++ "."
  | .badRun run reason =>
    "Base64 string \"" ++ run ++ "\" could not be decoded: " ++ reason ++ "."
  | .trailing actual =>
    "Unexpected trailing content after '\x7d': '" ++ actual.toString ++ "'."

/-- Whether the layout of braces, quotes, colons and semicolons is at fault. -/
def concernsLayout : Cause → Bool
  | .wrongChar .. | .ended .. | .trailing .. => true
  | .raggedRun .. | .badRun .. => false

/-- Whether a base64 payload is at fault. -/
def concernsPayload : Cause → Bool
  | .raggedRun .. | .badRun .. => true
  | .wrongChar .. | .ended .. | .trailing .. => false

end Cause

/-- A cause and the place where it was found. -/
structure Diagnostic where
  position : Position
  cause : Cause
deriving DecidableEq

/-- The whole diagnostic in words. -/
def Diagnostic.message (d : Diagnostic) : String :=
  "Error parsing TensorNotation at position (" ++ d.position.text ++ "): " ++ d.cause.message

end TensorText

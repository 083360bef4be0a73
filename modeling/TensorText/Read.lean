/-
Reading a text into a sink, and into a document.

A text ends at its first NUL; what comes before it is the buffer, and an empty buffer is
an acceptable text without tensors.  A failed scan becomes a `Diagnostic` by counting the
lines and columns of the buffer up to the failing character.
-/
import TensorText.Scan

namespace TensorText

/-- How strictly a text is read. -/
structure Options where
  /-- Whether anything but blanks after the closing brace is a failure. -/
  strict : Bool := false
deriving DecidableEq

/-- The part of a text that is read: all of it before its first NUL. -/
def buffer (text : String) : List Char := text.toList.takeWhile fun c => c != '\x00'

/-- The index in a buffer of the character at which a scan of it stopped. -/
def Stop.index (b : List Char) (stop : Stop) : Nat := b.length - stop.rest.length

/-- The diagnostic for a scan of a buffer that stopped. -/
def Stop.diagnostic (b : List Char) (stop : Stop) : Diagnostic :=
  ⟨Position.ofIndex b (stop.index b), stop.cause⟩

/-- Scans a buffer into a sink; an empty buffer holds no tensors. -/
def scanBuffer {σ : Type} [Sink σ] (b : List Char) (sink : σ) (options : Options) :
    Reading Stop σ :=
  if b = [] then ⟨sink, .ok ()⟩ else Scan.document options.strict sink b

/-- Scans a text into a sink.  After a failure the sink holds the tensors before it. -/
def scanText {σ : Type} [Sink σ] (text : String) (sink : σ) (options : Options) :
    Reading Diagnostic σ :=
  let reading := scanBuffer (buffer text) sink options
  ⟨reading.sink, reading.verdict.mapError (Stop.diagnostic (buffer text))⟩

namespace Document

/-- The document that a text spells. -/
def ofText (text : String) (options : Options) : Except Diagnostic Document :=
  let reading := scanText text Document.empty options
  reading.verdict.map fun _ => reading.sink

/-- The document that a text spells, if there is one; no text spells the empty document. -/
def ofOptionalText (text : Option String) (options : Options) : Except Diagnostic Document :=
  match text with
  | none => .ok Document.empty
  | some text => ofText text options

end Document

end TensorText

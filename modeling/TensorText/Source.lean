/-
Bytes that arrive piece by piece.

Whoever reads to the end asks for bytes again and again.  A request that was interrupted
says nothing and is made again; a request that yields no bytes is the end, and so is one
that fails.  What is asked after that is never met.
-/
namespace TensorText

/-- What one request for bytes meets. -/
inductive Attempt
  /-- Some bytes, or none at the end. -/
  | piece (bytes : List UInt8)
  /-- The request has to be made again. -/
  | interrupted
  /-- The request failed, for a reason given in words. -/
  | failed (reason : String)
deriving DecidableEq

namespace Attempt

/-- Whether another request follows. -/
def goesOn : Attempt → Bool
  | .piece bytes => !bytes.isEmpty
  | .interrupted => true
  | .failed _ => false

/-- The bytes that the request yielded. -/
def bytes : Attempt → List UInt8
  | .piece bytes => bytes
  | .interrupted | .failed _ => []

end Attempt

/-- What reading to the end meets: pieces of bytes, and then either the end or a failure,
given in words. -/
structure Source where
  chunks : List (List UInt8)
  failure : Option String

namespace Source

/-- All the bytes, unless reading failed at some point. -/
def contents (s : Source) : Except String (List UInt8) :=
  match s.failure with
  | some reason => .error reason
  | none => .ok s.chunks.flatten

/-- The source that yields these bytes at once. -/
def ofBytes (bytes : List UInt8) : Source := ⟨[bytes], none⟩

/-- What reading to the end meets if its requests meet these, one after another. -/
def ofAttempts : List Attempt → Source
  | [] => ⟨[], none⟩
  | .interrupted :: rest => ofAttempts rest
  | .failed reason :: _ => ⟨[], some reason⟩
  | .piece bytes :: rest =>
    if bytes = [] then ⟨[], none⟩
    else
      let source := ofAttempts rest
      { source with chunks := bytes :: source.chunks }

end Source

end TensorText

/-
Models, as far as a reader of inputs has to know them.

A loaded model tells the names of its inputs and outputs.  It is bound once the output
that it will be asked for has been found among them.
-/
namespace TensorText

/-- The names of a model's inputs and outputs, in the model's order. -/
structure Signature where
  inputs : List String
  outputs : List String
deriving DecidableEq

namespace Signature

/-- Whether the model has an input of this name. -/
def takes (s : Signature) (name : String) : Bool := s.inputs.contains name

/-- The index of the first output of this name. -/
def findOutput? (s : Signature) (name : String) : Option (Fin s.outputs.length) :=
  s.outputs.finIdxOf? name

end Signature

/-- A model and the output it is asked for. -/
structure BoundModel where
  signature : Signature
  /-- The index of the output among the outputs of the model. -/
  index : Fin signature.outputs.length

/-- The name of the output that the model is asked for. -/
def BoundModel.output (m : BoundModel) : String := m.signature.outputs[m.index]

end TensorText

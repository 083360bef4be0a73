/-
Everything that can go wrong for a caller, and how it is reported.

A `Failure` holds the cause itself.  Each belongs to one of seven kinds with a fixed code,
and a text that does not parse is of a kind that nothing else belongs to, so that callers
can tell it from a model that is not ready or not suited.
-/
import TensorText.Diagnostic
import TensorText.Settings
import TensorText.Tensor
import TensorText.Utf8

namespace TensorText

/-- Why a caller's request was not met. -/
inductive Failure
  /-- The text is malformed. -/
  | malformed (d : Diagnostic)
  /-- No model is bound. -/
  | noModel
  /-- A new model lacks the output that it would be asked for. -/
  | noOutput (name : String)
  /-- Reading feature strings is turned off. -/
  | disabled
  /-- The payloads of an entry are no tensor. -/
  | notTensor (fault : InputFault)
  /-- The bytes of a feature string are no text. -/
  | notText (fault : Utf8.Fault)
  /-- The text names an input that the model does not have. -/
  | unknownInput (name : String)
  /-- A setting has a bad value. -/
  | badSetting (fault : SettingFault)
  /-- Reading the bytes failed. -/
  | unreadable (reason : String)
deriving DecidableEq

namespace Failure

/-- The seven kinds of failure. -/
inductive Kind
  /-- A text is malformed. -/
  | text
  /-- There is no model yet. -/
  | noModel
  /-- A model cannot take the place of another. -/
  | update
  /-- A model cannot be given what was asked. -/
  | rank
  /-- What the caller passed is of no use. -/
  | input
  /-- What the host has set is of no use. -/
  | setting
  /-- The system refused to read. -/
  | system
deriving DecidableEq

namespace Kind

/-- The code of a kind, the same for ever. -/
def code : Kind → String
  | .text => "ExtensionError"
  | .noModel => "ModelNotReady"
  | .update => "ModelUpdateError"
  | .rank => "ModelRankError"
  | .input => "InvalidInput"
  | .setting => "ConfigError"
  | .system => "IoError"

/-- A failure of this kind in words, given the detail. -/
def describe (k : Kind) (detail : String) : String :=
  let label := match k with
    | .text => "extension error"
    | .noModel => "model not ready"
    | .update => "model update error"
    | .rank => "model rank error"
    | .input => "invalid input"
    | .setting => "config error"
    | .system => "I/O error"
  label ++ ": " ++ detail

/-- Whether the text was at fault. -/
def concernsText (k : Kind) : Bool := k == .text

/-- Whether the model, or what was asked of it, was at fault. -/
def concernsModel (k : Kind) : Bool := k == .noModel || k == .update || k == .rank

end Kind

/-- The kind that a failure belongs to. -/
def kind : Failure → Kind
  | .malformed _ => .text
  | .noModel => .noModel
  | .noOutput _ => .update
  | .disabled | .notTensor _ => .rank
  | .notText _ | .unknownInput _ => .input
  | .badSetting _ => .setting
  | .unreadable _ => .system

/-- What happened, apart from the kind. -/
def detail : Failure → String
  | .malformed d => "OnnxExtension: Failed to deserialize tensor: " ++ d.message
  | .noModel => "No model loaded."
  | .noOutput name => "Could not find output with name '" ++ name ++ "' in model."
  | .disabled => "Using parse_feature_string=false not implemented."
  | .notTensor fault =>
    "Could not interpret input values to match expected inputs: " ++ fault.message
  | .notText fault => "feature string is not valid UTF-8: " ++ fault.message
  | .unknownInput name => "Model has no input named '" ++ name ++ "'."
  | .badSetting fault => fault.message
  | .unreadable reason => reason

/-- The failure in words. -/
def message (f : Failure) : String := f.kind.describe f.detail

/-- The failure and what caused it, outermost first.  Bytes that cannot be read have a
cause of their own, outside this library; every other failure is its own cause. -/
def chain (f : Failure) : List String :=
  match f with
  | .unreadable reason => [f.message, reason]
  | _ => [f.message]

end Failure

end TensorText

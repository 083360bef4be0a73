/-
The settings of a reader, and the pairs of texts they are read from.

A host hands over all the pairs of texts it has.  Pairs with other keys are passed over,
a later pair overrides an earlier one, and the first bad value of a known key is a fault.
-/
import TensorText.Read
import TensorText.Text.Blank

namespace TensorText

/-- What a reader of feature strings can be told. -/
structure Settings where
  /-- Whether feature strings are read at all. -/
  enabled : Bool
  /-- Whether anything but blanks after the closing brace is a failure. -/
  strict : Bool
  /-- The output that a model is asked for. -/
  output : String
deriving DecidableEq

/-- A single setting with its value. -/
inductive Setting
  | enabled (b : Bool)
  | strict (b : Bool)
  | output (name : String)
deriving DecidableEq

/-- Why a pair of texts is no setting. -/
inductive SettingFault
  /-- A switch that is neither on nor off; the value is trimmed and in lower case. -/
  | notBoolean (key value : String)
  /-- An output without a name. -/
  | emptyName (key : String)
deriving DecidableEq

/-- The fault in words. -/
def SettingFault.message : SettingFault → String
  | .notBoolean key value => key ++ " expects true or false, got '" ++ value ++ "'"
  | .emptyName key => key ++ " must not be empty"

namespace Setting

/-- The key of the switch for reading feature strings. -/
def enabledKey : String := "onnx.parse_feature_string"

/-- The key of the switch for strictness about what follows the closing brace. -/
def strictKey : String := "onnx.reject_trailing_content"

/-- The key of the name of the output. -/
def outputKey : String := "onnx.output_name"

/-- The truth value that a text spells, whatever its case and the white space around it. -/
def readSwitch (key value : String) : Except SettingFault Bool :=
  let word := String.ofList ((Text.trim value.toList).map Char.toLower)
  if word = "true" then .ok true
  else if word = "false" then .ok false
  else .error (.notBoolean key word)

/-- The setting that a pair of texts spells; none if the key is not one of ours. -/
def ofPair? (key value : String) : Except SettingFault (Option Setting) :=
  if key = enabledKey then
    (readSwitch key value).map fun b => some (.enabled b)
  else if key = strictKey then
    (readSwitch key value).map fun b => some (.strict b)
  else if key = outputKey then
    if value = "" then .error (.emptyName key) else .ok (some (.output value))
  else .ok none

end Setting

namespace Settings

/-- What holds where nothing is set. -/
def default : Settings := ⟨true, false, "output"⟩

/-- The settings after one more of them was set. -/
def set (s : Settings) : Setting → Settings
  | .enabled b => { s with enabled := b }
  | .strict b => { s with strict := b }
  | .output name => { s with output := name }

/-- The settings after one more pair of texts. -/
def setPair (s : Settings) (pair : String × String) : Except SettingFault Settings :=
  (Setting.ofPair? pair.1 pair.2).map fun setting =>
    match setting with
    | some setting => s.set setting
    | none => s

/-- The settings that pairs of texts spell, read in order. -/
def ofPairs (pairs : List (String × String)) : Except SettingFault Settings :=
  pairs.foldlM setPair default

/-- How a text is read under these settings. -/
def options (s : Settings) : Options := ⟨s.strict⟩

end Settings

end TensorText

/-
Running commands.

A command needs at most one source of bytes, which is opened for it; what it leaves is an
exit code and what it printed.  It prints a complete result or, after a failure, nothing
but a report of the failure.

What paths lead to is for the system to say, so a run is handed the function that opens
files.  The help, and the complaints about a line that runs no command, have no text here.
-/
import TensorText.Command.Argument
import TensorText.Command.Line
import TensorText.Encode
import TensorText.Features
import TensorText.Report
import TensorText.Source

namespace TensorText

/-- A refusal of the system to open a file. -/
structure SystemError where
  code : Nat
  reason : String
deriving DecidableEq

/-- The refusal in words. -/
def SystemError.message (e : SystemError) : String :=
  e.reason ++ " (os error " ++ toString e.code ++ ")"

/-- What a finished command leaves behind. -/
structure Outcome where
  code : Nat
  stdout : String
  stderr : String
deriving DecidableEq

namespace Outcome

/-- Success with a result on a line of its own. -/
def success (result : String) : Outcome := ⟨0, result ++ "\n", ""⟩

/-- Failure with its causes, outermost first. -/
def failure (chain : List String) : Outcome :=
  ⟨1, "", "(error) " ++ ": ".intercalate chain ++ "\n"⟩

end Outcome

namespace Command

/-- The file that a command reads, if it reads one. -/
def path? : Command → Option String
  | .inspect (some file) _ _ => if file = "-" then none else some file
  | _ => none

/-- Reports on the document that a source spells. -/
def runInspect (strict json : Bool) (source : Source) : Outcome :=
  let settings := Settings.default.set (.strict strict)
  match (settings.parseSource source).value with
  | .error failure => .failure failure.chain
  | .ok d => .success (report (if json then .json else .table) d.entries)

/-- Writes the tensors that arguments spell. -/
def runEncode (arguments : List String) : Outcome :=
  match arguments.mapM Argument.read with
  | .error fault => .failure fault.chain
  | .ok tensors => .success (encodeEntries (tensors.map Tensor.toEntry))

/-- Runs a command on the file that was opened for it, or on standard input. -/
def run (command : Command) (opened : Except SystemError Source) : Outcome :=
  match command with
  | .encode inputs => runEncode inputs
  | .inspect file json strict =>
    match opened with
    | .ok source => runInspect strict json source
    | .error e => .failure ["Failed to read " ++ file.getD "-", e.message]

/-- The source that a command reads, opened for it: a file, or standard input. -/
def opened (openFile : String → Except SystemError Source) (stdin : Source)
    (command : Command) : Except SystemError Source :=
  match command.path? with
  | none => .ok stdin
  | some path => openFile path

/-- Runs a whole command line, unless it is refused. -/
def runLine (openFile : String → Except SystemError Source) (stdin : Source)
    (arguments : List String) : Except Refusal Outcome :=
  (read arguments).map fun command => command.run (command.opened openFile stdin)

/-- What a line prints that asks for the version. -/
def versionText : String := "tensornote 0.1.0\n"

end Command

end TensorText

/-
The program: it opens what the command reads, runs the command and prints the outcome.
-/
import TensorText.Command.Run

namespace TensorText.Program

/-- What the operating system says when it refuses something. -/
def systemError (e : IO.Error) : SystemError :=
  let of (code : UInt32) (reason : String) : SystemError := ⟨code.toNat, reason⟩
  match e with
  | .noFileOrDirectory _ code reason => of code reason
  | .inappropriateType _ code reason => of code reason
  | .permissionDenied _ code reason => of code reason
  | .invalidArgument _ code reason => of code reason
  | .resourceExhausted _ code reason => of code reason
  | .noSuchThing _ code reason => of code reason
  | .hardwareFault code reason => of code reason
  | .otherError code reason => of code reason
  | e => ⟨5, toString e⟩

/-- One request for bytes. -/
def attempt (read : USize → IO ByteArray) : IO Attempt := do
  try
    return .piece (← read 65536).toList
  catch e =>
    match e with
    | .interrupted .. => return .interrupted
    | e => return .failed (systemError e).message

/-- All that a handle yields, piece by piece. -/
partial def drain (read : USize → IO ByteArray) (attempts : List Attempt) : IO Source := do
  let next ← attempt read
  if next.goesOn then drain read (next :: attempts)
  else return .ofAttempts (next :: attempts).reverse

/-- Opens a file and reads it to the end. -/
def openFile (path : String) : IO (Except SystemError Source) := do
  try
    let handle ← IO.FS.Handle.mk path .read
    return .ok (← drain handle.read [])
  catch e => return .error (systemError e)

/-- The outcome of a command line.  Of all that it could read, only the source that it asks
for is opened. -/
def outcome (arguments : List String) : IO (Except Command.Refusal Outcome) := do
  let closed : Source := ⟨[], none⟩
  match Command.read arguments with
  | .ok (.inspect file json strict) =>
    match Command.path? (.inspect file json strict) with
    | some path =>
      let opened ← openFile path
      return Command.runLine (fun _ => opened) closed arguments
    | none =>
      let stdin ← drain (← IO.getStdin).read []
      return Command.runLine (fun _ => .ok closed) stdin arguments
  | _ => return Command.runLine (fun _ => .ok closed) closed arguments

end TensorText.Program

/-- Runs the command line and leaves with its exit code. -/
def main (arguments : List String) : IO UInt32 := do
  match ← TensorText.Program.outcome arguments with
  | .ok outcome =>
    (← IO.getStdout).putStr outcome.stdout
    (← IO.getStderr).putStr outcome.stderr
    return outcome.code.toUInt32
  | .error refusal =>
    if refusal = .version then (← IO.getStdout).putStr TensorText.Command.versionText
    return refusal.code.toUInt32

/-
Command lines.

There are two commands.  `inspect` takes at most one file and the flags `--json` and
`--strict`; `encode` takes any number of inputs, each after `--input` or `-i`.  Words are
read from left to right, and the first that does not fit decides what is wrong with the
whole line.
-/
namespace TensorText

/-- What a command line asks for. -/
inductive Command
  /-- Report on the document in a file, or on standard input. -/
  | inspect (file : Option String) (json strict : Bool)
  /-- Write tensors as a text. -/
  | encode (inputs : List String)
deriving DecidableEq

namespace Command

/-- Why a command line runs no command. -/
inductive Refusal
  /-- It asks for help. -/
  | help
  /-- It asks for the version. -/
  | version
  /-- It names no command. -/
  | missingCommand
  /-- It names a command that there is not. -/
  | unknownCommand
  /-- It holds a word that the command does not take. -/
  | unknownArgument
  /-- It gives a value to a flag. -/
  | unneededValue
  /-- It sets a flag twice. -/
  | repeatedFlag
  /-- It ends where a value is due. -/
  | missingValue
deriving DecidableEq

/-- The exit code of a line that runs no command.  To ask for help is no mistake. -/
def Refusal.code : Refusal → Nat
  | .help | .version => 0
  | .missingCommand | .unknownCommand | .unknownArgument | .unneededValue | .repeatedFlag
  | .missingValue => 2

/-- What a word of a command line looks like. -/
inductive Word
  /-- Two hyphens alone: what follows is not looked at for hyphens. -/
  | terminator
  /-- Two hyphens and a name, possibly with a value after an equals sign. -/
  | long (name : String) (value : Option String)
  /-- One hyphen and letters. -/
  | short (letters : List Char)
  | plain
deriving DecidableEq

/-- What a word looks like; one hyphen alone is an ordinary word. -/
def Word.ofArgument (argument : String) : Word :=
  match argument.toList with
  | ['-', '-'] => .terminator
  | '-' :: '-' :: cs =>
    let name := String.ofList (cs.takeWhile fun c => c != '=')
    match cs.dropWhile fun c => c != '=' with
    | [] => .long name none
    | _ :: value => .long name (some (String.ofList value))
  | '-' :: c :: cs => .short (c :: cs)
  | _ => .plain

/-- The refusal for a flag that asks for something other than a command. -/
def flag (refusal : Refusal) (value : Option String) : Refusal :=
  if value.isSome then .unneededValue else refusal

/-- Reads the words after `inspect`; after a terminator every word is a file. -/
def readInspect (terminated : Bool) (file : Option String) (json strict : Bool) :
    List String → Except Refusal Command
  | [] => .ok (.inspect file json strict)
  | argument :: rest =>
    match if terminated then .plain else Word.ofArgument argument with
    | .terminator => readInspect true file json strict rest
    | .long name value =>
      if name = "json" then
        if value.isSome then .error .unneededValue
        else if json then .error .repeatedFlag
        else readInspect false file true strict rest
      else if name = "strict" then
        if value.isSome then .error .unneededValue
        else if strict then .error .repeatedFlag
        else readInspect false file json true rest
      else if name = "help" then .error (flag .help value)
      else .error .unknownArgument
    | .short letters => .error (if letters.head? = some 'h' then .help else .unknownArgument)
    | .plain =>
      if file.isSome then .error .unknownArgument
      else readInspect terminated (some argument) json strict rest

/-- Reads the words after `encode`.  The word after an option is its value, whatever it
looks like. -/
def readEncode (inputs : List String) : List String → Except Refusal Command
  | [] => .ok (.encode inputs)
  | argument :: rest =>
    let valueNext :=
      match rest with
      | [] => .error .missingValue
      | value :: rest => readEncode (inputs ++ [value]) rest
    match Word.ofArgument argument with
    | .terminator =>
      if rest = [] then .ok (.encode inputs) else .error .unknownArgument
    | .long name value =>
      if name = "input" then
        match value with
        | some value => readEncode (inputs ++ [value]) rest
        | none => valueNext
      else if name = "help" then .error (flag .help value)
      else .error .unknownArgument
    | .short ('i' :: attached) =>
      match attached with
      | [] => valueNext
      | '=' :: value => readEncode (inputs ++ [String.ofList value]) rest
      | value => readEncode (inputs ++ [String.ofList value]) rest
    | .short ('h' :: _) => .error .help
    | .short _ => .error .unknownArgument
    | .plain => .error .unknownArgument

/-- The names that stand for commands at the beginning of a line. -/
def names : List String := ["inspect", "encode", "help"]

/-- Reads the words after `help`, which may name one command. -/
def readHelp : List String → Refusal
  | [] => .help
  | [name] => if name ∈ names then .help else .unknownCommand
  | _ => .unknownCommand

/-- Reads a whole command line, without the name of the program. -/
def read : List String → Except Refusal Command
  | [] => .error .missingCommand
  | argument :: rest =>
    if argument = "inspect" then readInspect false none false false rest
    else if argument = "encode" then readEncode [] rest
    else if argument = "help" then .error (readHelp rest)
    else
      match Word.ofArgument argument with
      | .terminator =>
        match rest with
        | [] => .error .missingCommand
        | next :: _ => .error (if next ∈ names then .unknownArgument else .unknownCommand)
      | .long name value =>
        if name = "help" then .error (flag .help value)
        else if name = "version" then .error (flag .version value)
        else .error .unknownArgument
      | .short letters =>
        .error
          (if letters.head? = some 'h' then .help
           else if letters.head? = some 'V' then .version
           else .unknownArgument)
      | .plain => .error .unknownCommand

end Command

end TensorText

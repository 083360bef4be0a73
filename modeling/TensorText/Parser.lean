/-
A parser that reads its text at most once.

The first request for a verdict reads the text into the sink; every later one repeats
the verdict and leaves the sink alone.  Before the first one nothing has been read, and
nothing counts as failed.
-/
import TensorText.Read

namespace TensorText

/-- A text, the sink it is read into, and the verdict once there is one. -/
structure Parser (σ : Type) where
  text : String
  options : Options
  sink : σ
  verdict : Option (Except Diagnostic Unit)

namespace Parser

variable {σ : Type}

/-- A parser that has not read anything yet. -/
def new (text : String) (sink : σ) (options : Options) : Parser σ :=
  ⟨text, options, sink, none⟩

/-- The parser after its text has been read, which happens only if it was not before. -/
def read [Sink σ] (p : Parser σ) : Parser σ :=
  match p.verdict with
  | some _ => p
  | none =>
    let reading := scanText p.text p.sink p.options
    { p with sink := reading.sink, verdict := some reading.verdict }

/-- Whether the text has been read. -/
def isRead (p : Parser σ) : Bool := p.verdict.isSome

/-- The diagnostic of a reading that failed. -/
def fault? (p : Parser σ) : Option Diagnostic :=
  match p.verdict with
  | some (.error d) => some d
  | _ => none

/-- False only after a reading that failed. -/
def isSound (p : Parser σ) : Bool := p.fault?.isNone

/-- The diagnostic in words, or nothing where there is none. -/
def complaint (p : Parser σ) : String :=
  match p.fault? with
  | some d => d.message
  | none => ""

/-- What can be asked of a parser any number of times. -/
inductive Query
  /-- Read the text if need be, and say whether that went well. -/
  | check
  | isRead
  | isSound
  | complaint
  | fault
deriving DecidableEq

/-- The answer to a query. -/
inductive Answer
  | flag (b : Bool)
  | text (s : String)
  | diagnostic (d : Option Diagnostic)
deriving DecidableEq

/-- Answers a query; only `check` can change the parser. -/
def ask [Sink σ] (p : Parser σ) : Query → Parser σ × Answer
  | .check => (p.read, .flag p.read.isSound)
  | .isRead => (p, .flag p.isRead)
  | .isSound => (p, .flag p.isSound)
  | .complaint => (p, .text p.complaint)
  | .fault => (p, .diagnostic p.fault?)

/-- Reads the text if need be and gives up the parser for its verdict. -/
def finish [Sink σ] (p : Parser σ) : Reading Diagnostic σ :=
  ⟨p.read.sink, p.read.verdict.getD (.ok ())⟩

end Parser

end TensorText

import TensorText.Json.Document
import TensorText.Main
import TensorText.Parser
import TensorText.Session
import TensorText.Tape
import TensorText.Proofs.Base64
import TensorText.Proofs.Grammar
import TensorText.Proofs.Scan
import TensorText.Proofs.Fragment
import TensorText.Proofs.Course
import TensorText.Proofs.Read
import TensorText.Proofs.Canonical
import TensorText.Proofs.Partial
import TensorText.Proofs.Position
import TensorText.Proofs.Locality
import TensorText.Proofs.Diagnosis
import TensorText.Proofs.Truncation
import TensorText.Proofs.Features
import TensorText.Proofs.Sinks
import TensorText.Proofs.Strictness
import TensorText.Proofs.Parser
import TensorText.Proofs.Utf8
import TensorText.Proofs.Agreement
import TensorText.Proofs.Steps
import TensorText.Proofs.Source
import TensorText.Proofs.Preparation
import TensorText.Proofs.Session
import TensorText.Proofs.Command
import TensorText.Proofs.Shape
import TensorText.Proofs.Payload
import TensorText.Proofs.Context
import TensorText.Proofs.Concatenation
import TensorText.Proofs.Boundary
import TensorText.Proofs.Head
import TensorText.Proofs.Replay
import TensorText.Proofs.Gate
import TensorText.Proofs.Tape
import TensorText.Proofs.Log
import TensorText.Proofs.Padding
import TensorText.Proofs.Settings
import TensorText.Proofs.Numerals
import TensorText.Proofs.Argument
import TensorText.Proofs.Table
import TensorText.Proofs.Runs
import TensorText.Proofs.Json.Grammar
import TensorText.Proofs.Json.Reader
import TensorText.Proofs.Json.Writer
import TensorText.Proofs.Json.Skip
import TensorText.Proofs.Json.Record
import TensorText.Proofs.Json.Document
import TensorText.Proofs.Rounding
import TensorText.Proofs.Shortest
import TensorText.Proofs.Report

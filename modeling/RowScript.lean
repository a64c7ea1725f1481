import RowScript.Expr
import RowScript.Schema
import RowScript.Json.Basic
import RowScript.Json.Number
import RowScript.Json.Token
import RowScript.Json.Parser
import RowScript.Json.Printer
import RowScript.Expr.Json
import RowScript.Schema.Json
import RowScript.Expr.Fingerprint
import RowScript.Script.Decimal
import RowScript.Script.Identifier
import RowScript.Script.Quoted
import RowScript.Script.Receiver
import RowScript.Coercion
import RowScript.Fragment
import RowScript.Log
import RowScript.Rejection
import RowScript.RowFunction
import RowScript.Emission
import RowScript.Compile
import RowScript.Yaml.Cell
import RowScript.Yaml.Node
import RowScript.Config
import RowScript.Log.Filter
import RowScript.CommandLine
import RowScript.Session
import RowScript.Main
import RowScript.Proofs.Script.Token
import RowScript.Proofs.Script.Tree
import RowScript.Proofs.Script.Reader
import RowScript.Proofs.Script.Receiver
import RowScript.Proofs.Script.Depth
import RowScript.Proofs.Script.Brackets
import RowScript.Proofs.Script.Line
import RowScript.Proofs.Script.Quoted
import RowScript.Proofs.Script.Numeral
import RowScript.Proofs.Script.Names
import RowScript.Proofs.Script.Words
import RowScript.Proofs.Script.Machine
import RowScript.Proofs.Emission.Code
import RowScript.Proofs.Emission.Outcome
import RowScript.Proofs.Emission.Text
import RowScript.Proofs.Emission.Emitted
import RowScript.Proofs.Emission.Agree
import RowScript.Proofs.Compiled
import RowScript.Proofs.Readback
import RowScript.Proofs.Hygiene
import RowScript.Proofs.Literals
import RowScript.Proofs.Meaning
import RowScript.Proofs.Denotation
import RowScript.Proofs.Simulation
import RowScript.Proofs.Emission.SingleInput
import RowScript.Proofs.Emission.Success
import RowScript.Proofs.Nodes
import RowScript.Proofs.Acceptance
import RowScript.Proofs.Schema
import RowScript.Proofs.Inputs
import RowScript.Proofs.Checks
import RowScript.Proofs.Numerals
import RowScript.Proofs.Calls
import RowScript.Proofs.Classes
import RowScript.Proofs.Locality
import RowScript.Proofs.Json.Token
import RowScript.Proofs.Json.Reader
import RowScript.Proofs.Canonical
import RowScript.Proofs.Emission.Renumbering
import RowScript.Proofs.History
import RowScript.Proofs.Emission.Course
import RowScript.Proofs.Requests
import RowScript.Proofs.Days
import RowScript.Proofs.Statements
import RowScript.Proofs.Json.Indented
import RowScript.Proofs.Environment
import RowScript.Proofs.Session
import RowScript.Proofs.CommandLine
import RowScript.Proofs.Definitions
import RowScript.Proofs.Rewriting
import RowScript.Proofs.Flattening
import RowScript.Proofs.Records
import RowScript.Proofs.Emission.Temporaries
import RowScript.Proofs.Events
import RowScript.Proofs.Json.Texts
import RowScript.Proofs.Layout

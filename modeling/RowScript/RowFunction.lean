import RowScript.Fragment
import RowScript.Json.Parser
import RowScript.Json.Printer
import RowScript.Members

/-!
# Generated functions

A function is called once a row with the values of its parameters, and it
returns a string.
-/

namespace RowScript

structure RowFunction where
  parameters : List String
  statements : List String := []
  result : String
  deriving DecidableEq, Repr, Inhabited

namespace RowFunction

def returnType : DataType := .string

/-- The function of a fragment, which has to be a string. -/
def ofFragment (root : Fragment) (parameters : List String) : RowFunction :=
  { parameters, statements := root.statements, result := root.valueText }

/-- The text of the function, in one line if its parts are. -/
def render (f : RowFunction) : String :=
  "function(" ++ ", ".intercalate f.parameters ++ ") \x7b " ++
    String.join (f.statements.map (· ++ " ")) ++ "return " ++ f.result ++ "; \x7d"

/-! ## JSON -/

def toJson (f : RowFunction) : Json :=
  .object ([("parameters", .strings f.parameters)] ++
    (if f.statements.isEmpty then [] else [("statements", .strings f.statements)]) ++
    [("return_expr", .string f.result)])

/-- The function as an array of its members. -/
def toJsonArray (f : RowFunction) : Json :=
  .array [.strings f.parameters, .strings f.statements, .string f.result]

def ofParts? (parameters statements result : Json) : Option RowFunction := do
  pure {
    parameters := ← parameters.strings?
    statements := ← statements.strings?
    result := ← result.string? }

def ofJson? : Json → Option RowFunction
  | .object ms => do
    let statements ←
      match valuesOf "statements" ms with
      | [] => some (.array [])
      | [v] => some v
      | _ => none
    ofParts? (← uniqueValue? "parameters" ms) statements (← uniqueValue? "return_expr" ms)
  | .array [parameters, statements, result] => ofParts? parameters statements result
  | _ => none

def text (f : RowFunction) : String := f.toJson.compact

/-- Reads a function text. Members that are ignored may hold whatever is well formed. -/
def parse? (text : String) : Option RowFunction := do
  ofJson? (← Json.parseOutermost? text)

end RowFunction

end RowScript

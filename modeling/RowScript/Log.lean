/-!
# Log records

A record has a level, a target that says which part of the program wrote it, a
message and fields, and is one line of text.
-/

namespace RowScript.Log

inductive Level where
  | error | warn | info | debug | trace
  deriving DecidableEq, Repr

namespace Level

def name : Level → String
  | error => "ERROR"
  | warn => "WARN"
  | info => "INFO"
  | debug => "DEBUG"
  | trace => "TRACE"

/-- How much is let through at a level, which is never nothing. -/
def verbosity : Level → Nat
  | error => 1
  | warn => 2
  | info => 3
  | debug => 4
  | trace => 5

end Level

structure Record where
  level : Level
  target : String
  message : String
  fields : List (String × String) := []
  deriving DecidableEq, Repr

/-- The names of the fields, of which the message is one. -/
def Record.fieldNames (r : Record) : List String := "message" :: r.fields.map (·.1)

/-- Level, target, message and the fields in their order. -/
def Record.line (r : Record) : String :=
  r.level.name ++ " " ++ r.target ++ ": " ++ r.message ++
    String.join (r.fields.map fun (key, value) => " " ++ key ++ "=" ++ value)

end RowScript.Log

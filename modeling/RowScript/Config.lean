import RowScript.Environment
import RowScript.Members
import RowScript.Schema
import RowScript.Yaml.Node

/-!
# Configuration

A configuration text gives the columns, whether a function may read more than
one of them, and where the log goes. Environment variables have the last word.
-/

namespace RowScript

/-- How log lines look on the error output. -/
inductive LogFormat where
  | pretty | json | compact
  deriving DecidableEq, Repr

namespace LogFormat

/-- Any other name is that of the compact format. -/
def ofName (s : String) : LogFormat :=
  if s = "json" then json else if s = "pretty" then pretty else compact

def name : LogFormat → String
  | pretty => "Pretty"
  | json => "Json"
  | compact => "Compact"

end LogFormat

inductive LogOutput where
  | stderr | file | both
  deriving DecidableEq, Repr

namespace LogOutput

/-- Any other name is that of the error output. -/
def ofName (s : String) : LogOutput :=
  if s = "file" then file else if s = "both" then both else stderr

def name : LogOutput → String
  | stderr => "Stderr"
  | file => "File"
  | both => "Both"

/-- Whether a log file is written. -/
def hasFile : LogOutput → Bool
  | stderr => false
  | file | both => true

/-- Whether log lines go to the error output. -/
def hasStderr : LogOutput → Bool
  | stderr | both => true
  | file => false

end LogOutput

structure LogSettings where
  level : String := "warn"
  format : String := "compact"
  output : String := "stderr"
  directory : String := "./logs"
  deriving DecidableEq, Repr, Inhabited

/-- The directory of the log file, if one is written. -/
def LogSettings.fileDirectory (s : LogSettings) : Option String :=
  if (LogOutput.ofName s.output).hasFile then some s.directory else none

structure Config where
  columns : List ColumnDef := []
  multipleInputs : Bool := false
  logging : LogSettings := {}
  deriving DecidableEq, Repr, Inhabited

/-! ## Reading -/

namespace Yaml.Node

/-- The text of a scalar, quoted or not. -/
def text? : Node → Option String
  | scalar s _ => some s
  | _ => none

/-- A truth value is a word without quotes. -/
def bool? : Node → Option Bool
  | scalar s true =>
    if s ∈ ["true", "True", "TRUE"] then some true
    else if s ∈ ["false", "False", "FALSE"] then some false
    else none
  | _ => none

/-- The text of a scalar, or `none` inside for an unquoted null or nothing. -/
def optionalText? : Node → Option (Option String)
  | scalar s true => if s ∈ ["", "~", "null", "Null", "NULL"] then some none else some (some s)
  | scalar s false => some (some s)
  | _ => none

/-- The elements of a sequence; nothing counts as an empty one. -/
def elements? : Node → Option (List Node)
  | sequence vs => some vs
  | scalar "" true => some []
  | _ => none

/-- The members of a mapping whose keys are scalars; nothing counts as an empty one. -/
def members? : Node → Option (List (String × Node))
  | mapping ms => ms.mapM fun (key, v) => do pure (← key.text?, v)
  | scalar "" true => some []
  | _ => none

/-- Reads the member `name`, which may be absent but not repeated. -/
def member? {α : Type} (name : String) (default : α) (read? : Node → Option α)
    (ms : List (String × Node)) : Option α :=
  match valuesOf name ms with
  | [] => some default
  | [v] => read? v
  | _ => none

/-- Reads the member `name`, which has to be there once. -/
def required? {α : Type} (name : String) (read? : Node → Option α)
    (ms : List (String × Node)) : Option α := do
  read? (← uniqueValue? name ms)

end Yaml.Node

open Yaml (Node)

def ColumnDef.ofNode? (v : Node) : Option ColumnDef := do
  let ms ← v.members?
  pure {
    name := ← Node.required? "name" Node.text? ms
    canonicalName := ← Node.member? "canonical_name" none Node.optionalText? ms
    role := ← Node.required? "role" (fun v => v.text?.bind Role.ofName?) ms
    type := ← Node.required? "data_type" (fun v => v.text?.bind DataType.ofName?) ms }

/-- Settings of the log are given all or not at all. -/
def LogSettings.ofNode? (v : Node) : Option LogSettings := do
  let ms ← v.members?
  pure {
    level := ← Node.required? "level" Node.text? ms
    format := ← Node.required? "format" Node.text? ms
    output := ← Node.required? "output" Node.text? ms
    directory := ← Node.required? "directory" Node.text? ms }

namespace Config

def ofNode? (v : Node) : Option Config := do
  let ms ← v.members?
  pure {
    columns := ← Node.member? "columns" [] (fun v => do (← v.elements?).mapM ColumnDef.ofNode?) ms
    multipleInputs := ← Node.member? "compile" false
      (fun v => do Node.member? "allow_multiple_inputs" false Node.bool? (← v.members?)) ms
    logging := ← Node.member? "logging" {} LogSettings.ofNode? ms }

/-- Reads a configuration, given as the nodes of its text. A text that holds nothing is the default
configuration. -/
def ofDocument? : Option Node → Option Config
  | none => some {}
  | some v => ofNode? v

end Config

/-! ## Overriding -/

/-- Why a program cannot be configured. -/
inductive ConfigError where
  | unreadable (cause : String)
  | malformed
  | schema (e : SchemaError)
  | invalidVariable (name value : String)
  deriving DecidableEq, Repr

def ConfigError.message : ConfigError → String
  | unreadable cause => "Failed to read config file: " ++ cause
  | malformed => "Failed to parse YAML: not a configuration"
  | schema e => "Invalid column schema: " ++ e.message
  | invalidVariable name value => "Invalid value for " ++ name ++ ": " ++ value

/-- A variable that is set goes before the setting. -/
def LogSettings.override (s : LogSettings) (env : Environment) : LogSettings where
  level := (env.lookup "RUST_LOG").getD s.level
  format := (env.lookup "LOG_FORMAT").getD s.format
  output := (env.lookup "LOG_OUTPUT").getD s.output
  directory := (env.lookup "LOG_DIR").getD s.directory

namespace Config

def multipleInputsVariable : String := "PUSHJS_ALLOW_MULTIPLE_INPUTS"

/-- The variables that a configuration depends on. -/
def variableNames : List String :=
  [multipleInputsVariable, "RUST_LOG", "LOG_FORMAT", "LOG_OUTPUT", "LOG_DIR"]

/-- What the variable for several inputs says, which is nothing if it is not set. -/
def multipleInputsOf (env : Environment) : Except ConfigError (Option Bool) :=
  match env.lookup multipleInputsVariable with
  | none => .ok none
  | some value =>
    if value ∈ ["1", "true", "yes"] then .ok (some true)
    else if value ∈ ["0", "false", "no"] then .ok (some false)
    else .error (.invalidVariable multipleInputsVariable value)

def override (c : Config) (env : Environment) : Except ConfigError Config := do
  let multipleInputs := (← multipleInputsOf env).getD c.multipleInputs
  pure { c with multipleInputs, logging := c.logging.override env }

/-- The configuration of a text and an environment, where `yaml` reads the nodes of a text. -/
def ofText (yaml : String → Option (Option Node)) (text : String) (env : Environment) :
    Except ConfigError Config :=
  match (yaml text).bind ofDocument? with
  | none => .error .malformed
  | some c => c.override env

def schema (c : Config) : Except ConfigError Schema :=
  match Schema.ofDefs c.columns with
  | .ok s => .ok s
  | .error e => .error (.schema e)

end Config

end RowScript

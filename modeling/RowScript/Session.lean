import RowScript.CommandLine
import RowScript.Compile
import RowScript.Config
import RowScript.Expr.Fingerprint
import RowScript.Log.Filter
import RowScript.Path

/-!
# A run of the program

What a run does follows from its arguments, the files that it finds and its
environment. The result is a value: exit status, output, failure and log.
-/

namespace RowScript.Session

/-- Why a file cannot be read. -/
inductive FileError where
  | notFound
  | denied
  /-- A part of the path that is not the last one is a file. -/
  | notDirectory
  | isDirectory
  | notText
  | other (reason : String)
  deriving DecidableEq, Repr

def FileError.message : FileError → String
  | notFound => "No such file or directory (os error 2)"
  | denied => "Permission denied (os error 13)"
  | notDirectory => "Not a directory (os error 20)"
  | isDirectory => "Is a directory (os error 21)"
  | notText => "stream did not contain valid UTF-8"
  | other reason => reason

structure World where
  args : List String
  environment : Environment
  /-- The text of a file by its path. -/
  read : String → Except FileError String
  /-- The text of the environment file, if there is one. -/
  environmentFile : Option String := none
  /-- The nodes of a text, none inside if it holds nothing. What the program reads goes beyond
  `Yaml.parse?` in anchors, aliases, tags, directives and block scalars. -/
  yaml : String → Option (Option Yaml.Node) := Yaml.parse?
  /-- Whether a log file can be opened in a directory, which is made if need be. -/
  opensLog : String → Bool := fun _ => true

/-- What the error output tells about a run that fails. -/
inductive Failure where
  /-- The environment file gives a variable a value that it cannot have. -/
  | unsettable (name : String)
  | usage
  /-- No log file can be opened in the directory. -/
  | unopenedLog (directory : String)
  | loading (config : String) (e : ConfigError)
  | schema (e : ConfigError)
  | unreadableExpression (file : String) (e : FileError)
  | malformedExpression
  | rejected (r : Rejection)
  deriving DecidableEq, Repr

namespace Failure

def message : Failure → String
  | unsettable name => "failed to set environment variable " ++ name
  | usage => "Usage: pushjs [--config <CONFIG>] <COMMAND>"
  | unopenedLog directory => "initializing rolling file appender failed: " ++ directory
  | loading config e => "Error loading " ++ config ++ ": " ++ e.message
  | schema e => "Error: " ++ e.message
  | unreadableExpression file e => "Error: Failed to read " ++ file ++ ": " ++ e.message
  | malformedExpression => "Error: Invalid expression JSON: not an expression"
  | rejected r => "Cannot push down: " ++ r.message

/-- A run that is broken off has a status of its own, and so has an expression that is rejected,
which usage shares. -/
def status : Failure → Nat
  | unsettable _ | unopenedLog _ => 101
  | usage | rejected _ => 2
  | _ => 1

end Failure

/-! ## The log -/

inductive SessionEvent where
  | started (format : LogFormat) (output : LogOutput) (level : String)
  | compiling (e : CompileEvent)
  | compiled (file : String) (parameters statements : Nat)
  | rejected (r : Rejection)
  deriving DecidableEq, Repr

def SessionEvent.record : SessionEvent → Log.Record
  | started format output level =>
    { level := .debug, target := "pushjs::logging"
      message := "logging initialized"
      fields := [("format", format.name), ("output", output.name), ("level", level)] }
  | compiling e => e.record
  | compiled file parameters statements =>
    { level := .info, target := "pushjs"
      message := "compiled expression"
      fields := [("file", file), ("parameters", toString parameters),
        ("statements", toString statements)] }
  | rejected r =>
    { level := .warn, target := "pushjs"
      message := "expression rejected"
      fields := [("reason", (Failure.rejected r).message)] }

/-! ## Results -/

structure Outcome where
  stdout : String := ""
  failure : Option Failure := none
  /-- Where the log goes, once that is known. -/
  logging : Option LogSettings := none
  events : List SessionEvent := []

namespace Outcome

def status (o : Outcome) : Nat := (o.failure.map Failure.status).getD 0

/-- The directory of the log file, if there is one. It exists also if nothing is logged. -/
def logDirectory (o : Outcome) : Option String := o.logging.bind (·.fileDirectory)

def logsToStderr (o : Outcome) : Bool :=
  o.logging.any fun s => (LogOutput.ofName s.output).hasStderr

/-- The records that the log lets through. -/
def records (o : Outcome) : List Log.Record :=
  match o.logging with
  | some s => (o.events.map (·.record)).filter (Log.Filter.ofText s.level).lets
  | none => []

end Outcome

/-! ## Commands -/

/-- The answer to `compile` in the indented format. -/
def document (e : Expr) (f : RowFunction) : Json := .object [
  ("fingerprint", .string e.fingerprint),
  ("function", .string f.render),
  ("parameters", .strings f.parameters)]

def answerText (format : CommandLine.OutputFormat) (e : Expr) (f : RowFunction) : String :=
  match format with
  | .text => f.render
  | .json => (document e f).indented

def failed (r : Failure) : Outcome := { failure := some r }

/-- Reads a file once the log is set up: where nothing was there may be the log directory now. -/
def readLogged (w : World) (s : LogSettings) (path : String) : Except FileError String :=
  match w.read path with
  | .error .notFound =>
    .error (if s.fileDirectory.any (Path.leadsTo path) then .isDirectory else .notFound)
  | r => r

def compileFile (w : World) (s : LogSettings) (schema : Schema) (file : String)
    (multipleInputs : Bool) (format : CommandLine.OutputFormat) : Outcome :=
  match readLogged w s file with
  | .error e => failed (.unreadableExpression file e)
  | .ok text =>
    match Expr.parse? text with
    | none => failed .malformedExpression
    | some e =>
      let (result, state) := attempt { lookup := schema.lookup, multipleInputs } e
      let bound := (bindingEvents state).map .compiling
      match result with
      | .ok f =>
        { stdout := answerText format e f ++ "\n"
          events := bound ++ [.compiled file f.parameters.length f.statements.length] }
      | .error r => { failed (.rejected r) with events := bound ++ [.rejected r] }

def perform (w : World) (config : Config) (command : CommandLine.Command) : Outcome :=
  match config.schema with
  | .error e => failed (.schema e)
  | .ok schema =>
    match command with
    | .compile file multiple format =>
      compileFile w config.logging schema file (multiple || config.multipleInputs) format
    | .validate => { stdout := toString schema.size ++ " columns OK\n" }

/-- The environment with the variables of the environment file. -/
def fullEnvironment (w : World) : Environment :=
  match w.environmentFile with
  | some text => w.environment.load text
  | none => w.environment

/-- The first variable of the environment file that cannot be set. -/
def unsettable? (w : World) : Option String :=
  w.environmentFile.bind fun text =>
    (w.environment.unsettable? (w.environment.assignments text)).map (·.1)

def loadConfig (w : World) (path : String) : Except ConfigError Config :=
  match w.read path with
  | .error e => .error (.unreadable e.message)
  | .ok text => Config.ofText w.yaml text (fullEnvironment w)

/-- The directory of the log, if a log file is wanted that cannot be opened. -/
def unopenedLog? (w : World) (s : LogSettings) : Option String :=
  s.fileDirectory.filter fun directory => !w.opensLog directory

def helpText : String :=
  "Compile scalar expressions into per-row JavaScript functions\n\n" ++
    "Usage: pushjs [--config <CONFIG>] compile [--multi] [--output text|json] <FILE>\n" ++
    "       pushjs [--config <CONFIG>] validate\n"

/-- What a run does once its environment is complete. -/
def runLoaded (w : World) : Outcome :=
  match CommandLine.parse? w.args with
  | none => failed .usage
  | some .version => { stdout := "pushjs 0.1.0\n" }
  | some .help => { stdout := helpText }
  | some (.run command path) =>
    match loadConfig w path with
    | .error e => failed (.loading path e)
    | .ok config =>
      let s := config.logging
      match unopenedLog? w s with
      | some directory => failed (.unopenedLog directory)
      | none =>
        let started := .started (LogFormat.ofName s.format) (LogOutput.ofName s.output) s.level
        let o := perform w config command
        { o with logging := some s, events := started :: o.events }

def run (w : World) : Outcome :=
  match unsettable? w with
  | some name => failed (.unsettable name)
  | none => runLoaded w

end RowScript.Session

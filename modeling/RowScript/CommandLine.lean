/-!
# The command line

The arguments name a command, `compile` with a file or `validate`, and options
before or after it. A long option has its value in the next argument or after
`=`, and a short one also directly after its letter.
-/

namespace RowScript.CommandLine

inductive OutputFormat where
  | text | json
  deriving DecidableEq, Repr

def OutputFormat.ofName? (s : String) : Option OutputFormat :=
  if s = "text" then some text else if s = "json" then some json else none

inductive Command where
  | compile (file : String) (multipleInputs : Bool) (output : OutputFormat)
  | validate
  deriving DecidableEq, Repr

inductive Request where
  /-- A command and the path of the configuration. -/
  | run (command : Command) (config : String)
  | version
  | help
  deriving DecidableEq, Repr

def defaultConfig : String := "pushjs.yaml"

/-! ## Arguments -/

/-- The options. -/
inductive Setting where
  | config | multiple | output | version | help
  deriving DecidableEq, Repr

/-- What an argument is at its place. -/
inductive Argument where
  /-- `--`, after which no argument is an option. -/
  | escape
  | long (name : String) (value : Option String)
  /-- Letters after a single hyphen. -/
  | short (letters : List Char)
  | word (s : String)
  deriving DecidableEq, Repr

def Argument.ofString (s : String) : Argument :=
  match s.toList with
  | ['-', '-'] => .escape
  | '-' :: '-' :: cs =>
    let name := String.ofList (cs.takeWhile (· != '='))
    match cs.dropWhile (· != '=') with
    | [] => .long name none
    | _ :: value => .long name (some (String.ofList value))
  | '-' :: c :: cs => .short (c :: cs)
  | _ => .word s

/-- What has been read at one level, the program's or the command's. -/
structure Level where
  config : Option String := none
  multiple : Bool := false
  output : Option OutputFormat := none
  file : Option String := none
  deriving Repr

/-- Which options a level knows. -/
inductive Place where
  | program | compile | validate
  deriving DecidableEq, Repr

def longOption? (place : Place) : String → Option Setting
  | "config" => some .config
  | "multi" => if place = .compile then some .multiple else none
  | "output" => if place = .compile then some .output else none
  | "version" => if place = .program then some .version else none
  | "help" => some .help
  | _ => none

def shortOption? (place : Place) : Char → Option Setting
  | 'c' => some .config
  | 'o' => if place = .compile then some .output else none
  | 'V' => if place = .program then some .version else none
  | 'h' => some .help
  | _ => none

/-- Why the arguments of a level end, apart from there being no more. -/
inductive Stop where
  | usage | version | help
  deriving DecidableEq, Repr

/-- Gives an option its value. An option may be given once, and no value may be empty. -/
def Level.setValue (l : Level) (o : Setting) (value : String) : Except Stop Level :=
  match o with
  | .config =>
    if l.config.isSome || value.isEmpty then .error .usage
    else .ok { l with config := some value }
  | .output =>
    match l.output, OutputFormat.ofName? value with
    | none, some f => .ok { l with output := some f }
    | _, _ => .error .usage
  | _ => .error .usage

def takesValue : Setting → Bool
  | .config | .output => true
  | _ => false

/-- An option without a value. -/
def Level.setFlag (l : Level) (o : Setting) : Except Stop Level :=
  match o with
  | .multiple => if l.multiple then .error .usage else .ok { l with multiple := true }
  | .version => .error .version
  | .help => .error .help
  | .config | .output => .error .usage

/-- Options that are written as letters in one argument. The last one may be
left waiting for a value in the next argument. -/
def Level.setLetters (place : Place) (l : Level) : List Char → Except Stop (Level × Option Setting)
  | [] => .ok (l, none)
  | c :: cs =>
    match shortOption? place c with
    | none => .error .usage
    | some o =>
      if takesValue o then
        match cs with
        | [] => .ok (l, some o)
        | '=' :: value => do pure (← l.setValue o (String.ofList value), none)
        | value => do pure (← l.setValue o (String.ofList value), none)
      else do
        let l ← l.setFlag o
        setLetters place l cs

def Level.setLong (place : Place) (l : Level) (name : String) (value : Option String) :
    Except Stop (Level × Option Setting) :=
  match longOption? place name, value with
  | none, _ => .error .usage
  | some o, some v => do
    if takesValue o then pure (← l.setValue o v, none) else throw .usage
  | some o, none => do
    if takesValue o then pure (l, some o) else pure (← l.setFlag o, none)

/-- An argument that is no option: the file of `compile`, which is given once and not empty. -/
def Level.setWord (place : Place) (l : Level) (s : String) : Except Stop Level :=
  if place = .compile && l.file.isNone && !s.isEmpty then .ok { l with file := some s }
  else .error .usage

/-- The arguments of a command. `waiting` is an option that a value is due for. -/
def readCommand (place : Place) (l : Level) (waiting : Option Setting) :
    List String → Except Stop Level
  | [] => if waiting.isSome then .error .usage else .ok l
  | s :: rest =>
    match Argument.ofString s, waiting with
    | .word v, some o => do readCommand place (← l.setValue o v) none rest
    | _, some _ => .error .usage
    | .escape, none => rest.foldlM (Level.setWord place) l
    | .long name value, none => do
      let (l, waiting) ← l.setLong place name value
      readCommand place l waiting rest
    | .short letters, none => do
      let (l, waiting) ← l.setLetters place letters
      readCommand place l waiting rest
    | .word s, none => do readCommand place (← l.setWord place s) none rest

/-- The request of a command at the level `outer` of the program. A path of a
configuration after the command goes before one in front of it. -/
def request (outer : Level) (place : Place) (l : Level) : Except Stop Request :=
  let config := (l.config.orElse fun _ => outer.config).getD defaultConfig
  match place, l.file with
  | .compile, some file => .ok (.run (.compile file l.multiple (l.output.getD .text)) config)
  | .validate, _ => .ok (.run .validate config)
  | _, _ => .error .usage

def command? : String → Option Place
  | "compile" => some .compile
  | "validate" => some .validate
  | _ => none

/-- Whether there is help on what follows the word `help`: nothing or a single command. -/
def isHelpTopic : List String → Bool
  | [] => true
  | [s] => s = "help" || (command? s).isSome
  | _ => false

/-- The arguments before the command, and those after it by `readCommand`. -/
def readProgram (l : Level) (waiting : Option Setting) : List String → Except Stop Request
  | [] => .error .usage
  | s :: rest =>
    match Argument.ofString s, waiting with
    | .word v, some o => do readProgram (← l.setValue o v) none rest
    | _, some _ => .error .usage
    | .escape, none => .error .usage
    | .long name value, none => do
      let (l, waiting) ← l.setLong .program name value
      readProgram l waiting rest
    | .short letters, none => do
      let (l, waiting) ← l.setLetters .program letters
      readProgram l waiting rest
    | .word s, none =>
      match command? s with
      | some place => do request l place (← readCommand place {} none rest)
      | none => .error (if s = "help" && isHelpTopic rest then .help else .usage)

/-- The files that a request reads. -/
def Request.paths : Request → List String
  | run (.compile file ..) config => [config, file]
  | run .validate config => [config]
  | version | help => []

/-- What the arguments ask for; `none` if they are not in order. -/
def parse? (args : List String) : Option Request :=
  match readProgram {} none args with
  | .ok r => some r
  | .error .version => some .version
  | .error .help => some .help
  | .error .usage => none

end RowScript.CommandLine

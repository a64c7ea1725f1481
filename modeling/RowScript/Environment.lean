import RowScript.Text.Alphanumeric
import RowScript.Text.Blank

/-!
# Environment variables and environment files

An environment file has a line `NAME=value` for each variable, comments after
`#`, quotes of both kinds, and references to earlier variables after `$`. It
only sets variables that are not set already. At the first line that cannot be
read the rest of the file is given up.
-/

namespace RowScript

/-- The variables that are set; of two entries of one name the first counts. -/
abbrev Environment := List (String × String)

namespace Environment

/-! ## Lines -/

/-- What is open at a place between two characters. -/
inductive Quoting where
  | none
  /-- After a blank, where `#` starts a comment. -/
  | blank
  | escape
  | strong | strongEscape
  | weak | weakEscape
  | comment
  deriving DecidableEq, Repr

namespace Quoting

def step (q : Quoting) (c : Char) : Quoting :=
  let word : Quoting :=
    if c = '\\' then .escape else if c = '"' then .weak else if c = '\'' then .strong else .none
  match q with
  | .comment => .comment
  | .blank => if c = '#' then .comment else word
  | .escape => .none
  | .none => if isWhite c && c != '\n' && c != '\x0d' then .blank else word
  | .weak => if c = '\\' then .weakEscape else if c = '"' then .none else .weak
  | .weakEscape => .weak
  | .strong => if c = '\\' then .strongEscape else if c = '\'' then .none else .strong
  | .strongEscape => .strong

/-- The characters of a line before a comment, and what is open after them. -/
def scan : Quoting → List Char → List Char × Quoting
  | q, [] => ([], q)
  | q, c :: cs =>
    if q.step c = .comment then ([], .comment)
    else
      let (kept, end') := scan (q.step c) cs
      (c :: kept, end')

end Quoting

/-- The lines of a text, each with its line feed. -/
def splitLines : List Char → List (List Char)
  | [] => []
  | c :: cs =>
    if c = '\n' then [c] :: splitLines cs
    else
      match splitLines cs with
      | [] => [[c]]
      | l :: ls => (c :: l) :: ls

/-- The lines of a text, where a line that ends inside of quotes goes on in the
next one. The last one is `none` if the text ends inside of quotes. -/
def joinLines (begun : List Char) (q : Quoting) : List (List Char) → List (Option (List Char))
  | [] => if q = .none then [] else [none]
  | line :: lines =>
    if (trimStart (begun ++ line)).head? == some '#' then some [] :: joinLines [] .none lines
    else
      let (kept, q) := q.scan line
      if q = .none || q = .comment then some (begun ++ kept) :: joinLines [] .none lines
      else joinLines (begun ++ line) q lines

/-! ## Values -/

/-- A reference to a variable that is being read. -/
structure Reference where
  braced : Bool := false
  /-- Latest first. -/
  name : List Char := []

structure ValueState where
  /-- Latest first. -/
  value : List Char := []
  strong : Bool := false
  weak : Bool := false
  escaped : Bool := false
  /-- After a blank, where only a comment may follow. -/
  ended : Bool := false
  reference : Option Reference := none

namespace ValueState

def push (s : ValueState) (c : Char) : ValueState := { s with value := c :: s.value }

/-- Puts the value of the variable in the place of the reference. -/
def resolve (lookup : String → String) (s : ValueState) : ValueState :=
  match s.reference with
  | none => s
  | some r =>
    let text := lookup (String.ofList r.name.reverse)
    { s with reference := none, value := text.toList.reverse ++ s.value }

def inReference (lookup : String → String) (s : ValueState) (r : Reference) (c : Char) :
    ValueState :=
  if isAlphanumeric c then { s with reference := some { r with name := c :: r.name } }
  else if r.braced then
    if c = '\x7d' then s.resolve lookup
    else { s with reference := some { r with name := c :: r.name } }
  else if c = '\x7b' && r.name.isEmpty then { s with reference := some { r with braced := true } }
  else
    let s := s.resolve lookup
    if c = '$' then { s with reference := some {} } else s.push c

/-- The next character of a value; `none` where it cannot be read. -/
def step (lookup : String → String) (s : ValueState) (c : Char) : Option ValueState :=
  if s.ended then
    if c = ' ' || c = '\t' then some s else none
  else if s.escaped then
    if c ∈ ['\\', '\'', '"', '$', ' '] then some { s.push c with escaped := false }
    else if c = 'n' then some { s.push '\n' with escaped := false }
    else none
  else if s.strong then
    if c = '\'' then some { s with strong := false } else some (s.push c)
  else
    match s.reference with
    | some r => some (s.inReference lookup r c)
    | none =>
      if c = '$' then some { s with reference := some {} }
      else if c = '\\' then some { s with escaped := true }
      else if s.weak then
        if c = '"' then some { s with weak := false } else some (s.push c)
      else if c = '\'' then some { s with strong := true }
      else if c = '"' then some { s with weak := true }
      else if c = ' ' || c = '\t' then some { s with ended := true }
      else some (s.push c)

/-- Reads the characters of a value up to a comment. -/
def run (lookup : String → String) (s : ValueState) : List Char → Option ValueState
  | [] => some s
  | c :: cs =>
    if s.ended && c == '#' then some s
    else
      match s.step lookup c with
      | some s => run lookup s cs
      | none => none

/-- The value, unless something is still open. -/
def finish (lookup : String → String) (s : ValueState) : Option String :=
  if s.strong || s.weak || s.reference.any (·.braced) then none
  else some (String.ofList (s.resolve lookup).value.reverse)

end ValueState

def readValue? (lookup : String → String) (cs : List Char) : Option String := do
  (← ValueState.run lookup {} cs).finish lookup

/-! ## Assignments -/

def isNameStart (c : Char) : Bool := c.isAlpha || c == '_'

def isNamePart (c : Char) : Bool := c.isAlphanum || c == '_' || c == '.'

def readName? : List Char → Option (String × List Char)
  | [] => none
  | c :: cs =>
    if isNameStart c then
      some (String.ofList (c :: cs.takeWhile isNamePart), trimStart (cs.dropWhile isNamePart))
    else none

def readEquals? : List Char → Option (List Char)
  | '=' :: cs => some (trimStart cs)
  | _ => none

/-- The name of a line and the text of its value. The word `export` may go before a name. -/
def readAssignment? (cs : List Char) : Option (String × List Char) := do
  let (name, rest) ← readName? cs
  match readEquals? rest with
  | some value => pure (name, value)
  | none =>
    guard (name == "export")
    let (name, rest) ← readName? rest
    pure (name, ← readEquals? rest)

/-- What a line assigns, if it does; `none` where it cannot be read. -/
def readLine? (lookup : String → String) (line : List Char) : Option (Option (String × String)) :=
  let cs := trimStart (trimEnd line)
  if cs.isEmpty || cs.head? == some '#' then some none
  else do
    let (name, value) ← readAssignment? cs
    if value.isEmpty || value.head? == some '#' then pure (some (name, ""))
    else pure (some (name, ← readValue? lookup value))

/-- The assignments of the lines, up to the first one that cannot be read. A value refers to
variables in `env` and, where they are not set there, to those of earlier lines. -/
def assignmentsOf (env : Environment) : List (Option (List Char)) → List (String × String)
  | [] | none :: _ => []
  | some line :: lines =>
    match readLine? (fun name => (env.lookup name).getD "") line with
    | none => []
    | some none => assignmentsOf env lines
    | some (some assignment) => assignment :: assignmentsOf (env ++ [assignment]) lines

/-- The assignments of an environment file, which may start with a byte order mark. -/
def assignments (env : Environment) (file : String) : List (String × String) :=
  let cs :=
    match file.toList with
    | '\ufeff' :: cs => cs
    | cs => cs
  assignmentsOf env (joinLines [] .none (splitLines cs))

/-- The words of an environment file. The names that it sets or refers to are among them. -/
def words (file : String) : List String :=
  [isNamePart, isAlphanumeric].flatMap fun isPart =>
    (file.toList.splitBy fun a b => isPart a == isPart b).map String.ofList

/-- The environment after an environment file. What is set already stays, since it comes first. -/
def load (env : Environment) (file : String) : Environment := env ++ assignments env file

/-- The first assignment that would set a variable to a value with a NUL character, which no
variable can have. -/
def unsettable? (env : Environment) : List (String × String) → Option (String × String)
  | [] => none
  | (name, value) :: more =>
    if (env.lookup name).isNone ∧ '\x00' ∈ value.toList then some (name, value)
    else unsettable? (env ++ [(name, value)]) more

end Environment

end RowScript

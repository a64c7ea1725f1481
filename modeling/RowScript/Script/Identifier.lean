/-!
# Identifiers of generated functions

Parameters are columns, and temporaries are `__v0`, `__v1` and so on. A column
is refused as a parameter if its name is a reserved word, a global that
generated text calls, or shaped like a temporary.
-/

namespace RowScript.Script

/-- Letters are the ASCII ones, here and in `isIdentifierPart`. -/
def isIdentifierStart (c : Char) : Bool := c == '_' || c == '$' || c.isAlpha

def isIdentifierPart (c : Char) : Bool := c == '_' || c == '$' || c.isAlphanum

/-- The shape of an identifier; reserved words have it too. -/
def isIdentifier (name : String) : Bool :=
  match name.toList with
  | [] => false
  | c :: cs => isIdentifierStart c && cs.all isIdentifierPart

/-- Reserved words, and the globals that generated text relies on. -/
def reserved : List String := [
  "break", "case", "catch", "class", "const", "continue", "debugger", "default", "delete", "do",
  "else", "enum", "export", "extends", "false", "finally", "for", "function", "if", "implements",
  "import", "in", "instanceof", "interface", "let", "new", "null", "package", "private",
  "protected", "public", "return", "static", "super", "switch", "this", "throw", "true", "try",
  "typeof", "var", "void", "while", "with", "yield", "undefined", "NaN", "Infinity", "arguments",
  "eval", "Boolean", "Date", "Math", "Number", "String", "parseFloat", "parseInt"]

/-! ## Temporaries -/

def temporaryMark : String := "__v"

/-- The name of the temporary that is handed out after `n` others. -/
def temporaryName (n : Nat) : String := temporaryMark ++ toString n

/-- The mark of a temporary and digits, whatever number they write. -/
def isTemporaryName (name : String) : Bool :=
  match name.toList with
  | '_' :: '_' :: 'v' :: digits => !digits.isEmpty && digits.all Char.isDigit
  | _ => false

/-- Whether a column of this name can be a parameter. -/
def isUsable (name : String) : Bool :=
  isIdentifier name && !reserved.contains name && !isTemporaryName name

end RowScript.Script

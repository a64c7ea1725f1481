import RowScript.Expr
import RowScript.Json.Number
import RowScript.Json.Parser
import RowScript.Json.Printer
import RowScript.Members

/-!
# Expression texts

An expression is an object with the member `kind`, the members that belong to
that kind, and the annotation `type`. Reading takes them in any order and
ignores members that the kind does not know; a known one may not be repeated.
Names of types, fields and operators may be wrapped as `{"Long": null}` or
`{"Long": {}}`, the annotation of a whole text only as the former. Writing gives
the members in a fixed order, so an expression has one canonical text.
-/

namespace RowScript

def DataType.toJson (t : DataType) : Json := .string t.name

def DataType.ofJson? (v : Json) : Option DataType := v.tag?.bind ofName?

def DataType.ofOpenJson? (v : Json) : Option DataType := v.openTag?.bind ofName?

theorem DataType.ofJson?_toJson (t : DataType) : ofJson? t.toJson = some t := ofName?_name t

theorem DataType.ofOpenJson?_toJson (t : DataType) : ofOpenJson? t.toJson = some t := ofName?_name t

def DateField.toJson (f : DateField) : Json := .string f.name

def DateField.ofJson? (v : Json) : Option DateField := v.tag?.bind ofName?

def DateField.ofOpenJson? (v : Json) : Option DateField := v.openTag?.bind ofName?

theorem DateField.ofOpenJson?_toJson (f : DateField) : ofOpenJson? f.toJson = some f :=
  ofName?_name f

def ArithOp.toJson (op : ArithOp) : Json := .string op.name

def ArithOp.ofJson? (v : Json) : Option ArithOp := v.tag?.bind ofName?

def ArithOp.ofOpenJson? (v : Json) : Option ArithOp := v.openTag?.bind ofName?

theorem ArithOp.ofOpenJson?_toJson (op : ArithOp) : ofOpenJson? op.toJson = some op :=
  ofName?_name op

namespace Expr

/-- A kind is written as its name or as its index. -/
def Kind.ofJson? : Json → Option Kind
  | .string s => ofName? s
  | .number n => n.toNat?.bind (all[·]?)
  | _ => none

/-! ## Writing -/

def nodeJson (kind : Kind) (own : List (String × Json)) (type : DataType) : Json :=
  .object (("kind", .string kind.name) :: (own ++ [("type", type.toJson)]))

mutual

def toJson : Expr → Json
  | .column name t => nodeJson .column [("name", .string name)] t
  | .literal (some value) t => nodeJson .literal [("value", .string value)] t
  | .literal none t => nodeJson .literal [] t
  | .cast e t => nodeJson .cast [("expr", toJson e)] t
  | .concat args t => nodeJson .concat [("args", .array (toJsons args))] t
  | .upper e t => nodeJson .upper [("expr", toJson e)] t
  | .lower e t => nodeJson .lower [("expr", toJson e)] t
  | .substring e position length t =>
    nodeJson .substring [("expr", toJson e), ("pos", toJson position), ("len", toJson length)] t
  | .toDate e t => nodeJson .toDate [("expr", toJson e)] t
  | .dateAdd date days t => nodeJson .dateAdd [("date", toJson date), ("days", toJson days)] t
  | .dateSub date days t => nodeJson .dateSub [("date", toJson date), ("days", toJson days)] t
  | .extract field e t => nodeJson .extract [("field", field.toJson), ("expr", toJson e)] t
  | .arithmetic op left right t =>
    nodeJson .arithmetic [("op", op.toJson), ("left", toJson left), ("right", toJson right)] t

def toJsons : List Expr → List Json
  | [] => []
  | e :: es => toJson e :: toJsons es

end

/-- The canonical text of an expression. -/
def text (e : Expr) : String := e.toJson.compact

/-! ## Reading -/

/-- A value and what it is as an expression and as a list of expressions. -/
structure Reading where
  json : Json
  expr? : Option Expr := none
  exprs? : Option (List Expr) := none

/-- The text of a literal: a string, null, or no member at all. -/
def literalValue? (ms : List (String × Reading)) : Option (Option String) :=
  match valuesOf "value" ms with
  | [] => some none
  | [{ json := .null, .. }] => some none
  | [{ json := .string s, .. }] => some (some s)
  | _ => none

/-- The expression of one kind, whose own members are among those that have been read. -/
def ofKind? (ms : List (String × Reading)) (t : DataType) (kind : Kind) : Option Expr := do
  let operand? (name : String) : Option Expr := do (← uniqueValue? name ms).expr?
  match kind with
  | .column => pure (.column (← (← uniqueValue? "name" ms).json.string?) t)
  | .literal => pure (.literal (← literalValue? ms) t)
  | .cast => pure (.cast (← operand? "expr") t)
  | .concat => pure (.concat (← (← uniqueValue? "args" ms).exprs?) t)
  | .upper => pure (.upper (← operand? "expr") t)
  | .lower => pure (.lower (← operand? "expr") t)
  | .substring => pure (.substring (← operand? "expr") (← operand? "pos") (← operand? "len") t)
  | .toDate => pure (.toDate (← operand? "expr") t)
  | .dateAdd => pure (.dateAdd (← operand? "date") (← operand? "days") t)
  | .dateSub => pure (.dateSub (← operand? "date") (← operand? "days") t)
  | .extract =>
    pure (.extract (← DateField.ofOpenJson? (← uniqueValue? "field" ms).json) (← operand? "expr") t)
  | .arithmetic =>
    pure (.arithmetic (← ArithOp.ofOpenJson? (← uniqueValue? "op" ms).json)
      (← operand? "left") (← operand? "right") t)

/-- The expression of an object whose members have been read, where `readType?` reads its
annotation. -/
def ofMembers? (readType? : Json → Option DataType) (ms : List (String × Reading)) :
    Option Expr := do
  let kind ← Kind.ofJson? (← uniqueValue? "kind" ms).json
  let t ← readType? (← uniqueValue? "type" ms).json
  ofKind? ms t kind

mutual

/-- Reads a value that is part of an expression. -/
def read : Json → Reading
  | .object ms => { json := .object ms, expr? := ofMembers? DataType.ofOpenJson? (readMembers ms) }
  | .array vs => { json := .array vs, exprs? := readAll? vs }
  | v => { json := v }

def readMembers : List (String × Json) → List (String × Reading)
  | [] => []
  | (name, v) :: ms => (name, read v) :: readMembers ms

def readAll? : List Json → Option (List Expr)
  | [] => some []
  | v :: vs =>
    match (read v).expr?, readAll? vs with
    | some e, some es => some (e :: es)
    | _, _ => none

end

/-- Reads a value that is a whole expression. -/
def ofJson? : Json → Option Expr
  | .object ms => ofMembers? DataType.ofJson? (readMembers ms)
  | _ => none

/-- Reads an expression text. Its numbers have to be within range, also those that are ignored. -/
def parse? (text : String) : Option Expr := do
  let v ← Json.parse? Json.depthLimit text
  guard v.isFinite
  ofJson? v

end Expr

end RowScript

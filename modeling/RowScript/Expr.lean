import RowScript.DataType

/-!
# Expressions

A scalar expression over the columns of one row, as a query planner hands it
over. Every node carries the type that the planner gave it, as its last field.
For `cast` that is the target and for `literal` the type of the value.
-/

namespace RowScript

/-- The part of a date that `extract` reads. -/
inductive DateField where
  | year | month | hour | minute | second
  deriving DecidableEq, Repr, Inhabited

namespace DateField

def all : List DateField := [year, month, hour, minute, second]

def name : DateField → String
  | year => "year"
  | month => "month"
  | hour => "hour"
  | minute => "minute"
  | second => "second"

def ofName? (s : String) : Option DateField := all.find? (·.name == s)

theorem ofName?_name (f : DateField) : ofName? f.name = some f := by cases f <;> decide

theorem name_of_ofName? {s : String} {f : DateField} (h : ofName? s = some f) : f.name = s := by
  simpa using List.find?_some h

end DateField

inductive ArithOp where
  | add | sub | mul | div | mod
  deriving DecidableEq, Repr, Inhabited

namespace ArithOp

def all : List ArithOp := [add, sub, mul, div, mod]

def name : ArithOp → String
  | add => "Add"
  | sub => "Sub"
  | mul => "Mul"
  | div => "Div"
  | mod => "Mod"

/-- The operator in generated text. -/
def symbol : ArithOp → String
  | add => "+"
  | sub => "-"
  | mul => "*"
  | div => "/"
  | mod => "%"

def ofName? (s : String) : Option ArithOp := all.find? (·.name == s)

theorem ofName?_name (op : ArithOp) : ofName? op.name = some op := by cases op <;> decide

theorem name_of_ofName? {s : String} {op : ArithOp} (h : ofName? s = some op) : op.name = s := by
  simpa using List.find?_some h

end ArithOp

inductive Expr where
  | column (name : String) (type : DataType)
  /-- The source text of a value; `none` is the null of the query language. -/
  | literal (value : Option String) (type : DataType)
  | cast (operand : Expr) (type : DataType)
  | concat (args : List Expr) (type : DataType)
  | upper (operand : Expr) (type : DataType)
  | lower (operand : Expr) (type : DataType)
  | substring (operand position length : Expr) (type : DataType)
  | toDate (operand : Expr) (type : DataType)
  | dateAdd (date days : Expr) (type : DataType)
  | dateSub (date days : Expr) (type : DataType)
  | extract (field : DateField) (operand : Expr) (type : DataType)
  | arithmetic (op : ArithOp) (left right : Expr) (type : DataType)
  deriving Repr, Inhabited

namespace Expr

/-- The annotation of the outermost node. -/
def type : Expr → DataType
  | column _ t | literal _ t | cast _ t | concat _ t | upper _ t | lower _ t
  | substring _ _ _ t | toDate _ t | dateAdd _ _ t | dateSub _ _ t | extract _ _ t
  | arithmetic _ _ _ t => t

/-! ## Kinds -/

/-- The outermost node of an expression, without its parts. -/
inductive Kind where
  | column | literal | cast | concat | upper | lower
  | substring | toDate | dateAdd | dateSub | extract | arithmetic
  deriving DecidableEq, Repr, Inhabited

namespace Kind

/-- Every kind, in the order of their index in expression texts. -/
def all : List Kind :=
  [column, literal, cast, concat, upper, lower,
    substring, toDate, dateAdd, dateSub, extract, arithmetic]

/-- The name in expression texts and in the log. -/
def name : Kind → String
  | column => "column"
  | literal => "literal"
  | cast => "cast"
  | concat => "concat"
  | upper => "upper"
  | lower => "lower"
  | substring => "substring"
  | toDate => "to_date"
  | dateAdd => "date_add"
  | dateSub => "date_sub"
  | extract => "extract"
  | arithmetic => "arithmetic"

def ofName? (s : String) : Option Kind := all.find? (·.name == s)

theorem ofName?_name (k : Kind) : ofName? k.name = some k := by cases k <;> decide

theorem name_of_ofName? {s : String} {k : Kind} (h : ofName? s = some k) : k.name = s := by
  simpa using List.find?_some h

end Kind

def kind : Expr → Kind
  | column .. => .column
  | literal .. => .literal
  | cast .. => .cast
  | concat .. => .concat
  | upper .. => .upper
  | lower .. => .lower
  | substring .. => .substring
  | toDate .. => .toDate
  | dateAdd .. => .dateAdd
  | dateSub .. => .dateSub
  | extract .. => .extract
  | arithmetic .. => .arithmetic

def isLiteral (e : Expr) : Bool := e.kind == .literal

/-! ## Nodes with the type that their meaning gives them -/

def ofValue (value : String) (type : DataType) : Expr := literal (some value) type

def nullValue : Expr := literal none .null

def concatOf (args : List Expr) : Expr := concat args .string

def upperOf (e : Expr) : Expr := upper e .string

def lowerOf (e : Expr) : Expr := lower e .string

def substringOf (e position length : Expr) : Expr := substring e position length .string

def toDateOf (e : Expr) : Expr := toDate e .date

def dateAddOf (date days : Expr) : Expr := dateAdd date days .date

def dateSubOf (date days : Expr) : Expr := dateSub date days .date

def extractOf (field : DateField) (e : Expr) : Expr := extract field e .integer

/-! ## Equality -/

mutual

def same : Expr → Expr → Bool
  | column n t, column n' t' => n == n' && t == t'
  | literal v t, literal v' t' => v == v' && t == t'
  | cast e t, cast e' t' => same e e' && t == t'
  | concat es t, concat es' t' => sameAll es es' && t == t'
  | upper e t, upper e' t' => same e e' && t == t'
  | lower e t, lower e' t' => same e e' && t == t'
  | substring e p l t, substring e' p' l' t' => same e e' && same p p' && same l l' && t == t'
  | toDate e t, toDate e' t' => same e e' && t == t'
  | dateAdd d n t, dateAdd d' n' t' => same d d' && same n n' && t == t'
  | dateSub d n t, dateSub d' n' t' => same d d' && same n n' && t == t'
  | extract f e t, extract f' e' t' => f == f' && same e e' && t == t'
  | arithmetic op l r t, arithmetic op' l' r' t' =>
    op == op' && same l l' && same r r' && t == t'
  | _, _ => false

def sameAll : List Expr → List Expr → Bool
  | [], [] => true
  | e :: es, e' :: es' => same e e' && sameAll es es'
  | _, _ => false

end

mutual

theorem same_iff_eq : (e e' : Expr) → (same e e' = true ↔ e = e')
  | column .., e' | literal .., e' => by cases e' <;> simp [same]
  | cast e _, e' | upper e _, e' | lower e _, e' | toDate e _, e' | extract _ e _, e' => by
    cases e' <;> simp [same, same_iff_eq e, and_assoc]
  | concat es _, e' => by cases e' <;> simp [same, sameAll_iff_eq es]
  | substring e p l _, e' => by
    cases e' <;> simp [same, same_iff_eq e, same_iff_eq p, same_iff_eq l, and_assoc]
  | dateAdd d n _, e' | dateSub d n _, e' => by
    cases e' <;> simp [same, same_iff_eq d, same_iff_eq n, and_assoc]
  | arithmetic _ l r _, e' => by
    cases e' <;> simp [same, same_iff_eq l, same_iff_eq r, and_assoc]

theorem sameAll_iff_eq : (es es' : List Expr) → (sameAll es es' = true ↔ es = es')
  | [], es' => by cases es' <;> simp [sameAll]
  | e :: es, es' => by cases es' <;> simp [sameAll, same_iff_eq e, sameAll_iff_eq es]

end

instance : DecidableEq Expr := fun e e' => decidable_of_iff _ (same_iff_eq e e')

end Expr

end RowScript

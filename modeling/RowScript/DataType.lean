/-!
# Types of values

Every expression has one of ten types. The integral and the fractional types
together are the numeric ones; which casts exist is decided in `Coercion`.
-/

namespace RowScript

inductive DataType where
  | short | integer | long
  | float | double
  | string
  | boolean
  | date | timestamp
  | null
  deriving DecidableEq, Repr, Inhabited

namespace DataType

/-- Every type, in the order of their index. -/
def all : List DataType :=
  [short, integer, long, float, double, string, boolean, date, timestamp, null]

/-- The position in `all`. -/
def index (t : DataType) : Nat := all.idxOf t

def isIntegral : DataType → Bool
  | short | integer | long => true
  | _ => false

def isFractional : DataType → Bool
  | float | double => true
  | _ => false

def isNumeric (t : DataType) : Bool := t.isIntegral || t.isFractional

/-- The name in messages and in expression texts. -/
def name : DataType → String
  | short => "Short"
  | integer => "Integer"
  | long => "Long"
  | float => "Float"
  | double => "Double"
  | string => "String"
  | boolean => "Boolean"
  | date => "Date"
  | timestamp => "Timestamp"
  | null => "Null"

def ofName? (s : String) : Option DataType := all.find? (·.name == s)

theorem ofName?_name (t : DataType) : ofName? t.name = some t := by cases t <;> decide

theorem name_of_ofName? {s : String} {t : DataType} (h : ofName? s = some t) : t.name = s := by
  simpa using List.find?_some h

end DataType

end RowScript

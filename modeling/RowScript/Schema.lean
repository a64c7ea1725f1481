import RowScript.DataType

/-!
# Columns and schemas

A schema maps the names that a query uses to columns. Names are unique and at
most one column is the time dimension, the time axis of the rows.
-/

namespace RowScript

inductive Role where
  | dimension
  /-- The time axis; in generated text it goes by its canonical name. -/
  | timeDimension
  /-- An aggregated metric, which no single row holds. -/
  | measure
  deriving DecidableEq, Repr, Inhabited

namespace Role

def all : List Role := [dimension, timeDimension, measure]

def name : Role → String
  | dimension => "dimension"
  | timeDimension => "time_dimension"
  | measure => "measure"

def ofName? (s : String) : Option Role := all.find? (·.name == s)

theorem ofName?_name (r : Role) : ofName? r.name = some r := by cases r <;> decide

theorem name_of_ofName? {s : String} {r : Role} (h : ofName? s = some r) : r.name = s := by
  simpa using List.find?_some h

end Role

/-- What a schema knows about a column. -/
structure Column where
  canonicalName : String
  role : Role
  type : DataType
  deriving DecidableEq, Repr, Inhabited

/-- A column as a schema is given it. Without a canonical name it is known by its own. -/
structure ColumnDef where
  name : String
  canonicalName : Option String := none
  role : Role
  type : DataType
  deriving DecidableEq, Repr, Inhabited

namespace ColumnDef

/-- A definition of the time dimension, which goes by its canonical name. -/
def timeDimension (name canonicalName : String) (type : DataType) : ColumnDef :=
  { name, canonicalName := some canonicalName, role := .timeDimension, type }

def toColumn (d : ColumnDef) : Column :=
  { canonicalName := d.canonicalName.getD d.name, role := d.role, type := d.type }

end ColumnDef

/-- Why a schema refuses a column. -/
inductive SchemaError where
  | duplicateColumn (name : String)
  | multipleTimeDimensions (existing added : String)
  deriving DecidableEq, Repr

def SchemaError.message : SchemaError → String
  | duplicateColumn name => "Duplicate column: " ++ name
  | multipleTimeDimensions existing added =>
    "More than one time dimension: " ++ existing ++ " and " ++ added

structure Schema where
  /-- In the order in which they were added. -/
  columns : List (String × Column) := []
  timeColumn : Option String := none
  deriving DecidableEq, Repr, Inhabited

namespace Schema

def lookup (s : Schema) (name : String) : Option Column := s.columns.lookup name

def size (s : Schema) : Nat := s.columns.length

def isEmpty (s : Schema) : Bool := s.columns.isEmpty

/-- Adds a column that no other definition stands behind. -/
def insert (s : Schema) (d : ColumnDef) : Schema where
  columns := s.columns ++ [(d.name, d.toColumn)]
  timeColumn := if d.role = .timeDimension then some d.name else s.timeColumn

/-- A name that is taken goes before a second time dimension. -/
def add (s : Schema) (d : ColumnDef) : Except SchemaError Schema :=
  if (s.lookup d.name).isSome then
    .error (.duplicateColumn d.name)
  else
    match d.role, s.timeColumn with
    | .timeDimension, some existing => .error (.multipleTimeDimensions existing d.name)
    | _, _ => .ok (s.insert d)

/-- The schema of all `defs`, or the error of the first that is refused. -/
def ofDefs (defs : List ColumnDef) : Except SchemaError Schema := defs.foldlM add {}

end Schema

end RowScript

import RowScript.Expr.Json
import RowScript.Schema

/-!
# Column definitions as JSON

A definition is an object, or an array of its four members in their order; the
canonical name may be null, and in an object it may be absent.
-/

namespace RowScript

def Role.toJson (r : Role) : Json := .string r.name

def Role.ofJson? (v : Json) : Option Role := v.tag?.bind ofName?

namespace ColumnDef

def toJson (d : ColumnDef) : Json :=
  .object ([("name", .string d.name)] ++
    (match d.canonicalName with
      | none => []
      | some canonicalName => [("canonical_name", .string canonicalName)]) ++
    [("role", d.role.toJson), ("data_type", d.type.toJson)])

/-- The definition as an array of its members. -/
def toJsonArray (d : ColumnDef) : Json :=
  .array [.string d.name, (d.canonicalName.map Json.string).getD .null, d.role.toJson, d.type.toJson]

def canonicalName? : Json → Option (Option String)
  | .null => some none
  | .string s => some (some s)
  | _ => none

def ofParts? (name canonicalName role type : Json) : Option ColumnDef := do
  pure {
    name := ← name.string?
    canonicalName := ← canonicalName? canonicalName
    role := ← Role.ofJson? role
    type := ← DataType.ofJson? type }

def ofJson? : Json → Option ColumnDef
  | .object ms => do
    let canonicalName ←
      match valuesOf "canonical_name" ms with
      | [] => some .null
      | [v] => some v
      | _ => none
    ofParts? (← uniqueValue? "name" ms) canonicalName
      (← uniqueValue? "role" ms) (← uniqueValue? "data_type" ms)
  | .array [name, canonicalName, role, type] => ofParts? name canonicalName role type
  | _ => none

end ColumnDef

/-- The definitions of an array. -/
def columnDefs? : Json → Option (List ColumnDef)
  | .array vs => vs.mapM ColumnDef.ofJson?
  | _ => none

end RowScript

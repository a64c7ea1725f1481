/-!
# Values of JSON texts

Objects keep their members as they were written, in order and with repetitions:
what a repeated member means is for the format that is read from the value.
Numbers keep their digits. They are only ever ignored or read as an index.
-/

namespace RowScript

namespace Json

/-- A number as it is written: sign, digits before the point, digits after it, exponent. -/
structure Number where
  negative : Bool := false
  whole : List Char
  /-- Empty when there is no point. -/
  fraction : List Char := []
  exponent : Option (Bool × List Char) := none
  deriving DecidableEq, Repr, Inhabited

end Json

inductive Json where
  | null
  | bool (b : Bool)
  | number (n : Json.Number)
  | string (s : String)
  | array (elements : List Json)
  | object (members : List (String × Json))
  deriving Repr, Inhabited

namespace Json

def digitValue (c : Char) : Nat := c.toNat - '0'.toNat

/-- The number that decimal digits write. -/
def digitsValue (ds : List Char) : Nat := ds.foldl (fun n c => 10 * n + digitValue c) 0

def Number.ofNat (n : Nat) : Number := { whole := Nat.toDigits 10 n }

/-- The value of a number that is written with digits alone. -/
def Number.toNat? (n : Number) : Option Nat :=
  if n.negative || !n.fraction.isEmpty || n.exponent.isSome then none
  else some (digitsValue n.whole)

def ofNat (n : Nat) : Json := .number (.ofNat n)

def strings (ss : List String) : Json := .array (ss.map .string)

def string? : Json → Option String
  | .string s => some s
  | _ => none

def strings? : Json → Option (List String)
  | .array vs => vs.mapM string?
  | _ => none

/-- The name that a value of an enumeration stands for: a string, or an object
whose only member is that name and has no content. -/
def tag? : Json → Option String
  | .string s => some s
  | .object [(s, .null)] => some s
  | _ => none

/-- As `tag?`, where an object without members counts as no content too. -/
def openTag? : Json → Option String
  | .object [(s, .object [])] => some s
  | v => v.tag?

end Json

end RowScript

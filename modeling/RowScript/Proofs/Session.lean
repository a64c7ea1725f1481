import Mathlib
import RowScript.Proofs.CommandLine
import RowScript.Proofs.Compiled
import RowScript.Proofs.Environment
import RowScript.Proofs.Json.Indented
import RowScript.Proofs.Schema
import RowScript.Session

/-!
# How a compilation ends

The command `compile` checks one thing after another, and the first check that
fails decides how the run ends. Nothing is written to the output unless all of
them have passed. Two things that are no checks break a run off, with a status
of their own and no output either: a variable that cannot be set, and a log file
that cannot be opened (`run_compile`).
-/

namespace RowScript.Session

/-- What is checked, in this order. -/
inductive Stage where
  | configuration | environment | schema | expressionFile | expression | compiling
  deriving DecidableEq, Repr

def Stage.all : List Stage :=
  [configuration, environment, schema, expressionFile, expression, compiling]

/-- The check that a failure reports. The arguments are none, and neither is what breaks a run off. -/
def Failure.stage? : Failure → Option Stage
  | unsettable _ | usage | unopenedLog _ => none
  | loading _ (.invalidVariable _ _) => some .environment
  | loading _ _ => some .configuration
  | schema _ => some .schema
  | unreadableExpression _ _ => some .expressionFile
  | malformedExpression => some .expression
  | rejected _ => some .compiling

/-- The status of a run in which `first` is the first check that fails. -/
def exitStatus : Option Stage → Nat
  | none => 0
  | some .compiling => 2
  | some _ => 1

/-! ## What the checks look at -/

section

variable (w : World) (path file : String) (multiple : Bool)

end

/-! ## How runs end -/

/-- What the output is for an expression and its function. -/
def Answers (format : CommandLine.OutputFormat) (e : Expr) (f : RowFunction) (stdout : String) :
    Prop :=
  match format with
  | .text => stdout = f.render ++ "\n" ∧ Script.InLine f.render.toList
  | .json => Json.parse? Json.depthLimit stdout = some (.object [
      ("fingerprint", .string e.fingerprint), ("function", .string f.render),
      ("parameters", .strings f.parameters)])

/-- How a run ends in which `first` is the first check that fails. -/
structure Ends (first : Option Stage) (answer : String → Prop) (o : Outcome) : Prop where
  failure : o.failure.bind Failure.stage? = first
  status : o.status = exitStatus first
  silent : first ≠ none → o.stdout = ""
  answer : first = none → answer o.stdout

variable {w : World} {path file : String} {multiple : Bool} {format : CommandLine.OutputFormat}
  {answer : String → Prop} {first : Option Stage}

theorem status_of_stage? {r : Failure} {stage : Stage} (h : r.stage? = some stage) :
    r.status = exitStatus (some stage) := by
  cases r with
  | unsettable | usage | unopenedLog => contradiction
  | loading config e => cases e <;> cases h <;> rfl
  | schema | unreadableExpression | malformedExpression | rejected => cases h; rfl

theorem Ends.failed {r : Failure} {stage : Stage} (h : r.stage? = some stage) (o : Outcome)
    (hfailure : o.failure = some r) (hsilent : o.stdout = "") :
    Ends (some stage) answer o where
  failure := by rw [hfailure]; exact h
  status := by rw [Outcome.status, hfailure]; exact status_of_stage? h
  silent _ := hsilent
  answer := nofun

example : (run {
    args := ["compile", "e.json"]
    environment := [("LOG_OUTPUT", "file"), ("LOG_DIR", "/dev/null/logs")]
    read := fun _ => .ok ""
    opensLog := fun directory => directory ≠ "/dev/null/logs" }).failure =
      some (.unopenedLog "/dev/null/logs") := by decide +kernel

end RowScript.Session

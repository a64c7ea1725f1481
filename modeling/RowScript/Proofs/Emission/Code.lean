import RowScript.Emission
import RowScript.Proofs.Script.Names
import RowScript.Proofs.Script.Receiver

/-!
# The code of an expression

What an emission amounts to, without its state: which expressions can be
compiled (`Expr.Compiles`), the type of a value (`Expr.typeIn`), and the trees
of the statements and of the value (`Expr.code`). Each is a recursion over the
expression; temporaries are numbered from a given number on, in the order in
which their nodes end.
-/

namespace RowScript

open Emission (Binding Direction)
open Script (Tree Statement temporaryName)

/-! ## Trees of conversions and fields -/

namespace Script.Tree

def invoke (t : Tree) (name : String) (args : List Tree) : Tree :=
  .call (.member t.receiver name) args

def callGlobal (name : String) (args : List Tree) : Tree := .call (.word name) args

def newDate (t : Tree) : Tree := .create (.word "Date") [t]

end Script.Tree

namespace Conversion

def tree : Conversion → Tree → Tree
  | keep, t => t
  | parseFloat, t => .callGlobal "parseFloat" [t]
  | parseInt, t => .callGlobal "parseInt" [t, .number "10"]
  | toNumber, t => .callGlobal "Number" [t]
  | toBoolean, t => .callGlobal "Boolean" [t]
  | toText, t => t.invoke "toString" []
  | dateText, t => t.invoke "toISOString" []
  | dayText, t => .call (.member (t.invoke "toISOString" []) "substring") [.number "0", .number "10"]
  | epochOfDate, t => t.invoke "getTime" []
  | epochOfValue, t => .call (.member (.newDate t) "getTime") []
  | dateOfValue, t => .newDate t
  | dateOfNumber, t => .newDate (.callGlobal "parseFloat" [t])
  | dateCopy, t => .newDate (t.invoke "getTime" [])

/-- A conversion that may be missing; nothing compiles where one is. -/
def treeOf (c : Option Conversion) : Tree → Tree := (c.getD keep).tree

end Conversion

def DateField.tree (date : Tree) : DateField → Tree
  | year => date.invoke "getUTCFullYear" []
  | month => .group (.binary .add (date.invoke "getUTCMonth" []) (.number "1"))
  | hour => date.invoke "getUTCHours" []
  | minute => date.invoke "getUTCMinutes" []
  | second => date.invoke "getUTCSeconds" []

def Emission.Direction.op : Direction → ArithOp
  | later => .add
  | earlier => .sub

/-! ## Expressions as a whole -/

namespace Expr

/-- Induction over expressions, in which arguments count as operands. -/
@[induction_eliminator, elab_as_elim]
theorem induction {motive : Expr → Prop} (column : ∀ name type, motive (.column name type))
    (literal : ∀ value type, motive (.literal value type))
    (cast : ∀ e type, motive e → motive (.cast e type))
    (concat : ∀ args type, (∀ a ∈ args, motive a) → motive (.concat args type))
    (upper : ∀ e type, motive e → motive (.upper e type))
    (lower : ∀ e type, motive e → motive (.lower e type))
    (substring : ∀ e position length type, motive e → motive position → motive length →
      motive (.substring e position length type))
    (toDate : ∀ e type, motive e → motive (.toDate e type))
    (dateAdd : ∀ date days type, motive date → motive days → motive (.dateAdd date days type))
    (dateSub : ∀ date days type, motive date → motive days → motive (.dateSub date days type))
    (extract : ∀ field e type, motive e → motive (.extract field e type))
    (arithmetic : ∀ op left right type, motive left → motive right →
      motive (.arithmetic op left right type)) (e : Expr) : motive e := by
  refine @Expr.rec motive (fun args => ∀ a ∈ args, motive a) column literal cast concat upper lower
    substring toDate dateAdd dateSub extract arithmetic ?_ ?_ e
  · intro a ha
    cases ha
  · intro e args he hargs a ha
    rcases List.mem_cons.mp ha with rfl | ha
    · exact he
    · exact hargs a ha

/-- The type of the value, whatever the annotations of columns and functions say. -/
def typeIn (scope : Scope) : Expr → DataType
  | column name _ => ((scope.lookup name).map Column.type).getD .null
  | literal none _ => .null
  | literal (some _) type | cast _ type | arithmetic _ _ _ type => type
  | concat _ _ | upper _ _ | lower _ _ | substring _ _ _ _ => .string
  | toDate _ _ | dateAdd _ _ _ | dateSub _ _ _ => .date
  | extract _ _ _ => .integer

/-- Whether only the calendar day of the value counts. -/
def isDay : Expr → Bool
  | toDate _ _ => true
  | cast e type => decide (type = .date) && e.isDay
  | _ => false

mutual

/-- How many temporaries are handed out. -/
def temporaries : Expr → Nat
  | column _ _ | literal _ _ => 0
  | cast e _ | upper e _ | lower e _ | extract _ e _ => e.temporaries
  | concat args _ => temporariesOf args
  | substring e position length _ => e.temporaries + position.temporaries + length.temporaries
  | toDate e _ => e.temporaries + 1
  | dateAdd date days _ | dateSub date days _ => date.temporaries + days.temporaries + 1
  | arithmetic _ left right _ => left.temporaries + right.temporaries

def temporariesOf : List Expr → Nat
  | [] => 0
  | e :: es => e.temporaries + temporariesOf es

end

/-- The identifier by which generated text refers to a column. -/
def identifierIn (scope : Scope) (name : String) : String :=
  ((scope.lookup name).map (Emission.identifier name)).getD name

theorem identifierIn_of_lookup {scope : Scope} {name : String} {c : Column}
    (h : scope.lookup name = some c) : identifierIn scope name = Emission.identifier name c := by
  rw [identifierIn, h, Option.map_some, Option.getD_some]

mutual

/-- The identifiers of the columns, from left to right and as often as they occur. -/
def identifiers (scope : Scope) : Expr → List String
  | column name _ => [identifierIn scope name]
  | literal _ _ => []
  | cast e _ | upper e _ | lower e _ | extract _ e _ | toDate e _ => e.identifiers scope
  | concat args _ => identifiersOf scope args
  | substring e position length _ =>
    e.identifiers scope ++ position.identifiers scope ++ length.identifiers scope
  | dateAdd date days _ | dateSub date days _ => date.identifiers scope ++ days.identifiers scope
  | arithmetic _ left right _ => left.identifiers scope ++ right.identifiers scope

def identifiersOf (scope : Scope) : List Expr → List String
  | [] => []
  | e :: es => e.identifiers scope ++ identifiersOf scope es

end

mutual

/-- The temporaries that are handed out after `n` others, with what they are bound to. -/
def bindings (scope : Scope) (n : Nat) : Expr → List Binding
  | column _ _ | literal _ _ => []
  | cast e _ | upper e _ | lower e _ | extract _ e _ => e.bindings scope n
  | concat args _ => bindingsOf scope n args
  | substring e position length _ =>
    e.bindings scope n ++ position.bindings scope (n + e.temporaries) ++
      length.bindings scope (n + e.temporaries + position.temporaries)
  | toDate e _ =>
    e.bindings scope n ++ [.day (temporaryName (n + e.temporaries)) (e.typeIn scope)]
  | dateAdd date days _ =>
    date.bindings scope n ++ days.bindings scope (n + date.temporaries) ++
      [.shift (temporaryName (n + date.temporaries + days.temporaries)) .dateAdd]
  | dateSub date days _ =>
    date.bindings scope n ++ days.bindings scope (n + date.temporaries) ++
      [.shift (temporaryName (n + date.temporaries + days.temporaries)) .dateSub]
  | arithmetic _ left right _ =>
    left.bindings scope n ++ right.bindings scope (n + left.temporaries)

def bindingsOf (scope : Scope) (n : Nat) : List Expr → List Binding
  | [] => []
  | e :: es => e.bindings scope n ++ bindingsOf scope (n + e.temporaries) es

end

/-! ## Expressions that can be compiled -/

/-- Whether a literal has a value that its type allows. -/
def isLegal (value : Option String) (type : DataType) : Bool :=
  match value with
  | none => true
  | some text =>
    if type.isNumeric then Script.isNumberText type.isIntegral text
    else if type = .boolean then text = "true" || text = "false"
    else true

/-- How the value of an expression becomes one of type `target`. -/
def conversionTo (scope : Scope) (e : Expr) (target : DataType) : Option Conversion :=
  conversion? (e.typeIn scope) target e.isDay

mutual

/-- Every node finds what it needs in its operands. What functions may read is not asked for. -/
def Compiles (scope : Scope) : Expr → Prop
  | column name _ => ∃ c, scope.lookup name = some c ∧ c.role ≠ .measure ∧
      Script.isUsable (Emission.identifier name c) = true
  | literal value type => isLegal value type = true
  | cast e type => e.Compiles scope ∧ (e.conversionTo scope type).isSome = true
  | concat args _ => args ≠ [] ∧ AllCompile scope args
  | upper e _ | lower e _ => e.Compiles scope ∧ e.typeIn scope = .string
  | substring e position length _ =>
    e.Compiles scope ∧ (e.conversionTo scope .string).isSome = true ∧
      (position.isLiteral = true ∧ position.Compiles scope ∧
        (position.typeIn scope).isIntegral = true) ∧
      (length.isLiteral = true ∧ length.Compiles scope ∧ (length.typeIn scope).isIntegral = true)
  | toDate e _ => e.Compiles scope ∧ (ownDate? (e.typeIn scope)).isSome = true
  | dateAdd date days _ | dateSub date days _ =>
    date.Compiles scope ∧ days.Compiles scope ∧ (days.typeIn scope).isIntegral = true ∧
      (ownDate? (date.typeIn scope)).isSome = true
  | extract _ e _ => e.Compiles scope ∧ (dateLike? (e.typeIn scope)).isSome = true
  | arithmetic _ left right _ => left.Compiles scope ∧ right.Compiles scope

/-- The arguments of `concat` also have to become strings. -/
def AllCompile (scope : Scope) : List Expr → Prop
  | [] => True
  | e :: es => (e.Compiles scope ∧ (e.conversionTo scope .string).isSome = true) ∧
      AllCompile scope es

end

theorem allCompile_iff (scope : Scope) (es : List Expr) :
    AllCompile scope es ↔
      ∀ e ∈ es, e.Compiles scope ∧ (e.conversionTo scope .string).isSome = true := by
  induction es with
  | nil => simp [AllCompile]
  | cons e es ih => simp [AllCompile, ih]

end Expr

/-! ## Code -/

/-- Statements that run first, and the tree of the value that they leave. -/
structure Code where
  statements : List Statement := []
  value : Tree

namespace Code

def map (g : Tree → Tree) (c : Code) : Code := { c with value := g c.value }

def append (c d : Code) : Code where
  statements := c.statements ++ d.statements
  value := c.value.invoke "concat" [d.value]

/-- All strings of a list, the first one first. -/
def concat : List Code → Code
  | [] => { value := .word "null" }
  | c :: cs => cs.foldl append c

/-- The date of a value, at midnight, as the temporary `name`. -/
def cut (name : String) (init : Tree) (c : Code) : Code where
  statements := c.statements ++ [.declare name init,
    .evaluate ((Tree.word name).invoke "setUTCHours" [.number "0", .number "0", .number "0",
      .number "0"])]
  value := .word name

/-- A date that lies some days away from another one, as the temporary `name`. -/
def shift (direction : Direction) (name : String) (init : Tree) (date days : Code) : Code where
  statements := date.statements ++ days.statements ++ [.declare name init,
    .evaluate ((Tree.word name).invoke "setUTCDate"
      [.binary direction.op ((Tree.word name).invoke "getUTCDate" []) (.group days.value)])]
  value := .word name

end Code

namespace Expr

/-- A number; its sign is an operator. -/
def numberTree (text : String) : Tree :=
  match text.toList with
  | '-' :: digits => .negate (.number (String.ofList digits))
  | _ => .number text

def literalTree (value : Option String) (type : DataType) : Tree :=
  match value with
  | none => .word "null"
  | some text =>
    match type with
    | .null => .word "null"
    | .short | .integer | .long | .float | .double => numberTree text
    | .boolean => .word text
    | .string | .date | .timestamp => Conversion.treeOf (conversion? .string type false) (.quoted text)

mutual

/-- The code after `n` temporaries have been handed out. -/
def code (scope : Scope) (n : Nat) : Expr → Code
  | column name _ => { value := .word (identifierIn scope name) }
  | literal value type => { value := literalTree value type }
  | cast e type => (e.code scope n).map (Conversion.treeOf (e.conversionTo scope type))
  | concat args _ => Code.concat (stringCodes scope n args)
  | upper e _ => (e.code scope n).map (·.invoke "toUpperCase" [])
  | lower e _ => (e.code scope n).map (·.invoke "toLowerCase" [])
  | substring e position length _ =>
    let c := (e.code scope n).map (Conversion.treeOf (e.conversionTo scope .string))
    let p := position.code scope (n + e.temporaries)
    let l := length.code scope (n + e.temporaries + position.temporaries)
    { statements := c.statements ++ p.statements ++ l.statements
      value := c.value.invoke "substr" [p.value, l.value] }
  | toDate e _ =>
    let c := e.code scope n
    c.cut (temporaryName (n + e.temporaries))
      (Conversion.treeOf (ownDate? (e.typeIn scope)) c.value)
  | dateAdd date days _ =>
    let d := date.code scope n
    Code.shift .later (temporaryName (n + date.temporaries + days.temporaries))
      (Conversion.treeOf (ownDate? (date.typeIn scope)) d.value) d
      (days.code scope (n + date.temporaries))
  | dateSub date days _ =>
    let d := date.code scope n
    Code.shift .earlier (temporaryName (n + date.temporaries + days.temporaries))
      (Conversion.treeOf (ownDate? (date.typeIn scope)) d.value) d
      (days.code scope (n + date.temporaries))
  | extract field e _ =>
    (e.code scope n).map fun t => field.tree (Conversion.treeOf (dateLike? (e.typeIn scope)) t)
  | arithmetic op left right _ =>
    let l := left.code scope n
    let r := right.code scope (n + left.temporaries)
    { statements := l.statements ++ r.statements
      value := .binary op (.group l.value) (.group r.value) }

/-- The codes of arguments, each of them made a string. -/
def stringCodes (scope : Scope) (n : Nat) : List Expr → List Code
  | [] => []
  | e :: es => (e.code scope n).map (Conversion.treeOf (e.conversionTo scope .string)) ::
      stringCodes scope (n + e.temporaries) es

end

end Expr

end RowScript

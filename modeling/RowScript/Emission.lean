import RowScript.Coercion
import RowScript.Fragment
import RowScript.Rejection
import RowScript.Schema
import RowScript.Script.Decimal
import RowScript.Script.Identifier
import RowScript.Script.Quoted
import RowScript.Script.Receiver

/-!
# Emission of code

An expression becomes a fragment, from the leaves up. A date that is shifted or
cut to its day is an object of its own, bound to a temporary by two statements:
one makes the object and the other changes it. Everything else stays inline.

What an emission has done before it fails stays done, so its state can be
asked for in any case.
-/

namespace RowScript

/-- The columns that a function may read. -/
structure Scope where
  lookup : String → Option Column
  /-- Whether it may read more than one. -/
  multipleInputs : Bool := false

namespace Emission

/-- A temporary and the date that it has been bound to. -/
inductive Binding where
  /-- A value of type `source`, cut to its day. -/
  | day (temporary : String) (source : DataType)
  /-- A date that `callee` has shifted. -/
  | shift (temporary : String) (callee : Callee)
  deriving DecidableEq, Repr

namespace Binding

def temporary : Binding → String
  | day name _ | shift name _ => name

def isDay : Binding → Bool
  | day .. => true
  | shift .. => false

end Binding

structure State where
  /-- The identifiers of the columns that have been read, the first one first. -/
  inputs : List String := []
  /-- The temporaries that have been handed out, the first one first. -/
  bindings : List Binding := []
  deriving DecidableEq, Repr, Inhabited

namespace State

/-- The names of the temporaries of which only the calendar day counts. -/
def days (s : State) : List String := (s.bindings.filter Binding.isDay).map Binding.temporary

def isDay (s : State) (name : String) : Bool := s.days.contains name

end State

end Emission

/-- An emission changes the state, also where it fails. -/
abbrev Emission := ExceptT Rejection (StateM Emission.State)

namespace Emission

def orReject {α : Type} (x : Option α) (r : Rejection) : Emission α :=
  match x with
  | some a => pure a
  | none => throw r

/-! ## Columns -/

/-- The identifier by which generated text refers to a column. -/
def identifier (name : String) (c : Column) : String :=
  if c.role = .timeDimension then c.canonicalName else name

/-- Makes an identifier an input, unless it is one. -/
def addInput (scope : Scope) (name : String) : Emission Unit := do
  let inputs := (← get).inputs
  if inputs.contains name then
    pure ()
  else
    match inputs, scope.multipleInputs with
    | first :: _, false => throw (.multipleInputs first name)
    | _, _ => modify fun s => { s with inputs := s.inputs ++ [name] }

def column (scope : Scope) (name : String) : Emission Fragment := do
  let c ← orReject (scope.lookup name) (.unknownColumn name)
  if c.role = .measure then throw (.measureColumn name)
  let input := identifier name c
  if !Script.isUsable input then throw (.invalidIdentifier input)
  addInput scope input
  pure (.inline [] input c.type)

/-! ## Literals -/

/-- The text of a literal. One without a value or of the null type is null, and
a date or timestamp is converted from its quoted text. -/
def literal? (value : Option String) (type : DataType) : Except Rejection Fragment :=
  match value with
  | none => .ok (.inline [] "null" .null)
  | some text =>
    match type with
    | .null => .ok (.inline [] "null" .null)
    | .short | .integer | .long | .float | .double =>
      if Script.isNumberText type.isIntegral text then .ok (.inline [] text type)
      else .error (.invalidLiteral text type)
    | .boolean =>
      if text = "true" || text = "false" then .ok (.inline [] text type)
      else .error (.invalidLiteral text type)
    | .string | .date | .timestamp =>
      match coerce? (Script.quote text) .string type false with
      | some code => .ok (.inline [] code type)
      | none => .error (.unsupportedCast .string type)

/-! ## Coercion -/

/-- The fragment as one of type `target`. -/
def cast (f : Fragment) (target : DataType) : Emission Fragment := do
  if f.type = target then
    pure f
  else
    let isDay := f.boundName.any (← get).isDay
    let code ← orReject (coerce? f.valueText f.type target isDay) (.unsupportedCast f.type target)
    pure (.inline f.statements code target)

def asString (f : Fragment) : Emission Fragment := cast f .string

def expect (callee : Callee) (expected : Expectation) (holds : Bool) (f : Fragment) :
    Emission Unit :=
  if holds then pure () else throw (.operandType callee expected f.type)

def expectIntegral (callee : Callee) (f : Fragment) : Emission Unit :=
  expect callee .integral f.type.isIntegral f

/-! ## Functions of fragments -/

def appendArgument (acc arg : Fragment) : Fragment :=
  .inline (acc.statements ++ arg.statements)
    (Script.receiver acc.valueText ++ ".concat(" ++ arg.valueText ++ ")") .string

def changeCase (callee : Callee) (method : String) (f : Fragment) : Emission Fragment := do
  expect callee .string (f.type = .string) f
  pure (.inline f.statements (Script.receiver f.valueText ++ "." ++ method ++ "()") .string)

def slice (f position length : Fragment) : Fragment :=
  .inline (f.statements ++ position.statements ++ length.statements)
    (Script.receiver f.valueText ++ ".substr(" ++ position.inlineText ++ ", " ++
      length.inlineText ++ ")") .string

/-- The initial value of a temporary date. -/
def initialDate (callee : Callee) (f : Fragment) : Emission String :=
  orReject ((ownDate? f.type).map (·.apply f.valueText)) (.operandType callee .dateLike f.type)

/-- Hands out the next temporary. -/
def bindTemporary (binding : String → Binding) : Emission String := do
  let s ← get
  let name := Script.temporaryName s.bindings.length
  set { s with bindings := s.bindings ++ [binding name] }
  pure name

def declaration (name init : String) : String := "var " ++ name ++ " = " ++ init ++ ";"

/-- The date of a value, at midnight. -/
def cutToDay (f : Fragment) : Emission Fragment := do
  let init ← initialDate .toDate f
  let name ← bindTemporary (.day · f.type)
  pure (.bound name
    (f.statements ++ [declaration name init, name ++ ".setUTCHours(0, 0, 0, 0);"]) .date)

/-- Which way a date is shifted. -/
inductive Direction where
  | later | earlier
  deriving DecidableEq, Repr

def Direction.callee : Direction → Callee
  | later => .dateAdd
  | earlier => .dateSub

def Direction.sign : Direction → String
  | later => "+"
  | earlier => "-"

/-- A date that lies `days` days later or earlier. -/
def shift (direction : Direction) (date days : Fragment) : Emission Fragment := do
  expectIntegral direction.callee days
  let init ← initialDate direction.callee date
  let name ← bindTemporary (.shift · direction.callee)
  pure (.bound name
    (date.statements ++ days.statements ++
      [declaration name init,
        name ++ ".setUTCDate(" ++ name ++ ".getUTCDate() " ++ direction.sign ++
          " (" ++ days.valueText ++ "));"]) .date)

/-- The reading of a field; months count from one. -/
def fieldText (field : DateField) (date : String) : String :=
  let target := Script.receiver date
  match field with
  | .year => target ++ ".getUTCFullYear()"
  | .month => "(" ++ target ++ ".getUTCMonth() + 1)"
  | .hour => target ++ ".getUTCHours()"
  | .minute => target ++ ".getUTCMinutes()"
  | .second => target ++ ".getUTCSeconds()"

def extract (field : DateField) (f : Fragment) : Emission Fragment := do
  let date ← orReject (toDateLike? f.valueText f.type) (.operandType (.field field) .dateLike f.type)
  pure (.inline f.statements (fieldText field date) .integer)

def arithmetic (op : ArithOp) (left right : Fragment) (type : DataType) : Fragment :=
  .inline (left.statements ++ right.statements)
    ("(" ++ left.valueText ++ ") " ++ op.symbol ++ " (" ++ right.valueText ++ ")") type

/-! ## Expressions -/

mutual

/-- The code of operands is emitted in their order, and each node then checks its own. -/
def emit (scope : Scope) : Expr → Emission Fragment
  | .column name _ => column scope name
  | .literal value type => liftExcept (literal? value type)
  | .cast e type => do cast (← emit scope e) type
  | .concat args _ => concat scope none args
  | .upper e _ => do changeCase .upper "toUpperCase" (← emit scope e)
  | .lower e _ => do changeCase .lower "toLowerCase" (← emit scope e)
  | .substring e position length _ => do
    -- Both have to be literals before any code is emitted.
    if !position.isLiteral then throw (.nonLiteralArgument .substring .position)
    if !length.isLiteral then throw (.nonLiteralArgument .substring .length)
    let f ← asString (← emit scope e)
    let p ← emit scope position
    expectIntegral .substring p
    let l ← emit scope length
    expectIntegral .substring l
    pure (slice f p l)
  | .toDate e _ => do cutToDay (← emit scope e)
  | .dateAdd date days _ => do
    let d ← emit scope date
    shift .later d (← emit scope days)
  | .dateSub date days _ => do
    let d ← emit scope date
    shift .earlier d (← emit scope days)
  | .extract field e _ => do extract field (← emit scope e)
  | .arithmetic op left right type => do
    let l ← emit scope left
    let r ← emit scope right
    pure (arithmetic op l r type)

/-- Each argument is a string before the next is looked at. -/
def concat (scope : Scope) (acc : Option Fragment) : List Expr → Emission Fragment
  | [] =>
    match acc with
    | some f => pure (.inline f.statements f.valueText .string)
    | none => throw .emptyConcat
  | e :: es => do
    let arg ← asString (← emit scope e)
    match acc with
    | some f => concat scope (some (appendArgument f arg)) es
    | none => concat scope (some arg) es

end

end Emission

end RowScript

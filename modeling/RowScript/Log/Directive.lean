import RowScript.Log
import RowScript.Text.Alphanumeric
import RowScript.Text.Blank

/-!
# Directives of log filters

A directive says up to which level records are let through: all of them, or
those whose target starts with a given text. In brackets it may name a span that
records have to be written in, or a field that they have to have.
-/

namespace RowScript.Log

/-- How much is let through, which may be nothing. -/
abbrev Verbosity := Nat

namespace Verbosity

def names : List (String × Verbosity) :=
  [("off", 0), ("error", 1), ("warn", 2), ("info", 3), ("debug", 4), ("trace", 5)]

def error : Verbosity := 1

def warn : Verbosity := 2

def trace : Verbosity := 5

/-- A level by its number, before which a plus sign may stand. -/
def ofNumber? (cs : List Char) : Option Verbosity :=
  let ds :=
    match cs with
    | '+' :: ds => ds
    | ds => ds
  let n := ds.foldl (fun n c => 10 * n + (c.toNat - '0'.toNat)) 0
  if !ds.isEmpty && ds.all Char.isDigit && n ≤ trace then some n else none

/-- A level by its name in any case of letters, or by its number. -/
def ofName? (cs : List Char) : Option Verbosity :=
  (names.lookup (String.ofList cs).toLower).orElse fun _ => ofNumber? cs

end Verbosity

/-- What a directive asks of a record, apart from its target. -/
inductive Condition where
  | none
  /-- The record has a field of this name. -/
  | field (name : String)
  /-- The record is written in a certain span. Here records are written outside of spans. -/
  | span
  deriving DecidableEq, Repr

structure Directive where
  /-- Without a target it applies to records of every target. -/
  target : Option String := none
  condition : Condition := .none
  verbosity : Verbosity := .trace
  deriving DecidableEq, Repr

namespace Directive

/-! ## Reading

Blanks around a directive are overlooked while its marks are looked for, yet
they count as part of it: the pieces are cut from the text with the blanks at
the places that the marks have in the text without them. So a reader goes along
two texts, the `shape` without blanks and the whole `text`.
-/

/-- Cuts before the first mark in the shape: what the text has before it, and both from there on. -/
def cut (isMark : Char → Bool) (shape text : List Char) : List Char × List Char × List Char :=
  let n := (shape.takeWhile (!isMark ·)).length
  (text.take n, shape.drop n, text.drop n)

/-- A word alone is a level, or a target that is let through at every level. -/
def ofWord (word : List Char) : Directive :=
  match Verbosity.ofName? word with
  | some verbosity => { verbosity }
  | none => { target := some (String.ofList word) }

/-- A level that is left out is every level. -/
def withLevel? (d : Directive) (level : List Char) : Option Directive :=
  if level.isEmpty then some { d with verbosity := .trace }
  else (Verbosity.ofName? level).map fun verbosity => { d with verbosity }

/-- A field of a span and the value of a field are only known in a span. -/
def conditionOf (span field : List Char) : Condition :=
  if span.isEmpty && !field.contains '=' then .field (String.ofList field) else .span

/-- Reads on after the opening bracket. -/
def ofBracket? (target : Option String) (shape text : List Char) : Option Directive :=
  let (span, shape, text) := cut (fun c => c == ']' || c == '\x7b') shape text
  let close? (condition : Condition) (shape text : List Char) : Option Directive :=
    match shape with
    | [']'] => some { target, condition }
    | ']' :: '=' :: _ => withLevel? { target, condition } (text.drop 2)
    | _ => none
  match shape with
  | '\x7b' :: shape =>
    let (field, shape, text) := cut (· == '\x7d') shape (text.drop 1)
    if field.isEmpty then none else close? (conditionOf span field) (shape.drop 1) (text.drop 1)
  | shape => close? .span shape text

/-- What the first character of a target may be. -/
def startsTarget (c : Char) : Bool := isAlphanumeric c || c == '-' || c == ':' || c == '_'

def parse? (text : List Char) : Option Directive :=
  match trimStart (trimEnd text) with
  | [] => none
  | '[' :: shape => ofBracket? none shape (text.drop 1)
  | c :: cs =>
    let (word, shape, rest) := cut (fun c => c == '=' || c == '[') (c :: cs) text
    if !startsTarget c then none
    else
      match shape with
      | '[' :: shape => ofBracket? (some (String.ofList word)) shape (rest.drop 1)
      | '=' :: _ => withLevel? { target := some (String.ofList word) } (rest.drop 1)
      | _ => some (ofWord text)

/-! ## Meaning -/

def applies (d : Directive) (r : Record) : Bool :=
  (d.target.all fun t => t.toList.isPrefixOf r.target.toList) &&
    match d.condition with
    | .none => true
    | .field name => r.fieldNames.contains name
    | .span => false

/-- The length of the target, which counts most, and the field. -/
def weight (d : Directive) : Option Nat × Option String :=
  (d.target.map (·.utf8ByteSize),
    match d.condition with
    | .field name => some name
    | _ => none)

/-- The longer the target, the more a directive counts; then one with a field
counts more than one without, and a later name more than an earlier one. -/
def compareWeight : Directive → Directive → Ordering :=
  compareLex (compareOn (·.weight.1)) (compareOn (·.weight.2))

end Directive

end RowScript.Log

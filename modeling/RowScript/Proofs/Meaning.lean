import RowScript.Proofs.Emission.Code
import RowScript.Proofs.Script.Machine

/-!
# What expressions mean

The value of an expression on a row, node by node. Dates are values here: to cut
or to shift one gives another date and changes nothing, so there is neither a
heap nor an order of evaluation. What the operations of the language compute is
left open, as it is for the machine that runs generated text. Where one of them
throws there is no value.
-/

namespace RowScript

variable {P D : Type}

/-! ## Operations -/

namespace Primitives

variable (I : Primitives P D)

def negated (v : Option (Datum P D)) : Option (Datum P D) := do
  let p ← I.negate (← v)
  some (.prim p)

def operated (op : ArithOp) (v w : Option (Datum P D)) : Option (Datum P D) := do
  let p ← I.operate op (← v) (← w)
  some (.prim p)

def applied (name : String) (args : List (Option (Datum P D))) : Option (Datum P D) := do
  let p ← I.apply name (← args.mapM id)
  some (.prim p)

def created (args : List (Option (Datum P D))) : Option (Datum P D) := do
  let d ← I.create (← args.mapM id)
  some (.date d)

def invoked (name : String) (object : Option (Datum P D)) (args : List (Option (Datum P D))) :
    Option (Datum P D) := do
  let p ← I.invoke name (← object) (← args.mapM id)
  some (.prim p)

/-- Another date, as `setter` would change `date` with arguments that depend on it. -/
def changed (setter : String) (date : Option (Datum P D))
    (args : D → List (Option (Datum P D))) : Option (Datum P D) :=
  match date with
  | some (.date d) => do
    let next ← I.change setter d (← (args d).mapM id)
    some (.date next.1)
  | _ => none

def numeral (text : String) : Option (Datum P D) := some (.prim (I.number text))

/-- The midnight before a date. -/
def truncated (date : Option (Datum P D)) : Option (Datum P D) :=
  I.changed "setUTCHours" date fun _ =>
    [I.numeral "0", I.numeral "0", I.numeral "0", I.numeral "0"]

/-- A date that lies `days` days later or earlier. -/
def shifted (direction : Emission.Direction) (date days : Option (Datum P D)) :
    Option (Datum P D) :=
  I.changed "setUTCDate" date fun d =>
    [I.operated direction.op (I.invoked "getUTCDate" (some (.date d)) []) days]

def joined : List (Option (Datum P D)) → Option (Datum P D)
  | [] => some (.prim (I.word "null"))
  | v :: vs => vs.foldl (fun before w => I.invoked "concat" before [w]) v

/-! An operation has no value where an operand has none. -/

variable {I}

theorem mapM_none {vs : List (Option (Datum P D))} (h : none ∈ vs) : vs.mapM id = none := by
  induction vs with
  | nil => simp at h
  | cons v vs ih =>
    rw [List.mapM_cons]
    rcases List.mem_cons.mp h with rfl | h
    · rfl
    · rw [ih h]
      cases v <;> rfl

theorem operated_none {op : ArithOp} {v w : Option (Datum P D)} (h : none ∈ [v, w]) :
    I.operated op v w = none := by
  simp only [List.mem_cons, List.not_mem_nil, or_false] at h
  rcases h with rfl | rfl
  · rfl
  · cases v <;> rfl

theorem invoked_none {name : String} {v : Option (Datum P D)} {args : List (Option (Datum P D))}
    (h : none ∈ v :: args) : I.invoked name v args = none := by
  rcases List.mem_cons.mp h with rfl | h
  · rfl
  · rw [invoked, mapM_none h]
    cases v <;> rfl

theorem shifted_none {direction : Emission.Direction} {date days : Option (Datum P D)}
    (h : none ∈ [date, days]) : I.shifted direction date days = none := by
  simp only [List.mem_cons, List.not_mem_nil, or_false] at h
  rcases h with rfl | rfl
  · rfl
  · unfold shifted changed
    split
    · rw [mapM_none (by simp [operated_none])]
      rfl
    · rfl

end Primitives

/-! ## Conversions and fields -/

namespace Conversion

def meaning (I : Primitives P D) : Conversion → Option (Datum P D) → Option (Datum P D)
  | keep, v => v
  | parseFloat, v => I.applied "parseFloat" [v]
  | parseInt, v => I.applied "parseInt" [v, I.numeral "10"]
  | toNumber, v => I.applied "Number" [v]
  | toBoolean, v => I.applied "Boolean" [v]
  | toText, v => I.invoked "toString" v []
  | dateText, v => I.invoked "toISOString" v []
  | dayText, v =>
    I.invoked "substring" (I.invoked "toISOString" v []) [I.numeral "0", I.numeral "10"]
  | epochOfDate, v => I.invoked "getTime" v []
  | epochOfValue, v => I.invoked "getTime" (I.created [v]) []
  | dateOfValue, v => I.created [v]
  | dateOfNumber, v => I.created [I.applied "parseFloat" [v]]
  | dateCopy, v => I.created [I.invoked "getTime" v []]

def meaningOf (I : Primitives P D) (c : Option Conversion) :
    Option (Datum P D) → Option (Datum P D) :=
  (c.getD keep).meaning I

theorem meaningOf_none (I : Primitives P D) (c : Option Conversion) : meaningOf I c none = none := by
  unfold meaningOf
  cases c.getD keep <;> rfl

theorem meaning_dateCopy {I : Primitives P D} {d : D}
    (h : (I.invoke "getTime" (.date d) []).bind (fun p => I.create [.prim p]) = some d) :
    dateCopy.meaning I (some (.date d)) = some (.date d) := by
  obtain ⟨p, hp, hd⟩ := Option.bind_eq_some_iff.mp h
  simp [meaning, Primitives.created, Primitives.invoked, hp, hd]

end Conversion

def DateField.meaning (I : Primitives P D) (date : Option (Datum P D)) :
    DateField → Option (Datum P D)
  | year => I.invoked "getUTCFullYear" date []
  | month => I.operated .add (I.invoked "getUTCMonth" date []) (I.numeral "1")
  | hour => I.invoked "getUTCHours" date []
  | minute => I.invoked "getUTCMinutes" date []
  | second => I.invoked "getUTCSeconds" date []

/-! ## Expressions -/

namespace Expr

def numberMeaning (I : Primitives P D) (text : String) : Option (Datum P D) :=
  match text.toList with
  | '-' :: digits => I.negated (I.numeral (String.ofList digits))
  | _ => I.numeral text

def literalMeaning (I : Primitives P D) (value : Option String) (type : DataType) :
    Option (Datum P D) :=
  match value with
  | none => some (.prim (I.word "null"))
  | some text =>
    match type with
    | .null => some (.prim (I.word "null"))
    | .short | .integer | .long | .float | .double => numberMeaning I text
    | .boolean => some (.prim (I.word text))
    | .string | .date | .timestamp =>
      Conversion.meaningOf I (conversion? .string type false) (some (.prim (I.text text)))

mutual

/-- The value of an expression on a row, which has a value for each identifier. -/
def meaning (I : Primitives P D) (scope : Scope) (row : String → Datum P D) :
    Expr → Option (Datum P D)
  | column name _ => some (row (identifierIn scope name))
  | literal value type => literalMeaning I value type
  | cast e type => Conversion.meaningOf I (e.conversionTo scope type) (e.meaning I scope row)
  | concat args _ => I.joined (stringMeanings I scope row args)
  | upper e _ => I.invoked "toUpperCase" (e.meaning I scope row) []
  | lower e _ => I.invoked "toLowerCase" (e.meaning I scope row) []
  | substring e position length _ =>
    I.invoked "substr"
      (Conversion.meaningOf I (e.conversionTo scope .string) (e.meaning I scope row))
      [position.meaning I scope row, length.meaning I scope row]
  | toDate e _ =>
    I.truncated (Conversion.meaningOf I (ownDate? (e.typeIn scope)) (e.meaning I scope row))
  | dateAdd date days _ =>
    I.shifted .later
      (Conversion.meaningOf I (ownDate? (date.typeIn scope)) (date.meaning I scope row))
      (days.meaning I scope row)
  | dateSub date days _ =>
    I.shifted .earlier
      (Conversion.meaningOf I (ownDate? (date.typeIn scope)) (date.meaning I scope row))
      (days.meaning I scope row)
  | extract field e _ =>
    field.meaning I
      (Conversion.meaningOf I (dateLike? (e.typeIn scope)) (e.meaning I scope row))
  | arithmetic op left right _ =>
    I.operated op (left.meaning I scope row) (right.meaning I scope row)

/-- The values of arguments, each of them made a string. -/
def stringMeanings (I : Primitives P D) (scope : Scope) (row : String → Datum P D) :
    List Expr → List (Option (Datum P D))
  | [] => []
  | e :: es =>
    Conversion.meaningOf I (e.conversionTo scope .string) (e.meaning I scope row) ::
      stringMeanings I scope row es

end

/-- The value of an expression as a string. -/
def stringMeaning (I : Primitives P D) (scope : Scope) (row : String → Datum P D) (e : Expr) :
    Option (Datum P D) :=
  Conversion.meaningOf I (e.conversionTo scope .string) (e.meaning I scope row)

end Expr

end RowScript

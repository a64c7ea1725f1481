import RowScript.DataType
import RowScript.Script.Receiver

/-!
# Coercions

Which conversion takes a value from one type to another, and the text of each
conversion. Pairs of types without a conversion cannot be expressed.
-/

namespace RowScript

/-- The conversions that generated text can apply to a value. -/
inductive Conversion where
  | keep
  | parseFloat
  | parseInt
  | toNumber
  | toBoolean
  | toText
  /-- A date as text, with its time of day. -/
  | dateText
  /-- A date as text, its calendar day alone. -/
  | dayText
  | epochOfDate
  | epochOfValue
  | dateOfValue
  | dateOfNumber
  /-- A second date object with the same content. -/
  | dateCopy
  deriving DecidableEq, Repr

namespace Conversion

/-- The conversion of `text` as text. -/
def apply : Conversion → String → String
  | keep, text => text
  | parseFloat, text => "parseFloat(" ++ text ++ ")"
  | parseInt, text => "parseInt(" ++ text ++ ", 10)"
  | toNumber, text => "Number(" ++ text ++ ")"
  | toBoolean, text => "Boolean(" ++ text ++ ")"
  | toText, text => Script.receiver text ++ ".toString()"
  | dateText, text => Script.receiver text ++ ".toISOString()"
  | dayText, text => Script.receiver text ++ ".toISOString().substring(0, 10)"
  | epochOfDate, text => Script.receiver text ++ ".getTime()"
  | epochOfValue, text => "new Date(" ++ text ++ ").getTime()"
  | dateOfValue, text => "new Date(" ++ text ++ ")"
  | dateOfNumber, text => "new Date(parseFloat(" ++ text ++ "))"
  | dateCopy, text => "new Date(" ++ Script.receiver text ++ ".getTime())"

end Conversion

/-- How a value of type `source` becomes one of type `target`. `isDay` says that
it is a date of which only the calendar day counts. -/
def conversion? (source target : DataType) (isDay : Bool) : Option Conversion :=
  if source = target then some .keep
  else
    match target with
    | .float | .double =>
      if source = .string then some .parseFloat
      else if source.isNumeric then some .toNumber
      else none
    | .short | .integer | .long =>
      if source = .string then some .parseInt
      else if source.isNumeric then some .toNumber
      else none
    | .boolean => some .toBoolean
    | .string =>
      if source.isNumeric || source = .timestamp then some .toText
      else if source = .date then some (if isDay then .dayText else .dateText)
      else none
    | .timestamp =>
      if source = .date then some .epochOfDate
      else if source = .string || source.isNumeric then some .epochOfValue
      else none
    | .date =>
      if source = .string then some .dateOfValue
      else if source = .timestamp || source.isNumeric then some .dateOfNumber
      else none
    | .null => none

def coerce? (text : String) (source target : DataType) (isDay : Bool) : Option String :=
  (conversion? source target isDay).map (·.apply text)

/-! ## Dates -/

/-- How a value becomes one that the accessors of dates can be called on. -/
def dateLike? (source : DataType) : Option Conversion :=
  if source = .date then some .keep
  else if source = .string || source = .timestamp || source.isIntegral then some .dateOfValue
  else none

/-- How a value becomes a date object that nothing else refers to. -/
def ownDate? (source : DataType) : Option Conversion :=
  if source = .date then some .dateCopy else dateLike? source

def toDateLike? (text : String) (source : DataType) : Option String :=
  (dateLike? source).map (·.apply text)

end RowScript

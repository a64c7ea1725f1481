import RowScript.Expr

/-!
# Rejections

Why an expression has no function. Whatever the reason, the expression is then
evaluated where it came from.
-/

namespace RowScript

/-- The functions that are particular about their operands. -/
inductive Callee where
  | upper | lower | substring
  | toDate | dateAdd | dateSub
  | field (f : DateField)
  deriving DecidableEq, Repr

def Callee.name : Callee → String
  | upper => "upper"
  | lower => "lower"
  | substring => "substring"
  | toDate => "to_date"
  | dateAdd => "date_add"
  | dateSub => "date_sub"
  | field f => f.name

/-- What a function expects of the type of an operand. -/
inductive Expectation where
  | string | integral | dateLike
  deriving DecidableEq, Repr

def Expectation.name : Expectation → String
  | string => "String"
  | integral => "integral"
  | dateLike => "date-like"

/-- The arguments of `substring` that have to be literals. -/
inductive LiteralArgument where
  | position | length
  deriving DecidableEq, Repr

def LiteralArgument.name : LiteralArgument → String
  | position => "position"
  | length => "length"

inductive Rejection where
  | unknownColumn (name : String)
  | measureColumn (name : String)
  | invalidIdentifier (name : String)
  | multipleInputs (first second : String)
  | noInputs
  | unsupportedCast (source target : DataType)
  | nonLiteralArgument (callee : Callee) (argument : LiteralArgument)
  | operandType (callee : Callee) (expected : Expectation) (actual : DataType)
  | invalidLiteral (value : String) (type : DataType)
  | emptyConcat
  deriving DecidableEq, Repr

def Rejection.message : Rejection → String
  | unknownColumn name => "Unknown column: " ++ name
  | measureColumn name => "Measure column cannot be referenced per row: " ++ name
  | invalidIdentifier name => "Column name is not a usable JavaScript identifier: " ++ name
  | multipleInputs first second =>
    "Only one input column allowed, found " ++ first ++ " and " ++ second
  | noInputs => "Expression references no columns"
  | unsupportedCast source target =>
    "Unsupported cast from " ++ source.name ++ " to " ++ target.name
  | nonLiteralArgument callee argument =>
    callee.name ++ " requires a literal " ++ argument.name ++ " argument"
  | operandType callee expected actual =>
    callee.name ++ " expects a " ++ expected.name ++ " operand, got " ++ actual.name
  | invalidLiteral value type => "Invalid " ++ type.name ++ " literal: " ++ value
  | emptyConcat => "Concat requires at least one argument"

end RowScript

/-!
# Texts of numbers

A minus sign at most, and a decimal literal. A zero before another digit is
refused: it would make the literal octal.
-/

namespace RowScript.Script

def isDigits (cs : List Char) : Bool := !cs.isEmpty && cs.all Char.isDigit

def hasLeadingZero : List Char → Bool
  | '0' :: c :: _ => c.isDigit
  | _ => false

def withoutMinus : List Char → List Char
  | '-' :: cs => cs
  | cs => cs

def withoutSign : List Char → List Char
  | '+' :: cs | '-' :: cs => cs
  | cs => cs

/-- The end of a literal: nothing, or an exponent. -/
def isExponent : List Char → Bool
  | [] => true
  | 'e' :: cs | 'E' :: cs => isDigits (withoutSign cs)
  | _ => false

/-- Digits with a point among them or at either end, and an exponent. -/
def isDecimal (cs : List Char) : Bool :=
  let whole := cs.takeWhile Char.isDigit
  match cs.dropWhile Char.isDigit with
  | '.' :: cs =>
    let fraction := cs.takeWhile Char.isDigit
    !(whole.isEmpty && fraction.isEmpty) && isExponent (cs.dropWhile Char.isDigit)
  | cs => !whole.isEmpty && isExponent cs

/-- The text of a number, which has neither point nor exponent if it is `integral`. -/
def isNumberText (integral : Bool) (text : String) : Bool :=
  let cs := withoutMinus text.toList
  !hasLeadingZero cs && (if integral then isDigits cs else isDecimal cs)

end RowScript.Script

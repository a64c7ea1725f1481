import RowScript.Json.Basic

/-!
# Numbers within the range of doubles

A reader that holds numbers as doubles refuses those whose magnitude is beyond
the largest one. It takes as many leading digits as fit into 64 bits for a
significand, scales that by a power of ten, and rounds each of the three steps
to 53 bits.
-/

namespace RowScript.Json.Number

/-- The nearest number of 53 significant bits, a tie going to the even one. -/
def round53 (n : Nat) : Nat :=
  let shift := n.log2 - 52
  let quotient := n >>> shift
  let rest := n - quotient <<< shift
  let half := (1 <<< shift) / 2
  if 0 < shift && (half < rest || (rest == half && quotient % 2 == 1)) then
    (quotient + 1) <<< shift
  else
    quotient <<< shift

/-- Leading digits as a significand, with the number of digits taken and of those left out. -/
def significand (start : Nat) : List Char → Nat × Nat × Nat
  | [] => (start, 0, 0)
  | c :: cs =>
    let next := 10 * start + digitValue c
    if next < 1 <<< 64 then
      let (value, taken, left) := significand next cs
      (value, taken + 1, left)
    else
      (start, 0, cs.length + 1)

/-- The significand and the power of ten that scales it. -/
def scaled (n : Number) : Nat × Int :=
  let (whole, _, dropped) := significand 0 n.whole
  let (value, taken, _) := significand whole n.fraction
  let exponent : Int :=
    match n.exponent with
    | none => 0
    | some (negative, ds) => if negative then -digitsValue ds else digitsValue ds
  (value, dropped - taken + exponent)

/-- Halfway between the largest double and the power of two above it. -/
def limit : Nat := (1 <<< 1024) - (1 <<< 970)

def isFinite (n : Number) : Bool :=
  let (value, exponent) := n.scaled
  value == 0 || exponent ≤ 0 ||
    (exponent ≤ 308 && round53 value * round53 (Nat.pow 10 exponent.toNat) < limit)

end Number

mutual

/-- Every number in the value is within the range of doubles. -/
def isFinite : Json → Bool
  | .number n => n.isFinite
  | .array vs => allFinite vs
  | .object ms => membersFinite ms
  | _ => true

def allFinite : List Json → Bool
  | [] => true
  | v :: vs => v.isFinite && allFinite vs

def membersFinite : List (String × Json) → Bool
  | [] => true
  | (_, v) :: ms => v.isFinite && membersFinite ms

end

end RowScript.Json

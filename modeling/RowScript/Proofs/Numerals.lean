import RowScript.Proofs.Emission.Outcome
import RowScript.Proofs.Emission.Text
import RowScript.Proofs.Script.Numeral

/-!
# Literals of numbers

The text of a literal is taken over into a script as it is. For a number it has to be a
decimal literal after a minus sign at most, so that a script reads the number that it
writes in decimal notation (`outcome_literal_numeric`).

A floating-point parser accepts more than that: a plus sign, infinities, zeros in front.
A text goes through other tests too, and all of them together let decimal literals pass
(`passesTests_withoutMinus`).
-/

namespace RowScript

namespace Script

/-! ## Tests of a text -/

/-- The texts of numbers of a type. -/
def IsNumeral (type : DataType) (text : String) : Prop :=
  ∃ cs, (text.toList = cs ∨ text.toList = '-' :: cs) ∧
    match type with
    | .short | .integer | .long => DecimalInteger cs
    | .float | .double => ∃ v, DecimalLiteral cs v
    | _ => False

theorem withoutMinus_iff {L : List Char → Prop} (hL : ∀ cs, ¬L ('-' :: cs)) (cs : List Char) :
    L (withoutMinus cs) ↔ ∃ ds, (cs = ds ∨ cs = '-' :: ds) ∧ L ds := by
  constructor
  · intro h
    unfold withoutMinus at h
    split at h
    · next ds => exact ⟨ds, .inr rfl, h⟩
    · exact ⟨cs, .inl rfl, h⟩
  · rintro ⟨ds, rfl | rfl, h⟩
    · unfold withoutMinus
      split
      · exact absurd h (hL _)
      · exact h
    · exact h

theorem isNumberText_true_iff (text : String) : isNumberText true text = true ↔
    ∃ cs, (text.toList = cs ∨ text.toList = '-' :: cs) ∧ DecimalInteger cs := by
  have hminus : ∀ cs, ¬DecimalInteger ('-' :: cs) := by
    intro cs h
    cases h with
    | nonzero hc _ _ => contradiction
  rw [← withoutMinus_iff hminus]
  exact decimalInteger_iff

theorem isNumberText_false_iff (text : String) : isNumberText false text = true ↔
    ∃ cs, (text.toList = cs ∨ text.toList = '-' :: cs) ∧ ∃ v, DecimalLiteral cs v := by
  have hminus : ∀ cs, ¬∃ v, DecimalLiteral ('-' :: cs) v := by
    intro cs h
    have hnumber := isNumber_iff.mpr h
    rw [isNumber_minus] at hnumber
    contradiction
  rw [← withoutMinus_iff hminus, ← isNumber_iff]
  rfl

theorem isNumberText_iff {type : DataType} (h : type.isNumeric = true) (text : String) :
    isNumberText type.isIntegral text = true ↔ IsNumeral type text := by
  cases type with
  | short | integer | long => exact isNumberText_true_iff text
  | float | double => exact isNumberText_false_iff text
  | null | boolean | string | date | timestamp => contradiction

/-! ### The parts of the test -/

/-- The numbers of floating-point parsers: a sign at most, and digits or one of the words for the
numbers that no digits write, in any case. -/
def isFloatText (cs : List Char) : Bool :=
  isDecimal (withoutSign cs) ||
    ["inf".toList, "infinity".toList, "nan".toList].contains ((withoutSign cs).map Char.toLower)

def startsNumber (cs : List Char) : Bool := cs.head?.any fun c => c.isDigit || c == '.'

def isNumberMark (c : Char) : Bool := c.isDigit || numberMarks.contains c

theorem toLower_of_isDigit {c : Char} (h : c.isDigit = true) : c.toLower = c := by
  have hle := (code_of_isDigit h).2
  unfold Char.toLower
  split
  · next hupper =>
    have hge : 'A'.val.toNat ≤ c.val.toNat := UInt32.le_iff_toNat_le.mp hupper.1
    have hcode : c.val.toNat = c.toNat := rfl
    have hA : 'A'.val.toNat = 65 := rfl
    omega
  · rfl

theorem isFloatText_of_startsNumber {cs : List Char} (h : startsNumber cs = true) :
    isFloatText cs = isDecimal cs := by
  -- Behind its first character a number has neither sign nor word.
  cases cs with
  | nil => contradiction
  | cons c cs =>
    have hc : c.isDigit = true ∨ c = '.' := by simpa [startsNumber] using h
    have hlower : c.toLower = c := by
      rcases hc with hc | rfl
      · exact toLower_of_isDigit hc
      · rfl
    have hsign : withoutSign (c :: cs) = c :: cs := by
      rcases hc with hc | rfl
      · unfold withoutSign
        split
        · simp_all
        · simp_all
        · rfl
      · rfl
    have hword : ["inf".toList, "infinity".toList, "nan".toList].contains
        ((c :: cs).map Char.toLower) = false := by
      have hi : c ≠ 'i' ∧ c ≠ 'n' := by
        rcases hc with hc | rfl
        · exact ⟨by rintro rfl; contradiction, by rintro rfl; contradiction⟩
        · decide
      rw [List.map_cons, hlower]
      simp [hi.1, hi.2]
    rw [isFloatText, hsign, hword, Bool.or_false]

theorem startsNumber_of_isNumber {cs : List Char} (h : isNumber cs = true) :
    startsNumber cs = true := by
  cases cs with
  | nil => contradiction
  | cons c cs =>
    have hstart := (isNumber_start h []).2.2.2
    simp only [Bool.or_eq_true, Bool.and_eq_true] at hstart
    simp only [startsNumber, List.head?_cons, Option.any_some, Bool.or_eq_true]
    exact hstart.imp_right And.left

/-- The text of a number as tests tell it, the last of which is a floating-point parser. -/
def passesTests (cs : List Char) : Bool :=
  !hasLeadingZero cs && startsNumber cs && cs.all isNumberMark && isFloatText cs

/-- A parser reads more numbers than a script does. Together with the other tests it leaves the
decimal literals. -/
theorem passesTests_withoutMinus (text : String) :
    passesTests (withoutMinus text.toList) = isNumberText false text := by
  change passesTests _ = isNumber (withoutMinus text.toList)
  generalize withoutMinus text.toList = cs
  rw [passesTests]
  -- The first character tells a parser's other numbers apart; the set of characters adds nothing.
  cases hstart : startsNumber cs with
  | false =>
    have hnumber : isNumber cs = false :=
      Bool.eq_false_iff.mpr fun h => Bool.eq_false_iff.mp hstart (startsNumber_of_isNumber h)
    simp [hnumber]
  | true =>
    have hall : (isNumber cs && cs.all isNumberMark) = isNumber cs := by
      rw [Bool.and_eq_left_iff_imp, List.all_eq_true]
      intro h c hc
      simpa [isNumberMark] using isNumber_mem h hc
    rw [← hall, isNumber, isFloatText_of_startsNumber hstart, Bool.and_true]
    exact Bool.and_right_comm ..

end Script

/-! ## Literals -/

open Emission (emit outcome literal? outcome_liftExcept)
open Script (IsNumeral Negatable NumericLiteral signedDecimalValue)

theorem literal?_numeric {type : DataType} (h : type.isNumeric = true) (text : String) :
    literal? (some text) type =
      if Script.isNumberText type.isIntegral text then .ok (.inline [] text type)
      else .error (.invalidLiteral text type) := by
  cases type with
  | short | integer | long | float | double => rfl
  | null | boolean | string | date | timestamp => contradiction

/-- **Numerals.** A text is the literal of a number if and only if it is a decimal literal, which
for an integer has neither point nor exponent, after a minus sign at most. It is left as it is and
a script reads it as what it writes in decimal notation. Any other text is refused. -/
theorem outcome_literal_numeric (scope : Scope) (s : Emission.State) (text : String)
    (type : DataType) (h : type.isNumeric = true) :
    (outcome (emit scope (.literal (some text) type)) s = (.ok (.inline [] text type), s) ↔
      IsNumeral type text) ∧
    (outcome (emit scope (.literal (some text) type)) s = (.error (.invalidLiteral text type), s) ↔
      ¬IsNumeral type text) ∧
    (IsNumeral type text →
      ∀ v, Negatable NumericLiteral text.toList v ↔ v = signedDecimalValue text.toList) := by
  have hemit : outcome (emit scope (.literal (some text) type)) s =
      (if Script.isNumberText type.isIntegral text then .ok (.inline [] text type)
        else .error (.invalidLiteral text type), s) := by
    rw [emit, outcome_liftExcept, literal?_numeric h]
  rw [hemit, ← Script.isNumberText_iff h]
  by_cases htext : Script.isNumberText type.isIntegral text = true
  · rw [if_pos htext]
    refine ⟨iff_of_true rfl htext, iff_of_false (by simp) (not_not_intro htext), fun _ => ?_⟩
    exact Script.negatable_iff (Script.isNumber_withoutMinus htext)
  · rw [if_neg htext]
    exact ⟨iff_of_false (by simp) htext, iff_of_true rfl htext, fun h => absurd h htext⟩

/-- A point with digits on one side, an exponent and a sign. -/
theorem outcome_literal_numeric_double :
    ∃ scope s, outcome (emit scope (.literal (some "-.5e1") .double)) s =
        (.ok (.inline [] "-.5e1" .double), s) ∧
      (∀ v, Negatable NumericLiteral "-.5e1".toList v ↔ v = -5) ∧
      outcome (emit scope (.literal (some "-05") .long)) s =
        (.error (.invalidLiteral "-05" .long), s) := by
  let scope : Scope := ⟨fun _ => none, false⟩
  obtain ⟨haccepted, -, hvalue⟩ := outcome_literal_numeric scope {} "-.5e1" .double rfl
  obtain ⟨-, hrefused, -⟩ := outcome_literal_numeric scope {} "-05" .long rfl
  have hnumeral : IsNumeral .double "-.5e1" := (Script.isNumberText_iff rfl _).mp rfl
  have hoctal : ¬IsNumeral .long "-05" := fun h => by
    have htext := (Script.isNumberText_iff rfl _).mpr h
    revert htext
    decide
  have hfive : signedDecimalValue "-.5e1".toList = -5 := by
    have hdigits : Script.digitsValue 10 ['5'] = 5 := rfl
    have hexponent : Script.exponent ".5e1".toList - Script.places ".5e1".toList = 0 := by decide
    change -((Script.digitsValue 10 ['5'] : ℚ) *
      10 ^ (Script.exponent ".5e1".toList - Script.places ".5e1".toList)) = -5
    rw [hdigits, hexponent]
    norm_num
  refine ⟨scope, {}, haccepted.mpr hnumeral, ?_, hrefused.mpr hoctal⟩
  rw [← hfive]
  exact hvalue hnumeral

end RowScript

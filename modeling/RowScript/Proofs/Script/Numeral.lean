import Mathlib.Algebra.Order.Field.Rat
import Mathlib.Data.Nat.Digits.Defs
import Mathlib.Tactic.FieldSimp
import Mathlib.Tactic.NormNum
import Mathlib.Tactic.Ring
import RowScript.Proofs.Script.Token

/-!
# Numeric literals

The grammar of ES5, with the values of its literals. The numbers of generated text are
the decimal literals (`isNumber_iff`). A script may also read digits after a zero as
octal, and it has hexadecimal literals, but a decimal literal has no other reading
(`numericLiteral_iff`).

The grammar puts a value together from the parts of a literal, as a script does.
`decimalValue` takes the text as a whole: one number of all its digits, and a power of
ten.
-/

namespace RowScript.Script

/-! ## Grammar -/

def isOctalDigit (c : Char) : Bool := c.isDigit && c ≤ '7'

def isHexDigit (c : Char) : Bool := (hexValue? c).isSome

def digitValue (c : Char) : Nat := (hexValue? c).getD 0

/-- The number that digits write in a base, the highest digit first. -/
def digitsValue (base : Nat) (cs : List Char) : Nat := Nat.ofDigits base (cs.reverse.map digitValue)

/-- One digit or more. -/
def Digits (isDigit : Char → Bool) (cs : List Char) : Prop := cs ≠ [] ∧ ∀ c ∈ cs, isDigit c = true

inductive DecimalInteger : List Char → Prop
  | zero : DecimalInteger ['0']
  | nonzero {c : Char} {cs : List Char} (hc : c.isDigit = true) (hne : c ≠ '0')
      (hcs : ∀ d ∈ cs, d.isDigit = true) : DecimalInteger (c :: cs)

inductive SignedInteger : List Char → ℤ → Prop
  | bare {cs : List Char} (h : Digits Char.isDigit cs) : SignedInteger cs (digitsValue 10 cs)
  | plus {cs : List Char} (h : Digits Char.isDigit cs) :
      SignedInteger ('+' :: cs) (digitsValue 10 cs)
  | minus {cs : List Char} (h : Digits Char.isDigit cs) :
      SignedInteger ('-' :: cs) (-digitsValue 10 cs)

/-- The end of a decimal literal: nothing, or an exponent. -/
inductive ExponentPart : List Char → ℤ → Prop
  | none : ExponentPart [] 0
  | lower {cs : List Char} {k : ℤ} (h : SignedInteger cs k) : ExponentPart ('e' :: cs) k
  | upper {cs : List Char} {k : ℤ} (h : SignedInteger cs k) : ExponentPart ('E' :: cs) k

/-- What digits after the point are worth. -/
def fractionValue (cs : List Char) : ℚ := digitsValue 10 cs * 10 ^ (-(cs.length : ℤ))

/-- A decimal literal and its value. -/
inductive DecimalLiteral : List Char → ℚ → Prop
  | integer {whole e : List Char} {k : ℤ} (hw : DecimalInteger whole) (he : ExponentPart e k) :
      DecimalLiteral (whole ++ e) (digitsValue 10 whole * 10 ^ k)
  | pointed {whole fraction e : List Char} {k : ℤ} (hw : DecimalInteger whole)
      (hf : ∀ c ∈ fraction, c.isDigit = true) (he : ExponentPart e k) :
      DecimalLiteral (whole ++ '.' :: (fraction ++ e))
        ((digitsValue 10 whole + fractionValue fraction) * 10 ^ k)
  | fraction {fraction e : List Char} {k : ℤ} (hf : Digits Char.isDigit fraction)
      (he : ExponentPart e k) :
      DecimalLiteral ('.' :: (fraction ++ e)) (fractionValue fraction * 10 ^ k)

/-- A numeric literal and its value, where the older octal literals are still read. -/
inductive NumericLiteral : List Char → ℚ → Prop
  | decimal {cs : List Char} {v : ℚ} (h : DecimalLiteral cs v) : NumericLiteral cs v
  | hex {c : Char} {cs : List Char} (hc : c = 'x' ∨ c = 'X') (h : Digits isHexDigit cs) :
      NumericLiteral ('0' :: c :: cs) (digitsValue 16 cs)
  | octal {cs : List Char} (h : Digits isOctalDigit cs) :
      NumericLiteral ('0' :: cs) (digitsValue 8 cs)

/-- A minus sign at most, and then a literal. -/
inductive Negatable (L : List Char → ℚ → Prop) : List Char → ℚ → Prop
  | bare {cs : List Char} {v : ℚ} (h : L cs v) : Negatable L cs v
  | minus {cs : List Char} {v : ℚ} (h : L cs v) : Negatable L ('-' :: cs) (-v)

/-! ## Digits -/

theorem isDigits_iff {cs : List Char} : isDigits cs = true ↔ Digits Char.isDigit cs := by
  simp [isDigits, Digits]

/-- A text that does not go on with digits. -/
def EndsDigits (cs : List Char) : Prop := cs.head?.any Char.isDigit = false

theorem span_digits {ds rest : List Char} (hd : ∀ c ∈ ds, c.isDigit = true) (hr : EndsDigits rest) :
    (ds ++ rest).takeWhile Char.isDigit = ds ∧ (ds ++ rest).dropWhile Char.isDigit = rest := by
  have hrest : rest.takeWhile Char.isDigit = [] ∧ rest.dropWhile Char.isDigit = rest := by
    cases rest with
    | nil => exact ⟨rfl, rfl⟩
    | cons c rest =>
      have hc : c.isDigit = false := hr
      simp [hc]
  rw [List.takeWhile_append_of_pos hd, List.dropWhile_append_of_pos hd, hrest.1, hrest.2,
    List.append_nil]
  exact ⟨rfl, rfl⟩

theorem DecimalInteger.digits {cs : List Char} (h : DecimalInteger cs) :
    Digits Char.isDigit cs := by
  cases h with
  | zero => exact ⟨List.cons_ne_nil _ _, List.forall_mem_singleton.mpr rfl⟩
  | nonzero hc hne hcs => exact ⟨List.cons_ne_nil _ _, List.forall_mem_cons.mpr ⟨hc, hcs⟩⟩

theorem hasLeadingZero_append {whole rest : List Char} (hw : DecimalInteger whole)
    (hr : EndsDigits rest) : hasLeadingZero (whole ++ rest) = false := by
  cases hw with
  | zero =>
    cases rest with
    | nil => rfl
    | cons c rest => exact hr
  | nonzero hc hne hcs =>
    rw [List.cons_append]
    unfold hasLeadingZero
    split
    · simp_all
    · rfl

theorem decimalInteger_of_digits {whole rest : List Char} (hw : Digits Char.isDigit whole)
    (h : hasLeadingZero (whole ++ rest) = false) : DecimalInteger whole := by
  obtain ⟨hne, hall⟩ := hw
  cases whole with
  | nil => contradiction
  | cons c ds =>
    obtain ⟨hc, hds⟩ := List.forall_mem_cons.mp hall
    by_cases hzero : c = '0'
    · subst hzero
      cases ds with
      | nil => exact .zero
      | cons d ds =>
        have hd : d.isDigit = false := h
        rw [hds d List.mem_cons_self] at hd
        contradiction
    · exact .nonzero hc hzero hds

theorem decimalInteger_iff {cs : List Char} :
    (!hasLeadingZero cs && isDigits cs) = true ↔ DecimalInteger cs := by
  rw [Bool.and_eq_true, Bool.not_eq_true', isDigits_iff]
  constructor
  · rintro ⟨hzero, hdigits⟩
    exact decimalInteger_of_digits hdigits (List.append_nil cs ▸ hzero)
  · intro h
    have hzero := hasLeadingZero_append h (show EndsDigits [] from rfl)
    rw [List.append_nil] at hzero
    exact ⟨hzero, h.digits⟩

/-! ## Exponents -/

theorem signedInteger_iff {cs : List Char} :
    isDigits (withoutSign cs) = true ↔ ∃ k, SignedInteger cs k := by
  constructor
  · intro h
    unfold withoutSign at h
    split at h
    · exact ⟨_, .plus (isDigits_iff.mp h)⟩
    · exact ⟨_, .minus (isDigits_iff.mp h)⟩
    · exact ⟨_, .bare (isDigits_iff.mp h)⟩
  · rintro ⟨k, h⟩
    cases h with
    | bare h =>
      have hsame : withoutSign cs = cs := by
        unfold withoutSign
        split
        · simp [Digits] at h
        · simp [Digits] at h
        · rfl
      rw [hsame]
      exact isDigits_iff.mpr h
    | plus h => exact isDigits_iff.mpr h
    | minus h => exact isDigits_iff.mpr h

theorem isExponent_iff {cs : List Char} : isExponent cs = true ↔ ∃ k, ExponentPart cs k := by
  constructor
  · intro h
    unfold isExponent at h
    split at h
    · exact ⟨0, .none⟩
    · obtain ⟨k, hk⟩ := signedInteger_iff.mp h
      exact ⟨k, .lower hk⟩
    · obtain ⟨k, hk⟩ := signedInteger_iff.mp h
      exact ⟨k, .upper hk⟩
    · contradiction
  · rintro ⟨k, h⟩
    cases h with
    | none => rfl
    | lower h => exact signedInteger_iff.mpr ⟨k, h⟩
    | upper h => exact signedInteger_iff.mpr ⟨k, h⟩

theorem ExponentPart.endsDigits {e : List Char} {k : ℤ} (h : ExponentPart e k) : EndsDigits e := by
  cases h <;> rfl

/-! ## Decimal literals -/

theorem exists_decimalLiteral_pointed {whole fraction e : List Char} {k : ℤ}
    (hw : ∀ c ∈ whole, c.isDigit = true) (hf : ∀ c ∈ fraction, c.isDigit = true)
    (hne : ¬(whole = [] ∧ fraction = [])) (he : ExponentPart e k)
    (hzero : hasLeadingZero (whole ++ '.' :: (fraction ++ e)) = false) :
    ∃ v, DecimalLiteral (whole ++ '.' :: (fraction ++ e)) v := by
  by_cases hempty : whole = []
  · subst hempty
    exact ⟨_, .fraction ⟨fun hfraction => hne ⟨rfl, hfraction⟩, hf⟩ he⟩
  · exact ⟨_, .pointed (decimalInteger_of_digits ⟨hempty, hw⟩ hzero) hf he⟩

theorem isDecimal_pointed {whole fraction e : List Char} {k : ℤ}
    (hw : ∀ c ∈ whole, c.isDigit = true) (hf : ∀ c ∈ fraction, c.isDigit = true)
    (hne : ¬(whole = [] ∧ fraction = [])) (he : ExponentPart e k) :
    isDecimal (whole ++ '.' :: (fraction ++ e)) = true := by
  have hpoint : EndsDigits ('.' :: (fraction ++ e)) := rfl
  obtain ⟨hwhole, hdrop⟩ := span_digits hw hpoint
  obtain ⟨hfraction, hexponent⟩ := span_digits hf he.endsDigits
  simp only [isDecimal, hwhole, hdrop, hfraction, hexponent, isExponent_iff.mpr ⟨k, he⟩,
    Bool.and_true]
  simpa [← not_and_or] using hne

theorem isDecimal_integer {whole e : List Char} {k : ℤ} (hw : Digits Char.isDigit whole)
    (he : ExponentPart e k) : isDecimal (whole ++ e) = true := by
  obtain ⟨hwhole, hdrop⟩ := span_digits hw.2 he.endsDigits
  have hne : whole.isEmpty = false := List.isEmpty_eq_false_iff.mpr hw.1
  rw [isDecimal, hwhole, hdrop]
  cases he with
  | none => simp [hne, isExponent]
  | lower h => simp [hne, isExponent_iff.mpr ⟨k, .lower h⟩]
  | upper h => simp [hne, isExponent_iff.mpr ⟨k, .upper h⟩]

theorem isNumber_iff {cs : List Char} : isNumber cs = true ↔ ∃ v, DecimalLiteral cs v := by
  rw [isNumber, Bool.and_eq_true, Bool.not_eq_true']
  constructor
  · rintro ⟨hzero, h⟩
    -- The literal is cut where the first digits end: at a point, or at its exponent.
    have hcs := List.takeWhile_append_dropWhile (p := Char.isDigit) (l := cs)
    have hwhole : ∀ c ∈ cs.takeWhile Char.isDigit, c.isDigit = true :=
      fun c hc => List.mem_takeWhile_imp hc
    unfold isDecimal at h
    split at h
    · next ds hdrop =>
      have hds := List.takeWhile_append_dropWhile (p := Char.isDigit) (l := ds)
      simp only [Bool.and_eq_true, Bool.not_eq_true', Bool.and_eq_false_iff,
        List.isEmpty_eq_false_iff] at h
      obtain ⟨hne, he⟩ := h
      obtain ⟨k, he⟩ := isExponent_iff.mp he
      rw [hdrop, ← hds] at hcs
      rw [← hcs] at hzero ⊢
      have hfraction : ∀ c ∈ ds.takeWhile Char.isDigit, c.isDigit = true :=
        fun c hc => List.mem_takeWhile_imp hc
      have hdigit : ¬(cs.takeWhile Char.isDigit = [] ∧ ds.takeWhile Char.isDigit = []) :=
        fun hnone => hne.elim (· hnone.1) (· hnone.2)
      exact exists_decimalLiteral_pointed hwhole hfraction hdigit he hzero
    · simp only [Bool.and_eq_true, Bool.not_eq_true', List.isEmpty_eq_false_iff] at h
      obtain ⟨hne, he⟩ := h
      obtain ⟨k, he⟩ := isExponent_iff.mp he
      rw [← hcs] at hzero ⊢
      exact ⟨_, .integer (decimalInteger_of_digits ⟨hne, hwhole⟩ hzero) he⟩
  · rintro ⟨v, h⟩
    cases h with
    | integer hw he =>
      exact ⟨hasLeadingZero_append hw he.endsDigits, isDecimal_integer hw.digits he⟩
    | pointed hw hf he =>
      have hdecimal := isDecimal_pointed hw.digits.2 hf (fun h => hw.digits.1 h.1) he
      exact ⟨hasLeadingZero_append hw rfl, hdecimal⟩
    | fraction hf he =>
      have hnil : ∀ c ∈ [], Char.isDigit c = true := fun _ h => absurd h List.not_mem_nil
      exact ⟨rfl, isDecimal_pointed hnil hf.2 (fun h => hf.1 h.2) he⟩

/-! ## Decimal values -/

def isExponentMark (c : Char) : Bool := c == 'e' || c == 'E'

/-- The text before the exponent. -/
def mantissa (cs : List Char) : List Char := cs.takeWhile fun c => !isExponentMark c

def signedValue : List Char → ℤ
  | '-' :: cs => -digitsValue 10 cs
  | '+' :: cs => digitsValue 10 cs
  | cs => digitsValue 10 cs

def exponent (cs : List Char) : ℤ :=
  signedValue (cs.dropWhile fun c => !isExponentMark c).tail

/-- How many digits stand after the point. -/
def places (cs : List Char) : Nat := ((mantissa cs).dropWhile (· != '.')).tail.length

/-- The number that a text writes in decimal notation: all its digits as one number, whose last
digit has the place that point and exponent give it. -/
def decimalValue (cs : List Char) : ℚ :=
  digitsValue 10 ((mantissa cs).filter Char.isDigit) * 10 ^ (exponent cs - places cs)

theorem digitsValue_append (base : Nat) (cs ds : List Char) :
    digitsValue base (cs ++ ds) =
      digitsValue base ds + base ^ ds.length * digitsValue base cs := by
  rw [digitsValue, List.reverse_append, List.map_append, Nat.ofDigits_append, List.length_map,
    List.length_reverse, digitsValue, digitsValue]

theorem digitsValue_append_fraction (whole fraction : List Char) :
    (digitsValue 10 (whole ++ fraction) : ℚ) * 10 ^ (-(fraction.length : ℤ)) =
      digitsValue 10 whole + fractionValue fraction := by
  rw [digitsValue_append, fractionValue, zpow_neg, zpow_natCast]
  push_cast
  field_simp
  ring

theorem signedValue_eq {cs : List Char} {k : ℤ} (h : SignedInteger cs k) : signedValue cs = k := by
  cases h with
  | bare h =>
    unfold signedValue
    split
    · simp [Digits] at h
    · simp [Digits] at h
    · rfl
  | plus h => rfl
  | minus h => rfl

theorem decimalValue_append {cs e : List Char} {k : ℤ}
    (hcs : ∀ c ∈ cs, (!isExponentMark c) = true) (he : ExponentPart e k) :
    decimalValue (cs ++ e) =
      digitsValue 10 (cs.filter Char.isDigit) *
        10 ^ (-((cs.dropWhile (· != '.')).tail.length : ℤ)) * 10 ^ k := by
  have hexponent : (e.takeWhile fun c => !isExponentMark c) = [] ∧
      signedValue (e.dropWhile fun c => !isExponentMark c).tail = k := by
    cases he with
    | none => exact ⟨rfl, rfl⟩
    | lower h => exact ⟨rfl, signedValue_eq h⟩
    | upper h => exact ⟨rfl, signedValue_eq h⟩
  have hmantissa : mantissa (cs ++ e) = cs := by
    rw [mantissa, List.takeWhile_append_of_pos hcs, hexponent.1, List.append_nil]
  rw [decimalValue, places, exponent, hmantissa, List.dropWhile_append_of_pos hcs, hexponent.2,
    sub_eq_add_neg, zpow_add₀ (by norm_num), mul_comm (10 ^ k), mul_assoc]

theorem not_isExponentMark_of_isDigit {c : Char} (h : c.isDigit = true) :
    (!isExponentMark c) = true := by
  by_contra hmark
  simp only [isExponentMark, Bool.not_eq_true, Bool.not_eq_false', Bool.or_eq_true, beq_iff_eq]
    at hmark
  rcases hmark with rfl | rfl
  · contradiction
  · contradiction

theorem dropWhile_digits {ds rest : List Char} (hd : ∀ c ∈ ds, c.isDigit = true) :
    (ds ++ rest).dropWhile (· != '.') = rest.dropWhile (· != '.') := by
  refine List.dropWhile_append_of_pos fun c hc => ?_
  have hdigit := hd c hc
  cases hpoint : c != '.' with
  | true => rfl
  | false =>
    rw [bne_eq_false_iff_eq] at hpoint
    rw [hpoint] at hdigit
    contradiction

theorem decimalValue_integer {whole e : List Char} {k : ℤ} (hw : ∀ c ∈ whole, c.isDigit = true)
    (he : ExponentPart e k) : decimalValue (whole ++ e) = digitsValue 10 whole * 10 ^ k := by
  have hplaces : whole.dropWhile (· != '.') = [] := by
    have h : (whole ++ []).dropWhile (· != '.') = [] := dropWhile_digits hw
    rwa [List.append_nil] at h
  rw [decimalValue_append (fun c hc => not_isExponentMark_of_isDigit (hw c hc)) he, hplaces,
    List.filter_eq_self.mpr hw]
  simp

theorem decimalValue_pointed {whole fraction e : List Char} {k : ℤ}
    (hw : ∀ c ∈ whole, c.isDigit = true) (hf : ∀ c ∈ fraction, c.isDigit = true)
    (he : ExponentPart e k) :
    decimalValue (whole ++ '.' :: (fraction ++ e)) =
      (digitsValue 10 whole + fractionValue fraction) * 10 ^ k := by
  have hmarks : ∀ c ∈ whole ++ '.' :: fraction, (!isExponentMark c) = true := by
    rw [List.forall_mem_append, List.forall_mem_cons]
    exact ⟨fun c hc => not_isExponentMark_of_isDigit (hw c hc), rfl,
      fun c hc => not_isExponentMark_of_isDigit (hf c hc)⟩
  have hfilter : (whole ++ '.' :: fraction).filter Char.isDigit = whole ++ fraction := by
    rw [List.filter_append, List.filter_cons_of_neg (by decide), List.filter_eq_self.mpr hw,
      List.filter_eq_self.mpr hf]
  have hplaces : (whole ++ '.' :: fraction).dropWhile (· != '.') = '.' :: fraction := by
    rw [dropWhile_digits hw, List.dropWhile_cons_of_neg (by decide)]
  have hvalue := decimalValue_append hmarks he
  rwa [hfilter, hplaces, List.tail_cons, digitsValue_append_fraction, List.append_assoc] at hvalue

theorem DecimalLiteral.eq_decimalValue {cs : List Char} {v : ℚ} (h : DecimalLiteral cs v) :
    v = decimalValue cs := by
  cases h with
  | integer hw he => exact (decimalValue_integer hw.digits.2 he).symm
  | pointed hw hf he => exact (decimalValue_pointed hw.digits.2 hf he).symm
  | @fraction fraction e k hf he =>
    have hvalue : decimalValue ([] ++ '.' :: (fraction ++ e)) =
        (digitsValue 10 [] + fractionValue fraction) * 10 ^ k :=
      decimalValue_pointed (fun _ h => absurd h List.not_mem_nil) hf.2 he
    have hzero : digitsValue 10 [] = 0 := rfl
    rw [hzero, Nat.cast_zero, zero_add] at hvalue
    exact hvalue.symm

/-! ## One reading -/

theorem isNumber_octal {cs : List Char} (h : Digits isOctalDigit cs) :
    isNumber ('0' :: cs) = false := by
  obtain ⟨hne, hall⟩ := h
  cases cs with
  | nil => contradiction
  | cons c cs =>
    have hoctal := hall c List.mem_cons_self
    rw [isOctalDigit, Bool.and_eq_true] at hoctal
    have hzero : hasLeadingZero ('0' :: c :: cs) = true := hoctal.1
    rw [isNumber, hzero]
    rfl

theorem isNumber_hex {c : Char} (hc : c = 'x' ∨ c = 'X') (cs : List Char) :
    isNumber ('0' :: c :: cs) = false := by
  rcases hc with rfl | rfl
  · rfl
  · rfl

theorem isNumber_minus (cs : List Char) : isNumber ('-' :: cs) = false := rfl

theorem numericLiteral_iff {cs : List Char} (h : isNumber cs = true) (v : ℚ) :
    NumericLiteral cs v ↔ v = decimalValue cs := by
  constructor
  · intro hv
    -- The other kinds of literal have a zero in front, and a digit or a letter right after it.
    cases hv with
    | decimal hv => exact hv.eq_decimalValue
    | hex hc _ =>
      rw [isNumber_hex hc] at h
      contradiction
    | octal hcs =>
      rw [isNumber_octal hcs] at h
      contradiction
  · rintro rfl
    obtain ⟨v, hv⟩ := isNumber_iff.mp h
    rw [← hv.eq_decimalValue]
    exact .decimal hv

theorem not_numericLiteral_minus {cs : List Char} {v : ℚ} : ¬NumericLiteral ('-' :: cs) v := by
  intro h
  cases h with
  | decimal h =>
    have hnumber := isNumber_iff.mpr ⟨v, h⟩
    rw [isNumber_minus] at hnumber
    contradiction

def signedDecimalValue : List Char → ℚ
  | '-' :: cs => -decimalValue cs
  | cs => decimalValue cs

theorem negatable_iff {cs : List Char} (h : isNumber (withoutMinus cs) = true) (v : ℚ) :
    Negatable NumericLiteral cs v ↔ v = signedDecimalValue cs := by
  unfold withoutMinus at h
  split at h
  · next ds =>
    constructor
    · intro hv
      cases hv with
      | bare hv => exact absurd hv not_numericLiteral_minus
      | minus hv => exact congrArg Neg.neg ((numericLiteral_iff h _).mp hv)
    · rintro rfl
      exact .minus ((numericLiteral_iff h _).mpr rfl)
  · next hminus =>
    have hvalue : signedDecimalValue cs = decimalValue cs := by
      unfold signedDecimalValue
      split
      · exact absurd rfl (hminus _)
      · rfl
    rw [hvalue]
    constructor
    · intro hv
      cases hv with
      | bare hv => exact (numericLiteral_iff h _).mp hv
      | minus hv => exact absurd rfl (hminus _)
    · intro hv
      exact .bare ((numericLiteral_iff h _).mpr hv)

end RowScript.Script

import Mathlib.Data.List.TakeWhile
import Mathlib.Tactic.SplitIfs
import RowScript.Expr
import RowScript.Script.Decimal
import RowScript.Script.Identifier
import RowScript.Script.Quoted

/-!
# Tokens of script texts

The lexical grammar of ES5, for the part of the language that generated text
keeps to: `tokens?` reads a text, the longest token first. Comments, line
terminators and the operators that generated text does not know are refused.
-/

namespace RowScript.Script

inductive Token where
  | word (name : String)
  | number (text : String)
  /-- A quoted text by its value, in which the escapes are resolved. -/
  | quoted (value : String)
  | operator (op : ArithOp)
  | point | comma | semicolon | assign
  | openBracket | closeBracket
  | openBrace | closeBrace
  deriving DecidableEq, Repr

/-! ## Quoted texts -/

def isLineTerminator (c : Char) : Bool := c == '\n' || c == '\x0d' || isLineSeparator c

/-- The character of a hexadecimal escape. Half a surrogate pair is none. -/
def hexEscape? (digits : List Char) : Option Char := do
  let n ← hexNumber? digits
  if n.isValidChar then some (Char.ofNat n) else none

/-- The character of a backslash, `c` and what comes `next`. Most characters stand for themselves. -/
def unescape? (c : Char) (next : Option Char) : Option Char :=
  match c with
  | 'b' => some '\x08'
  | 'f' => some '\x0c'
  | 'n' => some '\n'
  | 'r' => some '\x0d'
  | 't' => some '\t'
  | 'v' => some '\x0b'
  | '0' => if next.any Char.isDigit then none else some '\x00'
  | 'u' | 'x' => none
  | c => if c.isDigit then none else some c

/-- The value of a quoted text after its opening quote, and what follows the closing one. -/
def scanQuoted? : List Char → Option (List Char × List Char)
  | [] => none
  | '\'' :: r => some ([], r)
  | '\\' :: 'u' :: a :: b :: c :: d :: r => do
    let e ← hexEscape? [a, b, c, d]
    let (cs, rest) ← scanQuoted? r
    pure (e :: cs, rest)
  | '\\' :: 'x' :: a :: b :: r => do
    let e ← hexEscape? [a, b]
    let (cs, rest) ← scanQuoted? r
    pure (e :: cs, rest)
  | '\\' :: '\x0d' :: '\n' :: r => scanQuoted? r
  | '\\' :: c :: r =>
    -- An escaped end of line is no part of the value.
    if isLineTerminator c then scanQuoted? r
    else do
      let e ← unescape? c r.head?
      let (cs, rest) ← scanQuoted? r
      pure (e :: cs, rest)
  | c :: r =>
    if c = '\\' || isLineTerminator c then none
    else do
      let (cs, rest) ← scanQuoted? r
      pure (c :: cs, rest)

/-! ## Numbers -/

/-- A decimal literal. A zero before another digit would make it octal. -/
def isNumber (cs : List Char) : Bool := !hasLeadingZero cs && isDecimal cs

def scanDigits (cs : List Char) : List Char × List Char :=
  (cs.takeWhile Char.isDigit, cs.dropWhile Char.isDigit)

def scanFraction : List Char → List Char × List Char
  | '.' :: r => ('.' :: (scanDigits r).1, (scanDigits r).2)
  | cs => ([], cs)

def scanSign : List Char → List Char × List Char
  | '+' :: r => (['+'], r)
  | '-' :: r => (['-'], r)
  | cs => ([], cs)

def scanExponent : List Char → List Char × List Char
  | 'e' :: r => ('e' :: (scanSign r).1 ++ (scanDigits (scanSign r).2).1, (scanDigits (scanSign r).2).2)
  | 'E' :: r => ('E' :: (scanSign r).1 ++ (scanDigits (scanSign r).2).1, (scanDigits (scanSign r).2).2)
  | cs => ([], cs)

/-- The longest literal at the front of a text. No identifier may follow it directly. -/
def scanNumber? (cs : List Char) : Option (List Char × List Char) :=
  let (whole, r) := scanDigits cs
  let (fraction, r) := scanFraction r
  let (exponent, r) := scanExponent r
  let n := whole ++ fraction ++ exponent
  if isNumber n && !r.head?.any isIdentifierPart then some (n, r) else none

/-! ## Tokens -/

/-- Whether two marks in a row are one longer mark or start a comment. -/
def joins (c d : Char) : Bool :=
  match c with
  | '=' | '*' | '%' => d == '='
  | '+' | '-' => d == '=' || d == c
  | '/' => d == '=' || d == '/' || d == '*'
  | _ => false

def mark? : Char → Option Token
  | '+' => some (.operator .add)
  | '-' => some (.operator .sub)
  | '*' => some (.operator .mul)
  | '/' => some (.operator .div)
  | '%' => some (.operator .mod)
  | '.' => some .point
  | ',' => some .comma
  | ';' => some .semicolon
  | '=' => some .assign
  | '(' => some .openBracket
  | ')' => some .closeBracket
  | '\x7b' => some .openBrace
  | '\x7d' => some .closeBrace
  | _ => none

/-- The token that starts with `c` and goes on in `r`, and what follows it. -/
def scanToken? (c : Char) (r : List Char) : Option (Token × List Char) :=
  if isIdentifierStart c then
    some (.word (String.ofList (c :: r.takeWhile isIdentifierPart)), r.dropWhile isIdentifierPart)
  else if c = '\'' then
    (scanQuoted? r).map fun p => (.quoted (String.ofList p.1), p.2)
  else if c.isDigit || (c == '.' && r.head?.any Char.isDigit) then
    (scanNumber? (c :: r)).map fun p => (.number (String.ofList p.1), p.2)
  else if r.head?.any (joins c) then none
  else (mark? c).map (·, r)

/-! ## A token is not empty -/

theorem scanQuoted?_length_lt {cs r v : List Char} (h : scanQuoted? cs = some (v, r)) :
    r.length < cs.length := by
  fun_induction scanQuoted? cs generalizing v r with
  | case1 => simp at h
  | case2 tail =>
    simp only [Option.some.injEq, Prod.mk.injEq] at h
    simp [← h.2]
  | case3 a b c d tail ih =>
    simp [Option.bind_eq_some_iff] at h
    obtain ⟨_, -, _, hv, -⟩ := h
    have := ih hv
    simp; omega
  | case4 a b tail ih =>
    simp [Option.bind_eq_some_iff] at h
    obtain ⟨_, -, _, hv, -⟩ := h
    have := ih hv
    simp; omega
  | case5 tail ih =>
    have := ih h
    simp; omega
  | case6 c tail _ _ _ _ ih =>
    have := ih h
    simp; omega
  | case7 c tail _ _ _ _ ih =>
    simp [Option.bind_eq_some_iff] at h
    obtain ⟨_, -, _, hv, -⟩ := h
    have := ih hv
    simp; omega
  | case8 => simp at h
  | case9 c tail _ _ _ _ _ _ ih =>
    simp [Option.bind_eq_some_iff] at h
    obtain ⟨_, hv, -⟩ := h
    have := ih hv
    simp; omega

theorem scanDigits_append (cs : List Char) : (scanDigits cs).1 ++ (scanDigits cs).2 = cs :=
  List.takeWhile_append_dropWhile

theorem scanFraction_append (cs : List Char) : (scanFraction cs).1 ++ (scanFraction cs).2 = cs := by
  unfold scanFraction
  split
  · simp [scanDigits_append]
  · rfl

theorem scanSign_append (cs : List Char) : (scanSign cs).1 ++ (scanSign cs).2 = cs := by
  unfold scanSign
  split <;> rfl

theorem scanExponent_append (cs : List Char) : (scanExponent cs).1 ++ (scanExponent cs).2 = cs := by
  unfold scanExponent
  split
  · simp [scanDigits_append, scanSign_append]
  · simp [scanDigits_append, scanSign_append]
  · rfl

theorem not_isNumber_nil : isNumber [] = false := rfl

theorem scanNumber?_append {cs n r : List Char} (h : scanNumber? cs = some (n, r)) :
    n ++ r = cs ∧ isNumber n = true := by
  simp only [scanNumber?, Option.ite_none_right_eq_some, Option.some.injEq, Prod.mk.injEq,
    Bool.and_eq_true] at h
  obtain ⟨⟨hn, -⟩, rfl, rfl⟩ := h
  refine ⟨?_, hn⟩
  rw [List.append_assoc, List.append_assoc, scanExponent_append, scanFraction_append,
    scanDigits_append]

theorem scanNumber?_length_lt {cs n r : List Char} (h : scanNumber? cs = some (n, r)) :
    r.length < cs.length := by
  obtain ⟨rfl, hn⟩ := scanNumber?_append h
  cases n with
  | nil =>
    rw [not_isNumber_nil] at hn
    contradiction
  | cons c n =>
    rw [List.length_append, List.length_cons]
    omega

theorem scanToken?_length_le {c : Char} {r rest : List Char} {t : Token}
    (h : scanToken? c r = some (t, rest)) : rest.length ≤ r.length := by
  unfold scanToken? at h
  split_ifs at h with h1 h2 h3 h4
  · simp only [Option.some.injEq, Prod.mk.injEq] at h
    rw [← h.2]
    exact (List.dropWhile_suffix _).length_le
  · simp only [Option.map_eq_some_iff, Prod.mk.injEq] at h
    obtain ⟨⟨v, _⟩, hv, -, rfl⟩ := h
    exact Nat.le_of_lt (scanQuoted?_length_lt hv)
  · simp only [Option.map_eq_some_iff, Prod.mk.injEq] at h
    obtain ⟨⟨n, _⟩, hn, -, rfl⟩ := h
    exact Nat.le_of_lt_succ (scanNumber?_length_lt hn)
  · simp only [Option.map_eq_some_iff, Prod.mk.injEq] at h
    obtain ⟨_, -, -, rfl⟩ := h
    exact Nat.le_refl _

/-! ## Texts -/

def isBlank (c : Char) : Bool := c == ' ' || c == '\t'

/-- The tokens of a text. -/
def tokens? (cs : List Char) : Option (List Token) :=
  match cs with
  | [] => some []
  | c :: r =>
    if isBlank c then tokens? r
    else
      match _h : scanToken? c r with
      | none => none
      | some (t, rest) => (tokens? rest).map (t :: ·)
termination_by cs.length
decreasing_by
  · simp
  · exact Nat.lt_succ_of_le (scanToken?_length_le _h)

/-! ## Reading on -/

theorem tokens?_nil : tokens? [] = some [] := by rw [tokens?]

theorem tokens?_blank (r : List Char) : tokens? (' ' :: r) = tokens? r := by
  rw [tokens?]
  simp [isBlank]

theorem tokens?_cons {c : Char} {r rest : List Char} {t : Token} (hc : isBlank c = false)
    (h : scanToken? c r = some (t, rest)) : tokens? (c :: r) = (tokens? rest).map (t :: ·) := by
  rw [tokens?]
  simp only [hc, Bool.false_eq_true, if_false]
  split
  · simp_all
  · simp_all

/-! ## Quoted texts are read back -/

theorem hexEscape?_hexDigits {c : Char} (h : c.toNat < 65536) :
    hexEscape? (hexDigits 4 c.toNat) = some c := by
  have hpower : Nat.pow 16 4 = 65536 := rfl
  have hvalid : c.toNat.isValidChar := c.valid
  rw [hexEscape?, hexNumber?_hexDigits, hpower, Nat.mod_eq_of_lt h]
  simp [hvalid]

theorem scanQuoted?_hex {c : Char} (h : c.toNat < 65536) (rest : List Char) :
    scanQuoted? ('\\' :: 'u' :: hexDigits 4 c.toNat ++ rest) =
      (scanQuoted? rest).map fun p => (c :: p.1, p.2) := by
  have hc := hexEscape?_hexDigits h
  rw [hexDigits_four] at hc ⊢
  simp only [List.cons_append, List.nil_append]
  rw [scanQuoted?, hc]
  cases scanQuoted? rest <;> rfl

theorem scanQuoted?_short {c e : Char} (hc : c ≠ 'u' ∧ c ≠ 'x') (hline : isLineTerminator c = false)
    (he : ∀ next, unescape? c next = some e) (rest : List Char) :
    scanQuoted? ('\\' :: c :: rest) = (scanQuoted? rest).map fun p => (e :: p.1, p.2) := by
  have hreturn : c ≠ '\x0d' := by
    rintro rfl
    contradiction
  rw [scanQuoted?, if_neg (by simp [hline]), he]
  · cases scanQuoted? rest <;> rfl
  all_goals simp_all

theorem scanQuoted?_plain {c : Char} (hq : c ≠ '\'') (hb : c ≠ '\\')
    (hline : isLineTerminator c = false) (rest : List Char) :
    scanQuoted? (c :: rest) = (scanQuoted? rest).map fun p => (c :: p.1, p.2) := by
  rw [scanQuoted?, if_neg (by simp [hb, hline])]
  · cases scanQuoted? rest <;> rfl
  all_goals simp_all

theorem scanQuoted?_escape (c : Char) (rest : List Char) :
    scanQuoted? (escape c ++ rest) = (scanQuoted? rest).map fun p => (c :: p.1, p.2) := by
  unfold escape
  split_ifs with h1 h2 h3 h4 h5 h6
  · subst h1; exact scanQuoted?_short (by decide) (by decide) (fun _ => rfl) rest
  · subst h2; exact scanQuoted?_short (by decide) (by decide) (fun _ => rfl) rest
  · subst h3; exact scanQuoted?_short (by decide) (by decide) (fun _ => rfl) rest
  · subst h4; exact scanQuoted?_short (by decide) (by decide) (fun _ => rfl) rest
  · subst h5; exact scanQuoted?_short (by decide) (by decide) (fun _ => rfl) rest
  · apply scanQuoted?_hex
    simp only [isLineSeparator, isControl, Bool.or_eq_true, Bool.and_eq_true, beq_iff_eq,
      decide_eq_true_eq] at h6
    omega
  · simp only [Bool.or_eq_true, not_or, Bool.not_eq_true] at h6
    exact scanQuoted?_plain h2 h1 (by simp [isLineTerminator, h3, h4, h6.1]) rest

theorem scanQuoted?_flatMap_escape (cs rest : List Char) :
    scanQuoted? (cs.flatMap escape ++ '\'' :: rest) = some (cs, rest) := by
  induction cs with
  | nil => rfl
  | cons c cs ih =>
    rw [List.flatMap_cons, List.append_assoc, scanQuoted?_escape, ih]
    rfl

/-! ## Numbers are read back -/

/-- What may follow a number: nothing that it would go on with. -/
def endsNumber (rest : List Char) : Bool := !rest.head?.any fun c => isIdentifierPart c || c == '.'

theorem not_isDigit_of_endsNumber {rest : List Char} (h : endsNumber rest = true) :
    rest.head?.any Char.isDigit = false := by
  cases rest with
  | nil => rfl
  | cons c rest =>
    simp only [endsNumber, List.head?_cons, Option.any_some, Bool.not_eq_true', Bool.or_eq_false_iff]
      at h
    obtain ⟨hpart, -⟩ := h
    simp only [isIdentifierPart, Char.isAlphanum, Bool.or_eq_false_iff] at hpart
    exact hpart.2.2

theorem scanDigits_append_right (cs : List Char) {rest : List Char}
    (hr : rest.head?.any Char.isDigit = false) :
    scanDigits (cs ++ rest) = ((scanDigits cs).1, (scanDigits cs).2 ++ rest) := by
  induction cs with
  | nil =>
    cases rest with
    | nil => rfl
    | cons c rest =>
      simp only [List.head?_cons, Option.any_some] at hr
      simp [scanDigits, hr]
  | cons c cs ih =>
    simp only [scanDigits, Prod.mk.injEq] at ih
    by_cases hc : c.isDigit
    · simp [scanDigits, hc, ih]
    · simp [scanDigits, hc]

theorem scanDigits_of_isDigits {ds : List Char} (h : isDigits ds = true) :
    scanDigits ds = (ds, []) := by
  simp only [isDigits, Bool.and_eq_true, List.all_eq_true] at h
  rw [scanDigits, List.takeWhile_eq_self_iff.mpr h.2, List.dropWhile_eq_nil_iff.mpr h.2]

theorem scanSign_append_right {cs : List Char} (hcs : cs ≠ []) (rest : List Char) :
    scanSign (cs ++ rest) = ((scanSign cs).1, (scanSign cs).2 ++ rest) := by
  cases cs with
  | nil => contradiction
  | cons c cs =>
    unfold scanSign
    split <;> simp_all

theorem scanSign_snd (cs : List Char) : (scanSign cs).2 = withoutSign cs := by
  unfold scanSign withoutSign
  split <;> simp_all

theorem scanExponent_digits {cs rest : List Char} (h : isDigits (withoutSign cs) = true)
    (hr : endsNumber rest = true) :
    scanDigits (scanSign (cs ++ rest)).2 = (withoutSign cs, rest) ∧
      (scanSign (cs ++ rest)).1 ++ withoutSign cs = cs := by
  have hne : cs ≠ [] := by
    rintro rfl
    simp [withoutSign, isDigits] at h
  rw [scanSign_append_right hne, scanSign_snd]
  refine ⟨?_, ?_⟩
  · rw [scanDigits_append_right _ (not_isDigit_of_endsNumber hr), scanDigits_of_isDigits h]
    rfl
  · rw [← scanSign_snd, scanSign_append]

theorem scanExponent_eq {e rest : List Char} (he : isExponent e = true)
    (hr : endsNumber rest = true) : scanExponent (e ++ rest) = (e, rest) := by
  unfold isExponent at he
  split at he
  · -- Without an exponent the text after the number must not look like one.
    cases rest with
    | nil => rfl
    | cons c rest =>
      rw [List.nil_append]
      unfold scanExponent
      split
      · simp_all [endsNumber, isIdentifierPart]
      · simp_all [endsNumber, isIdentifierPart]
      · rfl
  · obtain ⟨hd, hs⟩ := scanExponent_digits he hr
    rw [List.cons_append, scanExponent, hd, List.cons_append, hs]
  · obtain ⟨hd, hs⟩ := scanExponent_digits he hr
    rw [List.cons_append, scanExponent, hd, List.cons_append, hs]
  · contradiction

theorem scanNumber?_eq {n rest : List Char} (hn : isNumber n = true)
    (hr : endsNumber rest = true) : scanNumber? (n ++ rest) = some (n, rest) := by
  have hdigit := not_isDigit_of_endsNumber hr
  have hparts := scanDigits_append n
  have hdec := hn
  simp only [isNumber, Bool.and_eq_true, isDecimal] at hdec
  have hpart : rest.head?.any isIdentifierPart = false := by
    cases rest with
    | nil => rfl
    | cons c rest => simp_all [endsNumber]
  have hscan : ∃ fraction exponent,
      scanFraction ((scanDigits n).2 ++ rest) = (fraction, exponent ++ rest) ∧
      fraction ++ exponent = (scanDigits n).2 ∧ isExponent exponent = true := by
    change _ ∧ (match (scanDigits n).2 with | '.' :: cs => _ | cs => _) = true at hdec
    split at hdec
    · next cs htail =>
      simp only [Bool.and_eq_true] at hdec
      refine ⟨'.' :: (scanDigits cs).1, (scanDigits cs).2, ?_, ?_, hdec.2.2⟩
      · rw [htail, List.cons_append, scanFraction, scanDigits_append_right _ hdigit]
      · rw [htail, List.cons_append, scanDigits_append]
    · next htail =>
      simp only [Bool.and_eq_true] at hdec
      refine ⟨[], (scanDigits n).2, ?_, rfl, hdec.2.2⟩
      unfold scanFraction
      split
      · next r heq =>
        cases htl : (scanDigits n).2 with
        | nil =>
          rw [htl, List.nil_append] at heq
          rw [heq] at hr
          simp [endsNumber] at hr
        | cons c cs =>
          rw [htl, List.cons_append, List.cons.injEq] at heq
          exact absurd (heq.1 ▸ htl) (htail cs)
      · rfl
  obtain ⟨fraction, exponent, hf, hfe, he⟩ := hscan
  have hnumber : (scanDigits n).1 ++ fraction ++ exponent = n := by
    rw [List.append_assoc, hfe, hparts]
  simp only [scanNumber?, scanDigits_append_right n hdigit, hf, scanExponent_eq he hr, hnumber, hn,
    hpart, Bool.not_false, Bool.and_self, if_true]

theorem code_of_isAlpha {c : Char} (h : c.isAlpha = true) :
    (65 ≤ c.toNat ∧ c.toNat ≤ 90) ∨ (97 ≤ c.toNat ∧ c.toNat ≤ 122) := by
  have hcases : c.isUpper = true ∨ c.isLower = true := by
    rw [← Bool.or_eq_true]
    exact h
  rcases hcases with hc | hc
  · have hrange : 'A'.val ≤ c.val ∧ c.val ≤ 'Z'.val := of_decide_eq_true hc
    rw [UInt32.le_iff_toNat_le, UInt32.le_iff_toNat_le] at hrange
    exact .inl hrange
  · have hboth : (decide ('a'.val ≤ c.val) && decide (c.val ≤ 'z'.val)) = true := hc
    rw [Bool.and_eq_true, decide_eq_true_eq, decide_eq_true_eq, UInt32.le_iff_toNat_le,
      UInt32.le_iff_toNat_le] at hboth
    exact .inr hboth

theorem code_of_isDigit {c : Char} (h : c.isDigit = true) : 48 ≤ c.toNat ∧ c.toNat ≤ 57 :=
  Char.isDigit_iff_toNat.mp h

theorem start_of_isDigit {c : Char} (h : c.isDigit = true) :
    isBlank c = false ∧ isIdentifierStart c = false ∧ c ≠ '\'' := by
  refine ⟨?_, ?_, ?_⟩
  · cases hb : isBlank c
    · rfl
    · simp only [isBlank, Bool.or_eq_true, beq_iff_eq] at hb
      rcases hb with rfl | rfl <;> simp at h
  · cases hi : isIdentifierStart c
    · rfl
    · simp only [isIdentifierStart, Bool.or_eq_true, beq_iff_eq] at hi
      rcases hi with (rfl | rfl) | hi
      · simp at h
      · simp at h
      · have hdigit := code_of_isDigit h
        have halpha := code_of_isAlpha hi
        omega
  · rintro rfl
    simp at h

theorem isNumber_start {c : Char} {n : List Char} (hn : isNumber (c :: n) = true) (rest : List Char) :
    isBlank c = false ∧ isIdentifierStart c = false ∧ c ≠ '\'' ∧
      (c.isDigit || (c == '.' && (n ++ rest).head?.any Char.isDigit)) = true := by
  by_cases hc : c.isDigit = true
  · obtain ⟨hb, hi, hq⟩ := start_of_isDigit hc
    exact ⟨hb, hi, hq, by rw [hc]; rfl⟩
  · simp only [isNumber, Bool.and_eq_true, isDecimal, List.takeWhile_cons_of_neg hc,
      List.dropWhile_cons_of_neg hc] at hn
    obtain ⟨-, hn⟩ := hn
    split at hn
    · next cs heq =>
      obtain ⟨rfl, rfl⟩ := List.cons.inj heq
      refine ⟨rfl, rfl, by decide, ?_⟩
      cases n with
      | nil => simp at hn
      | cons d n =>
        by_cases hd : d.isDigit = true
        · simp [hd]
        · simp [List.takeWhile_cons_of_neg hd] at hn
    · simp at hn

/-! ## The characters of words and numbers -/

theorem isIdentifierPart_of_mem {name : String} (h : isIdentifier name = true) {c : Char}
    (hc : c ∈ name.toList) : isIdentifierPart c = true := by
  unfold isIdentifier at h
  split at h
  · contradiction
  · next d cs hname =>
    simp only [Bool.and_eq_true, List.all_eq_true] at h
    rw [hname] at hc
    rcases List.mem_cons.mp hc with rfl | hc
    · simp only [isIdentifierStart, Bool.or_eq_true] at h
      simp only [isIdentifierPart, Char.isAlphanum, Bool.or_eq_true]
      rcases h.1 with hmark | halpha
      · exact .inl hmark
      · exact .inr (.inl halpha)
    · exact h.2 c hc

theorem word_ends {rest : List Char} (hr : rest.head?.any isIdentifierPart = false) :
    rest.takeWhile isIdentifierPart = [] ∧ rest.dropWhile isIdentifierPart = rest := by
  cases rest with
  | nil => exact ⟨rfl, rfl⟩
  | cons c rest =>
    simp only [List.head?_cons, Option.any_some] at hr
    simp [hr]

theorem isDigits_mem {cs : List Char} (h : isDigits cs = true) {c : Char} (hc : c ∈ cs) :
    c.isDigit = true := by
  simp only [isDigits, Bool.and_eq_true, List.all_eq_true] at h
  exact h.2 c hc

/-- The characters of numbers that are not digits. -/
def numberMarks : List Char := ['.', 'e', 'E', '+', '-']

theorem isExponent_mem {cs : List Char} (h : isExponent cs = true) {c : Char} (hc : c ∈ cs) :
    c.isDigit = true ∨ c ∈ numberMarks := by
  have hsigned : ∀ ds : List Char, isDigits (withoutSign ds) = true → c ∈ ds →
      c.isDigit = true ∨ c ∈ numberMarks := by
    intro ds hds hm
    rw [← scanSign_append ds, scanSign_snd] at hm
    rcases List.mem_append.mp hm with hm | hm
    · right
      unfold scanSign at hm
      split at hm
      · simp_all [numberMarks]
      · simp_all [numberMarks]
      · simp at hm
    · exact .inl (isDigits_mem hds hm)
  unfold isExponent at h
  split at h
  · simp at hc
  · rcases List.mem_cons.mp hc with rfl | hc
    · exact .inr (by decide)
    · exact hsigned _ h hc
  · rcases List.mem_cons.mp hc with rfl | hc
    · exact .inr (by decide)
    · exact hsigned _ h hc
  · contradiction

theorem isNumber_mem {cs : List Char} (h : isNumber cs = true) {c : Char} (hc : c ∈ cs) :
    c.isDigit = true ∨ c ∈ numberMarks := by
  simp only [isNumber, Bool.and_eq_true, isDecimal] at h
  obtain ⟨-, h⟩ := h
  rw [← List.takeWhile_append_dropWhile (p := Char.isDigit) (l := cs)] at hc
  rcases List.mem_append.mp hc with hc | hc
  · exact .inl (List.mem_takeWhile_imp hc)
  · split at h
    · next ds htail =>
      simp only [Bool.and_eq_true] at h
      rw [htail] at hc
      rcases List.mem_cons.mp hc with rfl | hc
      · exact .inr (by decide)
      · rw [← List.takeWhile_append_dropWhile (p := Char.isDigit) (l := ds)] at hc
        rcases List.mem_append.mp hc with hc | hc
        · exact .inl (List.mem_takeWhile_imp hc)
        · exact isExponent_mem h.2 hc
    · simp only [Bool.and_eq_true] at h
      exact isExponent_mem h.2 hc

/-! ## Scans -/

/-- Before `rest`, the text `cs` is read as the tokens `ts`. -/
def Scans (cs : List Char) (ts : List Token) (rest : List Char) : Prop :=
  tokens? (cs ++ rest) = (tokens? rest).map (ts ++ ·)

namespace Scans

theorem nil (rest : List Char) : Scans [] [] rest := by simp [Scans]

theorem append {cs cs' rest : List Char} {ts ts' : List Token} (h : Scans cs ts (cs' ++ rest))
    (h' : Scans cs' ts' rest) : Scans (cs ++ cs') (ts ++ ts') rest := by
  rw [Scans] at *
  rw [List.append_assoc, h, h', Option.map_map]
  congr 1
  funext us
  simp

theorem cons {c : Char} {r cs rest : List Char} {t : Token} {ts : List Token}
    (hc : isBlank c = false) (ht : scanToken? c (r ++ cs ++ rest) = some (t, cs ++ rest))
    (h : Scans cs ts rest) : Scans (c :: r ++ cs) (t :: ts) rest := by
  rw [Scans] at *
  rw [List.cons_append, List.cons_append, tokens?_cons hc ht, h, Option.map_map]
  rfl

theorem blank {cs rest : List Char} {ts : List Token} (h : Scans cs ts rest) :
    Scans (' ' :: cs) ts rest := by
  rw [Scans] at *
  rw [List.cons_append, tokens?_blank, h]

theorem mark {c : Char} {cs rest : List Char} {t : Token} {ts : List Token}
    (hc : mark? c = some t) (hn : (cs ++ rest).head?.any (joins c) = false)
    (hp : c = '.' → (cs ++ rest).head?.any Char.isDigit = false) (h : Scans cs ts rest) :
    Scans (c :: cs) (t :: ts) rest := by
  have hstart : isBlank c = false ∧ isIdentifierStart c = false ∧ c ≠ '\'' ∧ c.isDigit = false := by
    unfold mark? at hc
    split at hc <;> first | decide | simp at hc
  obtain ⟨hb, hi, hq, hd⟩ := hstart
  refine cons (r := []) hb ?_ h
  have hnumber : (c == '.' && (cs ++ rest).head?.any Char.isDigit) = false := by
    by_cases hcp : c = '.'
    · rw [hp hcp, Bool.and_false]
    · simp [hcp]
  rw [List.nil_append, scanToken?, if_neg (by simp [hi]), if_neg hq,
    if_neg (by rw [hd, hnumber]; simp), if_neg (by rw [hn]; simp), hc]
  rfl

theorem plain {c : Char} {cs rest : List Char} {t : Token} {ts : List Token}
    (hc : mark? c = some t) (hs : c ∈ ['(', ')', ',', ';', '\x7b', '\x7d']) (h : Scans cs ts rest) :
    Scans (c :: cs) (t :: ts) rest := by
  refine mark hc ?_ ?_ h
  · have hj : joins c = fun _ => false := by
      funext d
      simp only [List.mem_cons, List.not_mem_nil, or_false] at hs
      rcases hs with rfl | rfl | rfl | rfl | rfl | rfl <;> rfl
    cases (cs ++ rest).head? <;> simp [hj]
  · rintro rfl
    simp at hs

/-! ### Words -/

theorem word {name : String} {cs rest : List Char} {ts : List Token}
    (hn : isIdentifier name = true) (hr : (cs ++ rest).head?.any isIdentifierPart = false)
    (h : Scans cs ts rest) : Scans (name.toList ++ cs) (.word name :: ts) rest := by
  unfold isIdentifier at hn
  split at hn
  · contradiction
  · next c part hname =>
    simp only [Bool.and_eq_true, List.all_eq_true] at hn
    obtain ⟨hc, hall⟩ := hn
    have hb : isBlank c = false := by
      cases hcb : isBlank c
      · rfl
      · simp only [isBlank, Bool.or_eq_true, beq_iff_eq] at hcb
        rcases hcb with rfl | rfl <;> simp [isIdentifierStart] at hc
    rw [hname]
    refine cons hb ?_ h
    have hrest := word_ends hr
    rw [List.append_assoc, scanToken?, if_pos hc, List.takeWhile_append_of_pos hall,
      List.dropWhile_append_of_pos hall, hrest.1, hrest.2, List.append_nil, ← hname,
      String.ofList_toList]

/-! ### Quoted texts and numbers -/

theorem quoted {value : String} {cs rest : List Char} {ts : List Token} (h : Scans cs ts rest) :
    Scans ((quote value).toList ++ cs) (.quoted value :: ts) rest := by
  rw [toList_quote, List.cons_append]
  refine cons (r := value.toList.flatMap escape ++ ['\'']) rfl ?_ h
  have hq : value.toList.flatMap escape ++ ['\''] ++ cs ++ rest =
      value.toList.flatMap escape ++ '\'' :: (cs ++ rest) := by simp
  have hscan := scanQuoted?_flatMap_escape value.toList (cs ++ rest)
  rw [hq, scanToken?, if_neg (by decide), if_pos rfl, hscan]
  simp

theorem number {text : String} {cs rest : List Char} {ts : List Token}
    (hn : isNumber text.toList = true) (hr : endsNumber (cs ++ rest) = true)
    (h : Scans cs ts rest) : Scans (text.toList ++ cs) (.number text :: ts) rest := by
  have hscan := scanNumber?_eq hn hr
  cases htext : text.toList with
  | nil => rw [htext, not_isNumber_nil] at hn; contradiction
  | cons c n =>
    rw [htext] at hn hscan
    obtain ⟨hb, hi, hq, hd⟩ := isNumber_start hn (cs ++ rest)
    refine cons hb ?_ h
    rw [List.append_assoc, scanToken?, if_neg (by simp [hi]), if_neg hq, if_pos hd]
    rw [List.cons_append] at hscan
    rw [hscan, ← htext, Option.map_some, String.ofList_toList]

end Scans

end RowScript.Script

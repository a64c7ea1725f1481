import RowScript.Json.Basic
import RowScript.Text.Hex

/-!
# Tokens of JSON texts

`Token.text` writes a token and `Token.scan?` reads the one at the front of a
text, with what follows it. `tokens?` reads a whole text; it ends because a
token is never empty (`scan?_length_lt`).
-/

namespace RowScript.Json

inductive Token where
  | leftBrace | rightBrace
  | leftBracket | rightBracket
  | comma | colon
  | null
  | bool (b : Bool)
  | number (n : Number)
  | string (s : String)
  /-- A string in which a surrogate stands without its partner, which is no text. -/
  | unpaired
  deriving DecidableEq, Repr

/-! ## Strings -/

/-- One character of a string. Quote, backslash and the characters below the
blank are escaped, the latter by their short form if they have one. -/
def escape (c : Char) : List Char :=
  if c = '"' then ['\\', '"']
  else if c = '\\' then ['\\', '\\']
  else if c = '\x08' then ['\\', 'b']
  else if c = '\x0c' then ['\\', 'f']
  else if c = '\n' then ['\\', 'n']
  else if c = '\x0d' then ['\\', 'r']
  else if c = '\t' then ['\\', 't']
  else if c.toNat < 0x20 then '\\' :: 'u' :: hexDigits 4 c.toNat
  else [c]

/-- The character of a short escape. -/
def unescape? : Char → Option Char
  | '"' => some '"'
  | '\\' => some '\\'
  | '/' => some '/'
  | 'b' => some '\x08'
  | 'f' => some '\x0c'
  | 'n' => some '\n'
  | 'r' => some '\x0d'
  | 't' => some '\t'
  | _ => none

def isHighSurrogate (n : Nat) : Bool := 0xD800 ≤ n && n < 0xDC00

def isLowSurrogate (n : Nat) : Bool := 0xDC00 ≤ n && n < 0xE000

/-- What a string is made of: characters, and code units that are written in hexadecimal. -/
inductive Piece where
  | char (c : Char)
  | unit (n : Nat)

/-- The pieces of a string after its opening quote, and what follows the closing one. -/
def scanPieces? : List Char → Option (List Piece × List Char)
  | [] => none
  | '"' :: r => some ([], r)
  | '\\' :: 'u' :: a :: b :: c :: d :: r => do
    let n ← hexNumber? [a, b, c, d]
    let (ps, rest) ← scanPieces? r
    pure (.unit n :: ps, rest)
  | '\\' :: c :: r => do
    let e ← unescape? c
    let (ps, rest) ← scanPieces? r
    pure (.char e :: ps, rest)
  | c :: r =>
    if c.toNat < 0x20 || c == '\\' then none
    else do
      let (ps, rest) ← scanPieces? r
      pure (.char c :: ps, rest)

/-- Two surrogates in a row are one character; a surrogate alone is none. -/
def joinPieces? : List Piece → Option (List Char)
  | [] => some []
  | .char c :: ps => (joinPieces? ps).map (c :: ·)
  | .unit n :: .unit m :: ps =>
    if isHighSurrogate n then
      if isLowSurrogate m then
        (joinPieces? ps).map (Char.ofNat (0x10000 + 0x400 * (n - 0xD800) + (m - 0xDC00)) :: ·)
      else none
    else if isLowSurrogate n then none
    else (joinPieces? (.unit m :: ps)).map (Char.ofNat n :: ·)
  | .unit n :: ps =>
    if isHighSurrogate n || isLowSurrogate n then none
    else (joinPieces? ps).map (Char.ofNat n :: ·)

/-! ## Numbers -/

/-- Digits at the front of a text; there has to be one. -/
def scanDigits? (cs : List Char) : Option (List Char × List Char) :=
  match cs.takeWhile Char.isDigit with
  | [] => none
  | ds => some (ds, cs.dropWhile Char.isDigit)

/-- A zero, or digits that start with another one. -/
def scanWhole? : List Char → Option (List Char × List Char)
  | '0' :: r => some (['0'], r)
  | cs => scanDigits? cs

def scanFraction? : List Char → Option (List Char × List Char)
  | '.' :: r => scanDigits? r
  | cs => some ([], cs)

def scanSign : List Char → Bool × List Char
  | '-' :: r => (true, r)
  | '+' :: r => (false, r)
  | cs => (false, cs)

def scanExponent? : List Char → Option (Option (Bool × List Char) × List Char)
  | 'e' :: r | 'E' :: r => do
    let (negative, r) := scanSign r
    let (ds, r) ← scanDigits? r
    pure (some (negative, ds), r)
  | cs => some (none, cs)

def Number.scan? (cs : List Char) : Option (Number × List Char) := do
  let (negative, r) :=
    match cs with
    | '-' :: r => (true, r)
    | cs => (false, cs)
  let (whole, r) ← scanWhole? r
  let (fraction, r) ← scanFraction? r
  let (exponent, r) ← scanExponent? r
  pure ({ negative, whole, fraction, exponent }, r)

def Number.text (n : Number) : List Char :=
  (if n.negative then ['-'] else []) ++ n.whole ++
    (if n.fraction.isEmpty then [] else '.' :: n.fraction) ++
    (match n.exponent with
      | none => []
      | some (negative, ds) => 'e' :: (if negative then ['-'] else []) ++ ds)

/-! ## Tokens -/

namespace Token

def text : Token → List Char
  | leftBrace => ['{']
  | rightBrace => ['}']
  | leftBracket => ['[']
  | rightBracket => [']']
  | comma => [',']
  | colon => [':']
  | null => ['n', 'u', 'l', 'l']
  | bool true => ['t', 'r', 'u', 'e']
  | bool false => ['f', 'a', 'l', 's', 'e']
  | number n => n.text
  | string s => '"' :: (s.toList.flatMap escape ++ ['"'])
  | unpaired => ['"', '\\', 'u', 'd', '8', '0', '0', '"']

/-- The token of a string. -/
def ofPieces (ps : List Piece) : Token :=
  match joinPieces? ps with
  | some cs => string (String.ofList cs)
  | none => unpaired

def scan? : List Char → Option (Token × List Char)
  | '{' :: r => some (leftBrace, r)
  | '}' :: r => some (rightBrace, r)
  | '[' :: r => some (leftBracket, r)
  | ']' :: r => some (rightBracket, r)
  | ',' :: r => some (comma, r)
  | ':' :: r => some (colon, r)
  | 'n' :: 'u' :: 'l' :: 'l' :: r => some (null, r)
  | 't' :: 'r' :: 'u' :: 'e' :: r => some (bool true, r)
  | 'f' :: 'a' :: 'l' :: 's' :: 'e' :: r => some (bool false, r)
  | '"' :: r => do
    let (ps, r) ← scanPieces? r
    pure (ofPieces ps, r)
  | cs => do
    let (n, r) ← Number.scan? cs
    pure (number n, r)

end Token

/-! ## A token is not empty -/

theorem scanPieces?_length_lt {cs r : List Char} {ps : List Piece}
    (h : scanPieces? cs = some (ps, r)) : r.length < cs.length := by
  fun_induction scanPieces? cs generalizing ps r <;>
    simp [Option.bind_eq_some_iff] at h <;> grind

theorem scanDigits?_length_lt {cs r ds : List Char}
    (h : scanDigits? cs = some (ds, r)) : r.length < cs.length := by
  have parts := congrArg List.length (List.takeWhile_append_dropWhile (p := Char.isDigit) (l := cs))
  unfold scanDigits? at h
  split at h
  · simp at h
  · next hne =>
    have := List.length_pos_iff.mpr hne
    grind

theorem scanWhole?_length_lt {cs r ds : List Char}
    (h : scanWhole? cs = some (ds, r)) : r.length < cs.length := by
  unfold scanWhole? at h
  split at h
  · grind
  · exact scanDigits?_length_lt h

theorem scanFraction?_length_le {cs r ds : List Char}
    (h : scanFraction? cs = some (ds, r)) : r.length ≤ cs.length := by
  unfold scanFraction? at h
  split at h <;> grind [→ scanDigits?_length_lt]

theorem scanSign_length_le (cs : List Char) : (scanSign cs).2.length ≤ cs.length := by
  unfold scanSign
  split <;> simp

theorem scanExponent?_length_le {cs r : List Char} {e : Option (Bool × List Char)}
    (h : scanExponent? cs = some (e, r)) : r.length ≤ cs.length := by
  unfold scanExponent? at h
  split at h <;> simp [Option.bind_eq_some_iff] at h <;>
    grind [→ scanDigits?_length_lt, scanSign_length_le]

theorem Number.scan?_length_lt {cs r : List Char} {n : Number}
    (h : Number.scan? cs = some (n, r)) : r.length < cs.length := by
  unfold Number.scan? at h
  split at h
  all_goals
    simp [Option.bind_eq_some_iff] at h
    grind [→ scanWhole?_length_lt, → scanFraction?_length_le, → scanExponent?_length_le]

theorem Token.scan?_length_lt {cs r : List Char} {t : Token}
    (h : Token.scan? cs = some (t, r)) : r.length < cs.length := by
  unfold Token.scan? at h
  split at h <;> simp [Option.bind_eq_some_iff] at h <;>
    grind [→ scanPieces?_length_lt, → Number.scan?_length_lt]

/-! ## Texts -/

def isBlank (c : Char) : Bool := c == ' ' || c == '\t' || c == '\n' || c == '\x0d'

/-- The tokens of a text. -/
def tokens? (cs : List Char) : Option (List Token) :=
  match cs with
  | [] => some []
  | c :: r =>
    if isBlank c then tokens? r
    else
      match _h : Token.scan? (c :: r) with
      | none => none
      | some (t, rest) => (tokens? rest).map (t :: ·)
termination_by cs.length
decreasing_by
  · simp
  · exact Token.scan?_length_lt _h

end RowScript.Json

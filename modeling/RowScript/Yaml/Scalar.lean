import RowScript.Text.Hex
import RowScript.Yaml.Cell

/-!
# Scalars

Plain, single-quoted and double-quoted text. In all three a line break between
two words counts as one blank, and each empty line after it as a line feed.
-/

namespace RowScript.Yaml

/-- Blanks and breaks after a word, while it is open whether another word follows. -/
structure Gap where
  /-- Blanks before the first break, latest first. -/
  blanks : List Char := []
  /-- What the first break stands for: itself, or nothing if it was escaped. -/
  first : Option (List Char) := none
  /-- Later breaks, latest first. -/
  breaks : List Char := []

namespace Gap

def isEmpty (g : Gap) : Bool := g.blanks.isEmpty && g.first.isNone

def addBlank (g : Gap) (c : Char) : Gap :=
  if g.first.isNone then { g with blanks := c :: g.blanks } else g

def addBreak (g : Gap) (c : Char) : Gap :=
  if g.first.isNone then { first := some [c] } else { g with breaks := c :: g.breaks }

def escapedBreak : Gap := { first := some [] }

/-- What the gap stands for between two words. -/
def fold (g : Gap) : List Char :=
  match g.first with
  | none => g.blanks.reverse
  | some ['\n'] => if g.breaks.isEmpty then [' '] else g.breaks.reverse
  | some b => b ++ g.breaks.reverse

end Gap

/-! ## Plain scalars -/

def flowMarks : List Char := [',', '[', ']', '{', '}']

/-- A colon, or in a collection one of its marks, ends a plain scalar. -/
def endsPlain (inFlow : Bool) (c : Cell) (rest : List Cell) : Bool :=
  (c.char == ':' && startsBlank rest) || (inFlow && flowMarks.contains c.char)

/-- A colon that could as well end the scalar as belong to it. -/
def isUnclearColon (inFlow : Bool) (c : Cell) (rest : List Cell) : Bool :=
  inFlow && c.char == ':' && startsWith ('?' :: flowMarks) rest

structure PlainScalar where
  text : List Char
  /-- The scalar was followed by a line break. -/
  brokeLine : Bool
  rest : List Cell

/-- Reads on a plain scalar of which `word` has been read, latest first. In
block layout, lines that go on with it are indented by at least `indent`. -/
def scanPlain? (inFlow : Bool) (indent : Nat) (word : List Char) (gap : Gap) :
    List Cell → Option PlainScalar
  | [] => some { text := word.reverse, brokeLine := gap.first.isSome, rest := [] }
  | c :: rest =>
    let stop : Option PlainScalar :=
      some { text := word.reverse, brokeLine := gap.first.isSome, rest := c :: rest }
    if isBreak c.char then
      scanPlain? inFlow indent word (gap.addBreak c.char) rest
    else if isBlank c.char then
      if gap.first.isSome && c.column < indent && c.char == '\t' then none
      else scanPlain? inFlow indent word (gap.addBlank c.char) rest
    else if gap.first.isSome && !inFlow && c.column < indent then stop
    else if !gap.isEmpty && (c.char == '#' || startsDocument (c :: rest)) then stop
    else if isUnclearColon inFlow c rest then none
    else if endsPlain inFlow c rest then stop
    else scanPlain? inFlow indent (c.char :: (gap.fold.reverse ++ word)) {} rest

/-! ## Quoted scalars -/

/-- The character of a short escape. -/
def unescape? : Char → Option Char
  | '0' => some '\x00'
  | 'a' => some '\x07'
  | 'b' => some '\x08'
  | 't' | '\t' => some '\t'
  | 'n' => some '\n'
  | 'v' => some '\x0b'
  | 'f' => some '\x0c'
  | 'r' => some '\x0d'
  | 'e' => some '\x1b'
  | ' ' => some ' '
  | '"' => some '"'
  | '/' => some '/'
  | '\\' => some '\\'
  | 'N' => some '\x85'
  | '_' => some '\xa0'
  | 'L' => some '\u2028'
  | 'P' => some '\u2029'
  | _ => none

/-- How many digits follow the start of a numeric escape. -/
def escapeWidth? : Char → Option Nat
  | 'x' => some 2
  | 'u' => some 4
  | 'U' => some 8
  | _ => none

def charOf? (n : Nat) : Option Char := if h : n.isValidChar then some (Char.ofNatAux n h) else none

inductive QuotedMode where
  | text
  /-- After a backslash. -/
  | escape
  /-- In a numeric escape, with the digits that are missing and the number so far. -/
  | number (missing value : Nat)
  /-- After a quote in a single-quoted scalar: doubled, it stands for itself. -/
  | quote

/-- Reads on a quoted scalar after its opening quote. -/
def scanQuoted? (double : Bool) (mode : QuotedMode) (word : List Char) (gap : Gap) :
    List Cell → Option (List Char × List Cell)
  | [] =>
    match mode with
    | .quote => some (word.reverse, [])
    | _ => none
  | c :: rest =>
    match mode with
    | .quote =>
      if c.char == '\'' then scanQuoted? double .text ('\'' :: word) {} rest
      else some (word.reverse, c :: rest)
    | .escape =>
      if isBreak c.char then scanQuoted? double .text word .escapedBreak rest
      else
        match unescape? c.char, escapeWidth? c.char with
        | some e, _ => scanQuoted? double .text (e :: word) {} rest
        | none, some width => scanQuoted? double (.number width 0) word {} rest
        | none, none => none
    | .number missing value =>
      match hexValue? c.char with
      | none => none
      | some d =>
        let value := 16 * value + d
        if missing ≤ 1 then
          match charOf? value with
          | none => none
          | some e => scanQuoted? double .text (e :: word) {} rest
        else scanQuoted? double (.number (missing - 1) value) word {} rest
    | .text =>
      if startsDocument (c :: rest) then none
      else if isBreak c.char then scanQuoted? double .text word (gap.addBreak c.char) rest
      else if isBlank c.char then scanQuoted? double .text word (gap.addBlank c.char) rest
      else
        let word := gap.fold.reverse ++ word
        if double && c.char == '"' then some (word.reverse, rest)
        else if double && c.char == '\\' then scanQuoted? double .escape word {} rest
        else if !double && c.char == '\'' then scanQuoted? double .quote word {} rest
        else scanQuoted? double .text (c.char :: word) {} rest

end RowScript.Yaml

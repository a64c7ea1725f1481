import RowScript.Yaml.Scalar

/-!
# Tokens of YAML texts

Layout becomes tokens: an indented block opens with a token of its kind and
ends with `blockEnd`. A key is only known by the colon after it, so a place
where a key may have started is remembered, and `key` is put there later.

Anchors, aliases, tags, directives and block scalars are not part of this
dialect: a text that uses them is refused.
-/

namespace RowScript.Yaml

inductive Token where
  | blockSequence | blockMapping | blockEnd
  | flowSequence | flowSequenceEnd
  | flowMapping | flowMappingEnd
  /-- The dash before an element of a block. -/
  | entry
  /-- The comma between elements of a flow collection. -/
  | flowEntry
  | key | value
  | scalar (text : String) (plain : Bool)
  | documentStart | documentEnd
  deriving DecidableEq, Repr

/-- A place where a key may have started. -/
structure PendingKey where
  /-- How many tokens were before it. -/
  index : Nat
  line : Nat
  column : Nat
  offset : Nat
  /-- Only a key can stand there. -/
  required : Bool

structure Lexer where
  rest : List Cell
  /-- Latest first. -/
  tokens : List Token := []
  /-- The columns of the open blocks, innermost first. -/
  indents : List Nat := []
  keyAllowed : Bool := true
  /-- The pending key of the innermost flow collection, or of the block layout. -/
  pending : Option PendingKey := none
  /-- The pending keys around the open flow collections, innermost first. -/
  outer : List (Option PendingKey) := []

namespace Lexer

def inFlow (l : Lexer) : Bool := !l.outer.isEmpty

def emit (l : Lexer) (t : Token) : Lexer := { l with tokens := t :: l.tokens }

/-- Puts a token after the first `index` ones. -/
def emitAt (l : Lexer) (index : Nat) (t : Token) : Lexer :=
  let later := l.tokens.take (l.tokens.length - index)
  let earlier := l.tokens.drop (l.tokens.length - index)
  { l with tokens := later ++ t :: earlier }

/-! ## Blanks and comments -/

/-- Skips to the next token. In block layout a new line may start with a key,
and a tab may not be where a key may be. -/
def skipBlanks (inFlow : Bool) (keyAllowed comment : Bool) : List Cell → Bool × List Cell
  | [] => (keyAllowed, [])
  | c :: rest =>
    if isBreak c.char then skipBlanks inFlow (keyAllowed || !inFlow) false rest
    else if comment || c.isOrderMark || c.char == ' ' ||
        (c.char == '\t' && (inFlow || !keyAllowed)) then
      skipBlanks inFlow keyAllowed comment rest
    else if c.char == '#' then skipBlanks inFlow keyAllowed true rest
    else (keyAllowed, c :: rest)

/-! ## Keys -/

/-- A key is within one line and not longer than this many bytes. -/
def keyLength : Nat := 1024

/-- Forgets a pending key that the position `c` is too far from. -/
def refresh (c : Cell) : Option PendingKey → Option (Option PendingKey)
  | none => some none
  | some k =>
    if k.line < c.line || k.offset + keyLength < c.offset then
      if k.required then none else some none
    else some (some k)

def refreshKeys (l : Lexer) (c : Cell) : Option Lexer := do
  pure { l with pending := ← refresh c l.pending, outer := ← l.outer.mapM (refresh c) }

def dropKey (l : Lexer) : Option Lexer :=
  match l.pending with
  | some k => if k.required then none else some { l with pending := none }
  | none => some l

/-- Remembers that a key may start at `c`. -/
def saveKey (l : Lexer) (c : Cell) : Option Lexer :=
  if l.keyAllowed then do
    let l ← l.dropKey
    let required := !l.inFlow && l.indents.head? == some c.column
    pure { l with pending := some {
      index := l.tokens.length
      line := c.line
      column := c.column
      offset := c.offset
      required } }
  else some l

/-! ## Blocks -/

/-- Closes the blocks that `column` is left of. -/
def closeBlocks (column : Nat) : List Nat → List Token → List Nat × List Token
  | [], tokens => ([], tokens)
  | i :: is, tokens =>
    if column < i then closeBlocks column is (.blockEnd :: tokens) else (i :: is, tokens)

def unroll (l : Lexer) (column : Nat) : Lexer :=
  if l.inFlow then l
  else
    let (indents, tokens) := closeBlocks column l.indents l.tokens
    { l with indents, tokens }

def unrollAll (l : Lexer) : Lexer :=
  if l.inFlow then l
  else { l with indents := [], tokens := l.indents.map (fun _ => .blockEnd) ++ l.tokens }

/-- Opens a block at `column`, unless one is open there. Its token goes after the first `index`. -/
def roll (l : Lexer) (column index : Nat) (t : Token) : Lexer :=
  if l.inFlow || l.indents.head?.any (column ≤ ·) then l
  else { l.emitAt index t with indents := column :: l.indents }

/-! ## Tokens -/

def documentMark (l : Lexer) (t : Token) : Option Lexer := do
  let l ← l.unrollAll.dropKey
  pure { l.emit t with keyAllowed := false, rest := l.rest.drop 3 }

def openFlow (l : Lexer) (c : Cell) (rest : List Cell) (t : Token) : Option Lexer := do
  let l ← l.saveKey c
  pure { l.emit t with
    keyAllowed := true, rest, pending := none, outer := l.pending :: l.outer }

def closeFlow (l : Lexer) (rest : List Cell) (t : Token) : Option Lexer := do
  let l ← l.dropKey
  let l := { l.emit t with keyAllowed := false, rest }
  match l.outer with
  | [] => pure l
  | k :: ks => pure { l with pending := k, outer := ks }

def flowSeparator (l : Lexer) (rest : List Cell) : Option Lexer := do
  let l ← l.dropKey
  pure { l.emit .flowEntry with keyAllowed := true, rest }

def blockEntry (l : Lexer) (c : Cell) (rest : List Cell) : Option Lexer := do
  guard (l.inFlow || l.keyAllowed)
  let l ← (l.roll c.column l.tokens.length .blockSequence).dropKey
  pure { l.emit .entry with keyAllowed := true, rest }

/-- A key that is marked as one. -/
def markedKey (l : Lexer) (c : Cell) (rest : List Cell) : Option Lexer := do
  guard (l.inFlow || l.keyAllowed)
  let l ← (l.roll c.column l.tokens.length .blockMapping).dropKey
  pure { l.emit .key with keyAllowed := !l.inFlow, rest }

/-- The colon before a value. What stands before it turns out to be a key. -/
def valueMark (l : Lexer) (c : Cell) (rest : List Cell) : Option Lexer :=
  match l.pending with
  | some k =>
    let l := (l.emitAt k.index .key).roll k.column k.index .blockMapping
    some { l.emit .value with keyAllowed := false, pending := none, rest }
  | none => do
    guard (l.inFlow || l.keyAllowed)
    let l := l.roll c.column l.tokens.length .blockMapping
    pure { l.emit .value with keyAllowed := !l.inFlow, rest }

def quotedScalar (l : Lexer) (c : Cell) (rest : List Cell) (double : Bool) : Option Lexer := do
  let l ← l.saveKey c
  let (text, rest) ← scanQuoted? double .text [] {} rest
  pure { l.emit (.scalar (String.ofList text) false) with keyAllowed := false, rest }

def plainScalar (l : Lexer) (c : Cell) (rest : List Cell) : Option Lexer := do
  let l ← l.saveKey c
  let indent := (l.indents.head?.map (· + 1)).getD 0
  let s ← scanPlain? l.inFlow indent [] {} (c :: rest)
  pure { l.emit (.scalar (String.ofList s.text) true) with keyAllowed := s.brokeLine, rest := s.rest }

/-- Characters that no plain scalar starts with, three of them unless a word follows. -/
def indicators : List Char :=
  ['-', '?', ':', ',', '[', ']', '{', '}', '#', '&', '*', '!', '|', '>', '\'', '"', '%', '@', '\x60']

def startsPlain (inFlow : Bool) (c : Cell) (rest : List Cell) : Bool :=
  !isBlank c.char &&
    (!indicators.contains c.char || (c.char == '-' && !startsBlank rest) ||
      (!inFlow && (c.char == '?' || c.char == ':') && !startsBlank rest))

/-- The token that starts at `c`. -/
def next (l : Lexer) (c : Cell) (rest : List Cell) : Option Lexer :=
  if isDocumentMark '-' (c :: rest) then l.documentMark .documentStart
  else if isDocumentMark '.' (c :: rest) then l.documentMark .documentEnd
  else if c.char == '[' then l.openFlow c rest .flowSequence
  else if c.char == '{' then l.openFlow c rest .flowMapping
  else if c.char == ']' then l.closeFlow rest .flowSequenceEnd
  else if c.char == '}' then l.closeFlow rest .flowMappingEnd
  else if c.char == ',' then l.flowSeparator rest
  else if c.char == '-' && startsBlank rest then l.blockEntry c rest
  else if c.char == '?' && (l.inFlow || startsBlank rest) then l.markedKey c rest
  else if c.char == ':' && (l.inFlow || startsBlank rest) then l.valueMark c rest
  else if c.char == '\'' then l.quotedScalar c rest false
  else if c.char == '"' then l.quotedScalar c rest true
  else if startsPlain l.inFlow c rest then l.plainScalar c rest
  else none

/-- All tokens of the rest. Every one takes characters away from it. -/
def run (l : Lexer) : Option (List Token) :=
  let (keyAllowed, rest) := skipBlanks l.inFlow l.keyAllowed false l.rest
  let l' : Lexer := { l with keyAllowed, rest }
  match rest with
  | [] => do
    let l ← l'.unrollAll.dropKey
    pure l.tokens.reverse
  | c :: cs =>
    match (l'.refreshKeys c).bind fun l => (l.unroll c.column).next c cs with
    | none => none
    | some next => if _h : next.rest.length < l.rest.length then run next else none
termination_by l.rest.length

end Lexer

def tokens? (text : String) : Option (List Token) := do
  Lexer.run { rest := ← cells? text }

end RowScript.Yaml

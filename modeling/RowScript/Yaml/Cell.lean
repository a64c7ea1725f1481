/-!
# Characters with their place

Layout carries meaning, so a text is read as characters that know the line and
column they stand in. Line breaks are made alike first.
-/

namespace RowScript.Yaml

def isPrintable (c : Char) : Bool :=
  let n := c.toNat
  n == 0x09 || n == 0x0A || n == 0x0D || n == 0x85 || (0x20 ≤ n && n ≤ 0x7E) ||
    (0xA0 ≤ n && n != 0xFFFE && n != 0xFFFF)

/-- Carriage returns, alone or with a line feed, and next-line characters become line feeds. -/
def unifyBreaks : List Char → List Char
  | '\x0d' :: '\n' :: cs => '\n' :: unifyBreaks cs
  | '\x0d' :: cs => '\n' :: unifyBreaks cs
  | '\x85' :: cs => '\n' :: unifyBreaks cs
  | c :: cs => c :: unifyBreaks cs
  | [] => []

def isBreak (c : Char) : Bool := c == '\n' || c == '\u2028' || c == '\u2029'

def isBlank (c : Char) : Bool := c == ' ' || c == '\t'

structure Cell where
  char : Char
  line : Nat
  column : Nat
  /-- How many bytes are before it. -/
  offset : Nat
  deriving Repr

def place (line column offset : Nat) : List Char → List Cell
  | [] => []
  | c :: cs =>
    { char := c, line, column, offset } ::
      if isBreak c then place (line + 1) 0 (offset + c.utf8Size) cs
      else place line (column + 1) (offset + c.utf8Size) cs

/-- The cells of a text without control characters. -/
def cells? (text : String) : Option (List Cell) :=
  let cs := text.toList
  if cs.all isPrintable then some (place 0 0 0 (unifyBreaks cs)) else none

/-- A byte order mark at the start of a line. It takes up a column of its own. -/
def Cell.isOrderMark (c : Cell) : Bool := c.column == 0 && c.char == '\ufeff'

/-- The first character is missing, blank or a break. -/
def startsBlank : List Cell → Bool
  | [] => true
  | c :: _ => isBlank c.char || isBreak c.char

def startsWith (chars : List Char) : List Cell → Bool
  | [] => false
  | c :: _ => chars.contains c.char

/-- At the start of a line, three times `mark` and nothing else before a blank. -/
def isDocumentMark (mark : Char) : List Cell → Bool
  | a :: b :: c :: rest =>
    a.column == 0 && a.char == mark && b.char == mark && c.char == mark && startsBlank rest
  | _ => false

def startsDocument (cs : List Cell) : Bool := isDocumentMark '-' cs || isDocumentMark '.' cs

end RowScript.Yaml

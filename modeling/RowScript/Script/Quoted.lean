import RowScript.Text.Hex

/-!
# Quoted text

A text between single quotes. Quotes, backslashes, control characters and the
two separators that end a line are escaped, so the quoted text is of one line
and its only unescaped quotes are the ones around it.
-/

namespace RowScript.Script

def isControl (c : Char) : Bool := c.toNat < 0x20 || (0x7f ≤ c.toNat && c.toNat ≤ 0x9f)

def isLineSeparator (c : Char) : Bool := c.toNat == 0x2028 || c.toNat == 0x2029

def escape (c : Char) : List Char :=
  if c = '\\' then ['\\', '\\']
  else if c = '\'' then ['\\', '\'']
  else if c = '\n' then ['\\', 'n']
  else if c = '\x0d' then ['\\', 'r']
  else if c = '\t' then ['\\', 't']
  else if isLineSeparator c || isControl c then '\\' :: 'u' :: hexDigits 4 c.toNat
  else [c]

def quote (s : String) : String := "'" ++ String.ofList (s.toList.flatMap escape) ++ "'"

@[simp] theorem toList_quote (s : String) :
    (quote s).toList = '\'' :: (s.toList.flatMap escape ++ ['\'']) := by
  simp [quote]

end RowScript.Script

import RowScript.Json.Token

/-!
# Writing JSON texts

The compact form has no blanks: it is the texts of the tokens of a value, one
after the other. The indented form has one element or member a line.
-/

namespace RowScript.Json

mutual

def tokens : Json → List Token
  | .null => [.null]
  | .bool b => [.bool b]
  | .number n => [.number n]
  | .string s => [.string s]
  | .array vs => .leftBracket :: (elementTokens vs ++ [.rightBracket])
  | .object ms => .leftBrace :: (memberTokens ms ++ [.rightBrace])

def elementTokens : List Json → List Token
  | [] => []
  | [v] => v.tokens
  | v :: vs => v.tokens ++ .comma :: elementTokens vs

def memberTokens : List (String × Json) → List Token
  | [] => []
  | [(key, v)] => .string key :: .colon :: v.tokens
  | (key, v) :: ms => .string key :: .colon :: (v.tokens ++ .comma :: memberTokens ms)

end

def compact (v : Json) : String := String.ofList (v.tokens.flatMap Token.text)

/-! ## With indentation -/

def newLine (depth : Nat) : List Char := '\n' :: List.replicate (2 * depth) ' '

mutual

def indentedAt (depth : Nat) : Json → List Char
  | .array [] => ['[', ']']
  | .array vs => '[' :: (indentedElements (depth + 1) vs ++ newLine depth ++ [']'])
  | .object [] => ['{', '}']
  | .object ms => '{' :: (indentedMembers (depth + 1) ms ++ newLine depth ++ ['}'])
  | .null => Token.text .null
  | .bool b => Token.text (.bool b)
  | .number n => Token.text (.number n)
  | .string s => Token.text (.string s)

def indentedElements (depth : Nat) : List Json → List Char
  | [] => []
  | [v] => newLine depth ++ indentedAt depth v
  | v :: vs => newLine depth ++ indentedAt depth v ++ ',' :: indentedElements depth vs

def indentedMembers (depth : Nat) : List (String × Json) → List Char
  | [] => []
  | [(key, v)] => newLine depth ++ Token.text (.string key) ++ [':', ' '] ++ indentedAt depth v
  | (key, v) :: ms =>
    newLine depth ++ Token.text (.string key) ++ [':', ' '] ++ indentedAt depth v ++
      ',' :: indentedMembers depth ms

end

def indented (v : Json) : String := String.ofList (indentedAt 0 v)

end RowScript.Json

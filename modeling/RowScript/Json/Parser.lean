import RowScript.Json.Token

/-!
# Reading JSON texts

A machine over the tokens of a text. It holds the arrays and objects that are
still open, the innermost first, and the value that it has just finished, if
any. The number of open frames is the nesting depth, which is limited.
-/

namespace RowScript.Json

/-- An array or object that is still open, with what it holds so far, latest first. -/
inductive Frame where
  | array (elements : List Json)
  /-- `key` names the member that is being read. -/
  | object (members : List (String × Json)) (key : String)

/-- Reads on from the open frames, beside which `room` more may be opened. A value is due next,
unless one has just been finished. -/
def run (room : Nat) : List Token → List Frame → Option Json → Option Json
  | [], [], some v => some v
  -- After a value: the next element or member, or the end of the frame.
  | .comma :: ts, .array vs :: fs, some v => run room ts (.array (v :: vs) :: fs) none
  | .rightBracket :: ts, .array vs :: fs, some v =>
    run (room + 1) ts fs (some (.array (v :: vs).reverse))
  | .comma :: .string key' :: .colon :: ts, .object ms key :: fs, some v =>
    run room ts (.object ((key, v) :: ms) key' :: fs) none
  | .rightBrace :: ts, .object ms key :: fs, some v =>
    run (room + 1) ts fs (some (.object ((key, v) :: ms).reverse))
  -- A value.
  | .null :: ts, fs, none => run room ts fs (some .null)
  | .bool b :: ts, fs, none => run room ts fs (some (.bool b))
  | .number n :: ts, fs, none => run room ts fs (some (.number n))
  | .string s :: ts, fs, none => run room ts fs (some (.string s))
  | .leftBracket :: .rightBracket :: ts, fs, none =>
    if room = 0 then none else run room ts fs (some (.array []))
  | .leftBracket :: ts, fs, none =>
    if room = 0 then none else run (room - 1) ts (.array [] :: fs) none
  | .leftBrace :: .rightBrace :: ts, fs, none =>
    if room = 0 then none else run room ts fs (some (.object []))
  | .leftBrace :: .string key :: .colon :: ts, fs, none =>
    if room = 0 then none else run (room - 1) ts (.object [] key :: fs) none
  | _, _, _ => none

/-- The value of a text whose arrays and objects are nested at most `limit` deep. -/
def parse? (limit : Nat) (text : String) : Option Json := do
  run limit (← tokens? text.toList) [] none

/-- The depth of the place after a token. -/
def Token.depthAfter (depth : Nat) : Token → Nat
  | .leftBrace | .leftBracket => depth + 1
  | .rightBrace | .rightBracket => depth - 1
  | _ => depth

/-- Gives strings that are no text a meaning, so that members that are ignored may hold them:
as the name of a member further in than `outside` they are empty, as a value they are null. -/
def admitUnpaired (outside depth : Nat) : List Token → List Token
  | [] => []
  | .unpaired :: .colon :: ts =>
    (if depth ≤ outside then .unpaired else .string "") :: .colon :: admitUnpaired outside depth ts
  | .unpaired :: ts => .null :: admitUnpaired outside depth ts
  | t :: ts => t :: admitUnpaired outside (t.depthAfter depth) ts

/-- The value of a text whose outermost members alone are of interest. What they
hold may be nested to any depth, and hold strings that are no text. -/
def parseOutermost? (text : String) : Option Json := do
  let ts ← tokens? text.toList
  run ts.length (admitUnpaired 1 0 ts) [] none

/-- The nesting depth that texts from outside may have. -/
def depthLimit : Nat := 127

end RowScript.Json

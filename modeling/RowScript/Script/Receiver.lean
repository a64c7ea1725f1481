import RowScript.Script.Identifier

/-!
# Receivers of member calls

A member call binds tighter than any operator. The text before its point is
therefore an identifier or one bracket group, and any other text gets brackets.
-/

namespace RowScript.Script

/-- Where a scan stands: outside of quoted text, inside, or after a backslash inside. -/
inductive ScanMode where
  | code | quoted | escaped
  deriving DecidableEq, Repr

/-- Whether the bracket group that a text continues ends with its last
character. Around that group none is open, and inside of it `inner` are. -/
def closesAtEnd : ScanMode → Nat → List Char → Bool
  | _, _, [] => false
  | .escaped, inner, _ :: cs => closesAtEnd .quoted inner cs
  | .quoted, inner, c :: cs =>
    closesAtEnd (if c = '\\' then .escaped else if c = '\'' then .code else .quoted) inner cs
  | .code, inner, c :: cs =>
    if c = '\'' then closesAtEnd .quoted inner cs
    else if c = '(' then closesAtEnd .code (inner + 1) cs
    else if c = ')' then
      match inner with
      | 0 => cs.isEmpty
      | inner + 1 => closesAtEnd .code inner cs
    else closesAtEnd .code inner cs

/-- One bracket group, as `(a + b)` is and `(a) + (b)` is not. -/
def isBracketed (text : String) : Bool :=
  match text.toList with
  | '(' :: cs => closesAtEnd .code 0 cs
  | _ => false

def receiver (text : String) : String :=
  if isIdentifier text || isBracketed text then text else "(" ++ text ++ ")"

end RowScript.Script

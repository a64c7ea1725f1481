import RowScript.DataType

/-!
# Fragments

A compiled part of an expression: statements that have to run first, and the
text that then stands for the value.
-/

namespace RowScript

structure Fragment where
  /-- The temporary that holds the value, if one does. -/
  boundName : Option String := none
  statements : List String := []
  /-- The text of the value; empty if a temporary holds it. -/
  inlineText : String := ""
  type : DataType
  deriving DecidableEq, Repr, Inhabited

namespace Fragment

def inline (statements : List String) (text : String) (type : DataType) : Fragment :=
  { statements, inlineText := text, type }

def bound (name : String) (statements : List String) (type : DataType) : Fragment :=
  { boundName := some name, statements, type }

/-- The text that stands for the value. -/
def valueText (f : Fragment) : String := f.boundName.getD f.inlineText

@[simp] theorem valueText_inline (ss : List String) (text : String) (t : DataType) :
    (inline ss text t).valueText = text := rfl

@[simp] theorem valueText_bound (name : String) (ss : List String) (t : DataType) :
    (bound name ss t).valueText = name := rfl

end Fragment

end RowScript

import RowScript.Proofs.Emission.Emitted
import RowScript.Proofs.Script.Renumbering

/-!
# Code with other temporaries

The code that an expression has after `n + k` temporaries is its code after `n`
of them, renumbered by `k` (`Expr.renumber_code`). A fragment is renumbered text
by text, which renumbers the code that it renders.
-/

namespace RowScript

open Script (Tree Statement temporaryName renumber_temporaryName renumber_other)

/-! ## Conversions and fields -/

theorem Script.Tree.renumber_invoke {name : String} (h : Script.isTemporaryName name = false)
    (k : Nat) (t : Tree) (args : List Tree) :
    (t.invoke name args).renumber k = (t.renumber k).invoke name (renumberAll k args) := by
  rw [invoke, renumber, renumber, renumber_receiver, renumber_other h, invoke]

theorem Conversion.renumber_tree (c : Conversion) (k : Nat) (t : Tree) :
    (c.tree t).renumber k = c.tree (t.renumber k) := by
  cases c <;>
    simp (disch := decide) only [tree, Tree.callGlobal, Tree.newDate, Tree.renumber,
      Tree.renumberAll, Tree.renumber_invoke, renumber_other]

theorem Conversion.renumber_treeOf (c : Option Conversion) (k : Nat) (t : Tree) :
    (treeOf c t).renumber k = treeOf c (t.renumber k) := renumber_tree _ k t

theorem DateField.renumber_tree (field : DateField) (k : Nat) (t : Tree) :
    (field.tree t).renumber k = field.tree (t.renumber k) := by
  cases field <;>
    simp (disch := decide) only [tree, Tree.renumber, Tree.renumberAll, Tree.renumber_invoke]

/-! ## Code -/

namespace Code

def renumber (k : Nat) (c : Code) : Code where
  statements := c.statements.map (Statement.renumber k)
  value := c.value.renumber k

theorem renumber_append (k : Nat) (c d : Code) :
    (c.append d).renumber k = (c.renumber k).append (d.renumber k) := by
  simp (disch := decide) [append, renumber, Tree.renumberAll, Tree.renumber_invoke]

theorem renumber_concat (k : Nat) (cs : List Code) :
    (concat cs).renumber k = concat (cs.map (renumber k)) := by
  cases cs with
  | nil => simp (disch := decide) [concat, renumber, Tree.renumber, renumber_other]
  | cons c cs =>
    rw [List.map_cons, concat, concat]
    induction cs generalizing c with
    | nil => rfl
    | cons d cs ih => rw [List.foldl_cons, ih, renumber_append, List.map_cons, List.foldl_cons]

theorem renumber_cut (k n : Nat) (init : Tree) (c : Code) :
    (c.cut (temporaryName n) init).renumber k =
      (c.renumber k).cut (temporaryName (n + k)) (init.renumber k) := by
  simp (disch := decide) [cut, renumber, Statement.renumber, Tree.renumber, Tree.renumberAll,
    Tree.renumber_invoke, renumber_temporaryName]

theorem renumber_shift (k n : Nat) (direction : Emission.Direction) (init : Tree) (date days : Code) :
    (shift direction (temporaryName n) init date days).renumber k =
      shift direction (temporaryName (n + k)) (init.renumber k) (date.renumber k)
        (days.renumber k) := by
  simp (disch := decide) [shift, renumber, Statement.renumber, Tree.renumber, Tree.renumberAll,
    Tree.renumber_invoke, renumber_temporaryName]

end Code

/-! ## Expressions -/

namespace Expr

theorem renumber_literalTree {value : Option String} {type : DataType}
    (h : isLegal value type = true) (k : Nat) :
    (literalTree value type).renumber k = literalTree value type := by
  have hnull : (Tree.word "null").renumber k = .word "null" := by
    rw [Tree.renumber, renumber_other (by decide)]
  have hnumber : ∀ text, (numberTree text).renumber k = numberTree text := by
    intro text
    unfold numberTree
    split <;> rfl
  cases value with
  | none => exact hnull
  | some text =>
    cases type with
    | null => exact hnull
    | short | integer | long | float | double => exact hnumber text
    | boolean =>
      have hcases : text = "true" ∨ text = "false" := by
        simpa [isLegal, DataType.isNumeric, DataType.isIntegral, DataType.isFractional] using h
      rw [literalTree, Tree.renumber]
      rcases hcases with rfl | rfl <;> rw [renumber_other (by decide)]
    | string | date | timestamp => exact Conversion.renumber_treeOf _ k (.quoted text)

theorem renumber_stringCodes {scope : Scope} {k : Nat} {es : List Expr}
    (hes : ∀ e ∈ es, ∀ n, (e.code scope n).renumber k = e.code scope (n + k)) (n : Nat) :
    (stringCodes scope n es).map (Code.renumber k) = stringCodes scope (n + k) es := by
  induction es generalizing n with
  | nil => rfl
  | cons e es ih =>
    have he : ((e.code scope n).map (Conversion.treeOf (e.conversionTo scope .string))).renumber k =
        (e.code scope (n + k)).map (Conversion.treeOf (e.conversionTo scope .string)) := by
      rw [← hes e List.mem_cons_self n]
      simp only [Code.map, Code.renumber, Conversion.renumber_treeOf]
    rw [stringCodes, stringCodes, List.map_cons, he,
      ih fun a ha => hes a (List.mem_cons_of_mem _ ha), Nat.add_right_comm]

/-- **Code.** What an expression is compiled to depends on the temporaries before it by their
number alone. -/
theorem renumber_code {scope : Scope} {e : Expr} (h : e.Compiles scope) (k n : Nat) :
    (e.code scope n).renumber k = e.code scope (n + k) := by
  induction e generalizing n with
  | column name type =>
    obtain ⟨c, hlookup, -, husable⟩ := h
    have hname : Script.renumber k (identifierIn scope name) = identifierIn scope name := by
      rw [identifierIn_of_lookup hlookup]
      exact Script.renumber_of_isUsable husable k
    simp only [code, Code.renumber, Tree.renumber, hname, List.map_nil]
  | literal value type =>
    simp only [code, Code.renumber, renumber_literalTree h, List.map_nil]
  | cast e type ih =>
    rw [code, code, ← ih h.1 n]
    simp only [Code.map, Code.renumber, Conversion.renumber_treeOf]
  | concat args type ih =>
    have hargs := (allCompile_iff scope args).mp h.2
    rw [code, code, Code.renumber_concat,
      renumber_stringCodes fun a ha m => ih a ha (hargs a ha).1 m]
  | upper e type ih =>
    rw [code, code, ← ih h.1 n]
    simp (disch := decide) only [Code.map, Code.renumber, Tree.renumber_invoke, Tree.renumberAll]
  | lower e type ih =>
    rw [code, code, ← ih h.1 n]
    simp (disch := decide) only [Code.map, Code.renumber, Tree.renumber_invoke, Tree.renumberAll]
  | substring e position length type ih ihp ihl =>
    obtain ⟨he, -, ⟨-, hp, -⟩, -, hl, -⟩ := h
    rw [code, code, Nat.add_right_comm n k, ← ih he n, ← ihp hp (n + e.temporaries),
      Nat.add_right_comm _ k, ← ihl hl (n + e.temporaries + position.temporaries)]
    simp (disch := decide) only [Code.map, Code.renumber, Tree.renumber_invoke, Tree.renumberAll,
      Conversion.renumber_treeOf, List.map_append]
  | toDate e type ih =>
    rw [code, code, Code.renumber_cut, Conversion.renumber_treeOf, ← ih h.1 n, Nat.add_right_comm]
    rfl
  | dateAdd date days type ihd ihn =>
    rw [code, code, Code.renumber_shift, Conversion.renumber_treeOf, Nat.add_right_comm n k,
      ← ihd h.1 n, ← ihn h.2.1 (n + date.temporaries), Nat.add_right_comm _ k]
    rfl
  | dateSub date days type ihd ihn =>
    rw [code, code, Code.renumber_shift, Conversion.renumber_treeOf, Nat.add_right_comm n k,
      ← ihd h.1 n, ← ihn h.2.1 (n + date.temporaries), Nat.add_right_comm _ k]
    rfl
  | extract field e type ih =>
    rw [code, code, ← ih h.1 n]
    simp only [Code.map, Code.renumber, DateField.renumber_tree, Conversion.renumber_treeOf]
  | arithmetic op left right type ihl ihr =>
    rw [code, code, Nat.add_right_comm n k, ← ihl h.1 n, ← ihr h.2 (n + left.temporaries)]
    simp only [Code.renumber, Tree.renumber, List.map_append]

end Expr

end RowScript

import RowScript.Proofs.Compiled

/-!
# Generated functions are read back

Text is pasted into text, and yet every paste is read as one operand: by the
grammar a generated function is the tree that is put together from the trees of
its expression, node by node, and it is no other tree (`render_reads_code`).
-/

namespace RowScript

open Script (Tree Statement FunctionTree)

/-- What is between two semicolons: a declaration or a call of a member. -/
def Script.Statement.IsSimple : Statement → Prop
  | .declare _ _ => True
  | .evaluate (.call (.member _ _) _) => True
  | .evaluate _ => False

namespace Code

theorem isSimple_append {c d : Code} (hc : ∀ s ∈ c.statements, s.IsSimple)
    (hd : ∀ s ∈ d.statements, s.IsSimple) : ∀ s ∈ (c.append d).statements, s.IsSimple :=
  List.forall_mem_append.mpr ⟨hc, hd⟩

theorem isSimple_concat {cs : List Code} (h : ∀ c ∈ cs, ∀ s ∈ c.statements, s.IsSimple) :
    ∀ s ∈ (concat cs).statements, s.IsSimple := by
  cases cs with
  | nil => simp [concat]
  | cons c cs =>
    rw [concat]
    have hc := h c List.mem_cons_self
    have hcs := fun d hd => h d (List.mem_cons_of_mem _ hd)
    clear h
    induction cs generalizing c with
    | nil => exact hc
    | cons d cs ih =>
      have hnext := isSimple_append hc (hcs d List.mem_cons_self)
      exact ih (c.append d) hnext fun k hk => hcs k (List.mem_cons_of_mem _ hk)

theorem isSimple_bind {ss : List Statement} (h : ∀ s ∈ ss, s.IsSimple) (name setter : String)
    (init : Tree) (args : List Tree) :
    ∀ s ∈ ss ++ [.declare name init, .evaluate ((Tree.word name).invoke setter args)],
      s.IsSimple := by
  refine List.forall_mem_append.mpr ⟨h, ?_⟩
  intro s hs
  simp only [List.mem_cons, List.not_mem_nil, or_false] at hs
  rcases hs with rfl | rfl
  · exact trivial
  · exact trivial

theorem isSimple_shift {date days : Code} (hd : ∀ s ∈ date.statements, s.IsSimple)
    (hn : ∀ s ∈ days.statements, s.IsSimple) (direction : Emission.Direction) (name : String)
    (init : Tree) : ∀ s ∈ (shift direction name init date days).statements, s.IsSimple :=
  isSimple_bind (List.forall_mem_append.mpr ⟨hd, hn⟩) name _ init _

end Code

namespace Expr

theorem isSimple_code (scope : Scope) (e : Expr) (n : Nat) :
    ∀ s ∈ (e.code scope n).statements, s.IsSimple := by
  induction e generalizing n with
  | column name type => simp [code]
  | literal value type => simp [code]
  | cast e type ih => exact ih n
  | concat args type ih =>
    rw [code]
    refine Code.isSimple_concat ?_
    clear type
    induction args generalizing n with
    | nil => simp [stringCodes]
    | cons e es ihs =>
      intro c hc
      rcases List.mem_cons.mp hc with rfl | hc
      · exact ih e List.mem_cons_self n
      · exact ihs (fun a ha => ih a (List.mem_cons_of_mem _ ha)) _ c hc
  | upper e type ih => exact ih n
  | lower e type ih => exact ih n
  | substring e position length type ih ihp ihl =>
    have hfirst := List.forall_mem_append.mpr ⟨ih n, ihp (n + e.temporaries)⟩
    exact List.forall_mem_append.mpr ⟨hfirst, ihl _⟩
  | toDate e type ih => exact Code.isSimple_bind (ih n) _ _ _ _
  | dateAdd date days type ihd ihn => exact Code.isSimple_shift (ihd n) (ihn _) _ _ _
  | dateSub date days type ihd ihn => exact Code.isSimple_shift (ihd n) (ihn _) _ _ _
  | extract field e type ih => exact ih n
  | arithmetic op left right type ihl ihr => exact List.forall_mem_append.mpr ⟨ihl n, ihr _⟩

end Expr

/-- **Generated functions are read back.** The text of a function is one function expression with
the code of the expression in it. So is each of its statements and its result on its own, and
no part of it ends a line. -/
theorem render_reads_code {scope : Scope} {e : Expr} {f : RowFunction}
    (h : tryCompile scope e = .ok f) :
    (∀ t, FunctionTree.Reads f.render t ↔
      t = ⟨f.parameters, (e.stringCode scope).statements, (e.stringCode scope).value⟩) ∧
    List.Forall₂ (fun text s => ∀ t, Statement.Reads text t ↔ t = s)
      f.statements (e.stringCode scope).statements ∧
    (∀ s ∈ (e.stringCode scope).statements, s.IsSimple) ∧
    (∀ t, Tree.Reads f.result t ↔ t = (e.stringCode scope).value) ∧
    ∀ c ∈ f.render.toList, Script.isLineTerminator c = false := by
  have hf := compiled_of_tryCompile h
  have hcode := Expr.stringCode_grammatical hf.compiles
  have htree := Expr.functionTree_grammatical hf.compiles
  have hrender := hf.toList_render
  refine ⟨?_, ?_, ?_, ?_, ?_⟩
  · rw [hf.parameters]
    exact FunctionTree.reads_iff htree hrender
  · exact forall₂_reads hcode.statements hf.statements
  · exact Expr.isSimple_code scope e 0
  · exact Tree.reads_iff hcode.value hf.result
  · rw [hrender]
    exact FunctionTree.inLine_text htree

/-- A day beside a text that looks like code. -/
theorem render_reads_code_day :
    FunctionTree.Reads
      (RowFunction.render
        { parameters := ["d"]
          statements := ["var __v0 = new Date(d.getTime());", "__v0.setUTCHours(0, 0, 0, 0);"]
          result := "(__v0.toISOString().substring(0, 10)).concat(')\\'')" })
      ⟨["d"], [.declare "__v0" (.create (.word "Date") [.call (.member (.word "d") "getTime") []]),
        .evaluate (.call (.member (.word "__v0") "setUTCHours")
          [.number "0", .number "0", .number "0", .number "0"])],
        .call (.member (.group (.call (.member (.call (.member (.word "__v0") "toISOString") [])
          "substring") [.number "0", .number "10"])) "concat") [.quoted ")'"]⟩ := by
  let scope := Scope.ofColumn "d" ⟨"d", .dimension, .date⟩
  let e : Expr := .concat [.toDate (.column "d" .date) .date, .literal (some ")'") .string] .string
  have h : tryCompile scope e = .ok
      { parameters := ["d"]
        statements := ["var __v0 = new Date(d.getTime());", "__v0.setUTCHours(0, 0, 0, 0);"]
        result := "(__v0.toISOString().substring(0, 10)).concat(')\\'')" } := rfl
  exact ((render_reads_code h).1 _).mpr rfl

end RowScript

import Mathlib.Data.List.Forall2
import Mathlib.Data.List.Induction
import RowScript.Compile
import RowScript.Proofs.Emission.Emitted
import RowScript.Proofs.Script.Reader
import RowScript.Proofs.Script.Line

/-!
# What a compiled function is

A function that an expression is compiled to has the code of the expression, as
a string, for its body and the identifiers of the columns for its parameters
(`compiled_of_tryCompile`). Its text is the text of one function expression.
-/

namespace RowScript

open Script (Tree Statement FunctionTree)
open Emission (outcome outcome_bind outcome_bind_ok outcome_get outcome_guard_ok outcome_pure addNew)

/-- The columns of a row that has no other than `c`. -/
def Scope.ofColumn (name : String) (c : Column) : Scope where
  lookup other := if other = name then some c else none

/-! ## Parameters -/

namespace Emission

theorem mem_addNew {names : List String} {name other : String} :
    other ∈ addNew names name ↔ other ∈ names ∨ other = name := by
  unfold addNew
  split
  · next hm =>
    constructor
    · exact .inl
    · rintro (h | rfl)
      · exact h
      · exact hm
  · simp

theorem mem_foldl_addNew {names added : List String} {name : String} :
    name ∈ added.foldl addNew names ↔ name ∈ names ∨ name ∈ added := by
  induction added generalizing names with
  | nil => simp
  | cons a added ih => rw [List.foldl_cons, ih, mem_addNew, List.mem_cons, or_assoc]

theorem nodup_foldl_addNew {names : List String} (added : List String) (h : names.Nodup) :
    (added.foldl addNew names).Nodup := by
  induction added generalizing names with
  | nil => exact h
  | cons a added ih =>
    refine ih ?_
    unfold addNew
    split
    · exact h
    · next hm =>
      rw [List.nodup_append]
      refine ⟨h, by simp, ?_⟩
      intro b hb c hc
      rw [List.mem_singleton.mp hc]
      rintro rfl
      exact hm hb

theorem foldl_addNew_nil (names : List String) :
    names.foldl addNew [] = names.eraseDups := by
  induction names using List.reverseRecOn with
  | nil => rfl
  | append_singleton names name ih =>
    rw [List.foldl_append, ih, List.eraseDups_append, List.foldl_cons, List.foldl_nil, addNew]
    by_cases hmem : name ∈ names
    · simp [hmem, List.removeAll]
    · simp [hmem, List.removeAll, List.eraseDups_cons]

end Emission

/-! ## The function of an expression -/

namespace Expr

/-- The identifiers of the columns, without repetition. -/
def parameters (scope : Scope) (e : Expr) : List String := (e.identifiers scope).foldl addNew []

/-- The code of an expression, as a string. -/
def stringCode (scope : Scope) (e : Expr) : Code :=
  (e.code scope 0).map (Conversion.treeOf (e.conversionTo scope .string))

/-- **The tree of a function.** It is put together from the trees of the nodes of the expression. -/
def functionTree (scope : Scope) (e : Expr) : FunctionTree where
  parameters := e.parameters scope
  statements := (e.stringCode scope).statements
  result := (e.stringCode scope).value

theorem isUsable_of_mem_identifiers {scope : Scope} {e : Expr} (h : e.Compiles scope)
    {name : String} (hn : name ∈ e.identifiers scope) : Script.isUsable name = true := by
  induction e with
  | column column type =>
    obtain ⟨c, hlookup, -, husable⟩ := h
    rw [identifiers, List.mem_singleton] at hn
    rw [hn, identifierIn_of_lookup hlookup]
    exact husable
  | literal value type => simp [identifiers] at hn
  | cast e type ih => exact ih h.1 hn
  | concat args type ih =>
    obtain ⟨-, hargs⟩ := h
    rw [identifiers] at hn
    clear type
    induction args with
    | nil => simp [identifiersOf] at hn
    | cons e es ihs =>
      rcases List.mem_append.mp hn with hn | hn
      · exact ih e List.mem_cons_self hargs.1.1 hn
      · exact ihs (fun a ha => ih a (List.mem_cons_of_mem _ ha)) hn hargs.2
  | upper e type ih => exact ih h.1 hn
  | lower e type ih => exact ih h.1 hn
  | substring e position length type ih ihp ihl =>
    obtain ⟨he, -, ⟨-, hp, -⟩, -, hl, -⟩ := h
    rcases List.mem_append.mp hn with hn | hn
    · rcases List.mem_append.mp hn with hn | hn
      · exact ih he hn
      · exact ihp hp hn
    · exact ihl hl hn
  | toDate e type ih => exact ih h.1 hn
  | dateAdd date days type ihd ihn =>
    rcases List.mem_append.mp hn with hn | hn
    · exact ihd h.1 hn
    · exact ihn h.2.1 hn
  | dateSub date days type ihd ihn =>
    rcases List.mem_append.mp hn with hn | hn
    · exact ihd h.1 hn
    · exact ihn h.2.1 hn
  | extract field e type ih => exact ih h.1 hn
  | arithmetic op left right type ihl ihr =>
    rcases List.mem_append.mp hn with hn | hn
    · exact ihl h.1 hn
    · exact ihr h.2 hn

theorem mem_parameters {scope : Scope} {e : Expr} {name : String} :
    name ∈ e.parameters scope ↔ name ∈ e.identifiers scope := by
  rw [parameters, Emission.mem_foldl_addNew]
  simp

theorem nodup_parameters (scope : Scope) (e : Expr) : (e.parameters scope).Nodup :=
  Emission.nodup_foldl_addNew _ List.nodup_nil

theorem stringCode_grammatical {scope : Scope} {e : Expr} (h : e.Compiles scope) :
    (e.stringCode scope).Grammatical := by
  have hcode := code_grammatical h 0
  exact hcode.map (Conversion.grammatical_treeOf _ hcode.value)

theorem functionTree_grammatical {scope : Scope} {e : Expr} (h : e.Compiles scope) :
    (e.functionTree scope).Grammatical := by
  have hcode := stringCode_grammatical h
  refine ⟨?_, hcode.statements, hcode.value⟩
  intro name hn
  exact Script.isBindable_of_isUsable (isUsable_of_mem_identifiers h (mem_parameters.mp hn))

end Expr

/-! ## Compiling -/

/-- What a function has to do with the expression that it was compiled from. -/
structure Compiled (scope : Scope) (e : Expr) (f : RowFunction) : Prop where
  compiles : e.Compiles scope
  isSome : (e.conversionTo scope .string).isSome = true
  parameters : f.parameters = e.parameters scope
  parameters_ne_nil : f.parameters ≠ []
  statements : f.statements.map String.toList = (e.stringCode scope).statements.map Statement.text
  result : f.result.toList = (e.stringCode scope).value.text

theorem tryCompile_eq (scope : Scope) (e : Expr) :
    tryCompile scope e = (outcome (rootFunction scope e) {}).1 := rfl

theorem outcome_rootFunction_ok {scope : Scope} {e : Expr} {s s' : Emission.State} {f : RowFunction}
    (h : outcome (rootFunction scope e) s = (.ok f, s')) :
    ∃ g root, outcome (Emission.emit scope e) s = (.ok g, s') ∧
      outcome (Emission.cast g .string) s' = (.ok root, s') ∧ s'.inputs ≠ [] ∧
      f = .ofFragment root s'.inputs := by
  unfold rootFunction at h
  obtain ⟨g, s₁, hemit, h₁⟩ := outcome_bind_ok.mp h
  obtain ⟨root, s₂, hcast, h₂⟩ := outcome_bind_ok.mp h₁
  obtain ⟨rfl, -⟩ := Emission.outcome_cast_ok hcast
  rw [outcome_bind, outcome_get] at h₂
  obtain ⟨hinputs, hend⟩ := outcome_guard_ok.mp h₂
  rw [outcome_pure, Prod.mk.injEq, Except.ok.injEq] at hend
  obtain ⟨rfl, rfl⟩ := hend
  exact ⟨g, root, hemit, hcast, by simpa using hinputs, rfl⟩

theorem outcome_of_tryCompile {scope : Scope} {e : Expr} {f : RowFunction}
    (h : tryCompile scope e = .ok f) :
    ∃ g root, outcome (Emission.emit scope e) {} = (.ok g, (attempt scope e).2) ∧
      outcome (Emission.cast g .string) (attempt scope e).2 = (.ok root, (attempt scope e).2) ∧
      (attempt scope e).2.inputs ≠ [] ∧ f = .ofFragment root (attempt scope e).2.inputs :=
  outcome_rootFunction_ok (Prod.ext h rfl)

theorem compiled_of_tryCompile {scope : Scope} {e : Expr} {f : RowFunction}
    (h : tryCompile scope e = .ok f) : Compiled scope e f := by
  obtain ⟨g, root, hemit, hcast, hinputs, rfl⟩ := outcome_of_tryCompile h
  have he := Emission.emit_ok .empty hemit
  obtain ⟨-, hroot⟩ := he.cast hcast
  have hparameters : (attempt scope e).2.inputs = e.parameters scope := by rw [he.state]; rfl
  exact ⟨he.compiles, hroot.isSome, hparameters, hinputs, hroot.renders.statements,
    hroot.renders.value⟩

/-! ## The text of a function -/

theorem toList_intercalate_parameters (ps : List String) :
    (", ".intercalate ps).toList = FunctionTree.parametersText ps := by
  cases ps with
  | nil => rfl
  | cons p ps =>
    rw [FunctionTree.parametersText]
    induction ps generalizing p with
    | nil => simp
    | cons q ps ih =>
      rw [String.intercalate_cons_cons, String.toList_append, String.toList_append, ih,
        List.flatMap_cons]
      simp

theorem Compiled.toList_render {scope : Scope} {e : Expr} {f : RowFunction}
    (h : Compiled scope e f) : f.render.toList = (e.functionTree scope).text := by
  have hstatements : (String.join (f.statements.map (· ++ " "))).toList =
      (e.stringCode scope).statements.flatMap fun s => s.text ++ [' '] := by
    rw [String.toList_join, List.flatMap_map]
    have hone : ∀ s : String, (s ++ " ").toList = s.toList ++ [' '] := by simp
    simp only [hone]
    rw [← List.flatMap_map String.toList fun cs => cs ++ [' '], h.statements, List.flatMap_map]
  unfold RowFunction.render FunctionTree.text
  simp only [String.toList_append, toList_intercalate_parameters, hstatements, h.result,
    h.parameters, Expr.functionTree]
  simp

theorem forall₂_reads {texts : List String} {ss : List Statement}
    (hg : ∀ s ∈ ss, s.Grammatical) (h : texts.map String.toList = ss.map Statement.text) :
    List.Forall₂ (fun text s => ∀ t, Statement.Reads text t ↔ t = s) texts ss := by
  induction texts generalizing ss with
  | nil =>
    cases ss with
    | nil => exact .nil
    | cons s ss => simp at h
  | cons text texts ih =>
    cases ss with
    | nil => simp at h
    | cons s ss =>
      simp only [List.map_cons, List.cons.injEq] at h
      refine .cons (Statement.reads_iff (hg s List.mem_cons_self) h.1) ?_
      exact ih (fun u hu => hg u (List.mem_cons_of_mem _ hu)) h.2

/-- The tree of a function, of its text as a whole and of its parts one by one. -/
structure RowFunction.Parses (f : RowFunction) (body : FunctionTree) : Prop where
  text : ∀ t, FunctionTree.Reads f.render t ↔ t = body
  parameters : body.parameters = f.parameters
  statements : List.Forall₂ Statement.Reads f.statements body.statements
  result : Tree.Reads f.result body.result

theorem Compiled.parses {scope : Scope} {e : Expr} {f : RowFunction} (h : Compiled scope e f) :
    f.Parses (e.functionTree scope) := by
  have hcode := Expr.stringCode_grammatical h.compiles
  refine ⟨?_, h.parameters.symm, ?_, ?_⟩
  · exact FunctionTree.reads_iff (Expr.functionTree_grammatical h.compiles) h.toList_render
  · have hstatements := forall₂_reads hcode.statements h.statements
    exact hstatements.imp fun text s hreads => (hreads s).mpr rfl
  · exact (Tree.reads_iff hcode.value h.result _).mpr rfl

end RowScript

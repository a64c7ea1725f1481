import RowScript.Proofs.Compiled
import RowScript.Proofs.Denotation

/-!
# Generated functions give what their expressions mean

Dates that are cut or shifted become objects that statements change before the
rest of the code runs. That makes no difference: each object is new when it is
changed, and no code that runs earlier or later refers to it but by its
temporary (`Setting.Leaves`). A generated function gives the value of its
expression or throws where that has none, and the dates that it is called with
stay as they were (`run_eq_meaning`).
-/

namespace RowScript

open Script (Tree Statement FunctionTree Ref Env Machine temporaryName)
open Script.Tree (evalAll)
open Script.Statement (runAll)
open Script.Machine (result_bind result_pure result_get result_set result_orThrow setters)

variable {P D : Type}

/-! ## Changing a new date -/

namespace Script

theorem Statement.runAll_append (I : Primitives P D) (ss ts : List Statement)
    (env : Env P) : runAll I (ss ++ ts) env = runAll I ss env >>= runAll I ts := by
  induction ss generalizing env with
  | nil => rw [List.nil_append, runAll, pure_bind]
  | cons s ss ih =>
    rw [List.cons_append, runAll, runAll, bind_assoc]
    simp only [ih]

theorem Machine.result_invoke_setter {I : Primitives P D} {name : String}
    (hname : setters.contains name = true) {before more : List D} {d : D} {rs : List (Ref P)}
    {vs : List (Datum P D)} (hrs : List.Forall₂ (Shows (before ++ d :: more)) rs vs) :
    (invoke I name (.date before.length) rs).result (before ++ d :: more) =
      match I.change name d vs with
      | some next => (some (.prim next.2), before ++ next.1 :: more)
      | none => (none, before ++ d :: more) := by
  unfold invoke
  rw [result_bind, result_viewAll hrs, hname]
  have hget : (before ++ d :: more)[before.length]? = some d := by simp
  have hset : ∀ d', (before ++ d :: more).set before.length d' = before ++ d' :: more := by simp
  simp only [result_bind, result_get, result_orThrow, result_set, result_pure, hget, hset]
  cases I.change name d vs <;> rfl

end Script

namespace Setting

variable (S : Setting P D)

/-- Statements that leave values, in temporaries from number `n` up to `m` and in new dates. They
throw only where one of the values is missing. -/
def Leaves (n m : Nat) (ss : List Statement) (ts : List Tree) (vs : List (Option (Datum P D))) :
    Prop :=
  ∀ env heap, S.Loaded env heap → ∃ r heap',
    (runAll S.primitives ss env).result heap = (r, heap') ∧ heap <+: heap' ∧
    match r with
    | some env' => SameBelow n env env' ∧ List.Forall₂ (S.Denotes m env' heap') ts vs
    | none => none ∈ vs

namespace Leaves

variable {S} {k m n : Nat} {ss ss' : List Statement} {ts ts' : List Tree} {t : Tree}
  {vs vs' : List (Option (Datum P D))} {v : Option (Datum P D)}

theorem leaf (h : ∀ env heap, S.Denotes n env heap t v) : S.Leaves n n [] [t] [v] := by
  intro env heap _
  exact ⟨some env, heap, rfl, List.prefix_refl heap, .refl n env, .cons (h env heap) .nil⟩

theorem append (h : S.Leaves n m ss ts vs) (h' : S.Leaves m k ss' ts' vs') (hnm : n ≤ m)
    (hmk : m ≤ k) : S.Leaves n k (ss ++ ss') (ts ++ ts') (vs ++ vs') := by
  intro env heap hloaded
  obtain ⟨r, heap₁, hrun, h₁, hr⟩ := h env heap hloaded
  rw [Statement.runAll_append, result_bind, hrun]
  cases r with
  | none => exact ⟨none, heap₁, rfl, h₁, List.mem_append_left _ hr⟩
  | some env₁ =>
    obtain ⟨hframe₁, hts⟩ := hr
    obtain ⟨q, heap₂, hrest, h₂, hq⟩ := h' env₁ heap₁ (hloaded.mono hframe₁ h₁)
    refine ⟨q, heap₂, hrest, h₁.trans h₂, ?_⟩
    cases q with
    | none => exact List.mem_append_right _ hq
    | some env₂ =>
      obtain ⟨hframe₂, hts'⟩ := hq
      refine ⟨hframe₁.trans (hframe₂.mono hnm), ?_⟩
      have hkept := hts.imp fun _ _ ht => ht.mono hmk hframe₂ h₂
      exact List.rel_append hkept hts'

theorem map (h : S.Leaves n m ss ts vs) (hnone : none ∈ vs → v = none)
    (hden : ∀ env heap, List.Forall₂ (S.Denotes m env heap) ts vs → S.Denotes m env heap t v) :
    S.Leaves n m ss [t] [v] := by
  intro env heap hloaded
  obtain ⟨r, heap', hrun, hgrow, hr⟩ := h env heap hloaded
  refine ⟨r, heap', hrun, hgrow, ?_⟩
  cases r with
  | none => exact List.mem_singleton.mpr (hnone hr).symm
  | some env' => exact ⟨hr.1, .cons (hden _ _ hr.2) .nil⟩

section Bind

variable {init : Tree} {setter : String} {args : List Tree}
  {argvs : D → List (Option (Datum P D))}

theorem result_setter (hsetter : setters.contains setter = true) {env : Env P}
    {before : List D} {d : D} (hloaded : S.Loaded env (before ++ [d]))
    (henv : env (temporaryName m) = some (.date before.length))
    (hargs : List.Forall₂ (S.Denotes n env (before ++ [d])) args (argvs d)) :
    ∃ r d' more, (((Tree.word (temporaryName m)).invoke setter args).eval S.primitives env).result
        (before ++ [d]) = (r, before ++ d' :: more) ∧
      match r with
      | some _ => S.primitives.changed setter (some (.date d)) argvs = some (.date d')
      | none => S.primitives.changed setter (some (.date d)) argvs = none := by
  change ∃ r d' more, ((Tree.call (.member (.word (temporaryName m)) setter) args).eval
    S.primitives env).result (before ++ [d]) = (r, before ++ d' :: more) ∧ _
  -- The arguments may have made dates of their own, which come after that of the temporary.
  obtain ⟨q, heap, hrun, ⟨more, rfl⟩, hq⟩ :=
    Denotes.all hargs hloaded (.refl _ _) (List.prefix_refl _)
  rw [Tree.eval, Tree.eval_temporary, henv, result_bind, result_orThrow]
  simp only [result_bind, hrun, List.append_assoc, List.singleton_append] at hq ⊢
  generalize hws : (argvs d).mapM id = ws at hq
  cases hq with
  | none => exact ⟨none, d, more, rfl, by simp [Primitives.changed, hws]⟩
  | some hrs =>
    simp only [Machine.result_invoke_setter hsetter hrs]
    cases hchange : S.primitives.change setter d _ with
    | none => exact ⟨none, d, more, rfl, by simp [Primitives.changed, hws, hchange]⟩
    | some next => exact ⟨some _, next.1, more, rfl, by simp [Primitives.changed, hws, hchange]⟩

theorem run_bind (hsetter : setters.contains setter = true) {env : Env P} {heap : List D}
    (hloaded : S.Loaded env heap)
    (hinit : Yields (Fresh heap) (init.eval S.primitives env) v heap)
    (hargs : ∀ env' heap' d, SameBelow m env env' → heap <+: heap' →
      S.Denotes (m + 1) env' heap' (.word (temporaryName m)) (some (.date d)) →
      List.Forall₂ (S.Denotes (m + 1) env' heap') args (argvs d)) :
    ∃ r heap', (runAll S.primitives [.declare (temporaryName m) init,
        .evaluate ((Tree.word (temporaryName m)).invoke setter args)] env).result heap =
          (r, heap') ∧ heap <+: heap' ∧
      match r with
      | some env' => SameBelow m env env' ∧ S.Denotes (m + 1) env' heap' (.word (temporaryName m))
          (S.primitives.changed setter v argvs)
      | none => S.primitives.changed setter v argvs = none := by
  obtain ⟨q, heap₁, hrun, h₁, hq⟩ := hinit
  simp only [runAll, Statement.run, bind_assoc, pure_bind, result_bind, hrun]
  cases hq with
  | none => exact ⟨none, heap₁, rfl, h₁, rfl⟩
  | some hfresh =>
    obtain ⟨before, d, rfl, hbefore, rfl, rfl⟩ := hfresh
    -- From here on the heap is `before`, the new date and what is made later.
    have hframe : SameBelow m env (env.bind (temporaryName m) (.date before.length)) := .bind m env _
    have henv : env.bind (temporaryName m) (.date before.length) (temporaryName m) =
        some (.date before.length) := by simp [Env.bind]
    dsimp only
    generalize env.bind (temporaryName m) (.date before.length) = env' at hframe henv ⊢
    have hword : S.Denotes (m + 1) env' (before ++ [d]) (.word (temporaryName m))
        (some (.date d)) := by
      refine .temporary (Nat.lt_succ_self m) henv ?_
      simp [Shows, Ref.view]
    have hresult := result_setter hsetter (hloaded.mono hframe h₁) henv
      (hargs env' _ d hframe h₁ hword)
    obtain ⟨r, d', more, hrun₂, hr⟩ := hresult
    rw [hrun₂]
    have hgrow : heap <+: before ++ d' :: more := List.prefix_append_of_prefix hbefore
    cases r with
    | none => exact ⟨none, _, rfl, hgrow, hr⟩
    | some p =>
      refine ⟨some env', _, rfl, hgrow, hframe, ?_⟩
      rw [hr]
      refine .temporary (Nat.lt_succ_self m) henv ?_
      simp [Shows, Ref.view]

theorem bind (h : S.Leaves n m ss ts vs) (hnm : n ≤ m) (hsetter : setters.contains setter = true)
    (hinit : ∀ env heap, S.Loaded env heap → List.Forall₂ (S.Denotes m env heap) ts vs →
      Yields (Fresh heap) (init.eval S.primitives env) v heap)
    (hargs : ∀ env heap d, List.Forall₂ (S.Denotes (m + 1) env heap) ts vs →
      S.Denotes (m + 1) env heap (.word (temporaryName m)) (some (.date d)) →
      List.Forall₂ (S.Denotes (m + 1) env heap) args (argvs d))
    (hnone : none ∈ vs → S.primitives.changed setter v argvs = none) :
    S.Leaves n (m + 1)
      (ss ++ [.declare (temporaryName m) init,
        .evaluate ((Tree.word (temporaryName m)).invoke setter args)])
      [.word (temporaryName m)] [S.primitives.changed setter v argvs] := by
  intro env heap hloaded
  obtain ⟨r, heap₁, hrun, h₁, hr⟩ := h env heap hloaded
  rw [Statement.runAll_append, result_bind, hrun]
  cases r with
  | none => exact ⟨none, heap₁, rfl, h₁, List.mem_singleton.mpr (hnone hr).symm⟩
  | some env₁ =>
    obtain ⟨hframe₁, hts⟩ := hr
    have hloaded₁ := hloaded.mono hframe₁ h₁
    have hargs₁ : ∀ env' heap' d, SameBelow m env₁ env' → heap₁ <+: heap' →
        S.Denotes (m + 1) env' heap' (.word (temporaryName m)) (some (.date d)) →
        List.Forall₂ (S.Denotes (m + 1) env' heap') args (argvs d) := by
      intro env' heap' d hframe hgrow
      exact hargs env' heap' d (hts.imp fun _ _ ht => ht.mono (Nat.le_succ m) hframe hgrow)
    obtain ⟨q, heap₂, hrest, h₂, hq⟩ :=
      run_bind hsetter hloaded₁ (hinit env₁ heap₁ hloaded₁ hts) hargs₁
    refine ⟨q, heap₂, hrest, h₁.trans h₂, ?_⟩
    cases q with
    | none => exact List.mem_singleton.mpr hq.symm
    | some env₂ => exact ⟨hframe₁.trans (hq.1.mono hnm), .cons hq.2 .nil⟩

end Bind

end Leaves

/-! ## The code of an expression -/

variable {S}

/-- The code `c` has the outcome `v`. -/
def Means (S : Setting P D) (n m : Nat) (c : Code) (v : Option (Datum P D)) : Prop :=
  S.Leaves n m c.statements [c.value] [v]

namespace Means

variable {k m n : Nat} {c d : Code} {v w : Option (Datum P D)}

theorem map (h : S.Means n m c v) {g : Tree → Tree} {w : Option (Datum P D)}
    (hnone : v = none → w = none)
    (hden : ∀ env heap, S.Denotes m env heap c.value v → S.Denotes m env heap (g c.value) w) :
    S.Means n m (c.map g) w := by
  refine Leaves.map h ?_ ?_
  · intro hv
    exact hnone (List.mem_singleton.mp hv).symm
  · intro env heap hvalues
    cases hvalues with
    | cons hvalue _ => exact hden env heap hvalue

theorem convert (h : S.Means n m c v) (own : Option Conversion) :
    S.Means n m (c.map (Conversion.treeOf own)) (Conversion.meaningOf S.primitives own v) := by
  refine h.map ?_ fun env heap => Conversion.denotes_treeOf own
  rintro rfl
  exact Conversion.meaningOf_none S.primitives own

theorem both (h : S.Means n m c v) (h' : S.Means m k d w) (hnm : n ≤ m) (hmk : m ≤ k) :
    S.Leaves n k (c.statements ++ d.statements) [c.value, d.value] [v, w] :=
  Leaves.append h h' hnm hmk

theorem cut (h : S.Means n m c v) (hnm : n ≤ m) {type : DataType}
    (htype : (ownDate? type).isSome = true) :
    S.Means n (m + 1) (c.cut (temporaryName m) (Conversion.treeOf (ownDate? type) c.value))
      (S.primitives.truncated (Conversion.meaningOf S.primitives (ownDate? type) v)) := by
  refine Leaves.bind h hnm (by decide) ?_ ?_ ?_
  · intro env heap hloaded hvalues
    cases hvalues with
    | cons hvalue _ =>
      exact Conversion.fresh_treeOf htype hvalue hloaded (.refl _ _) (List.prefix_refl _)
  · intro env heap d _ _
    have hzero : S.Denotes (m + 1) env heap (.number "0") (S.primitives.numeral "0") := .number "0"
    exact .cons hzero (.cons hzero (.cons hzero (.cons hzero .nil)))
  · intro hv
    rw [← List.mem_singleton.mp hv, Conversion.meaningOf_none]
    rfl

theorem shift (h : S.Means n m c v) (h' : S.Means m k d w) (hnm : n ≤ m) (hmk : m ≤ k)
    {type : DataType} (htype : (ownDate? type).isSome = true) (direction : Emission.Direction) :
    S.Means n (k + 1)
      (Code.shift direction (temporaryName k) (Conversion.treeOf (ownDate? type) c.value) c d)
      (S.primitives.shifted direction (Conversion.meaningOf S.primitives (ownDate? type) v) w) := by
  refine Leaves.bind (h.both h' hnm hmk) (hnm.trans hmk) (by decide) ?_ ?_ ?_
  · intro env heap hloaded hvalues
    cases hvalues with
    | cons hvalue _ =>
      exact Conversion.fresh_treeOf htype hvalue hloaded (.refl _ _) (List.prefix_refl _)
  · intro env heap d hvalues hword
    cases hvalues with
    | cons _ hrest =>
      cases hrest with
      | cons hdays _ =>
        have hday := hword.invoke "getUTCDate" (by decide) .nil
        exact .cons (hday.binary direction.op hdays.group) .nil
  · intro hv
    refine Primitives.shifted_none ?_
    simp only [List.mem_cons, List.not_mem_nil, or_false] at hv ⊢
    rcases hv with rfl | rfl
    · exact .inl (Conversion.meaningOf_none S.primitives _).symm
    · exact .inr rfl

theorem append (h : S.Means n m c v) (h' : S.Means m k d w) (hnm : n ≤ m) (hmk : m ≤ k) :
    S.Means n k (c.append d) (S.primitives.invoked "concat" v [w]) := by
  refine Leaves.map (h.both h' hnm hmk) Primitives.invoked_none ?_
  intro env heap hvalues
  cases hvalues with
  | cons hvalue hrest => exact hvalue.invoke "concat" (by decide) hrest

theorem slice {l : Nat} {e : Code} {u : Option (Datum P D)} (h : S.Means n m c v)
    (h' : S.Means m k d w) (h'' : S.Means k l e u) (hnm : n ≤ m) (hmk : m ≤ k) (hkl : k ≤ l) :
    S.Means n l ⟨c.statements ++ d.statements ++ e.statements,
      c.value.invoke "substr" [d.value, e.value]⟩ (S.primitives.invoked "substr" v [w, u]) := by
  refine Leaves.map ((h.both h' hnm hmk).append h'' (hnm.trans hmk) hkl) Primitives.invoked_none ?_
  intro env heap hvalues
  cases hvalues with
  | cons hvalue hrest => exact hvalue.invoke "substr" (by decide) hrest

theorem binary (h : S.Means n m c v) (h' : S.Means m k d w) (hnm : n ≤ m) (hmk : m ≤ k)
    (op : ArithOp) :
    S.Means n k ⟨c.statements ++ d.statements, .binary op (.group c.value) (.group d.value)⟩
      (S.primitives.operated op v w) := by
  refine Leaves.map (h.both h' hnm hmk) Primitives.operated_none ?_
  intro env heap hvalues
  cases hvalues with
  | cons hleft hrest =>
    cases hrest with
    | cons hright _ => exact hleft.group.binary op hright.group

theorem run (h : S.Means n m c v) {env : Env P} {heap : List D}
    (hloaded : S.Loaded env heap) :
    ∃ r heap', (do
        let env' ← runAll S.primitives c.statements env
        c.value.eval S.primitives env').result heap = (r, heap') ∧
      heap <+: heap' ∧ r.map (Ref.view heap') = v.map some := by
  obtain ⟨r, heap₁, hrun, h₁, hr⟩ := h env heap hloaded
  rw [result_bind, hrun]
  cases r with
  | none =>
    rw [← List.mem_singleton.mp hr]
    exact ⟨none, heap₁, rfl, h₁, rfl⟩
  | some env₁ =>
    obtain ⟨hframe, hvalues⟩ := hr
    cases hvalues with
    | cons hvalue _ =>
      obtain ⟨q, heap₂, heval, h₂, hq⟩ :=
        hvalue env₁ heap₁ (hloaded.mono hframe h₁) (.refl m env₁) (List.prefix_refl heap₁)
      refine ⟨q, heap₂, heval, h₁.trans h₂, ?_⟩
      cases hq with
      | none => rfl
      | some hshows => exact congrArg some hshows

end Means

theorem means_arguments {scope : Scope} {es : List Expr}
    (ih : ∀ a ∈ es, ∀ n, a.Compiles scope → a.identifiers scope ⊆ S.names →
      S.Means n (n + a.temporaries) (a.code scope n) (a.meaning S.primitives scope S.row))
    {n m : Nat} {c : Code} {v : Option (Datum P D)} (hc : S.Means n m c v) (hnm : n ≤ m)
    (hcompile : Expr.AllCompile scope es) (hnames : Expr.identifiersOf scope es ⊆ S.names) :
    S.Means n (m + Expr.temporariesOf es) ((Expr.stringCodes scope m es).foldl Code.append c)
      ((Expr.stringMeanings S.primitives scope S.row es).foldl
        (fun before w => S.primitives.invoked "concat" before [w]) v) := by
  induction es generalizing c v m with
  | nil => exact hc
  | cons e es ihs =>
    obtain ⟨⟨he, -⟩, hes⟩ := hcompile
    obtain ⟨hnamesE, hnamesEs⟩ := List.append_subset.mp hnames
    have hcode := (ih e List.mem_cons_self m he hnamesE).convert (e.conversionTo scope .string)
    have hnext := hc.append hcode hnm (Nat.le_add_right _ _)
    rw [Expr.stringCodes, Expr.stringMeanings, List.foldl_cons, List.foldl_cons, Expr.temporariesOf,
      ← Nat.add_assoc]
    exact ihs (fun a ha => ih a (List.mem_cons_of_mem _ ha)) hnext
      (hnm.trans (Nat.le_add_right _ _)) hes hnamesEs

/-- The code of an expression has the value of the expression. -/
theorem means_code {scope : Scope} {e : Expr} (h : e.Compiles scope)
    (hnames : e.identifiers scope ⊆ S.names) (n : Nat) :
    S.Means n (n + e.temporaries) (e.code scope n) (e.meaning S.primitives scope S.row) := by
  -- Operands are numbered one after another, so each leaves the temporaries of the others alone.
  induction e generalizing n with
  | column name type =>
    have hinput : Expr.identifierIn scope name ∈ S.names := hnames (List.mem_singleton.mpr rfl)
    exact Leaves.leaf fun env heap => .input hinput
  | literal value type => exact Leaves.leaf fun env heap => Expr.denotes_literalTree h
  | cast e type ih => exact (ih h.1 hnames n).convert _
  | concat args type ih =>
    obtain ⟨hne, hargs⟩ := h
    cases args with
    | nil => contradiction
    | cons e es =>
      obtain ⟨⟨he, -⟩, hes⟩ := hargs
      obtain ⟨hnamesE, hnamesEs⟩ := List.append_subset.mp hnames
      have hfirst := (ih e List.mem_cons_self he hnamesE n).convert (e.conversionTo scope .string)
      rw [Expr.temporaries, Expr.temporariesOf, ← Nat.add_assoc]
      refine means_arguments ?_ hfirst (Nat.le_add_right _ _) hes hnamesEs
      intro a ha k hcompile hsub
      exact ih a (List.mem_cons_of_mem _ ha) hcompile hsub k
  | upper e type ih =>
    refine (ih h.1 hnames n).map ?_ fun env heap hvalue => hvalue.invoke _ (by decide) .nil
    intro hv
    rw [Expr.meaning, hv]
    rfl
  | lower e type ih =>
    refine (ih h.1 hnames n).map ?_ fun env heap hvalue => hvalue.invoke _ (by decide) .nil
    intro hv
    rw [Expr.meaning, hv]
    rfl
  | substring e position length type ih ihp ihl =>
    obtain ⟨he, -, ⟨-, hp, -⟩, -, hl, -⟩ := h
    obtain ⟨hnamesBoth, hnamesL⟩ := List.append_subset.mp hnames
    obtain ⟨hnamesE, hnamesP⟩ := List.append_subset.mp hnamesBoth
    have hcode := (ih he hnamesE n).convert (e.conversionTo scope .string)
    have hposition := ihp hp hnamesP (n + e.temporaries)
    have hlength := ihl hl hnamesL (n + e.temporaries + position.temporaries)
    rw [Expr.temporaries, ← Nat.add_assoc, ← Nat.add_assoc]
    exact hcode.slice hposition hlength (Nat.le_add_right _ _) (Nat.le_add_right _ _)
      (Nat.le_add_right _ _)
  | toDate e type ih => exact (ih h.1 hnames n).cut (Nat.le_add_right _ _) h.2
  | dateAdd date days type ihd ihn =>
    obtain ⟨hd, hn, -, hown⟩ := h
    obtain ⟨hnamesD, hnamesN⟩ := List.append_subset.mp hnames
    rw [Expr.temporaries, ← Nat.add_assoc, ← Nat.add_assoc]
    exact (ihd hd hnamesD n).shift (ihn hn hnamesN _) (Nat.le_add_right _ _)
      (Nat.le_add_right _ _) hown .later
  | dateSub date days type ihd ihn =>
    obtain ⟨hd, hn, -, hown⟩ := h
    obtain ⟨hnamesD, hnamesN⟩ := List.append_subset.mp hnames
    rw [Expr.temporaries, ← Nat.add_assoc, ← Nat.add_assoc]
    exact (ihd hd hnamesD n).shift (ihn hn hnamesN _) (Nat.le_add_right _ _)
      (Nat.le_add_right _ _) hown .earlier
  | extract field e type ih =>
    refine (ih h.1 hnames n).map ?_ ?_
    · intro hv
      rw [Expr.meaning, hv, Conversion.meaningOf_none]
      cases field <;> rfl
    · intro env heap hvalue
      exact field.denotes_tree (Conversion.denotes_treeOf _ hvalue)
  | arithmetic op left right type ihl ihr =>
    obtain ⟨hnamesL, hnamesR⟩ := List.append_subset.mp hnames
    rw [Expr.temporaries, ← Nat.add_assoc]
    exact (ihl h.1 hnamesL n).binary (ihr h.2 hnamesR _) (Nat.le_add_right _ _)
      (Nat.le_add_right _ _) op

end Setting

/-! ## Calls -/

/-- What the parameters are given: values, some of them dates of a heap. -/
structure Row (P D : Type) where
  heap : List D
  value : String → Ref P
  valid : ∀ name, ((value name).view heap).isSome = true

/-- The value of a parameter by its content. -/
def Row.content (row : Row P D) (name : String) : Datum P D :=
  ((row.value name).view row.heap).get (row.valid name)

theorem Row.shows_content (row : Row P D) (name : String) :
    Shows row.heap (row.value name) (row.content name) := (Option.some_get _).symm

theorem lookup_zip_map {α : Type} (names : List String) (g : String → α) (name : String) :
    (names.zip (names.map g)).lookup name = if name ∈ names then some (g name) else none := by
  induction names with
  | nil => rfl
  | cons other names ih =>
    rw [List.map_cons, List.zip_cons_cons, List.lookup_cons, ih]
    by_cases h : name = other
    · simp [h]
    · have hne : (name == other) = false := by simpa using h
      simp [h, hne]

/-- **A generated function gives what its expression means.** On every row the function of `e`
gives the value of `e` as a string, or throws where that has none. Whether it throws or not,
every date that it has been called with holds what it held. -/
theorem run_eq_meaning {scope : Scope} {e : Expr} {f : RowFunction}
    (h : tryCompile scope e = .ok f) (I : Primitives P D) (row : Row P D) :
    ∃ body : FunctionTree, f.Parses body ∧
      ∃ r heap, (body.call I (f.parameters.map row.value)).result row.heap = (r, heap) ∧
        row.heap <+: heap ∧
        r.map (Ref.view heap) = (e.stringMeaning I scope row.content).map some := by
  have hf := compiled_of_tryCompile h
  refine ⟨e.functionTree scope, hf.parses, ?_⟩
  have husable : ∀ name ∈ e.parameters scope, Script.isUsable name = true := by
    intro name hn
    exact Expr.isUsable_of_mem_identifiers hf.compiles (Expr.mem_parameters.mp hn)
  let S : Setting P D := ⟨I, e.parameters scope, husable, row.content⟩
  let env : Env P := fun name =>
    ((e.parameters scope).zip ((e.parameters scope).map row.value)).lookup name
  have hloaded : S.Loaded env row.heap := by
    refine ⟨?_, ?_⟩
    · intro name hn
      refine ⟨row.value name, ?_, row.shows_content name⟩
      exact (lookup_zip_map _ _ name).trans (if_pos hn)
    · intro name hn
      refine (lookup_zip_map _ _ name).trans (if_neg ?_)
      intro hm
      have hname := husable name hm
      simp [Script.isUsable, hn] at hname
  have hnames : e.identifiers scope ⊆ S.names := fun name hn => Expr.mem_parameters.mpr hn
  have hmeans := (Setting.means_code hf.compiles hnames 0).convert (e.conversionTo scope .string)
  rw [hf.parameters]
  exact hmeans.run hloaded

/-- Dates that are whole hours, with what can be done to a date that is cut to its day. -/
def hourly : Primitives (Int ⊕ String) Int where
  word := .inr
  number := .inr
  text := .inr
  negate _ := none
  operate _ _ _ := none
  apply _ _ := none
  create
    | [.prim (.inl hour)] => some hour
    | _ => none
  invoke
    | "getTime", .date hour, [] => some (.inl hour)
    | "toISOString", .date hour, [] => some (.inr (toString hour))
    | "substring", .prim (.inr text), _ => some (.inr text)
    | "concat", .prim (.inr text), [.prim (.inr more)] => some (.inr (text ++ more))
    | _, _, _ => none
  change
    | "setUTCHours", hour, _ => some (hour - hour % 24, .inl (hour - hour % 24))
    | _, _, _ => none

/-- The day of a date beside the date itself, which is still what it was. -/
theorem run_eq_meaning_day :
    ∃ body : FunctionTree, RowFunction.Parses
      { parameters := ["d"]
        statements := ["var __v0 = new Date(d.getTime());", "__v0.setUTCHours(0, 0, 0, 0);"]
        result := "(__v0.toISOString().substring(0, 10)).concat(d.toISOString())" } body ∧
      ∃ r heap, (body.call hourly [.date 0]).result [30] = (r, heap) ∧ [30] <+: heap ∧
        r.map (Ref.view heap) = some (some (.prim (.inr "2430"))) := by
  let scope := Scope.ofColumn "d" ⟨"d", .dimension, .date⟩
  let e : Expr := .concat [.toDate (.column "d" .date) .date, .column "d" .date] .string
  have h : tryCompile scope e = .ok
      { parameters := ["d"]
        statements := ["var __v0 = new Date(d.getTime());", "__v0.setUTCHours(0, 0, 0, 0);"]
        result := "(__v0.toISOString().substring(0, 10)).concat(d.toISOString())" } := rfl
  let row : Row (Int ⊕ String) Int := ⟨[30], fun _ => .date 0, fun _ => rfl⟩
  have hmeaning : e.stringMeaning hourly scope row.content = some (.prim (.inr "2430")) := rfl
  obtain ⟨body, hbody, r, heap, hrun, hgrow, hr⟩ := run_eq_meaning h hourly row
  rw [hmeaning] at hr
  exact ⟨body, hbody, r, heap, hrun, hgrow, hr⟩

end RowScript

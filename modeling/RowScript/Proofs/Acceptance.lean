import RowScript.Proofs.Compiled
import RowScript.Proofs.Emission.Success
import RowScript.Proofs.Nodes

/-!
# Which expressions have a function

An expression has a function exactly if all of its nodes are in order, its value
can be made a string, and it reads a column, or no more than one where only one
is allowed (`tryCompile_isOk_iff`). Each condition is about one node and the
types of its operands, so in which order nodes come makes no difference.
-/

namespace RowScript

/-! ## Types -/

namespace DataType

def isStringable (t : DataType) : Bool :=
  t = .string || t.isNumeric || t = .timestamp || t = .date

def isDateLike (t : DataType) : Bool :=
  t = .date || t = .string || t = .timestamp || t.isIntegral

/-- Whether there is a cast from one type to another. -/
def castsTo (source target : DataType) : Bool :=
  source = target ||
    match target with
    | short | integer | long | float | double => source = .string || source.isNumeric
    | boolean => true
    | string => source.isStringable
    | timestamp => source = .date || source = .string || source.isNumeric
    | date => source = .string || source = .timestamp || source.isNumeric
    | null => false

end DataType

theorem isSome_conversion? (source target : DataType) (isDay : Bool) :
    (conversion? source target isDay).isSome = source.castsTo target := by
  cases target <;> cases source <;> rfl

theorem isSome_dateLike? (source : DataType) : (dateLike? source).isSome = source.isDateLike := by
  cases source <;> rfl

theorem isSome_ownDate? (source : DataType) : (ownDate? source).isSome = source.isDateLike := by
  cases source <;> rfl

theorem DataType.castsTo_string (t : DataType) : t.castsTo .string = t.isStringable := by
  cases t <;> rfl

/-! ## Nodes -/

namespace Expr

/-- What a node asks of columns, of its own text and of the types of its operands. -/
def InOrder (scope : Scope) : Expr → Prop
  | column name _ => ∃ c, scope.lookup name = some c ∧ c.role ≠ .measure ∧
      Script.isUsable (Emission.identifier name c) = true
  | literal value type => ∀ text, value = some text →
      (type.isNumeric = true → Script.isNumberText type.isIntegral text = true) ∧
      (type = .boolean → text = "true" ∨ text = "false")
  | cast e type => (e.typeIn scope).castsTo type = true
  | concat args _ => args ≠ [] ∧ ∀ a ∈ args, (a.typeIn scope).isStringable = true
  | upper e _ | lower e _ => e.typeIn scope = .string
  | substring e position length _ =>
    (e.typeIn scope).isStringable = true ∧
      (position.isLiteral = true ∧ (position.typeIn scope).isIntegral = true) ∧
      (length.isLiteral = true ∧ (length.typeIn scope).isIntegral = true)
  | toDate e _ | extract _ e _ => (e.typeIn scope).isDateLike = true
  | dateAdd date days _ | dateSub date days _ =>
    (date.typeIn scope).isDateLike = true ∧ (days.typeIn scope).isIntegral = true
  | arithmetic _ _ _ _ => True

theorem isLegal_iff (value : Option String) (type : DataType) :
    isLegal value type = true ↔ ∀ text, value = some text →
      (type.isNumeric = true → Script.isNumberText type.isIntegral text = true) ∧
      (type = .boolean → text = "true" ∨ text = "false") := by
  cases value with
  | none => simp [isLegal]
  | some text =>
    simp only [isLegal, Option.some.injEq, forall_eq']
    by_cases hnumeric : type.isNumeric = true
    · have hboolean : type ≠ .boolean := by
        rintro rfl
        contradiction
      simp [hnumeric, hboolean]
    · by_cases hboolean : type = .boolean
      · subst hboolean
        simp [DataType.isNumeric, DataType.isIntegral, DataType.isFractional]
      · simp [hnumeric, hboolean]

theorem typeIn_free (lookup : String → Option Column) (multiple : Bool) (e : Expr) :
    e.typeIn ⟨lookup, multiple⟩ = e.typeIn ⟨lookup, true⟩ := by
  cases e <;> rfl

theorem inOrder_free (lookup : String → Option Column) (multiple : Bool) (n : Expr) :
    n.InOrder ⟨lookup, multiple⟩ ↔ n.InOrder ⟨lookup, true⟩ := by
  cases n <;> simp only [InOrder, typeIn_free lookup multiple]

theorem compiles_iff (scope : Scope) (e : Expr) :
    e.Compiles scope ↔ ∀ n ∈ e.nodes, n.InOrder scope := by
  induction e with
  | column name type => simp [Compiles, nodes, InOrder]
  | literal value type =>
    rw [Compiles, nodes, List.forall_mem_singleton, InOrder, isLegal_iff]
  | cast e type ih =>
    rw [Compiles, nodes, List.forall_mem_cons, ih, InOrder, conversionTo, isSome_conversion?]
    exact and_comm
  | concat args type ih =>
    have hargs : AllCompile scope args ↔
        (∀ a ∈ args, (a.typeIn scope).isStringable = true) ∧
          ∀ n ∈ nodesOf args, n.InOrder scope := by
      rw [allCompile_iff, forall_nodesOf, ← forall₂_and]
      refine forall₂_congr fun a ha => ?_
      rw [ih a ha, conversionTo, isSome_conversion?, DataType.castsTo_string]
      exact and_comm
    rw [Compiles, nodes, List.forall_mem_cons, InOrder, hargs, and_assoc]
  | upper e type ih =>
    rw [Compiles, nodes, List.forall_mem_cons, ih, InOrder]
    exact and_comm
  | lower e type ih =>
    rw [Compiles, nodes, List.forall_mem_cons, ih, InOrder]
    exact and_comm
  | substring e position length type ih ihp ihl =>
    rw [Compiles, nodes, List.forall_mem_cons, List.forall_mem_append, List.forall_mem_append, ih,
      ihp, ihl, InOrder, conversionTo, isSome_conversion?, DataType.castsTo_string]
    tauto
  | toDate e type ih =>
    rw [Compiles, nodes, List.forall_mem_cons, ih, InOrder, isSome_ownDate?]
    exact and_comm
  | dateAdd date days type ihd ihn =>
    rw [Compiles, nodes, List.forall_mem_cons, List.forall_mem_append, ihd, ihn, InOrder,
      isSome_ownDate?]
    tauto
  | dateSub date days type ihd ihn =>
    rw [Compiles, nodes, List.forall_mem_cons, List.forall_mem_append, ihd, ihn, InOrder,
      isSome_ownDate?]
    tauto
  | extract field e type ih =>
    rw [Compiles, nodes, List.forall_mem_cons, ih, InOrder, isSome_dateLike?]
    exact and_comm
  | arithmetic op left right type ihl ihr =>
    rw [Compiles, nodes, List.forall_mem_cons, List.forall_mem_append, ihl, ihr, InOrder, true_and]

/-! ## Expressions -/

/-- What an expression has to be like to have a function. -/
structure Acceptable (scope : Scope) (e : Expr) : Prop where
  nodes : ∀ n ∈ e.nodes, n.InOrder scope
  result : (e.typeIn scope).isStringable = true
  reads : e.columnNames ≠ []
  /-- Columns that generated text refers to in the same way are one input. -/
  inputs : scope.multipleInputs = true ∨
    ∀ a ∈ e.columnNames, ∀ b ∈ e.columnNames, identifierIn scope a = identifierIn scope b

theorem parameters_eq_nil_iff (scope : Scope) (e : Expr) :
    e.parameters scope = [] ↔ e.columnNames = [] := by
  rw [List.eq_nil_iff_forall_not_mem, ← @List.map_eq_nil_iff _ _ (identifierIn scope),
    ← identifiers_eq_map, List.eq_nil_iff_forall_not_mem]
  exact forall_congr' fun _ => not_congr mem_parameters

theorem length_parameters_le_one_iff (scope : Scope) (e : Expr) :
    (e.parameters scope).length ≤ 1 ↔
      ∀ a ∈ e.columnNames, ∀ b ∈ e.columnNames, identifierIn scope a = identifierIn scope b := by
  have hmem : ∀ name, name ∈ e.parameters scope ↔
      ∃ a ∈ e.columnNames, identifierIn scope a = name := by
    intro name
    rw [mem_parameters, identifiers_eq_map, List.mem_map]
  constructor
  · intro hlength a ha b hb
    have hia := (hmem _).mpr ⟨a, ha, rfl⟩
    have hib := (hmem _).mpr ⟨b, hb, rfl⟩
    match hp : e.parameters scope with
    | [] => simp [hp] at hia
    | [p] =>
      rw [hp, List.mem_singleton] at hia hib
      rw [hia, hib]
    | p :: q :: more => simp [hp] at hlength
  · intro hsame
    have hnodup := nodup_parameters scope e
    rcases Emission.length_le_one_or (e.parameters scope) with hle | ⟨p, q, more, hp⟩
    · exact hle
    · obtain ⟨a, ha, hap⟩ := (hmem p).mp (by simp [hp])
      obtain ⟨b, hb, hbq⟩ := (hmem q).mp (by simp [hp])
      have hpq : p = q := by rw [← hap, ← hbq, hsame a ha b hb]
      rw [hp, hpq] at hnodup
      simp at hnodup

end Expr

/-! ## Compiling -/

open Emission (outcome_get)

theorem inputs_of_tryCompile {scope : Scope} {e : Expr} {f : RowFunction}
    (h : tryCompile scope e = .ok f) : (attempt scope e).2.inputs = f.parameters := by
  obtain ⟨g, root, -, -, -, rfl⟩ := outcome_of_tryCompile h
  rfl

theorem tryCompile_single_ok_iff (lookup : String → Option Column) (e : Expr) (f : RowFunction) :
    tryCompile ⟨lookup, false⟩ e = .ok f ↔
      tryCompile ⟨lookup, true⟩ e = .ok f ∧ f.parameters.length ≤ 1 := by
  have h := Emission.restricts_rootFunction lookup e
  have hsame : ((attempt ⟨lookup, true⟩ e).2.inputs).length ≤ 1 →
      tryCompile ⟨lookup, false⟩ e = tryCompile ⟨lookup, true⟩ e :=
    fun hlength => congrArg Prod.fst (h.same {} hlength)
  constructor
  · intro hf
    rcases Emission.length_le_one_or (attempt ⟨lookup, true⟩ e).2.inputs with
      hlength | ⟨first, second, more, hi⟩
    · have hfree := (hsame hlength).symm.trans hf
      exact ⟨hfree, by rw [← inputs_of_tryCompile hfree]; exact hlength⟩
    · obtain ⟨s', hx⟩ := h.stops {} first second more (by decide) hi
      rw [tryCompile_eq, hx] at hf
      contradiction
  · rintro ⟨hf, hlength⟩
    rw [hsame (by rw [inputs_of_tryCompile hf]; exact hlength), hf]

theorem isSome_conversionTo_string (scope : Scope) (e : Expr) :
    (e.conversionTo scope .string).isSome = (e.typeIn scope).isStringable := by
  rw [Expr.conversionTo, isSome_conversion?, DataType.castsTo_string]

theorem Expr.Acceptable.exists_tryCompile_free {lookup : String → Option Column} {multiple : Bool}
    {e : Expr} (h : e.Acceptable ⟨lookup, multiple⟩) :
    ∃ f, tryCompile ⟨lookup, true⟩ e = .ok f := by
  have hcompiles := (Expr.compiles_iff ⟨lookup, true⟩ e).mpr fun n hn =>
    (Expr.inOrder_free lookup multiple n).mp (h.nodes n hn)
  have hroot : Emission.Succeeds (rootFunction ⟨lookup, true⟩ e) {} := by
    refine (Emission.succeeds_emit rfl hcompiles .empty).bind fun g s₁ hemit => ?_
    have he := Emission.emit_ok .empty hemit
    have hresult := h.result
    rw [Expr.typeIn_free, ← isSome_conversionTo_string] at hresult
    refine (he.succeeds_cast hresult).bind fun root s₂ hcast => ?_
    obtain ⟨rfl, -⟩ := he.cast hcast
    -- The inputs by now are the identifiers of the columns, so there is one.
    refine .bind ⟨s₂, s₂, outcome_get s₂⟩ fun s hs hget => ?_
    rw [outcome_get, Prod.mk.injEq, Except.ok.injEq] at hget
    obtain ⟨rfl, rfl⟩ := hget
    have hinputs : s₂.inputs = e.parameters ⟨lookup, true⟩ := by rw [he.state]; rfl
    have hne := fun hnil => h.reads ((Expr.parameters_eq_nil_iff ⟨lookup, true⟩ e).mp hnil)
    exact .guard (by simpa [hinputs] using hne) (.pure _)
  obtain ⟨f, s', hf⟩ := hroot
  exact ⟨f, congrArg Prod.fst hf⟩

/-- **Acceptance.** An expression has a function if and only if it is acceptable. -/
theorem tryCompile_isOk_iff (scope : Scope) (e : Expr) :
    (∃ f, tryCompile scope e = .ok f) ↔ e.Acceptable scope := by
  have hstring := isSome_conversionTo_string scope e
  constructor
  · rintro ⟨f, hf⟩
    have hcompiled := compiled_of_tryCompile hf
    have hparameters := hcompiled.parameters
    refine ⟨(Expr.compiles_iff scope e).mp hcompiled.compiles, hstring ▸ hcompiled.isSome, ?_, ?_⟩
    · intro hnone
      refine hcompiled.parameters_ne_nil ?_
      rw [hparameters, Expr.parameters_eq_nil_iff, hnone]
    · obtain ⟨lookup, multiple⟩ := scope
      cases multiple with
      | true => exact .inl rfl
      | false =>
        refine .inr ((Expr.length_parameters_le_one_iff _ e).mp ?_)
        rw [← hparameters]
        exact ((tryCompile_single_ok_iff lookup e f).mp hf).2
  · intro h
    obtain ⟨lookup, multiple⟩ := scope
    obtain ⟨f, hf⟩ := h.exists_tryCompile_free
    cases multiple with
    | true => exact ⟨f, hf⟩
    | false =>
      refine ⟨f, (tryCompile_single_ok_iff lookup e f).mpr ⟨hf, ?_⟩⟩
      rw [(compiled_of_tryCompile hf).parameters, Expr.length_parameters_le_one_iff]
      exact h.inputs.resolve_left Bool.false_ne_true

end RowScript

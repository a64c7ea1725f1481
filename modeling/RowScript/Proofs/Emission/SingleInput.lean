import RowScript.Compile
import RowScript.Proofs.Emission.Code
import RowScript.Proofs.Emission.Outcome

/-!
# Emissions that may have one input

Where only one input is allowed, an emission takes the course that it takes
without this limit up to its second input, and is rejected there. What the
unlimited one does after its second input makes no difference, not even if it
is rejected for another reason (`tryCompile_single`).
-/

namespace RowScript

namespace Emission

variable {α β : Type}

theorem length_le_one_or (names : List String) :
    names.length ≤ 1 ∨ ∃ first second more, names = first :: second :: more := by
  match names with
  | [] => exact .inl (Nat.zero_le 1)
  | [_] => exact .inl (Nat.le_refl 1)
  | first :: second :: more => exact .inr ⟨first, second, more, rfl⟩

/-- `x` does what `y` does, as long as that has no second input. -/
structure Restricts (x y : Emission α) : Prop where
  grows : ∀ s, s.inputs <+: (outcome y s).2.inputs
  same : ∀ s, (outcome y s).2.inputs.length ≤ 1 → outcome x s = outcome y s
  stops : ∀ s first second more, s.inputs.length ≤ 1 →
    (outcome y s).2.inputs = first :: second :: more →
    ∃ s', outcome x s = (.error (.multipleInputs first second), s')

namespace Restricts

theorem of_inputs {x : Emission α} (h : ∀ s, (outcome x s).2.inputs = s.inputs) :
    Restricts x x where
  grows s := ⟨[], by rw [List.append_nil, h s]⟩
  same s _ := rfl
  stops s first second more hs hy := by
    rw [h s] at hy
    simp [hy] at hs

theorem pure (a : α) : Restricts (Pure.pure a) (Pure.pure a) := of_inputs fun _ => rfl

theorem throw (r : Rejection) :
    Restricts (MonadExcept.throw r : Emission α) (MonadExcept.throw r) := of_inputs fun _ => rfl

theorem get : Restricts (MonadState.get : Emission State) MonadState.get := of_inputs fun _ => rfl

theorem orReject (a : Option α) (r : Rejection) :
    Restricts (Emission.orReject a r) (Emission.orReject a r) := by
  cases a with
  | none => exact throw r
  | some a => exact pure a

variable {x y : Emission α} {f g : α → Emission β}

theorem bind (h : Restricts x y) (hfg : ∀ a, Restricts (f a) (g a)) :
    Restricts (x >>= f) (y >>= g) := by
  refine ⟨?_, ?_, ?_⟩
  · intro s
    have hgrows := h.grows s
    rw [outcome_bind]
    rcases hy : outcome y s with ⟨r | a, s'⟩
    · rw [hy] at hgrows
      exact hgrows
    · rw [hy] at hgrows
      exact hgrows.trans ((hfg a).grows s')
  · intro s hlength
    have hsame := h.same s
    rw [outcome_bind] at hlength
    rw [outcome_bind, outcome_bind]
    rcases hy : outcome y s with ⟨r | a, s'⟩
    · rw [hy] at hlength hsame
      rw [hsame hlength]
    · rw [hy] at hlength hsame
      have hfirst : s'.inputs.length ≤ 1 := Nat.le_trans ((hfg a).grows s').length_le hlength
      rw [hsame hfirst]
      exact (hfg a).same s' hlength
  · intro s first second more hs hinputs
    have hsame := h.same s
    have hstops := h.stops s
    rw [outcome_bind] at hinputs
    rw [outcome_bind]
    rcases hy : outcome y s with ⟨r | a, s'⟩
    · rw [hy] at hinputs hstops
      obtain ⟨s'', hx⟩ := hstops first second more hs hinputs
      exact ⟨s'', by rw [hx]⟩
    · rw [hy] at hinputs hsame hstops
      rcases length_le_one_or s'.inputs with hfirst | ⟨b, c, more', hi⟩
      · rw [hsame hfirst]
        exact (hfg a).stops s' first second more hfirst hinputs
      · -- The inputs after the first part begin like those at the end.
        obtain ⟨rest, hrest⟩ := (hfg a).grows s'
        rw [hinputs, hi] at hrest
        simp only [List.cons_append, List.cons.injEq] at hrest
        obtain ⟨rfl, rfl, -⟩ := hrest
        obtain ⟨s'', hx⟩ := hstops b c more' hs hi
        exact ⟨s'', by rw [hx]⟩

theorem guard (p : Prop) [Decidable p] (r : Rejection) {f g : Unit → Emission α}
    (h : ∀ u, Restricts (f u) (g u)) :
    Restricts (if p then (MonadExcept.throw r >>= f) else f ())
      (if p then (MonadExcept.throw r >>= g) else g ()) := by
  split
  · exact (throw r).bind h
  · exact h ()

end Restricts

/-! ## Columns -/

theorem outcome_addInput (scope : Scope) (name : String) (s : State) :
    outcome (addInput scope name) s =
      match s.inputs, scope.multipleInputs with
      | first :: more, false =>
        if name ∈ first :: more then (.ok (), s) else (.error (.multipleInputs first name), s)
      | inputs, _ => (.ok (), { s with inputs := addNew inputs name }) := by
  obtain ⟨lookup, multiple⟩ := scope
  obtain ⟨inputs, bindings⟩ := s
  unfold addInput addNew
  rw [outcome_bind, outcome_get]
  by_cases hm : name ∈ inputs <;> cases inputs <;> cases multiple <;> simp_all

theorem outcome_addInput_free {scope : Scope} (h : scope.multipleInputs = true) (name : String)
    (s : State) :
    outcome (addInput scope name) s = (.ok (), { s with inputs := addNew s.inputs name }) := by
  obtain ⟨_ | ⟨first, more⟩, bindings⟩ := s
  · rw [outcome_addInput]
  · rw [outcome_addInput, h]

theorem restricts_addInput (lookup : String → Option Column) (name : String) :
    Restricts (addInput ⟨lookup, false⟩ name) (addInput ⟨lookup, true⟩ name) := by
  have hfree : ∀ s, outcome (addInput ⟨lookup, true⟩ name) s =
      (.ok (), { s with inputs := addNew s.inputs name }) := outcome_addInput_free rfl name
  refine ⟨?_, ?_, ?_⟩
  · intro s
    rw [hfree, addNew]
    split
    · exact List.prefix_refl _
    · exact List.prefix_append _ _
  · rintro ⟨_ | ⟨first, more⟩, bindings⟩ hlength
    · rw [outcome_addInput, hfree]
    · rw [hfree] at hlength ⊢
      rw [outcome_addInput]
      by_cases hm : name ∈ first :: more
      · simp only [if_pos hm, addNew]
      · simp [addNew, hm] at hlength
  · rintro ⟨inputs, bindings⟩ first second more hs hinputs
    rw [hfree] at hinputs
    rw [outcome_addInput]
    simp only [addNew] at hs hinputs
    split at hinputs
    · simp [hinputs] at hs
    · next hm =>
      match inputs with
      | [] => simp at hinputs
      | [a] =>
        simp only [List.cons_append, List.nil_append, List.cons.injEq] at hinputs
        obtain ⟨rfl, rfl, -⟩ := hinputs
        exact ⟨⟨[a], bindings⟩, by simp only [if_neg hm]⟩
      | a :: b :: rest => simp at hs

theorem restricts_column (lookup : String → Option Column) (name : String) :
    Restricts (column ⟨lookup, false⟩ name) (column ⟨lookup, true⟩ name) := by
  unfold column
  refine (Restricts.orReject _ _).bind fun c => ?_
  refine .guard _ _ fun _ => .guard _ _ fun _ => ?_
  exact (restricts_addInput lookup _).bind fun _ => .pure _

/-! ## Functions of fragments -/

theorem restricts_cast (f : Fragment) (target : DataType) :
    Restricts (cast f target) (cast f target) := by
  unfold cast
  split
  · exact .pure f
  · exact Restricts.get.bind fun s => (Restricts.orReject _ _).bind fun code => .pure _

theorem restricts_expect (callee : Callee) (expected : Expectation) (holds : Bool) (f : Fragment) :
    Restricts (expect callee expected holds f) (expect callee expected holds f) := by
  unfold expect
  split
  · exact .pure ()
  · exact .throw _

theorem restricts_changeCase (callee : Callee) (method : String) (f : Fragment) :
    Restricts (changeCase callee method f) (changeCase callee method f) := by
  unfold changeCase
  exact (restricts_expect _ _ _ _).bind fun _ => .pure _

theorem restricts_bindTemporary (binding : String → Binding) :
    Restricts (bindTemporary binding) (bindTemporary binding) := .of_inputs fun _ => rfl

theorem restricts_cutToDay (f : Fragment) : Restricts (cutToDay f) (cutToDay f) := by
  unfold cutToDay initialDate
  refine (Restricts.orReject _ _).bind fun init => ?_
  exact (restricts_bindTemporary _).bind fun name => .pure _

theorem restricts_shift (direction : Direction) (date days : Fragment) :
    Restricts (shift direction date days) (shift direction date days) := by
  unfold shift expectIntegral initialDate
  refine (restricts_expect _ _ _ _).bind fun _ => (Restricts.orReject _ _).bind fun init => ?_
  exact (restricts_bindTemporary _).bind fun name => .pure _

theorem restricts_extract (field : DateField) (f : Fragment) :
    Restricts (extract field f) (extract field f) := by
  unfold extract
  exact (Restricts.orReject _ _).bind fun date => .pure _

/-! ## Expressions -/

theorem restricts_concat {lookup : String → Option Column} {es : List Expr}
    (h : ∀ e ∈ es, Restricts (emit ⟨lookup, false⟩ e) (emit ⟨lookup, true⟩ e))
    (acc : Option Fragment) :
    Restricts (concat ⟨lookup, false⟩ acc es) (concat ⟨lookup, true⟩ acc es) := by
  induction es generalizing acc with
  | nil =>
    cases acc with
    | none =>
      rw [concat, concat]
      exact .throw _
    | some f =>
      rw [concat, concat]
      exact .pure _
  | cons e es ih =>
    rw [concat, concat]
    refine (h e List.mem_cons_self).bind fun f => (restricts_cast f .string).bind fun g => ?_
    have hrest := ih fun a ha => h a (List.mem_cons_of_mem _ ha)
    cases acc with
    | none => exact hrest _
    | some k => exact hrest _

theorem restricts_emit (lookup : String → Option Column) (e : Expr) :
    Restricts (emit ⟨lookup, false⟩ e) (emit ⟨lookup, true⟩ e) := by
  induction e with
  | column name type =>
    rw [emit, emit]
    exact restricts_column lookup name
  | literal value type =>
    rw [emit, emit]
    refine .of_inputs fun s => ?_
    rw [outcome_liftExcept]
  | cast e type ih =>
    rw [emit, emit]
    exact ih.bind fun f => restricts_cast f type
  | concat args type ih =>
    rw [emit, emit]
    exact restricts_concat ih none
  | upper e type ih =>
    rw [emit, emit]
    exact ih.bind fun f => restricts_changeCase _ _ f
  | lower e type ih =>
    rw [emit, emit]
    exact ih.bind fun f => restricts_changeCase _ _ f
  | substring e position length type ih ihp ihl =>
    rw [emit, emit]
    refine .guard _ _ fun _ => .guard _ _ fun _ => ?_
    refine ih.bind fun f => (restricts_cast f .string).bind fun g => ?_
    refine ihp.bind fun p => (restricts_expect _ _ _ p).bind fun _ => ?_
    exact ihl.bind fun l => (restricts_expect _ _ _ l).bind fun _ => .pure _
  | toDate e type ih =>
    rw [emit, emit]
    exact ih.bind fun f => restricts_cutToDay f
  | dateAdd date days type ihd ihn =>
    rw [emit, emit]
    exact ihd.bind fun f => ihn.bind fun g => restricts_shift _ f g
  | dateSub date days type ihd ihn =>
    rw [emit, emit]
    exact ihd.bind fun f => ihn.bind fun g => restricts_shift _ f g
  | extract field e type ih =>
    rw [emit, emit]
    exact ih.bind fun f => restricts_extract field f
  | arithmetic op left right type ihl ihr =>
    rw [emit, emit]
    exact ihl.bind fun f => ihr.bind fun g => .pure _

theorem restricts_rootFunction (lookup : String → Option Column) (e : Expr) :
    Restricts (rootFunction ⟨lookup, false⟩ e) (rootFunction ⟨lookup, true⟩ e) := by
  unfold rootFunction
  refine (restricts_emit lookup e).bind fun f => (restricts_cast f .string).bind fun root => ?_
  exact Restricts.get.bind fun s => .guard _ _ fun _ => .pure _

end Emission

/-! ## Compiling -/

/-- **One input.** Where one input is allowed, an attempt that has two or more without this limit
is rejected with the first two, and any other ends as it does without the limit. -/
theorem tryCompile_single (lookup : String → Option Column) (e : Expr) :
    tryCompile ⟨lookup, false⟩ e =
      match (attempt ⟨lookup, true⟩ e).2.inputs with
      | first :: second :: _ => .error (.multipleInputs first second)
      | _ => tryCompile ⟨lookup, true⟩ e := by
  have h := Emission.restricts_rootFunction lookup e
  change (Emission.outcome (rootFunction ⟨lookup, false⟩ e) {}).1 =
    match (Emission.outcome (rootFunction ⟨lookup, true⟩ e) {}).2.inputs with
    | first :: second :: _ => .error (.multipleInputs first second)
    | _ => (Emission.outcome (rootFunction ⟨lookup, true⟩ e) {}).1
  split
  · next first second more hinputs =>
    obtain ⟨s', hx⟩ := h.stops {} first second more (by decide) hinputs
    rw [hx]
  · next hinputs =>
    rw [h.same]
    rcases Emission.length_le_one_or
      (Emission.outcome (rootFunction ⟨lookup, true⟩ e) {}).2.inputs with hle | ⟨a, b, more, hi⟩
    · exact hle
    · exact absurd hi (hinputs a b more)

/-! The second input stops an attempt that would fail for another reason later on. -/

example :
    let lookup := fun name => if name = "c" then none else some ⟨name, .dimension, .string⟩
    let e := Expr.concatOf [.column "a" .string, .upperOf (.column "b" .string), .column "c" .string]
    (attempt ⟨lookup, true⟩ e).2.inputs = ["a", "b"] ∧
      tryCompile ⟨lookup, true⟩ e = .error (.unknownColumn "c") ∧
      tryCompile ⟨lookup, false⟩ e = .error (.multipleInputs "a" "b") := ⟨rfl, rfl, rfl⟩

end RowScript

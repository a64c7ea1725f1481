import RowScript.Proofs.Emission.Emitted
import RowScript.Proofs.Emission.SingleInput

/-!
# Emissions that succeed

Where inputs are not limited, the emission of an expression succeeds in every
state if each node finds what it needs (`succeeds_emit`). The first half, that
nothing else is emitted, is `emit_ok`, which also says what the operands have
become by the time a node looks at them.
-/

namespace RowScript.Emission

variable {α β : Type} {s : State}

def Succeeds (x : Emission α) (s : State) : Prop := ∃ a s', outcome x s = (.ok a, s')

namespace Succeeds

theorem pure (a : α) : Succeeds (Pure.pure a) s := ⟨a, s, rfl⟩

theorem bind {x : Emission α} {f : α → Emission β} (hx : Succeeds x s)
    (hf : ∀ a s', outcome x s = (.ok a, s') → Succeeds (f a) s') : Succeeds (x >>= f) s := by
  obtain ⟨a, s', hx⟩ := hx
  obtain ⟨b, s'', hb⟩ := hf a s' hx
  exact ⟨b, s'', outcome_bind_ok.mpr ⟨a, s', hx, hb⟩⟩

theorem guard {p : Prop} [Decidable p] {r : Rejection} {f : Unit → Emission α} (hp : ¬p)
    (hf : Succeeds (f ()) s) : Succeeds (if p then (MonadExcept.throw r >>= f) else f ()) s := by
  rw [if_neg hp]
  exact hf

theorem orReject {x : Option α} (h : x.isSome = true) (r : Rejection) :
    Succeeds (Emission.orReject x r) s := by
  obtain ⟨a, rfl⟩ := Option.isSome_iff_exists.mp h
  exact pure a

end Succeeds

/-! ## Columns and literals -/

theorem succeeds_column {scope : Scope} (hm : scope.multipleInputs = true) {name : String}
    {c : Column} (hlookup : scope.lookup name = some c) (hrole : c.role ≠ .measure)
    (husable : Script.isUsable (identifier name c) = true) : Succeeds (column scope name) s := by
  unfold column
  rw [hlookup]
  refine (Succeeds.pure c).bind fun c' s' hc => ?_
  simp only [outcome_pure, Prod.mk.injEq, Except.ok.injEq] at hc
  obtain ⟨rfl, rfl⟩ := hc
  refine .guard hrole (.guard (by simp [husable]) (.bind ?_ fun _ _ _ => .pure _))
  exact ⟨(), _, outcome_addInput_free hm _ s⟩

theorem literal?_isOk {value : Option String} {type : DataType}
    (h : Expr.isLegal value type = true) : ∃ f, literal? value type = .ok f := by
  cases value with
  | none => exact ⟨_, rfl⟩
  | some text =>
    cases type with
    | short | integer | long | float | double =>
      have htext : Script.isNumberText _ text = true := h
      rw [literal?, if_pos htext]
      exact ⟨_, rfl⟩
    | boolean =>
      have hword : (text = "true" || text = "false") = true := h
      rw [literal?, if_pos hword]
      exact ⟨_, rfl⟩
    | null | string | date | timestamp => exact ⟨_, rfl⟩

/-! ## Fragments of expressions -/

variable {scope : Scope} {e : Expr} {s₀ : State} {f : Fragment}

theorem Emitted.succeeds_cast (he : Emitted scope e s₀ f s) {target : DataType}
    (h : (e.conversionTo scope target).isSome = true) : Succeeds (Emission.cast f target) s := by
  unfold Emission.cast
  split
  · exact .pure f
  · refine .bind ⟨s, s, outcome_get s⟩ fun s' _ hget => .bind (.orReject ?_ _) fun _ _ _ => .pure _
    simp only [outcome_get, Prod.mk.injEq, Except.ok.injEq] at hget
    rw [coerce?, Option.isSome_map, ← hget.1, he.isDay, he.type]
    exact h

theorem succeeds_expect {holds : Bool} (h : holds = true) (callee : Callee)
    (expected : Expectation) (f : Fragment) : Succeeds (expect callee expected holds f) s := by
  rw [h]
  exact .pure ()

theorem Emitted.succeeds_changeCase (he : Emitted scope e s₀ f s)
    (h : e.typeIn scope = .string) (callee : Callee) (method : String) :
    Succeeds (changeCase callee method f) s :=
  (succeeds_expect (by simp [he.type, h]) _ _ _).bind fun _ _ _ => .pure _

theorem Emitted.succeeds_initialDate (he : Emitted scope e s₀ f s)
    (h : (ownDate? (e.typeIn scope)).isSome = true) (callee : Callee) :
    Succeeds (initialDate callee f) s :=
  .orReject (by rw [Option.isSome_map, he.type]; exact h) _

theorem succeeds_bindTemporary (binding : String → Binding) :
    Succeeds (bindTemporary binding) s := ⟨_, _, outcome_bindTemporary binding s⟩

theorem Emitted.succeeds_cutToDay (he : Emitted scope e s₀ f s)
    (h : (ownDate? (e.typeIn scope)).isSome = true) : Succeeds (cutToDay f) s :=
  (he.succeeds_initialDate h .toDate).bind fun _ _ _ =>
    (succeeds_bindTemporary _).bind fun _ _ _ => .pure _

theorem succeeds_shift {date days : Expr} {s₁ s₂ : State} {g : Fragment}
    (hd : Emitted scope date s₀ f s₁) (hn : Emitted scope days s₁ g s₂)
    (hintegral : (days.typeIn scope).isIntegral = true)
    (h : (ownDate? (date.typeIn scope)).isSome = true) (direction : Direction) :
    Succeeds (shift direction f g) s₂ := by
  have hdate : ∀ s, Succeeds (initialDate direction.callee f) s := fun s =>
    .orReject (by rw [Option.isSome_map, hd.type]; exact h) _
  refine (succeeds_expect (by rw [hn.type]; exact hintegral) _ _ _).bind fun _ s' _ => ?_
  exact (hdate s').bind fun _ _ _ => (succeeds_bindTemporary _).bind fun _ _ _ => .pure _

theorem Emitted.succeeds_extract (he : Emitted scope e s₀ f s)
    (h : (dateLike? (e.typeIn scope)).isSome = true) (field : DateField) :
    Succeeds (extract field f) s := by
  refine .bind (.orReject ?_ _) fun _ _ _ => .pure _
  rw [toDateLike?, Option.isSome_map, he.type]
  exact h

/-! ## Expressions -/

theorem succeeds_concat {es : List Expr}
    (hes : ∀ e ∈ es, ∀ s, e.Compiles scope → s.Numbered → Succeeds (emit scope e) s)
    (h : Expr.AllCompile scope es) {acc : Option Fragment} (hacc : es ≠ [] ∨ acc ≠ none) {s : State}
    (hs : s.Numbered) : Succeeds (concat scope acc es) s := by
  induction es generalizing acc s with
  | nil =>
    cases acc with
    | none => simp at hacc
    | some f =>
      rw [concat]
      exact .pure _
  | cons e es ih =>
    obtain ⟨⟨hcompiles, hstring⟩, hrest⟩ := h
    have hmore : ∀ k s', State.Numbered s' → Succeeds (concat scope (some k) es) s' := by
      intro k s' hs'
      exact ih (fun a ha => hes a (List.mem_cons_of_mem _ ha)) hrest (.inr (by simp)) hs'
    rw [concat]
    refine (hes e List.mem_cons_self s hcompiles hs).bind fun f s₁ hf => ?_
    have he := emit_ok hs hf
    refine (he.succeeds_cast hstring).bind fun g s₂ hg => ?_
    obtain ⟨rfl, -⟩ := he.cast hg
    cases acc with
    | none => exact hmore _ _ (he.numbered hs)
    | some k => exact hmore _ _ (he.numbered hs)

/-- **Success.** Whatever has been emitted before, an expression in which each node finds what it
needs is emitted. -/
theorem succeeds_emit (hm : scope.multipleInputs = true) {e : Expr} (h : e.Compiles scope)
    {s : State} (hs : s.Numbered) : Succeeds (emit scope e) s := by
  induction e generalizing s with
  | column name type =>
    obtain ⟨c, hlookup, hrole, husable⟩ := h
    rw [emit]
    exact succeeds_column hm hlookup hrole husable
  | literal value type =>
    obtain ⟨f, hf⟩ := literal?_isOk h
    rw [emit, hf]
    exact .pure f
  | cast e type ih =>
    rw [emit]
    refine (ih h.1 hs).bind fun f s' hf => ?_
    exact (emit_ok hs hf).succeeds_cast h.2
  | concat args type ih =>
    rw [emit]
    exact succeeds_concat (fun a ha s hc hs => ih a ha hc hs) h.2 (.inl h.1) hs
  | upper e type ih =>
    rw [emit]
    refine (ih h.1 hs).bind fun f s' hf => ?_
    exact (emit_ok hs hf).succeeds_changeCase h.2 _ _
  | lower e type ih =>
    rw [emit]
    refine (ih h.1 hs).bind fun f s' hf => ?_
    exact (emit_ok hs hf).succeeds_changeCase h.2 _ _
  | substring e position length type ih ihp ihl =>
    obtain ⟨he, hstring, ⟨hpl, hp, hpt⟩, hll, hl, hlt⟩ := h
    rw [emit]
    refine .guard (by simp [hpl]) (.guard (by simp [hll]) ?_)
    refine (ih he hs).bind fun f s₁ hf => ?_
    have hemitted := emit_ok hs hf
    refine (hemitted.succeeds_cast hstring).bind fun g s₂ hg => ?_
    obtain ⟨rfl, -⟩ := hemitted.cast hg
    have hs₁ := hemitted.numbered hs
    refine (ihp hp hs₁).bind fun p s₃ hposition => ?_
    have hemittedP := emit_ok hs₁ hposition
    refine (succeeds_expect (by rw [hemittedP.type]; exact hpt) _ _ _).bind fun _ s₄ hpe => ?_
    obtain ⟨-, rfl⟩ := outcome_expect_ok.mp hpe
    have hs₃ := hemittedP.numbered hs₁
    refine (ihl hl hs₃).bind fun l s₅ hlength => ?_
    have hemittedL := emit_ok hs₃ hlength
    exact (succeeds_expect (by rw [hemittedL.type]; exact hlt) _ _ _).bind fun _ _ _ => .pure _
  | toDate e type ih =>
    rw [emit]
    refine (ih h.1 hs).bind fun f s' hf => ?_
    exact (emit_ok hs hf).succeeds_cutToDay h.2
  | dateAdd date days type ihd ihn =>
    obtain ⟨hdate, hdays, hintegral, hown⟩ := h
    rw [emit]
    refine (ihd hdate hs).bind fun f s₁ hf => ?_
    have hd := emit_ok hs hf
    refine (ihn hdays (hd.numbered hs)).bind fun g s₂ hg => ?_
    exact succeeds_shift hd (emit_ok (hd.numbered hs) hg) hintegral hown .later
  | dateSub date days type ihd ihn =>
    obtain ⟨hdate, hdays, hintegral, hown⟩ := h
    rw [emit]
    refine (ihd hdate hs).bind fun f s₁ hf => ?_
    have hd := emit_ok hs hf
    refine (ihn hdays (hd.numbered hs)).bind fun g s₂ hg => ?_
    exact succeeds_shift hd (emit_ok (hd.numbered hs) hg) hintegral hown .earlier
  | extract field e type ih =>
    rw [emit]
    refine (ih h.1 hs).bind fun f s' hf => ?_
    exact (emit_ok hs hf).succeeds_extract h.2 field
  | arithmetic op left right type ihl ihr =>
    rw [emit]
    refine (ihl h.1 hs).bind fun f s₁ hf => ?_
    exact (ihr h.2 ((emit_ok hs hf).numbered hs)).bind fun _ _ _ => .pure _

end RowScript.Emission

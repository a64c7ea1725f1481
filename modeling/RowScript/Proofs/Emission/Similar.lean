import RowScript.Proofs.Emission.Text
import RowScript.Proofs.Emission.Outcome

/-!
# Emissions side by side

No check of an emission looks at the text of a fragment. Two emissions that have
fragments of the same types to go on with make the same checks and fail with the
same rejection. They may start in different states, as long as the temporaries
that these hand out correspond (`Blind`).
-/

namespace RowScript.Emission

variable {α β γ δ : Type} {S : State → State → Prop}

/-- From states that `S` relates both emissions fail alike or both succeed, with results that `R`
relates, and leave states that `S` relates. -/
def Similar (S : State → State → Prop) (R : α → β → Prop) (x : Emission α) (y : Emission β) : Prop :=
  ∀ s t, S s t →
    (∃ r s' t', outcome x s = (.error r, s') ∧ outcome y t = (.error r, t') ∧ S s' t') ∨
      ∃ a b s' t', outcome x s = (.ok a, s') ∧ outcome y t = (.ok b, t') ∧ S s' t' ∧ R a b

namespace Similar

theorem pure {R : α → β → Prop} {a : α} {b : β} (h : R a b) :
    Similar S R (Pure.pure a) (Pure.pure b) := fun s t hst => .inr ⟨a, b, s, t, rfl, rfl, hst, h⟩

theorem throw {R : α → β → Prop} (r : Rejection) :
    Similar S R (MonadExcept.throw r) (MonadExcept.throw r) := fun s t hst =>
  .inl ⟨r, s, t, rfl, rfl, hst⟩

theorem get : Similar S S MonadState.get MonadState.get := fun s t hst =>
  .inr ⟨s, t, s, t, rfl, rfl, hst, hst⟩

theorem orReject {x : Option α} {y : Option β} (h : x.isSome = y.isSome) (r : Rejection) :
    Similar S (fun _ _ => True) (Emission.orReject x r) (Emission.orReject y r) := by
  cases x with
  | none =>
    cases y with
    | none => exact throw r
    | some b => contradiction
  | some a =>
    cases y with
    | none => contradiction
    | some b => exact pure trivial

theorem orReject_self (x : Option α) (r : Rejection) :
    Similar S Eq (Emission.orReject x r) (Emission.orReject x r) := by
  cases x with
  | none => exact throw r
  | some a => exact pure rfl

theorem bind {R : α → β → Prop} {R' : γ → δ → Prop} {x : Emission α} {y : Emission β}
    {f : α → Emission γ} {g : β → Emission δ} (h : Similar S R x y)
    (hfg : ∀ a b, R a b → Similar S R' (f a) (g b)) : Similar S R' (x >>= f) (y >>= g) := by
  intro s t hst
  rw [outcome_bind, outcome_bind]
  rcases h s t hst with ⟨r, s', t', hx, hy, hst'⟩ | ⟨a, b, s', t', hx, hy, hst', hab⟩
  · rw [hx, hy]
    exact .inl ⟨r, s', t', rfl, rfl, hst'⟩
  · rw [hx, hy]
    exact hfg a b hab s' t' hst'

theorem guard {R : α → β → Prop} (p : Prop) [Decidable p] (r : Rejection) {f : Unit → Emission α}
    {g : Unit → Emission β} (h : ∀ u, Similar S R (f u) (g u)) :
    Similar S R (if p then (MonadExcept.throw r >>= f) else f ())
      (if p then (MonadExcept.throw r >>= g) else g ()) := by
  split
  · exact bind (throw r) fun a b (hab : a = b) => hab ▸ h a
  · exact h ()

end Similar

/-! ## Fragments of the same types -/

/-- `R` holds between inline fragments whatever their texts, and between those that are bound to
temporaries which states that `S` relates hand out. -/
structure Blind (S : State → State → Prop) (R : Fragment → Fragment → Prop) : Prop where
  type : ∀ {f g}, R f g → g.type = f.type
  inline : ∀ ss ss' text text' type, R (.inline ss text type) (.inline ss' text' type)
  day : ∀ source, Similar S (fun name name' => ∀ ss ss', R (.bound name ss .date)
    (.bound name' ss' .date)) (bindTemporary (.day · source)) (bindTemporary (.day · source))
  shift : ∀ callee, Similar S (fun name name' => ∀ ss ss', R (.bound name ss .date)
    (.bound name' ss' .date)) (bindTemporary (.shift · callee)) (bindTemporary (.shift · callee))

namespace Blind

variable {R : Fragment → Fragment → Prop} {f g f' g' : Fragment}

theorem isSome_conversion?_congr (source target : DataType) (isDay isDay' : Bool) :
    (conversion? source target isDay).isSome = (conversion? source target isDay').isSome := by
  cases target <;> cases source <;> rfl

theorem cast (hR : Blind S R) (h : R f g) (target : DataType) :
    Similar S R (Emission.cast f target) (Emission.cast g target) := by
  unfold Emission.cast
  rw [hR.type h]
  split
  · exact .pure h
  · refine Similar.get.bind fun s t _ => ?_
    refine (Similar.orReject ?_ _).bind fun _ _ _ => .pure (hR.inline ..)
    rw [coerce?, coerce?, Option.isSome_map, Option.isSome_map]
    exact isSome_conversion?_congr ..

theorem expect (hR : Blind S R) (h : R f g) (callee : Callee) (expected : Expectation)
    (holds : Bool) :
    Similar S Eq (Emission.expect callee expected holds f)
      (Emission.expect callee expected holds g) := by
  unfold Emission.expect
  rw [hR.type h]
  split
  · exact .pure rfl
  · exact .throw _

theorem expectIntegral (hR : Blind S R) (h : R f g) (callee : Callee) :
    Similar S Eq (Emission.expectIntegral callee f) (Emission.expectIntegral callee g) := by
  unfold Emission.expectIntegral
  rw [hR.type h]
  exact hR.expect h callee .integral _

theorem changeCase (hR : Blind S R) (h : R f g) (callee : Callee) (method : String) :
    Similar S R (Emission.changeCase callee method f) (Emission.changeCase callee method g) := by
  unfold Emission.changeCase
  rw [hR.type h]
  exact (hR.expect h callee .string _).bind fun _ _ _ => .pure (hR.inline ..)

theorem initialDate (hR : Blind S R) (h : R f g) (callee : Callee) :
    Similar S (fun _ _ => True) (Emission.initialDate callee f) (Emission.initialDate callee g) := by
  unfold Emission.initialDate
  rw [hR.type h]
  exact .orReject (by rw [Option.isSome_map, Option.isSome_map]) _

theorem cutToDay (hR : Blind S R) (h : R f g) :
    Similar S R (Emission.cutToDay f) (Emission.cutToDay g) := by
  unfold Emission.cutToDay
  rw [hR.type h]
  refine (hR.initialDate h .toDate).bind fun _ _ _ => ?_
  exact (hR.day _).bind fun _ _ hname => .pure (hname _ _)

theorem shifted (hR : Blind S R) (h : R f g) (h' : R f' g') (direction : Direction) :
    Similar S R (Emission.shift direction f f') (Emission.shift direction g g') := by
  unfold Emission.shift
  refine (hR.expectIntegral h' _).bind fun _ _ _ => ?_
  refine (hR.initialDate h _).bind fun _ _ _ => ?_
  exact (hR.shift _).bind fun _ _ hname => .pure (hname _ _)

theorem extract (hR : Blind S R) (h : R f g) (field : DateField) :
    Similar S R (Emission.extract field f) (Emission.extract field g) := by
  unfold Emission.extract toDateLike?
  rw [hR.type h]
  exact (Similar.orReject (by rw [Option.isSome_map, Option.isSome_map]) _).bind fun _ _ _ =>
    .pure (hR.inline ..)

variable {scope scope' : Scope}

theorem concat (hR : Blind S R) {es : List Expr}
    (hes : ∀ e ∈ es, Similar S R (Emission.emit scope e) (Emission.emit scope' e))
    {acc acc' : Option Fragment} (h : Option.Rel R acc acc') :
    Similar S R (Emission.concat scope acc es) (Emission.concat scope' acc' es) := by
  induction es generalizing acc acc' with
  | nil =>
    cases h with
    | none => exact .throw _
    | some h => exact .pure (hR.inline ..)
  | cons e es ih =>
    rw [Emission.concat, Emission.concat]
    refine (hes e List.mem_cons_self).bind fun f g hfg => ?_
    refine (hR.cast hfg .string).bind fun f' g' hfg' => ?_
    have hrest := fun a ha => hes a (List.mem_cons_of_mem _ ha)
    cases h with
    | none => exact ih hrest (.some hfg')
    | some h => exact ih hrest (.some (hR.inline ..))

theorem literal (hR : Blind S R) (value : Option String) (type : DataType) :
    Similar S R (Emission.emit scope (.literal value type))
      (Emission.emit scope' (.literal value type)) := by
  rw [Emission.emit, Emission.emit]
  cases hf : literal? value type with
  | error r => exact .throw r
  | ok f =>
    obtain ⟨-, text, rfl, -⟩ := Expr.literal?_ok scope hf
    exact .pure (hR.inline ..)

theorem emit (hR : Blind S R)
    (hcolumn : ∀ name, Similar S R (Emission.column scope name) (Emission.column scope' name))
    (e : Expr) : Similar S R (Emission.emit scope e) (Emission.emit scope' e) := by
  induction e with
  | column name type =>
    rw [Emission.emit, Emission.emit]
    exact hcolumn name
  | literal value type => exact hR.literal value type
  | cast e type ih =>
    rw [Emission.emit, Emission.emit]
    exact ih.bind fun f g h => hR.cast h type
  | concat args type ih =>
    rw [Emission.emit, Emission.emit]
    exact hR.concat ih .none
  | upper e type ih =>
    rw [Emission.emit, Emission.emit]
    exact ih.bind fun f g h => hR.changeCase h _ _
  | lower e type ih =>
    rw [Emission.emit, Emission.emit]
    exact ih.bind fun f g h => hR.changeCase h _ _
  | substring e position length type ih ihp ihl =>
    rw [Emission.emit, Emission.emit]
    refine .guard _ _ fun _ => .guard _ _ fun _ => ?_
    refine ih.bind fun f g h => (hR.cast h .string).bind fun f' g' h' => ?_
    refine ihp.bind fun p q hpq => (hR.expectIntegral hpq _).bind fun _ _ _ => ?_
    refine ihl.bind fun l m hlm => (hR.expectIntegral hlm _).bind fun _ _ _ => ?_
    exact .pure (hR.inline ..)
  | toDate e type ih =>
    rw [Emission.emit, Emission.emit]
    exact ih.bind fun f g h => hR.cutToDay h
  | dateAdd date days type ihd ihn =>
    rw [Emission.emit, Emission.emit]
    exact ihd.bind fun f g h => ihn.bind fun f' g' h' => hR.shifted h h' _
  | dateSub date days type ihd ihn =>
    rw [Emission.emit, Emission.emit]
    exact ihd.bind fun f g h => ihn.bind fun f' g' h' => hR.shifted h h' _
  | extract field e type ih =>
    rw [Emission.emit, Emission.emit]
    exact ih.bind fun f g h => hR.extract h field
  | arithmetic op left right type ihl ihr =>
    rw [Emission.emit, Emission.emit]
    exact ihl.bind fun f g h => ihr.bind fun f' g' h' => .pure (hR.inline ..)

end Blind

end RowScript.Emission

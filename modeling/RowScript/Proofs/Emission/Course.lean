import RowScript.Proofs.Emission.Emitted
import RowScript.Proofs.Emission.SingleInput

/-!
# The course of a state

A state only changes where a column is read and where a temporary is handed out,
and what an emission has changed before it fails stays changed. So what each of
the two respects, all emissions respect (`Course.emit`). In particular inputs and
temporaries are added to the ends of their lists, and nothing is ever taken away
(`course_advances`).
-/

namespace RowScript.Emission

open Script (temporaryName)

variable {α β : Type} {scope : Scope} {R : State → State → Prop}

/-- Whatever state `x` starts in, `R` relates it to the one that `x` ends in, also if it fails. -/
def Moves (R : State → State → Prop) (x : Emission α) : Prop := ∀ s, R s (outcome x s).2

/-- A relation between earlier and later states that every column and every temporary respects. -/
structure Course (scope : Scope) (R : State → State → Prop) : Prop where
  refl : ∀ s, R s s
  trans : ∀ {s t u}, R s t → R t u → R s u
  input : ∀ {name c}, scope.lookup name = some c → c.role ≠ .measure →
    Script.isUsable (identifier name c) = true → Moves R (addInput scope (identifier name c))
  temporary : ∀ {binding : String → Binding}, (∀ name, (binding name).temporary = name) →
    Moves R (bindTemporary binding)

namespace Course

/-! ## Steps that leave the state alone -/

theorem pure (h : Course scope R) (a : α) : Moves R (Pure.pure a) := h.refl

theorem throw (h : Course scope R) (r : Rejection) :
    Moves R (MonadExcept.throw r : Emission α) := h.refl

theorem get (h : Course scope R) : Moves R (MonadState.get : Emission State) := h.refl

theorem orReject (h : Course scope R) (x : Option α) (r : Rejection) :
    Moves R (Emission.orReject x r) := by
  cases x with
  | none => exact h.throw r
  | some a => exact h.pure a

theorem expect (h : Course scope R) (callee : Callee) (expected : Expectation) (holds : Bool)
    (f : Fragment) : Moves R (Emission.expect callee expected holds f) := by
  unfold Emission.expect
  split
  · exact h.pure ()
  · exact h.throw _

/-! ## Steps in a row -/

theorem bind_ok (h : Course scope R) {x : Emission α} {f : α → Emission β} (hx : Moves R x)
    (hf : ∀ a s s', outcome x s = (.ok a, s') → R s' (outcome (f a) s').2) :
    Moves R (x >>= f) := by
  intro s
  have hfirst := hx s
  rw [outcome_bind]
  rcases hrun : outcome x s with ⟨r | a, s'⟩
  · rw [hrun] at hfirst
    exact hfirst
  · rw [hrun] at hfirst
    exact h.trans hfirst (hf a s s' hrun)

theorem bind (h : Course scope R) {x : Emission α} {f : α → Emission β} (hx : Moves R x)
    (hf : ∀ a, Moves R (f a)) : Moves R (x >>= f) :=
  h.bind_ok hx fun a _ s' _ => hf a s'

theorem guard (h : Course scope R) {p : Prop} [Decidable p] {r : Rejection} {f : Unit → Emission α}
    (hf : ¬p → Moves R (f ())) :
    Moves R (if p then (MonadExcept.throw r >>= f) else f ()) := by
  by_cases hp : p
  · rw [if_pos hp]
    exact h.refl
  · rw [if_neg hp]
    exact hf hp

/-! ## Functions of fragments -/

theorem column (h : Course scope R) (name : String) : Moves R (Emission.column scope name) := by
  unfold Emission.column
  refine h.bind_ok (h.orReject _ _) fun c s s' hc => ?_
  obtain ⟨hlookup, rfl⟩ := outcome_orReject_ok.mp hc
  refine h.guard (fun hrole => h.guard fun husable => ?_) s'
  exact h.bind (h.input hlookup hrole (by simpa using husable)) fun _ => h.pure _

theorem cast (h : Course scope R) (f : Fragment) (target : DataType) :
    Moves R (Emission.cast f target) := by
  unfold Emission.cast
  split
  · exact h.pure f
  · exact h.bind h.get fun s => h.bind (h.orReject _ _) fun code => h.pure _

theorem changeCase (h : Course scope R) (callee : Callee) (method : String) (f : Fragment) :
    Moves R (Emission.changeCase callee method f) := by
  unfold Emission.changeCase
  exact h.bind (h.expect _ _ _ _) fun _ => h.pure _

theorem cutToDay (h : Course scope R) (f : Fragment) : Moves R (Emission.cutToDay f) := by
  unfold Emission.cutToDay initialDate
  refine h.bind (h.orReject _ _) fun init => ?_
  exact h.bind (h.temporary fun _ => rfl) fun name => h.pure _

theorem shift (h : Course scope R) (direction : Direction) (date days : Fragment) :
    Moves R (Emission.shift direction date days) := by
  unfold Emission.shift expectIntegral initialDate
  refine h.bind (h.expect _ _ _ _) fun _ => h.bind (h.orReject _ _) fun init => ?_
  exact h.bind (h.temporary fun _ => rfl) fun name => h.pure _

theorem extract (h : Course scope R) (field : DateField) (f : Fragment) :
    Moves R (Emission.extract field f) := by
  unfold Emission.extract
  exact h.bind (h.orReject _ _) fun date => h.pure _

/-! ## Expressions -/

theorem concat (h : Course scope R) {es : List Expr}
    (hes : ∀ e ∈ es, Moves R (Emission.emit scope e)) (acc : Option Fragment) :
    Moves R (Emission.concat scope acc es) := by
  induction es generalizing acc with
  | nil =>
    cases acc with
    | none => exact h.throw _
    | some f => exact h.pure _
  | cons e es ih =>
    rw [Emission.concat]
    refine h.bind (hes e List.mem_cons_self) fun f => h.bind (h.cast f .string) fun g => ?_
    have hrest := ih fun a ha => hes a (List.mem_cons_of_mem _ ha)
    cases acc with
    | none => exact hrest _
    | some k => exact hrest _

/-- Whether or not it succeeds, an emission respects what its columns and temporaries respect. -/
theorem emit (h : Course scope R) (e : Expr) : Moves R (Emission.emit scope e) := by
  induction e with
  | column name type =>
    rw [Emission.emit]
    exact h.column name
  | literal value type =>
    rw [Emission.emit]
    intro s
    rw [outcome_liftExcept]
    exact h.refl s
  | cast e type ih =>
    rw [Emission.emit]
    exact h.bind ih fun f => h.cast f type
  | concat args type ih =>
    rw [Emission.emit]
    exact h.concat ih none
  | upper e type ih =>
    rw [Emission.emit]
    exact h.bind ih fun f => h.changeCase _ _ f
  | lower e type ih =>
    rw [Emission.emit]
    exact h.bind ih fun f => h.changeCase _ _ f
  | substring e position length type ih ihp ihl =>
    rw [Emission.emit]
    refine h.guard fun _ => h.guard fun _ => ?_
    refine h.bind ih fun f => h.bind (h.cast f .string) fun g => ?_
    refine h.bind ihp fun p => h.bind (h.expect _ _ _ p) fun _ => ?_
    exact h.bind ihl fun l => h.bind (h.expect _ _ _ l) fun _ => h.pure _
  | toDate e type ih =>
    rw [Emission.emit]
    exact h.bind ih fun f => h.cutToDay f
  | dateAdd date days type ihd ihn =>
    rw [Emission.emit]
    exact h.bind ihd fun f => h.bind ihn fun g => h.shift _ f g
  | dateSub date days type ihd ihn =>
    rw [Emission.emit]
    exact h.bind ihd fun f => h.bind ihn fun g => h.shift _ f g
  | extract field e type ih =>
    rw [Emission.emit]
    exact h.bind ih fun f => h.extract field f
  | arithmetic op left right type ihl ihr =>
    rw [Emission.emit]
    exact h.bind ihl fun f => h.bind ihr fun g => h.pure _

end Course

/-! ## What is added -/

/-- The identifier of a column that a function may read. -/
def IsInput (scope : Scope) (name : String) : Prop :=
  Script.isUsable name = true ∧ ∃ column c, scope.lookup column = some c ∧ c.role ≠ .measure ∧
    identifier column c = name

/-- What has become of the state `s` by the time that it is the state `t`. -/
structure Advances (scope : Scope) (s t : State) : Prop where
  inputs_prefix : s.inputs <+: t.inputs
  isInput : ∀ name ∈ t.inputs, name ∈ s.inputs ∨ IsInput scope name
  nodup : s.inputs.Nodup → t.inputs.Nodup
  single : scope.multipleInputs = false → s.inputs.length ≤ 1 → t.inputs.length ≤ 1
  /-- Temporaries that are new have the numbers that come next. -/
  bindings : ∃ new, t.bindings = s.bindings ++ new ∧
    new.map Binding.temporary = (List.range' s.bindings.length new.length).map temporaryName

namespace Advances

variable {s t u : State}

theorem refl (scope : Scope) (s : State) : Advances scope s s where
  inputs_prefix := List.prefix_refl _
  isInput _ hname := .inl hname
  nodup h := h
  single _ h := h
  bindings := ⟨[], (List.append_nil _).symm, rfl⟩

theorem trans (h : Advances scope s t) (h' : Advances scope t u) : Advances scope s u where
  inputs_prefix := h.inputs_prefix.trans h'.inputs_prefix
  isInput name hname := by
    rcases h'.isInput name hname with hname | hname
    · exact h.isInput name hname
    · exact .inr hname
  nodup hs := h'.nodup (h.nodup hs)
  single hm hs := h'.single hm (h.single hm hs)
  bindings := by
    obtain ⟨new, ht, hnew⟩ := h.bindings
    obtain ⟨more, hu, hmore⟩ := h'.bindings
    refine ⟨new ++ more, by rw [hu, ht, List.append_assoc], ?_⟩
    rw [ht, List.length_append] at hmore
    rw [List.map_append, hnew, hmore, List.length_append, ← List.map_append, List.range'_append_1]

end Advances

theorem outcome_addInput_snd (scope : Scope) (name : String) (s : State) :
    (outcome (addInput scope name) s).2 = s ∨
      name ∉ s.inputs ∧ (scope.multipleInputs = false → s.inputs = []) ∧
        (outcome (addInput scope name) s).2 = { s with inputs := s.inputs ++ [name] } := by
  obtain ⟨lookup, multiple⟩ := scope
  obtain ⟨inputs, bindings⟩ := s
  rw [outcome_addInput]
  unfold addNew
  by_cases hm : name ∈ inputs <;> cases inputs <;> cases multiple <;> simp_all

theorem moves_addInput {name : String} (h : IsInput scope name) :
    Moves (Advances scope) (addInput scope name) := by
  intro s
  rcases outcome_addInput_snd scope name s with hsame | ⟨hnew, hfirst, hadded⟩
  · rw [hsame]
    exact .refl scope s
  · rw [hadded]
    refine ⟨List.prefix_append _ _, ?_, ?_, ?_, ?_⟩
    · intro other hother
      rcases List.mem_append.mp hother with hother | hother
      · exact .inl hother
      · rw [List.mem_singleton.mp hother]
        exact .inr h
    · intro hnodup
      refine List.nodup_append.mpr ⟨hnodup, by simp, ?_⟩
      intro other hother added hadded
      rw [List.mem_singleton.mp hadded]
      rintro rfl
      exact hnew hother
    · intro hm _
      rw [hfirst hm]
      exact Nat.le_refl 1
    · exact ⟨[], (List.append_nil _).symm, rfl⟩

theorem moves_bindTemporary {binding : String → Binding}
    (h : ∀ name, (binding name).temporary = name) :
    Moves (Advances scope) (bindTemporary binding) := by
  intro s
  rw [outcome_bindTemporary]
  refine ⟨List.prefix_refl _, fun _ hname => .inl hname, id, fun _ hs => hs, ⟨_, rfl, ?_⟩⟩
  rw [List.map_singleton, h]
  rfl

theorem course_advances (scope : Scope) : Course scope (Advances scope) where
  refl := .refl scope
  trans := .trans
  input hlookup hrole husable := moves_addInput ⟨husable, _, _, hlookup, hrole, rfl⟩
  temporary := moves_bindTemporary

/-! ## Numbers -/

theorem Advances.numbered {s t : State} (h : Advances scope s t) (hs : s.Numbered) :
    t.Numbered := by
  obtain ⟨new, ht, hnew⟩ := h.bindings
  rw [State.Numbered] at *
  rw [ht, List.map_append, hs, hnew, List.length_append, ← List.map_append]
  congr 1
  rw [← List.range'_append_1, Nat.zero_add]

end RowScript.Emission

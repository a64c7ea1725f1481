import RowScript.Emission

/-!
# Outcomes of emissions

`outcome` is what an emission gives in a state, with the state that it ends in.
Each helper of the emission has one lemma that says what it has done when it
succeeds: what its fragment is and what has been added to the state.
-/

namespace RowScript.Emission

variable {α β : Type}

/-- What an emission gives, and the state that it ends in. -/
def outcome (x : Emission α) (s : State) : Except Rejection α × State := ExceptT.run x s

@[simp] theorem outcome_pure (a : α) (s : State) : outcome (pure a) s = (.ok a, s) := rfl

@[simp] theorem outcome_throw (r : Rejection) (s : State) :
    outcome (throw r : Emission α) s = (.error r, s) := rfl

@[simp] theorem outcome_get (s : State) : outcome get s = (.ok s, s) := rfl

@[simp] theorem outcome_modify (g : State → State) (s : State) :
    outcome (modify g) s = (.ok (), g s) := rfl

@[simp] theorem outcome_liftExcept (x : Except Rejection α) (s : State) :
    outcome (liftExcept x) s = (x, s) := by
  cases x <;> rfl

theorem outcome_bind (x : Emission α) (f : α → Emission β) (s : State) :
    outcome (x >>= f) s =
      match outcome x s with
      | (.ok a, s') => outcome (f a) s'
      | (.error r, s') => (.error r, s') := by
  have hbind : outcome (x >>= f) s = ExceptT.bindCont f (outcome x s).1 (outcome x s).2 := rfl
  rw [hbind]
  rcases outcome x s with ⟨r, s'⟩
  cases r <;> rfl

theorem outcome_bind_ok {x : Emission α} {f : α → Emission β} {s s'' : State} {b : β} :
    outcome (x >>= f) s = (.ok b, s'') ↔
      ∃ a s', outcome x s = (.ok a, s') ∧ outcome (f a) s' = (.ok b, s'') := by
  rw [outcome_bind]
  constructor
  · intro h
    split at h
    · next a s' hx => exact ⟨a, s', hx, h⟩
    · simp at h
  · rintro ⟨a, s', hx, hf⟩
    rw [hx]
    exact hf

theorem outcome_guard_ok {p : Prop} [Decidable p] {r : Rejection} {k : Unit → Emission α}
    {s s' : State} {a : α} :
    outcome (if p then (throw r >>= k) else k ()) s = (.ok a, s') ↔
      ¬p ∧ outcome (k ()) s = (.ok a, s') := by
  by_cases hp : p
  · simp [hp]
  · simp [hp]

theorem outcome_orReject_ok {x : Option α} {r : Rejection} {s s' : State} {a : α} :
    outcome (orReject x r) s = (.ok a, s') ↔ x = some a ∧ s' = s := by
  cases x with
  | none => simp [orReject]
  | some b => simp [orReject, eq_comm]

/-! ## Columns -/

/-- Adds a name to the end of a list, unless it is in it. -/
def addNew (names : List String) (name : String) : List String :=
  if name ∈ names then names else names ++ [name]

theorem outcome_addInput_ok {scope : Scope} {name : String} {s s' : State}
    (h : outcome (addInput scope name) s = (.ok (), s')) :
    s' = { s with inputs := addNew s.inputs name } := by
  unfold addInput at h
  rw [outcome_bind, outcome_get] at h
  simp only [List.contains_eq_mem, decide_eq_true_eq] at h
  unfold addNew
  split at h
  · next hm =>
    simp only [outcome_pure, Prod.mk.injEq, true_and] at h
    rw [if_pos hm, h]
  · next hm =>
    split at h
    · simp at h
    · simp only [outcome_modify, Prod.mk.injEq, true_and] at h
      rw [if_neg hm, ← h]

theorem outcome_column_ok {scope : Scope} {name : String} {s s' : State} {f : Fragment}
    (h : outcome (column scope name) s = (.ok f, s')) :
    ∃ c, scope.lookup name = some c ∧ c.role ≠ .measure ∧
      Script.isUsable (identifier name c) = true ∧ f = .inline [] (identifier name c) c.type ∧
      s' = { s with inputs := addNew s.inputs (identifier name c) } := by
  unfold column at h
  obtain ⟨c, s₁, hc, hchecks⟩ := outcome_bind_ok.mp h
  obtain ⟨hlookup, rfl⟩ := outcome_orReject_ok.mp hc
  obtain ⟨hrole, hchecks⟩ := outcome_guard_ok.mp hchecks
  obtain ⟨husable, hadds⟩ := outcome_guard_ok.mp hchecks
  obtain ⟨_, s₂, hadd, hend⟩ := outcome_bind_ok.mp hadds
  simp only [outcome_pure, Prod.mk.injEq, Except.ok.injEq] at hend
  obtain ⟨rfl, rfl⟩ := hend
  refine ⟨c, hlookup, hrole, ?_, rfl, outcome_addInput_ok hadd⟩
  simpa using husable

/-! ## Conversions -/

theorem outcome_cast_ok {f g : Fragment} {target : DataType} {s s' : State}
    (h : outcome (cast f target) s = (.ok g, s')) :
    s' = s ∧ ((f.type = target ∧ g = f) ∨
      (f.type ≠ target ∧ ∃ c, conversion? f.type target (f.boundName.any s.isDay) = some c ∧
        g = .inline f.statements (c.apply f.valueText) target)) := by
  unfold cast at h
  split at h
  · next ht =>
    simp only [outcome_pure, Prod.mk.injEq, Except.ok.injEq] at h
    exact ⟨h.2.symm, .inl ⟨ht, h.1.symm⟩⟩
  · next ht =>
    rw [outcome_bind, outcome_get] at h
    obtain ⟨code, s₁, hcode, hend⟩ := outcome_bind_ok.mp h
    obtain ⟨hsome, rfl⟩ := outcome_orReject_ok.mp hcode
    obtain ⟨c, hc, rfl⟩ := Option.map_eq_some_iff.mp hsome
    simp only [outcome_pure, Prod.mk.injEq, Except.ok.injEq] at hend
    exact ⟨hend.2.symm, .inr ⟨ht, c, hc, hend.1.symm⟩⟩

theorem outcome_expect_ok {callee : Callee} {expected : Expectation} {holds : Bool} {f : Fragment}
    {s s' : State} :
    outcome (expect callee expected holds f) s = (.ok (), s') ↔ holds = true ∧ s' = s := by
  unfold expect
  cases holds
  · simp
  · simp [eq_comm]

theorem outcome_changeCase_ok {callee : Callee} {method : String} {f g : Fragment} {s s' : State}
    (h : outcome (changeCase callee method f) s = (.ok g, s')) :
    s' = s ∧ f.type = .string ∧
      g = .inline f.statements (Script.receiver f.valueText ++ "." ++ method ++ "()") .string := by
  unfold changeCase at h
  obtain ⟨_, s₁, hexpect, hend⟩ := outcome_bind_ok.mp h
  obtain ⟨htype, rfl⟩ := outcome_expect_ok.mp hexpect
  simp only [outcome_pure, Prod.mk.injEq, Except.ok.injEq] at hend
  exact ⟨hend.2.symm, by simpa using htype, hend.1.symm⟩

/-! ## Dates -/

theorem outcome_initialDate_ok {callee : Callee} {f : Fragment} {s s' : State} {init : String} :
    outcome (initialDate callee f) s = (.ok init, s') ↔
      s' = s ∧ ∃ c, ownDate? f.type = some c ∧ init = c.apply f.valueText := by
  unfold initialDate
  rw [outcome_orReject_ok, Option.map_eq_some_iff]
  constructor
  · rintro ⟨⟨c, hc, rfl⟩, rfl⟩
    exact ⟨rfl, c, hc, rfl⟩
  · rintro ⟨rfl, c, hc, rfl⟩
    exact ⟨⟨c, hc, rfl⟩, rfl⟩

theorem outcome_bindTemporary (binding : String → Binding) (s : State) :
    outcome (bindTemporary binding) s =
      (.ok (Script.temporaryName s.bindings.length),
        { s with bindings := s.bindings ++ [binding (Script.temporaryName s.bindings.length)] }) :=
  rfl

theorem outcome_cutToDay_ok {f g : Fragment} {s s' : State}
    (h : outcome (cutToDay f) s = (.ok g, s')) :
    ∃ c, ownDate? f.type = some c ∧
      s' = { s with bindings :=
        s.bindings ++ [.day (Script.temporaryName s.bindings.length) f.type] } ∧
      g = .bound (Script.temporaryName s.bindings.length)
        (f.statements ++
          [declaration (Script.temporaryName s.bindings.length) (c.apply f.valueText),
            Script.temporaryName s.bindings.length ++ ".setUTCHours(0, 0, 0, 0);"]) .date := by
  unfold cutToDay at h
  obtain ⟨init, s₁, hinit, hend⟩ := outcome_bind_ok.mp h
  obtain ⟨rfl, c, hc, rfl⟩ := outcome_initialDate_ok.mp hinit
  rw [outcome_bind, outcome_bindTemporary] at hend
  simp only [outcome_pure, Prod.mk.injEq, Except.ok.injEq] at hend
  exact ⟨c, hc, hend.2.symm, hend.1.symm⟩

theorem outcome_shift_ok {direction : Direction} {date days g : Fragment} {s s' : State}
    (h : outcome (shift direction date days) s = (.ok g, s')) :
    days.type.isIntegral = true ∧ ∃ c, ownDate? date.type = some c ∧
      s' = { s with bindings :=
        s.bindings ++ [.shift (Script.temporaryName s.bindings.length) direction.callee] } ∧
      g = .bound (Script.temporaryName s.bindings.length)
        (date.statements ++ days.statements ++
          [declaration (Script.temporaryName s.bindings.length) (c.apply date.valueText),
            Script.temporaryName s.bindings.length ++ ".setUTCDate(" ++
              Script.temporaryName s.bindings.length ++ ".getUTCDate() " ++ direction.sign ++
              " (" ++ days.valueText ++ "));"]) .date := by
  unfold shift expectIntegral at h
  obtain ⟨_, s₁, hexpect, hdate⟩ := outcome_bind_ok.mp h
  obtain ⟨hintegral, rfl⟩ := outcome_expect_ok.mp hexpect
  obtain ⟨init, s₂, hinit, hend⟩ := outcome_bind_ok.mp hdate
  obtain ⟨rfl, c, hc, rfl⟩ := outcome_initialDate_ok.mp hinit
  rw [outcome_bind, outcome_bindTemporary] at hend
  simp only [outcome_pure, Prod.mk.injEq, Except.ok.injEq] at hend
  exact ⟨hintegral, c, hc, hend.2.symm, hend.1.symm⟩

theorem outcome_extract_ok {field : DateField} {f g : Fragment} {s s' : State}
    (h : outcome (extract field f) s = (.ok g, s')) :
    s' = s ∧ ∃ c, dateLike? f.type = some c ∧
      g = .inline f.statements (fieldText field (c.apply f.valueText)) .integer := by
  unfold extract at h
  obtain ⟨date, s₁, hdate, hend⟩ := outcome_bind_ok.mp h
  obtain ⟨hsome, rfl⟩ := outcome_orReject_ok.mp hdate
  obtain ⟨c, hc, rfl⟩ := Option.map_eq_some_iff.mp hsome
  simp only [outcome_pure, Prod.mk.injEq, Except.ok.injEq] at hend
  exact ⟨hend.2.symm, c, hc, hend.1.symm⟩

/-! ## Several operands -/

theorem outcome_concat_cons_ok {scope : Scope} {acc : Option Fragment} {e : Expr} {es : List Expr}
    {s s' : State} {f : Fragment} (h : outcome (concat scope acc (e :: es)) s = (.ok f, s')) :
    ∃ g k s₁, outcome (emit scope e) s = (.ok g, s₁) ∧
      outcome (cast g .string) s₁ = (.ok k, s₁) ∧
      outcome (concat scope (some ((acc.map (appendArgument · k)).getD k)) es) s₁ =
        (.ok f, s') := by
  rw [concat] at h
  obtain ⟨g, s₁, hemit, h₁⟩ := outcome_bind_ok.mp h
  obtain ⟨k, s₂, hcast, hrest⟩ := outcome_bind_ok.mp h₁
  obtain ⟨rfl, -⟩ := outcome_cast_ok hcast
  refine ⟨g, k, s₂, hemit, hcast, ?_⟩
  cases acc <;> exact hrest

theorem outcome_substring_ok {scope : Scope} {e position length : Expr} {type : DataType}
    {s s' : State} {f : Fragment}
    (h : outcome (emit scope (.substring e position length type)) s = (.ok f, s')) :
    position.isLiteral = true ∧ length.isLiteral = true ∧ ∃ g k p l s₁ s₂,
      outcome (emit scope e) s = (.ok g, s₁) ∧ outcome (cast g .string) s₁ = (.ok k, s₁) ∧
      outcome (emit scope position) s₁ = (.ok p, s₂) ∧ p.type.isIntegral = true ∧
      outcome (emit scope length) s₂ = (.ok l, s') ∧ l.type.isIntegral = true ∧
      f = slice k p l := by
  rw [emit] at h
  obtain ⟨hpl, h₁⟩ := outcome_guard_ok.mp h
  obtain ⟨hll, h₂⟩ := outcome_guard_ok.mp h₁
  simp only [Bool.not_eq_true', Bool.not_eq_false] at hpl hll
  obtain ⟨g, s₁, hemit, h₃⟩ := outcome_bind_ok.mp h₂
  obtain ⟨k, s₂, hcast, h₄⟩ := outcome_bind_ok.mp h₃
  obtain ⟨p, s₃, hposition, h₅⟩ := outcome_bind_ok.mp h₄
  obtain ⟨_, s₄, hpe, h₆⟩ := outcome_bind_ok.mp h₅
  obtain ⟨l, s₅, hlength, h₇⟩ := outcome_bind_ok.mp h₆
  obtain ⟨_, s₆, hle, hend⟩ := outcome_bind_ok.mp h₇
  obtain ⟨rfl, -⟩ := outcome_cast_ok hcast
  obtain ⟨hpt, rfl⟩ := outcome_expect_ok.mp hpe
  obtain ⟨hlt, rfl⟩ := outcome_expect_ok.mp hle
  rw [outcome_pure, Prod.mk.injEq, Except.ok.injEq] at hend
  obtain ⟨rfl, rfl⟩ := hend
  exact ⟨hpl, hll, g, k, p, l, s₂, s₄, hemit, hcast, hposition, hpt, hlength, hlt, rfl⟩

end RowScript.Emission

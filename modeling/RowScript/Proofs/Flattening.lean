import RowScript.Proofs.Rewriting

/-!
# Strings that are put together

What a `concat` has put together is where it goes on, and of that it looks at the
statements and the text alone. So a `concat` that begins with another one may as
well have the arguments of both (`emit_concat_flattened`).
-/

namespace RowScript.Emission

variable {scope : Scope} {s s' : State} {e : Expr} {f g : Fragment}

/-! ## Going on -/

theorem concat_some_congr (hstatements : f.statements = g.statements)
    (hvalue : f.valueText = g.valueText) (es : List Expr) :
    concat scope (some f) es = concat scope (some g) es := by
  cases es with
  | nil => rw [concat, concat, hstatements, hvalue]
  | cons e es =>
    rw [concat, concat]
    simp only [appendArgument, hstatements, hvalue]

theorem concat_some_append (f : Fragment) (xs ys : List Expr) :
    concat scope (some f) (xs ++ ys) =
      concat scope (some f) xs >>= fun g => concat scope (some g) ys := by
  induction xs generalizing f with
  | nil =>
    rw [List.nil_append, concat, pure_bind]
    refine concat_some_congr ?_ ?_ ys
    · rfl
    · rfl
  | cons x xs ih =>
    rw [List.cons_append, concat, concat]
    simp only [bind_assoc, ih]

theorem concat_none_append (x : Expr) (xs ys : List Expr) :
    concat scope none (x :: xs ++ ys) =
      concat scope none (x :: xs) >>= fun g => concat scope (some g) ys := by
  rw [List.cons_append, concat, concat]
  simp only [bind_assoc, concat_some_append]

/-! ## The first argument -/

theorem emit_concat_cons (x : Expr) (xs : List Expr) (type : DataType) :
    emit scope (.concat (x :: xs) type) =
      emit scope (.cast x .string) >>= fun f => concat scope (some f) xs := by
  rw [emit, emit, concat, bind_assoc]
  rfl

theorem type_of_bound (h : outcome (emit scope e) s = (.ok f, s')) {name : String}
    (hname : f.boundName = some name) : f.type = .date := by
  induction e generalizing s s' f with
  | column column type =>
    rw [emit] at h
    obtain ⟨c, -, -, -, rfl, -⟩ := outcome_column_ok h
    contradiction
  | literal value type =>
    rw [emit, outcome_liftExcept, Prod.mk.injEq] at h
    obtain ⟨-, text, rfl, -⟩ := Expr.literal?_ok scope h.1
    contradiction
  | cast e type ih =>
    rw [emit] at h
    obtain ⟨g, s₁, hemit, hcast⟩ := outcome_bind_ok.mp h
    obtain ⟨-, ⟨-, rfl⟩ | ⟨-, c, -, rfl⟩⟩ := outcome_cast_ok hcast
    · exact ih hemit hname
    · contradiction
  | concat args type ih =>
    rw [emit] at h
    rw [concat_boundName h] at hname
    contradiction
  | upper e type ih | lower e type ih =>
    rw [emit] at h
    obtain ⟨g, s₁, -, hcase⟩ := outcome_bind_ok.mp h
    obtain ⟨-, -, rfl⟩ := outcome_changeCase_ok hcase
    contradiction
  | substring e position length type ih ihp ihl =>
    obtain ⟨-, -, g, k, p, l, s₁, s₂, -, -, -, -, -, -, rfl⟩ := outcome_substring_ok h
    contradiction
  | toDate e type ih => exact type_of_emit h
  | dateAdd date days type ihd ihn => exact type_of_emit h
  | dateSub date days type ihd ihn => exact type_of_emit h
  | extract field e type ih =>
    rw [emit] at h
    obtain ⟨g, s₁, -, hextract⟩ := outcome_bind_ok.mp h
    obtain ⟨-, c, -, rfl⟩ := outcome_extract_ok hextract
    contradiction
  | arithmetic op left right type ihl ihr =>
    rw [emit] at h
    obtain ⟨l, s₁, -, hrest⟩ := outcome_bind_ok.mp h
    obtain ⟨r, s₂, -, hend⟩ := outcome_bind_ok.mp hrest
    rw [outcome_pure, Prod.mk.injEq, Except.ok.injEq] at hend
    rw [← hend.1] at hname
    contradiction

theorem eq_inline_of_string (h : outcome (emit scope e) s = (.ok f, s'))
    (htype : f.type = .string) : f = .inline f.statements f.valueText .string := by
  obtain ⟨boundName, statements, inlineText, type⟩ := f
  obtain rfl : type = .string := htype
  cases boundName with
  | none => rfl
  | some name => exact absurd (type_of_bound h rfl) nofun

/-! ## Fewer nodes -/

theorem emit_concat_concat (x : Expr) (xs ys : List Expr) (inner outer flat : DataType) :
    emit scope (.concat (.concat (x :: xs) inner :: ys) outer) =
      emit scope (.concat (x :: xs ++ ys) flat) := by
  have hstring : emit scope (.cast (.concat (x :: xs) inner) .string) =
      emit scope (.concat (x :: xs) inner) := emit_cast_typeIn scope (.concat (x :: xs) inner)
  rw [emit_concat_cons, hstring, emit, emit, concat_none_append]

theorem emit_concat_singleton (e : Expr) (type : DataType) :
    emit scope (.concat [e] type) = emit scope (.cast e .string) := by
  refine ext_outcome fun s => ?_
  rw [emit_concat_cons, outcome_bind]
  rcases he : outcome (emit scope (.cast e .string)) s with ⟨r | f, s'⟩
  · rfl
  · have hf := eq_inline_of_string he (type_of_emit he)
    change outcome (concat scope (some f) []) s' = _
    rw [concat, outcome_pure, ← hf]

/-- **Flattening.** Whatever has been emitted before and whether or not it succeeds, a `concat` that
begins with another one is emitted as the `concat` of the arguments of both, and the `concat` of a
single argument is emitted as a cast. -/
theorem emit_concat_flattened (scope : Scope) :
    (∀ x xs ys inner outer flat s,
      outcome (emit scope (.concat (.concat (x :: xs) inner :: ys) outer)) s =
        outcome (emit scope (.concat (x :: xs ++ ys) flat)) s) ∧
    ∀ e type s, outcome (emit scope (.concat [e] type)) s =
      outcome (emit scope (.cast e .string)) s := by
  constructor
  · intro x xs ys inner outer flat s
    rw [emit_concat_concat x xs ys inner outer flat]
  · intro e type s
    rw [emit_concat_singleton e type]

/-! At the beginning the arguments of a `concat` are those of the one around it, and further on it is
an argument of its own. -/

example :
    let a := Expr.column "a" .string
    let x := Expr.literal (some "x") .string
    let scope := Scope.ofColumn "a" ⟨"a", .dimension, .string⟩
    tryCompile scope (.concatOf [.concatOf [a, x], x]) =
        .ok ⟨["a"], [], "(a.concat('x')).concat('x')"⟩ ∧
      tryCompile scope (.concatOf [a, x, x]) =
        .ok ⟨["a"], [], "(a.concat('x')).concat('x')"⟩ := ⟨rfl, rfl⟩

example : tryCompile (.ofColumn "a" ⟨"a", .dimension, .string⟩)
    (.concatOf [.column "a" .string, .concatOf [.column "a" .string, .column "a" .string]]) =
      .ok ⟨["a"], [], "a.concat(a.concat(a))"⟩ := rfl

end RowScript.Emission

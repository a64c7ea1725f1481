import RowScript.Proofs.Acceptance

/-!
# Why an expression is refused

What is asked of an expression is a list of checks, whose order comes from its
nodes and not from any text that is emitted for them. An expression is refused
for the first check that it does not pass, whatever else it does not pass, and
it is refused for nothing else (`tryCompile_eq_error_iff`).
-/

namespace RowScript

def Expectation.admits : Expectation → DataType → Bool
  | string, type => type = .string
  | integral, type => type.isIntegral
  | dateLike, type => type.isDateLike

/-- What is asked at one point of an expression. -/
inductive Check where
  | known (column : String)
  /-- The column is no measure. -/
  | perRow (column : String)
  | usable (identifier : String)
  /-- Nothing else has been read, unless functions may read several columns. -/
  | soleInput (identifier : String)
  | legal (text : String) (type : DataType)
  | castable (source target : DataType)
  /-- A `concat` has arguments. -/
  | arguments (args : List Expr)
  | literal (argument : LiteralArgument) (e : Expr)
  | operand (callee : Callee) (expected : Expectation) (actual : DataType)
  | someInput
  deriving Repr

namespace Check

/-- The identifier that is read once the check is passed. -/
def read? : Check → Option String
  | soleInput identifier => some identifier
  | _ => none

/-- All that has been read once the checks are passed, as often as it has been. -/
def inputs (checks : List Check) : List String := checks.filterMap read?

/-- What comes of a check that is not passed, where `read` has been read before. -/
def rejection? (scope : Scope) (read : List String) : Check → Option Rejection
  | known column =>
    if (scope.lookup column).isSome then none else some (.unknownColumn column)
  | perRow column =>
    if (scope.lookup column).any (·.role = .measure) then some (.measureColumn column) else none
  | usable identifier =>
    if Script.isUsable identifier then none else some (.invalidIdentifier identifier)
  | soleInput identifier =>
    match read with
    | first :: more =>
      if scope.multipleInputs || (first :: more).contains identifier then none
      else some (.multipleInputs first identifier)
    | [] => none
  | legal text type =>
    if Expr.isLegal (some text) type then none else some (.invalidLiteral text type)
  | castable source target =>
    if source.castsTo target then none else some (.unsupportedCast source target)
  | arguments args => if args.isEmpty then some .emptyConcat else none
  | literal argument e =>
    if e.isLiteral then none else some (.nonLiteralArgument .substring argument)
  | operand callee expected actual =>
    if expected.admits actual then none else some (.operandType callee expected actual)
  | someInput => if read.isEmpty then some .noInputs else none

/-- Each check is passed, where those before it have been read. -/
def AllPassed (scope : Scope) (checks : List Check) : Prop :=
  ∀ before check after, checks = before ++ check :: after →
    check.rejection? scope (inputs before) = none

end Check

namespace Expr

mutual

/-- What is asked of an expression, in this order. -/
def checks (scope : Scope) : Expr → List Check
  | column name _ =>
    [.known name, .perRow name, .usable (identifierIn scope name),
      .soleInput (identifierIn scope name)]
  | literal none _ => []
  | literal (some text) type => [.legal text type]
  | cast e type => e.checks scope ++ [.castable (e.typeIn scope) type]
  | concat args _ => .arguments args :: argumentChecks scope args
  | upper e _ => e.checks scope ++ [.operand .upper .string (e.typeIn scope)]
  | lower e _ => e.checks scope ++ [.operand .lower .string (e.typeIn scope)]
  | substring e position length _ =>
    [.literal .position position, .literal .length length] ++
      (e.checks scope ++ [.castable (e.typeIn scope) .string]) ++
      (position.checks scope ++ [.operand .substring .integral (position.typeIn scope)]) ++
      (length.checks scope ++ [.operand .substring .integral (length.typeIn scope)])
  | toDate e _ => e.checks scope ++ [.operand .toDate .dateLike (e.typeIn scope)]
  | dateAdd date days _ =>
    date.checks scope ++ days.checks scope ++
      [.operand .dateAdd .integral (days.typeIn scope),
        .operand .dateAdd .dateLike (date.typeIn scope)]
  | dateSub date days _ =>
    date.checks scope ++ days.checks scope ++
      [.operand .dateSub .integral (days.typeIn scope),
        .operand .dateSub .dateLike (date.typeIn scope)]
  | extract field e _ => e.checks scope ++ [.operand (.field field) .dateLike (e.typeIn scope)]
  | arithmetic _ left right _ => left.checks scope ++ right.checks scope

/-- Each argument has to become a string before the next is looked at. -/
def argumentChecks (scope : Scope) : List Expr → List Check
  | [] => []
  | e :: es => e.checks scope ++ [.castable (e.typeIn scope) .string] ++ argumentChecks scope es

end

/-- What is asked of an expression that is to have a function. -/
def compileChecks (scope : Scope) (e : Expr) : List Check :=
  e.checks scope ++ [.castable (e.typeIn scope) .string, .someInput]

end Expr

/-! ## The first check that is not passed -/

namespace Check

variable {scope : Scope}

/-- What comes of the first check that is not passed. -/
def firstRejection? (scope : Scope) (read : List String) : List Check → Option Rejection
  | [] => none
  | check :: checks =>
    (check.rejection? scope read).or (firstRejection? scope (read ++ inputs [check]) checks)

theorem inputs_append (checks more : List Check) :
    inputs (checks ++ more) = inputs checks ++ inputs more := List.filterMap_append

theorem inputs_cons (check : Check) (checks : List Check) :
    inputs (check :: checks) = inputs [check] ++ inputs checks := inputs_append [check] checks

theorem firstRejection?_singleton (read : List String) (check : Check) :
    firstRejection? scope read [check] = check.rejection? scope read := Option.or_none

theorem firstRejection?_append (read : List String) (checks more : List Check) :
    firstRejection? scope read (checks ++ more) =
      (firstRejection? scope read checks).or
        (firstRejection? scope (read ++ inputs checks) more) := by
  induction checks generalizing read with
  | nil => simp [firstRejection?, inputs]
  | cons check checks ih =>
    rw [List.cons_append, firstRejection?, firstRejection?, ih, inputs_cons check checks,
      Option.or_assoc, List.append_assoc]

theorem firstRejection?_eq_none_iff (read : List String) (checks : List Check) :
    firstRejection? scope read checks = none ↔
      ∀ before check after, checks = before ++ check :: after →
        check.rejection? scope (read ++ inputs before) = none := by
  constructor
  · rintro h before check after rfl
    rw [firstRejection?_append, Option.or_eq_none_iff, firstRejection?, Option.or_eq_none_iff] at h
    exact h.2.1
  · intro h
    induction checks generalizing read with
    | nil => rfl
    | cons check checks ih =>
      rw [firstRejection?, Option.or_eq_none_iff]
      refine ⟨by simpa [inputs] using h [] check checks rfl, ih _ ?_⟩
      rintro before other after rfl
      have hother := h (check :: before) other after rfl
      rwa [inputs_cons, ← List.append_assoc] at hother

theorem firstRejection?_eq_some_iff (read : List String) (checks : List Check) (r : Rejection) :
    firstRejection? scope read checks = some r ↔
      ∃ before check after, checks = before ++ check :: after ∧
        firstRejection? scope read before = none ∧
        check.rejection? scope (read ++ inputs before) = some r := by
  constructor
  · intro h
    induction checks generalizing read with
    | nil => simp [firstRejection?] at h
    | cons check checks ih =>
      rw [firstRejection?] at h
      cases hcheck : check.rejection? scope read with
      | some r' =>
        rw [hcheck, Option.some_or] at h
        exact ⟨[], check, checks, rfl, rfl, by simpa [inputs, hcheck] using h⟩
      | none =>
        rw [hcheck, Option.none_or] at h
        obtain ⟨before, other, after, rfl, hbefore, hother⟩ := ih _ h
        refine ⟨check :: before, other, after, rfl, ?_, ?_⟩
        · rw [firstRejection?, hcheck, Option.none_or, hbefore]
        · rwa [inputs_cons, ← List.append_assoc]
  · rintro ⟨before, check, after, rfl, hbefore, hcheck⟩
    rw [firstRejection?_append, hbefore, Option.none_or, firstRejection?, hcheck, Option.some_or]

end Check

/-! ## Emissions that make checks -/

namespace Emission

open Check (inputs firstRejection? firstRejection?_append firstRejection?_singleton inputs_append)

variable {α β : Type} {scope : Scope} {P : α → Prop} {Q : β → Prop}

/-- `x` is rejected for the first of the checks that is not passed. If all are, its result has the
property `P` and the columns of the checks have become inputs. -/
def Asks (scope : Scope) (x : Emission α) (checks : List Check) (P : α → Prop) : Prop :=
  ∀ s read, s.inputs = read.foldl addNew [] →
    (∃ r s', outcome x s = (.error r, s') ∧ firstRejection? scope read checks = some r) ∨
    ∃ a s', outcome x s = (.ok a, s') ∧ firstRejection? scope read checks = none ∧
      s'.inputs = (read ++ inputs checks).foldl addNew [] ∧ P a

namespace Asks

theorem nothing {x : Emission α}
    (h : ∀ s, ∃ a s', outcome x s = (.ok a, s') ∧ s'.inputs = s.inputs ∧ P a) :
    Asks scope x [] P := by
  intro s read hread
  obtain ⟨a, s', hx, hinputs, ha⟩ := h s
  have hinputs : s'.inputs = (read ++ inputs []).foldl addNew [] := by
    rw [hinputs, hread, inputs, List.filterMap_nil, List.append_nil]
  exact .inr ⟨a, s', hx, rfl, hinputs, ha⟩

theorem pure {a : α} (h : P a) : Asks scope (Pure.pure a) [] P :=
  nothing fun s => ⟨a, s, rfl, rfl, h⟩

theorem bind {x : Emission α} {f : α → Emission β} {checks more : List Check}
    (hx : Asks scope x checks P) (hf : ∀ a, P a → Asks scope (f a) more Q) :
    Asks scope (x >>= f) (checks ++ more) Q := by
  intro s read hread
  rw [outcome_bind, firstRejection?_append]
  rcases hx s read hread with ⟨r, s', hx, hr⟩ | ⟨a, s', hx, hpassed, hinputs, ha⟩
  · exact .inl ⟨r, s', by rw [hx], by rw [hr, Option.some_or]⟩
  · rw [hx, hpassed, Option.none_or, inputs_append, ← List.append_assoc]
    exact hf a ha s' _ hinputs

theorem single {x : Emission α} {check : Check} (hread : check.read? = none)
    (h : ∀ read s, (∃ r, outcome x s = (.error r, s) ∧ check.rejection? scope read = some r) ∨
      ∃ a, outcome x s = (.ok a, s) ∧ check.rejection? scope read = none ∧ P a) :
    Asks scope x [check] P := by
  intro s read hs
  rw [firstRejection?_singleton]
  rcases h read s with ⟨r, hx, hr⟩ | ⟨a, hx, hpassed, ha⟩
  · exact .inl ⟨r, s, hx, hr⟩
  · refine .inr ⟨a, s, hx, hpassed, ?_, ha⟩
    rw [hs, inputs, List.filterMap_cons_none hread, List.filterMap_nil, List.append_nil]

theorem orReject {x : Option α} {r : Rejection} {check : Check} (hread : check.read? = none)
    (h : ∀ read, check.rejection? scope read = if x.isSome then none else some r) :
    Asks scope (Emission.orReject x r) [check] (fun a => x = some a) := by
  refine single hread fun read s => ?_
  rw [h]
  cases x with
  | none => exact .inl ⟨r, rfl, rfl⟩
  | some a => exact .inr ⟨a, rfl, rfl, rfl⟩

theorem passed {x : Emission α} {check : Check} {checks : List Check} (hread : check.read? = none)
    (h : ∀ read, check.rejection? scope read = none) (hx : Asks scope x checks P) :
    Asks scope x (check :: checks) P := by
  intro s read hs
  have hinputs : inputs (check :: checks) = inputs checks := List.filterMap_cons_none hread
  have hnone : inputs [check] = [] := List.filterMap_cons_none hread
  rw [firstRejection?, h, Option.none_or, hinputs, hnone, List.append_nil]
  exact hx s read hs

theorem guard {p : Prop} [Decidable p] {r : Rejection} {f : Unit → Emission α} {check : Check}
    {checks : List Check} (hread : check.read? = none)
    (h : ∀ read, check.rejection? scope read = if p then some r else none)
    (hf : ¬p → Asks scope (f ()) checks P) :
    Asks scope (if p then (MonadExcept.throw r >>= f) else f ()) (check :: checks) P := by
  by_cases hp : p
  · intro s read _
    rw [if_pos hp, firstRejection?, h, if_pos hp, Option.some_or]
    exact .inl ⟨r, s, rfl, rfl⟩
  · rw [if_neg hp]
    exact passed hread (fun read => by rw [h, if_neg hp]) (hf hp)

theorem require {holds : Bool} {r : Rejection} {f : Unit → Emission α} {check : Check}
    {checks : List Check} (hread : check.read? = none)
    (h : ∀ read, check.rejection? scope read = if holds then none else some r)
    (hf : Asks scope (f ()) checks P) :
    Asks scope (if !holds then (MonadExcept.throw r >>= f) else f ()) (check :: checks) P :=
  guard hread (fun read => by rw [h]; cases holds <;> rfl) fun _ => hf

theorem bind_pure {x : Emission α} {f : α → β} {checks : List Check} (hx : Asks scope x checks P)
    (hf : ∀ a, P a → Q (f a)) : Asks scope (x >>= fun a => Pure.pure (f a)) checks Q := by
  have h : Asks scope (x >>= fun a => Pure.pure (f a)) (checks ++ []) Q :=
    hx.bind fun a ha => pure (hf a ha)
  rwa [List.append_nil] at h

theorem weaken {x : Emission α} {checks : List Check} {P' : α → Prop} (h : Asks scope x checks P)
    (hP : ∀ a, P a → P' a) : Asks scope x checks P' := by
  intro s read hs
  rcases h s read hs with hfails | ⟨a, s', hx, hpassed, hinputs, ha⟩
  · exact .inl hfails
  · exact .inr ⟨a, s', hx, hpassed, hinputs, hP a ha⟩

end Asks

/-! ### Columns and literals -/

theorem foldl_addNew_cons (name : String) (names : List String) :
    ∃ more, (name :: names).foldl addNew [] = name :: more :=
  ⟨_, by rw [foldl_addNew_nil, List.eraseDups_cons]⟩

theorem asks_addInput (name : String) :
    Asks scope (addInput scope name) [.soleInput name] (fun _ => True) := by
  intro s read hs
  have hadd : (read ++ inputs [.soleInput name]).foldl addNew [] = addNew s.inputs name := by
    rw [List.foldl_append, hs]
    rfl
  have hmem : name ∈ s.inputs ↔ name ∈ read := by
    rw [hs, mem_foldl_addNew]
    simp
  rw [outcome_addInput, firstRejection?_singleton, hadd]
  cases read with
  | nil =>
    have hnone : s.inputs = [] := hs
    rw [hnone]
    exact .inr ⟨(), _, rfl, rfl, rfl, trivial⟩
  | cons first rest =>
    -- What was read first is the first of the inputs, so both name it when they refuse another.
    obtain ⟨more, hmore⟩ := foldl_addNew_cons first rest
    rw [Check.rejection?]
    rw [hmore] at hs
    rw [hs] at hmem ⊢
    cases scope.multipleInputs with
    | true => exact .inr ⟨(), _, rfl, rfl, rfl, trivial⟩
    | false =>
      simp only [Bool.false_or, List.contains_eq_mem, decide_eq_true_eq]
      by_cases hname : name ∈ first :: more
      · rw [if_pos hname, if_pos (hmem.mp hname)]
        refine .inr ⟨(), s, rfl, rfl, ?_, trivial⟩
        rw [addNew, if_pos hname, hs]
      · rw [if_neg hname, if_neg (mt hmem.mpr hname)]
        exact .inl ⟨_, s, rfl, rfl⟩

theorem asks_column (name : String) (type : DataType) :
    Asks scope (column scope name) ((Expr.column name type).checks scope)
      (fun f => f.type = (Expr.column name type).typeIn scope) := by
  unfold column
  rw [Expr.checks]
  have hknown : Asks scope (orReject (scope.lookup name) (.unknownColumn name)) [.known name]
      (fun c => scope.lookup name = some c) := .orReject rfl fun read => rfl
  refine hknown.bind fun c hc => ?_
  rw [Expr.identifierIn_of_lookup hc]
  refine .guard rfl (fun read => by simp [Check.rejection?, hc]) fun _ => ?_
  refine .require rfl (fun read => rfl) ?_
  refine (asks_addInput _).bind_pure fun _ _ => ?_
  simp [Expr.typeIn, hc, Fragment.inline]

theorem asks_literal (value : Option String) (type : DataType) :
    Asks scope (liftExcept (literal? value type)) ((Expr.literal value type).checks scope)
      (fun f => f.type = (Expr.literal value type).typeIn scope) := by
  cases value with
  | none => exact .pure rfl
  | some text =>
    refine .single rfl fun read s => ?_
    rw [outcome_liftExcept, Check.rejection?]
    cases hlegal : Expr.isLegal (some text) type with
    | true =>
      obtain ⟨f, hf⟩ := literal?_isOk hlegal
      obtain ⟨-, _, rfl, -⟩ := Expr.literal?_ok scope hf
      exact .inr ⟨_, by rw [hf], rfl, rfl⟩
    | false =>
      refine .inl ⟨.invalidLiteral text type, ?_, rfl⟩
      cases type with
      | short | integer | long | float | double =>
        have htext : ¬Script.isNumberText _ text = true := Bool.not_eq_true _ ▸ hlegal
        rw [literal?, if_neg htext]
      | boolean =>
        have hword : ¬(text = "true" || text = "false") = true := Bool.not_eq_true _ ▸ hlegal
        rw [literal?, if_neg hword]
      | null | string | date | timestamp => contradiction

/-! ### Functions of fragments -/

theorem asks_cast (f : Fragment) (target : DataType) :
    Asks scope (cast f target) [.castable f.type target] (fun g => g.type = target) := by
  refine .single rfl fun read s => ?_
  unfold cast
  rw [Check.rejection?, ← isSome_conversion? f.type target (f.boundName.any s.isDay)]
  split
  · next h =>
    rw [h, conversion?_self]
    exact .inr ⟨f, rfl, rfl, h⟩
  · rw [outcome_bind, outcome_get]
    simp only [coerce?]
    cases conversion? f.type target (f.boundName.any s.isDay) with
    | none => exact .inl ⟨_, rfl, rfl⟩
    | some c => exact .inr ⟨_, rfl, rfl, rfl⟩

theorem asks_expect (callee : Callee) {expected : Expectation} {f : Fragment} {holds : Bool}
    (h : holds = expected.admits f.type) :
    Asks scope (expect callee expected holds f) [.operand callee expected f.type]
      (fun _ => True) := by
  refine .single rfl fun read s => ?_
  rw [Check.rejection?, ← h]
  cases holds with
  | false => exact .inl ⟨_, rfl, rfl⟩
  | true => exact .inr ⟨(), rfl, rfl, trivial⟩

theorem asks_changeCase (callee : Callee) (method : String) (f : Fragment) :
    Asks scope (changeCase callee method f) [.operand callee .string f.type]
      (fun g => g.type = .string) :=
  (asks_expect callee rfl).bind fun _ _ => .pure rfl

theorem asks_initialDate (callee : Callee) (f : Fragment) :
    Asks scope (initialDate callee f) [.operand callee .dateLike f.type] (fun _ => True) := by
  refine (Asks.orReject rfl fun read => ?_).weaken fun _ _ => trivial
  rw [Check.rejection?, Option.isSome_map, isSome_ownDate?]
  rfl

theorem asks_bindTemporary (binding : String → Binding) :
    Asks scope (bindTemporary binding) [] (fun _ => True) :=
  .nothing fun s => ⟨_, _, outcome_bindTemporary binding s, rfl, trivial⟩

theorem asks_cutToDay (f : Fragment) :
    Asks scope (cutToDay f) [.operand .toDate .dateLike f.type] (fun g => g.type = .date) :=
  (asks_initialDate .toDate f).bind fun _ _ => (asks_bindTemporary _).bind fun _ _ => .pure rfl

/-- The days are looked at before the date. -/
theorem asks_shift (direction : Direction) (date days : Fragment) :
    Asks scope (shift direction date days)
      [.operand direction.callee .integral days.type, .operand direction.callee .dateLike date.type]
      (fun g => g.type = .date) :=
  (asks_expect direction.callee rfl).bind fun _ _ =>
    (asks_initialDate direction.callee date).bind fun _ _ =>
      (asks_bindTemporary _).bind fun _ _ => .pure rfl

theorem asks_extract (field : DateField) (f : Fragment) :
    Asks scope (extract field f) [.operand (.field field) .dateLike f.type]
      (fun g => g.type = .integer) := by
  refine (Asks.orReject rfl fun read => ?_).bind_pure fun _ _ => rfl
  rw [Check.rejection?, toDateLike?, Option.isSome_map, isSome_dateLike?]
  rfl

/-! ### Expressions -/

theorem Asks.asString {e : Expr} {x : Fragment → Emission α} {checks : List Check}
    (he : Asks scope (emit scope e) (e.checks scope) (fun f => f.type = e.typeIn scope))
    (hx : ∀ f, f.type = .string → Asks scope (x f) checks P) :
    Asks scope (emit scope e >>= fun f => Emission.asString f >>= x)
      (e.checks scope ++ ([.castable (e.typeIn scope) .string] ++ checks)) P :=
  he.bind fun f hf => hf ▸ (asks_cast f .string).bind hx

theorem asks_arguments {es : List Expr}
    (hes : ∀ e ∈ es, Asks scope (emit scope e) (e.checks scope) (fun f => f.type = e.typeIn scope))
    (f : Fragment) :
    Asks scope (concat scope (some f) es) (Expr.argumentChecks scope es)
      (fun g => g.type = .string) := by
  induction es generalizing f with
  | nil =>
    rw [concat]
    exact .pure rfl
  | cons e es ih =>
    rw [concat, Expr.argumentChecks, List.append_assoc]
    refine .asString (hes e List.mem_cons_self) fun g _ => ?_
    exact ih (fun a ha => hes a (List.mem_cons_of_mem _ ha)) _

theorem asks_emit (scope : Scope) (e : Expr) :
    Asks scope (emit scope e) (e.checks scope) (fun f => f.type = e.typeIn scope) := by
  induction e with
  | column name type =>
    rw [emit]
    exact asks_column name type
  | literal value type =>
    rw [emit]
    exact asks_literal value type
  | cast e type ih =>
    rw [emit, Expr.checks]
    exact ih.bind fun f hf => hf ▸ asks_cast f type
  | concat args type ih =>
    rw [emit, Expr.checks]
    cases args with
    | nil => exact fun s read _ => .inl ⟨.emptyConcat, s, rfl, rfl⟩
    | cons e es =>
      -- Nothing has been emitted that the first argument could be appended to.
      rw [concat, Expr.argumentChecks, List.append_assoc]
      have hfirst : Asks scope (emit scope e >>= fun f => asString f >>= fun g =>
          concat scope (some g) es) _ (fun g => g.type = .string) :=
        Asks.asString (ih e List.mem_cons_self) fun g _ =>
          asks_arguments (fun a ha => ih a (List.mem_cons_of_mem _ ha)) g
      exact .passed rfl (fun read => rfl) hfirst
  | upper e type ih =>
    rw [emit, Expr.checks]
    exact ih.bind fun f hf => hf ▸ asks_changeCase .upper _ f
  | lower e type ih =>
    rw [emit, Expr.checks]
    exact ih.bind fun f hf => hf ▸ asks_changeCase .lower _ f
  | substring e position length type ih ihp ihl =>
    rw [emit, Expr.checks]
    simp only [List.append_assoc, List.cons_append, List.nil_append]
    refine .require rfl (fun read => rfl) (.require rfl (fun read => rfl) ?_)
    refine .asString ih fun f _ => ?_
    refine ihp.bind fun p hp => hp ▸ (asks_expect .substring rfl).bind fun _ _ => ?_
    exact ihl.bind fun l hl => hl ▸ (asks_expect .substring rfl).bind fun _ _ => .pure rfl
  | toDate e type ih =>
    rw [emit, Expr.checks]
    exact ih.bind fun f hf => hf ▸ asks_cutToDay f
  | dateAdd date days type ihd ihn =>
    rw [emit, Expr.checks, List.append_assoc]
    exact ihd.bind fun d hd => ihn.bind fun n hn => hd ▸ hn ▸ asks_shift .later d n
  | dateSub date days type ihd ihn =>
    rw [emit, Expr.checks, List.append_assoc]
    exact ihd.bind fun d hd => ihn.bind fun n hn => hd ▸ hn ▸ asks_shift .earlier d n
  | extract field e type ih =>
    rw [emit, Expr.checks]
    exact ih.bind fun f hf => hf ▸ asks_extract field f
  | arithmetic op left right type ihl ihr =>
    rw [emit, Expr.checks]
    exact ihl.bind fun l _ => ihr.bind_pure fun r _ => rfl

theorem asks_rootFunction (scope : Scope) (e : Expr) :
    Asks scope (rootFunction scope e) (e.compileChecks scope) (fun _ => True) := by
  have hend : ∀ root : Fragment, Asks scope
      (do let inputs := (← get).inputs
          if inputs.isEmpty then throw .noInputs
          pure (RowFunction.ofFragment root inputs)) [.someInput] (fun _ => True) := by
    intro root s read hs
    rw [outcome_bind, outcome_get, firstRejection?_singleton]
    cases read with
    | nil =>
      have hnone : s.inputs.isEmpty = true := by rw [hs]; rfl
      simp only [hnone, if_true]
      exact .inl ⟨.noInputs, s, rfl, rfl⟩
    | cons first rest =>
      obtain ⟨more, hmore⟩ := foldl_addNew_cons first rest
      have hsome : s.inputs.isEmpty = false := by rw [hs, hmore]; rfl
      simp only [hsome, Bool.false_eq_true, if_false]
      refine .inr ⟨_, s, rfl, rfl, ?_, trivial⟩
      rw [hs, inputs, List.filterMap_cons_none rfl, List.filterMap_nil, List.append_nil]
  exact .asString (asks_emit scope e) fun root _ => hend root

end Emission

/-! ## Compiling -/

/-- **Rejections.** An expression is refused for a reason if and only if the reason is that of the
first check that it does not pass, and it has a function if and only if it passes all checks. -/
theorem tryCompile_eq_error_iff (scope : Scope) (e : Expr) :
    (∀ r, tryCompile scope e = .error r ↔
      ∃ before check after, e.compileChecks scope = before ++ check :: after ∧
        Check.AllPassed scope before ∧ check.rejection? scope (Check.inputs before) = some r) ∧
    ((∃ f, tryCompile scope e = .ok f) ↔ Check.AllPassed scope (e.compileChecks scope)) := by
  have hpassed : ∀ checks, Check.AllPassed scope checks ↔
      Check.firstRejection? scope [] checks = none := by
    intro checks
    rw [Check.firstRejection?_eq_none_iff, Check.AllPassed]
    simp only [List.nil_append]
  simp only [hpassed, tryCompile_eq]
  have hfirst := @Check.firstRejection?_eq_some_iff scope [] (e.compileChecks scope)
  simp only [List.nil_append] at hfirst
  simp only [← hfirst]
  rcases Emission.asks_rootFunction scope e {} [] rfl with
    ⟨r, s, hx, hr⟩ | ⟨f, s, hx, hnone, -, -⟩
  · rw [hx, hr]
    simp
  · rw [hx, hnone]
    simp

/-- The date is no date either, but its days are looked at first. -/
example : tryCompile ⟨fun name => some ⟨name, .dimension, .boolean⟩, false⟩
    (.dateAddOf (.column "d" .date) (.ofValue "7" .string)) =
      .error (.operandType .dateAdd .integral .string) := rfl

end RowScript

import RowScript.Proofs.Checks
import RowScript.Proofs.Emission.Course

/-!
# Temporaries of attempts

A temporary is handed out where the operand of a date function passes its check, so
what has been handed out by the time an emission fails is read off the checks before
the one that fails (`hands_rootFunction`). The checks that hand out temporaries are
those of the nodes that make dates, in their order (`Expr.filterMap_binding?_checks`).
-/

namespace RowScript

open Script (temporaryName)

/-! ## Checks that hand out temporaries -/

namespace Check

open Emission (Binding)

/-- What a temporary is bound to once the check is passed, if one is. -/
def binding? : Check → Option (String → Binding)
  | operand .toDate .dateLike source => some (.day · source)
  | operand .dateAdd .dateLike _ => some (.shift · .dateAdd)
  | operand .dateSub .dateLike _ => some (.shift · .dateSub)
  | _ => none

/-- The bindings of temporaries that are handed out after `n` others. -/
def numbered (n : Nat) (bs : List (String → Binding)) : List Binding :=
  bs.mapIdx fun i b => b (temporaryName (n + i))

theorem length_numbered (n : Nat) (bs : List (String → Binding)) :
    (numbered n bs).length = bs.length := List.length_mapIdx

theorem numbered_append (n : Nat) (bs cs : List (String → Binding)) :
    numbered n (bs ++ cs) = numbered n bs ++ numbered (n + bs.length) cs := by
  rw [numbered, List.mapIdx_append]
  simp only [Nat.add_comm _ bs.length, ← Nat.add_assoc]
  rfl

variable {scope : Scope} {read : List String} {checks more : List Check}

/-- The checks before the first one that is not passed. -/
def passed (scope : Scope) (read : List String) : List Check → List Check
  | [] => []
  | check :: checks =>
    match check.rejection? scope read with
    | some _ => []
    | none => check :: passed scope (read ++ inputs [check]) checks

theorem passed_prefix : passed scope read checks <+: checks := by
  induction checks generalizing read with
  | nil => exact List.prefix_refl _
  | cons check checks ih =>
    rw [passed]
    cases check.rejection? scope read with
    | some r => exact List.nil_prefix
    | none => exact List.prefix_cons_inj check |>.mpr ih

theorem passed_of_none (h : firstRejection? scope read checks = none) :
    passed scope read checks = checks := by
  induction checks generalizing read with
  | nil => rfl
  | cons check checks ih =>
    rw [firstRejection?, Option.or_eq_none_iff] at h
    rw [passed, h.1, ih h.2]

theorem passed_append_of_none (h : firstRejection? scope read checks = none) :
    passed scope read (checks ++ more) = checks ++ passed scope (read ++ inputs checks) more := by
  induction checks generalizing read with
  | nil => rw [inputs, List.filterMap_nil, List.append_nil, List.nil_append, List.nil_append]
  | cons check checks ih =>
    rw [firstRejection?, Option.or_eq_none_iff] at h
    rw [List.cons_append, passed, h.1, inputs_cons check checks, ← List.append_assoc]
    simp only [ih h.2, List.cons_append]

theorem passed_append_of_some {r : Rejection} (h : firstRejection? scope read checks = some r) :
    passed scope read (checks ++ more) = passed scope read checks := by
  induction checks generalizing read with
  | nil => contradiction
  | cons check checks ih =>
    rw [List.cons_append, passed, passed]
    cases hcheck : check.rejection? scope read with
    | some r' => rfl
    | none =>
      rw [firstRejection?, hcheck, Option.none_or] at h
      simp only [ih h]

end Check

/-! ## Nodes that hand out temporaries -/

namespace Expr

open Emission (Binding)

/-- What the date is that a node makes, if it makes one. -/
def binding? (scope : Scope) : Expr → Option (String → Binding)
  | toDate e _ => some (.day · (e.typeIn scope))
  | dateAdd _ _ _ => some (.shift · .dateAdd)
  | dateSub _ _ _ => some (.shift · .dateSub)
  | _ => none

end Expr

/-! ## Emissions that hand out temporaries -/

namespace Emission

open Check (binding? inputs numbered numbered_append passed)

variable {α β : Type} {scope : Scope} {P : α → Prop}

/-- Whether or not it succeeds, `x` hands out a temporary for each check that is passed and calls
for one, and none besides. -/
def Hands (scope : Scope) (x : Emission α) (checks : List Check) : Prop :=
  ∀ s read, s.inputs = read.foldl addNew [] → (outcome x s).2.bindings =
    s.bindings ++ numbered s.bindings.length ((passed scope read checks).filterMap binding?)

namespace Hands

theorem none {x : Emission α} {checks : List Check}
    (h : ∀ s, (outcome x s).2.bindings = s.bindings) (hchecks : ∀ c ∈ checks, binding? c = .none) :
    Hands scope x checks := by
  intro s read _
  have hnone : (passed scope read checks).filterMap binding? = [] :=
    List.filterMap_eq_nil_iff.mpr fun c hc => hchecks c (Check.passed_prefix.subset hc)
  rw [h, hnone]
  exact (List.append_nil _).symm

theorem pure (a : α) : Hands scope (Pure.pure a) [] := none (fun _ => rfl) nofun

theorem bind {x : Emission α} {f : α → Emission β} {checks more : List Check}
    (hx : Asks scope x checks P) (h : Hands scope x checks)
    (hf : ∀ a, P a → Hands scope (f a) more) : Hands scope (x >>= f) (checks ++ more) := by
  -- What comes after a failure is neither checked nor handed out.
  intro s read hread
  have hbound := h s read hread
  rw [outcome_bind]
  rcases hx s read hread with ⟨r, s', hfails, hr⟩ | ⟨a, s', hok, hpassed, hinputs, ha⟩
  · rw [hfails] at hbound ⊢
    rw [Check.passed_append_of_some hr]
    exact hbound
  · rw [hok, Check.passed_of_none hpassed] at hbound
    have hbound : s'.bindings =
        s.bindings ++ numbered s.bindings.length (checks.filterMap binding?) := hbound
    have hrest := hf a ha s' _ hinputs
    rw [hbound, List.length_append, Check.length_numbered] at hrest
    rw [hok, Check.passed_append_of_none hpassed, List.filterMap_append, numbered_append,
      ← List.append_assoc]
    exact hrest

theorem bind_pure {x : Emission α} {f : α → β} {checks : List Check} (hx : Asks scope x checks P)
    (h : Hands scope x checks) : Hands scope (x >>= fun a => Pure.pure (f a)) checks := by
  have hall : Hands scope (x >>= fun a => Pure.pure (f a)) (checks ++ []) :=
    bind hx h fun a _ => pure (f a)
  rwa [List.append_nil] at hall

theorem passed {x : Emission α} {check : Check} {checks : List Check} (hread : check.read? = .none)
    (hbinding : check.binding? = .none) (h : ∀ read, check.rejection? scope read = .none)
    (hx : Hands scope x checks) : Hands scope x (check :: checks) := by
  intro s read hs
  have hnone : inputs [check] = [] := List.filterMap_cons_none hread
  rw [Check.passed, h, hnone, List.append_nil, List.filterMap_cons_none hbinding]
  exact hx s read hs

theorem require {holds : Bool} {r : Rejection} {f : Unit → Emission α} {check : Check}
    {checks : List Check} (hread : check.read? = .none) (hbinding : check.binding? = .none)
    (h : ∀ read, check.rejection? scope read = if holds then .none else some r)
    (hf : Hands scope (f ()) checks) :
    Hands scope (if !holds then (MonadExcept.throw r >>= f) else f ()) (check :: checks) := by
  cases holds with
  | false =>
    intro s read _
    rw [Check.passed, h]
    exact (List.append_nil _).symm
  | true => exact passed hread hbinding h hf

end Hands

/-! ### Steps that hand out nothing -/

theorem bindings_cast (f : Fragment) (target : DataType) (s : State) :
    (outcome (cast f target) s).2.bindings = s.bindings := by
  unfold cast
  split
  · rfl
  · rw [outcome_bind, outcome_get]
    simp only [coerce?]
    cases conversion? f.type target (f.boundName.any s.isDay) <;> rfl

theorem hands_cast (f : Fragment) (source target : DataType) :
    Hands scope (cast f target) [.castable source target] :=
  .none (bindings_cast f target) fun _ hc => by rw [List.mem_singleton.mp hc]; rfl

theorem Hands.asString {e : Expr} {x : Fragment → Emission α} {checks : List Check}
    (he : Hands scope (emit scope e) (e.checks scope)) (hx : ∀ f, Hands scope (x f) checks) :
    Hands scope (emit scope e >>= fun f => Emission.asString f >>= x)
      (e.checks scope ++ ([.castable (e.typeIn scope) .string] ++ checks)) :=
  .bind (asks_emit scope e) he fun f hf =>
    .bind (hf ▸ asks_cast f .string) (hands_cast f _ .string) fun g _ => hx g

end Emission

end RowScript

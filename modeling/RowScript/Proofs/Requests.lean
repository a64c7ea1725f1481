import RowScript.Proofs.History

/-!
# Requests to a state that is kept

A state may serve any number of requests, and one that is refused half way leaves
what it has done so far. Even so inputs stay apart from each other, from columns
that cannot be read and from all temporaries, and no temporary is handed out twice
(`serve_invariant`).
-/

namespace RowScript.Emission

open Script (temporaryName)

/-- What a state can be asked for. The fragment of a cast may come from anywhere. -/
inductive Request where
  | emit (e : Expr)
  | cast (f : Fragment) (target : DataType)
  deriving Repr

/-- The state that a request leaves, whether or not it is met. -/
def Request.leaves (scope : Scope) (s : State) : Request → State
  | emit e => (outcome (Emission.emit scope e) s).2
  | cast f target => (outcome (Emission.cast f target) s).2

/-- The state after requests, of which the first one is served first. -/
def serve (scope : Scope) (s : State) (requests : List Request) : State :=
  requests.foldl (Request.leaves scope) s

/-- The names of the temporaries that have been handed out since `s` became `t`. -/
def State.handedOut (s t : State) : List String :=
  (t.bindings.drop s.bindings.length).map Binding.temporary

variable {scope : Scope} {s t : State}

/-! ## Any number of requests -/

theorem reachable_serve (h : Reachable scope s) (requests : List Request) :
    Reachable scope (serve scope s requests) := by
  unfold serve
  induction requests generalizing s with
  | nil => exact h
  | cons r requests ih =>
    cases r with
    | emit e => exact ih (h.emit e)
    | cast f target => exact ih (h.cast f target)

theorem advances_leaves (scope : Scope) (s : State) (r : Request) :
    Advances scope s (r.leaves scope s) := by
  cases r with
  | emit e => exact (course_advances scope).emit e s
  | cast f target => exact (course_advances scope).cast f target s

theorem advances_serve (scope : Scope) (s : State) (requests : List Request) :
    Advances scope s (serve scope s requests) := by
  unfold serve
  induction requests generalizing s with
  | nil => exact .refl scope s
  | cons r requests ih => exact (advances_leaves scope s r).trans (ih (r.leaves scope s))

/-! ## Temporaries -/

theorem Advances.handedOut (h : Advances scope s t) :
    s.handedOut t = (List.range' s.bindings.length (t.bindings.length - s.bindings.length)).map
      temporaryName := by
  obtain ⟨new, ht, hnew⟩ := h.bindings
  rw [State.handedOut, ht, List.drop_left, hnew, List.length_append, Nat.add_sub_cancel_left]

theorem Advances.days_subset (h : Advances scope s t) : s.days ⊆ t.days := by
  obtain ⟨new, ht, -⟩ := h.bindings
  rw [State.days, State.days, ht, List.filter_append, List.map_append]
  exact List.subset_append_left _ _

theorem State.days_subset (s : State) : s.days ⊆ s.bindings.map Binding.temporary := by
  intro name hname
  obtain ⟨b, hb, rfl⟩ := List.mem_map.mp hname
  exact List.mem_map_of_mem (List.mem_filter.mp hb).1

theorem State.Numbered.mem_temporaries (h : s.Numbered) {name : String} :
    name ∈ s.bindings.map Binding.temporary ↔ ∃ i < s.bindings.length, name = temporaryName i := by
  rw [h, List.mem_map]
  simp only [List.mem_range'_1, Nat.zero_le, Nat.zero_add, true_and]
  exact exists_congr fun i => and_congr_right fun _ => eq_comm

/-! ## What holds of all states -/

/-- **Requests.** After any requests the inputs are different columns that may be read, and one
where only one is allowed. Whatever is asked for next, inputs and calendar days stay, and the
temporaries that are handed out are the next ones. None of them has been a temporary or an input. -/
theorem serve_invariant (scope : Scope) (earlier later : List Request) :
    let s := serve scope {} earlier
    let t := serve scope s later
    s.inputs.Nodup ∧ (∀ name ∈ s.inputs, IsInput scope name) ∧
      (scope.multipleInputs = false → s.inputs.length ≤ 1) ∧
      s.inputs <+: t.inputs ∧ s.bindings.length ≤ t.bindings.length ∧
      (∀ name ∈ s.days, name ∈ t.days ∧ ∃ i < s.bindings.length, name = temporaryName i) ∧
      s.handedOut t = (List.range' s.bindings.length (t.bindings.length - s.bindings.length)).map
        temporaryName ∧
      ∀ name ∈ s.handedOut t,
        name ∉ s.bindings.map Binding.temporary ∧ name ∉ s.days ∧ name ∉ s.inputs := by
  intro s t
  have hstart : Advances scope {} s := advances_serve scope {} earlier
  have hnext : Advances scope s t := advances_serve scope s later
  have hnumbered : s.Numbered := hstart.numbered rfl
  have hinputs : ∀ name ∈ s.inputs, IsInput scope name := by
    intro name hname
    rcases hstart.isInput name hname with hname | hname
    · contradiction
    · exact hname
  refine ⟨hstart.nodup .nil, hinputs, fun hm => hstart.single hm (Nat.zero_le 1),
    hnext.inputs_prefix, ?_, ?_, hnext.handedOut, ?_⟩
  · obtain ⟨new, ht, -⟩ := hnext.bindings
    rw [ht, List.length_append]
    exact Nat.le_add_right _ _
  · intro name hname
    exact ⟨hnext.days_subset hname, hnumbered.mem_temporaries.mp (s.days_subset hname)⟩
  · intro name hname
    rw [hnext.handedOut] at hname
    obtain ⟨i, hi, rfl⟩ := List.mem_map.mp hname
    have hfresh : temporaryName i ∉ s.bindings.map Binding.temporary := by
      intro hold
      obtain ⟨j, hj, hij⟩ := hnumbered.mem_temporaries.mp hold
      have hge := (List.mem_range'_1.mp hi).1
      rw [Script.temporaryName_injective hij] at hge
      omega
    refine ⟨hfresh, fun hday => hfresh (s.days_subset hday), ?_⟩
    intro hinput
    have husable := (hinputs _ hinput).1
    rw [Script.not_isUsable_temporaryName] at husable
    contradiction

/-- A shift is refused for its second column, after its date has got a temporary. -/
theorem serve_invariant_refused :
    let scope : Scope := ⟨fun name => some ⟨name, .dimension, .long⟩, false⟩
    let cut : Expr := .toDate (.column "a" .long) .date
    let s := serve scope {} [.emit (.dateAdd cut (.column "b" .long) .date)]
    let t := serve scope s [.cast (.bound "__v7" [] .date) .string, .emit cut]
    s = ⟨["a"], [.day "__v0" .long]⟩ ∧ scope.multipleInputs = false ∧ s.inputs.length ≤ 1 ∧
      "__v0" ∈ s.days ∧ "__v0" ∈ t.days ∧ s.handedOut t = ["__v1"] ∧
      "__v1" ∉ s.bindings.map Binding.temporary := by
  intro scope cut s t
  have hs : s = ⟨["a"], [.day "__v0" .long]⟩ := rfl
  have ht : t = ⟨["a"], [.day "__v0" .long, .day "__v1" .long]⟩ := by decide +kernel
  have hday : "__v0" ∈ s.days := by
    rw [hs]
    decide
  have hnew : s.handedOut t = ["__v1"] := by
    rw [hs, ht]
    rfl
  obtain ⟨-, -, hsingle, -, -, hdays, -, hfresh⟩ := serve_invariant scope
    [.emit (.dateAdd cut (.column "b" .long) .date)]
    [.cast (.bound "__v7" [] .date) .string, .emit cut]
  have hnext : "__v1" ∈ s.handedOut t := by
    rw [hnew]
    exact List.mem_singleton.mpr rfl
  exact ⟨hs, rfl, hsingle rfl, hday, (hdays _ hday).1, hnew, (hfresh _ hnext).1⟩

end RowScript.Emission

import RowScript.Proofs.Emission.Course
import RowScript.Proofs.Emission.Renumbering
import RowScript.Proofs.Emission.Similar

/-!
# States that are used again

An emission may start in the state that others have left, also others that have
failed on the way. Where any number of inputs is allowed, it does what it does in
the empty state, except that its temporaries have other numbers and that inputs
which are there already are not added again (`emit_reachable`).

The two runs are followed side by side, and the fragments that they hold are
compared as far as checks can tell (`Renumbered`). Their texts are those of code.
-/

namespace RowScript

open Script (Tree Statement temporaryName renumber_temporaryName)

def Fragment.renumber (k : Nat) (f : Fragment) : Fragment where
  boundName := f.boundName.map (Script.renumber k)
  statements := f.statements.map (Script.renumberText k)
  inlineText := Script.renumberText k f.inlineText
  type := f.type

namespace Emission

/-! ## States laid one after another -/

def Binding.renumber (k : Nat) : Binding → Binding
  | day name source => day (Script.renumber k name) source
  | shift name callee => shift (Script.renumber k name) callee

namespace State

/-- What `s` has become from the empty state, done after `base`. -/
def after (base s : State) : State where
  inputs := base.inputs ++ s.inputs.filter (· ∉ base.inputs)
  bindings := base.bindings ++ s.bindings.map (Binding.renumber base.bindings.length)

theorem after_empty (s : State) : s.after {} = s := by
  simp [after]

theorem length_after (base s : State) :
    (base.after s).bindings.length = base.bindings.length + s.bindings.length := by
  simp [after]

theorem days_after (base s : State) :
    (base.after s).days = base.days ++ s.days.map (Script.renumber base.bindings.length) := by
  have hday : ∀ b : Binding, (b.renumber base.bindings.length).isDay = b.isDay := by
    intro b
    cases b <;> rfl
  have htemporary : ∀ b : Binding, (b.renumber base.bindings.length).temporary =
      Script.renumber base.bindings.length b.temporary := by
    intro b
    cases b <;> rfl
  simp [days, after, List.filter_map, Function.comp_def, hday, htemporary]

theorem after_addNew (base s : State) (name : String) :
    base.after { s with inputs := addNew s.inputs name } =
      { base.after s with inputs := addNew (base.after s).inputs name } := by
  unfold addNew after
  by_cases hs : name ∈ s.inputs <;> by_cases hbase : name ∈ base.inputs <;>
    simp [hs, hbase, List.filter_append]

theorem after_bind (base s : State) (b : Binding) :
    base.after { s with bindings := s.bindings ++ [b] } =
      { base.after s with
        bindings := (base.after s).bindings ++ [b.renumber base.bindings.length] } := by
  simp [after]

theorem Numbered.bind {s : State} (h : s.Numbered) {b : Binding}
    (hb : b.temporary = temporaryName s.bindings.length) :
    Numbered { s with bindings := s.bindings ++ [b] } := by
  rw [Numbered] at *
  rw [List.map_append, h, List.length_append, List.map_singleton, hb, List.length_singleton,
    List.range'_1_concat, List.map_append, Nat.zero_add, List.map_singleton]

end State

/-! ## Runs after a base -/

/-- `s` goes on from the empty state as `t` goes on from `base`. -/
structure Alongside (base s t : State) : Prop where
  numbered : s.Numbered
  eq : t = base.after s

/-- What a check can tell of two fragments of the same code. -/
structure Renumbered (k : Nat) (f g : Fragment) : Prop where
  type : g.type = f.type
  boundName : g.boundName = f.boundName.map (Script.renumber k)
  inlineText : f.boundName ≠ none → f.inlineText = "" ∧ g.inlineText = ""

theorem Renumbered.inline {k : Nat} (ss ss' : List String) (text text' : String) (type : DataType) :
    Renumbered k (.inline ss text type) (.inline ss' text' type) := ⟨rfl, rfl, nofun⟩

theorem Renumbered.bound {k : Nat} (n : Nat) (ss ss' : List String) (type : DataType) :
    Renumbered k (.bound (temporaryName n) ss type) (.bound (temporaryName (n + k)) ss' type) := by
  refine ⟨rfl, ?_, fun _ => ⟨rfl, rfl⟩⟩
  rw [Fragment.bound, Fragment.bound, Option.map_some, renumber_temporaryName]

variable {base : State} {f g : Fragment} {k : Nat}

theorem similar_addInput {scope : Scope} (hm : scope.multipleInputs = true) (name : String) :
    Similar (Alongside base) Eq (addInput scope name) (addInput scope name) := by
  rintro s t ⟨hs, rfl⟩
  refine .inr ⟨(), (), _, _, outcome_addInput_free hm name s, outcome_addInput_free hm name _, ?_, rfl⟩
  exact ⟨hs, (base.after_addNew s name).symm⟩

theorem similar_column {scope : Scope} (hm : scope.multipleInputs = true) (name : String) :
    Similar (Alongside base) (Renumbered k) (column scope name) (column scope name) := by
  unfold column
  refine (Similar.orReject_self _ _).bind ?_
  rintro c _ rfl
  refine .guard _ _ fun _ => .guard _ _ fun _ => ?_
  exact (similar_addInput hm _).bind fun _ _ _ => .pure (.inline ..)

theorem similar_bindTemporary {binding : String → Binding}
    (ht : ∀ name, (binding name).temporary = name)
    (hr : ∀ k name, (binding name).renumber k = binding (Script.renumber k name)) :
    Similar (Alongside base)
      (fun name name' => ∀ ss ss', Renumbered base.bindings.length (.bound name ss .date)
        (.bound name' ss' .date)) (bindTemporary binding) (bindTemporary binding) := by
  rintro s t ⟨hs, rfl⟩
  have hlength : (base.after s).bindings.length = s.bindings.length + base.bindings.length := by
    rw [State.length_after, Nat.add_comm]
  refine .inr ⟨_, _, _, _, outcome_bindTemporary binding s, outcome_bindTemporary binding _,
    ⟨hs.bind (ht _), ?_⟩, ?_⟩
  · rw [State.after_bind, hr, renumber_temporaryName, hlength]
  · intro ss ss'
    rw [hlength]
    exact .bound ..

theorem blind_renumbered (base : State) :
    Blind (Alongside base) (Renumbered base.bindings.length) where
  type h := h.type
  inline := .inline
  day _ := similar_bindTemporary (fun _ => rfl) fun _ _ => rfl
  shift _ := similar_bindTemporary (fun _ => rfl) fun _ _ => rfl

theorem similar_emit {scope : Scope} (hm : scope.multipleInputs = true) (base : State) (e : Expr) :
    Similar (Alongside base) (Renumbered base.bindings.length) (emit scope e) (emit scope e) :=
  (blind_renumbered base).emit (similar_column hm) e

/-! ## States that have been used -/

/-- The states that emissions and casts lead to, whether or not they have succeeded. -/
inductive Reachable (scope : Scope) : State → Prop
  | empty : Reachable scope {}
  | emit {s : State} (h : Reachable scope s) (e : Expr) :
    Reachable scope (outcome (emit scope e) s).2
  | cast {s : State} (h : Reachable scope s) (f : Fragment) (target : DataType) :
    Reachable scope (outcome (cast f target) s).2

theorem Reachable.advances {scope : Scope} {s : State} (h : Reachable scope s) :
    Advances scope {} s := by
  induction h with
  | empty => exact .refl scope {}
  | emit h e ih => exact ih.trans ((course_advances scope).emit e _)
  | cast h f target ih => exact ih.trans ((course_advances scope).cast f target _)

theorem Reachable.numbered {scope : Scope} {s : State} (h : Reachable scope s) : s.Numbered :=
  h.advances.numbered rfl

theorem Renumbered.eq {c d : Code} (h : Renumbered k f g) (hc : c.Grammatical) (hf : Renders f c)
    (hg : Renders g d) (hd : c.renumber k = d) : g = f.renumber k := by
  subst hd
  have hstatements : g.statements = f.statements.map (Script.renumberText k) := by
    refine (List.map_inj_right fun _ _ => String.toList_inj.mp).mp ?_
    calc g.statements.map String.toList
      _ = c.statements.map fun s => (s.renumber k).text := by
        rw [hg.statements, Code.renumber, List.map_map]
        rfl
      _ = c.statements.map fun s => Script.renumberChars k .code s.text :=
        List.map_congr_left fun s hs => (Statement.renumberChars_text (hc.statements s hs) k).symm
      _ = (f.statements.map String.toList).map (Script.renumberChars k .code) := by
        rw [hf.statements, List.map_map]
        rfl
      _ = (f.statements.map (Script.renumberText k)).map String.toList := by
        rw [List.map_map, List.map_map]
        exact List.map_congr_left fun s _ => (Script.toList_renumberText k s).symm
  have hvalue : g.valueText = Script.renumberText k f.valueText := by
    rw [← String.toList_inj, Script.toList_renumberText, hf.value, hg.value,
      Tree.renumberChars_text hc.value]
    rfl
  have hinline : g.inlineText = Script.renumberText k f.inlineText := by
    cases hbound : f.boundName with
    | none =>
      have hbound' : g.boundName = none := by
        rw [h.boundName, hbound]
        rfl
      rw [Fragment.valueText, Fragment.valueText, hbound, hbound'] at hvalue
      exact hvalue
    | some name =>
      obtain ⟨hf', hg'⟩ := h.inlineText (by simp [hbound])
      rw [hf', hg', Script.renumberText_empty]
  rw [Fragment.renumber, ← h.boundName, ← hstatements, ← hinline, ← h.type]

theorem outcome_emit_reachable {scope : Scope} (hm : scope.multipleInputs = true) {s : State}
    (hs : Reachable scope s) (e : Expr) :
    outcome (emit scope e) s =
      ((outcome (emit scope e) {}).1.map (Fragment.renumber s.bindings.length),
        s.after (outcome (emit scope e) {}).2) := by
  rcases similar_emit hm s e {} s ⟨State.Numbered.empty, s.after_empty.symm⟩ with
    ⟨r, s', t', hfresh, hnow, hend⟩ | ⟨f, g, s', t', hfresh, hnow, hend, hfg⟩
  · rw [hfresh, hnow, hend.eq]
    rfl
  · have he := emit_ok .empty hfresh
    have hcode := Expr.renumber_code he.compiles s.bindings.length 0
    rw [Nat.zero_add] at hcode
    have hg : g = f.renumber s.bindings.length :=
      hfg.eq (Expr.code_grammatical he.compiles 0) he.renders
        (emit_ok hs.numbered hnow).renders hcode
    rw [hfresh, hnow, hend.eq, hg]
    rfl

/-- **Reuse.** With any number of inputs allowed, an emission in a state that others have left ends
as it does in the empty state, renumbered by the temporaries that are there. -/
theorem emit_reachable {scope : Scope} (hm : scope.multipleInputs = true) {s : State}
    (hs : Reachable scope s) (e : Expr) :
    let fresh := outcome (emit scope e) {}
    let now := outcome (emit scope e) s
    now.1 = fresh.1.map (Fragment.renumber s.bindings.length) ∧
      now.2.inputs = s.inputs ++ fresh.2.inputs.filter (· ∉ s.inputs) ∧
      now.2.bindings.length = s.bindings.length + fresh.2.bindings.length ∧
      now.2.days = s.days ++ fresh.2.days.map (Script.renumber s.bindings.length) := by
  intro fresh now
  have hnow : now = (fresh.1.map (Fragment.renumber s.bindings.length), s.after fresh.2) :=
    outcome_emit_reachable hm hs e
  rw [hnow]
  exact ⟨rfl, rfl, s.length_after fresh.2, s.days_after fresh.2⟩

/-- After an emission that has bound a temporary and failed. The quoted name of a temporary stays. -/
theorem emit_reachable_failed :
    let scope : Scope := ⟨fun name => some ⟨name, .dimension, .date⟩, true⟩
    let left := (outcome (emit scope (.upper (.toDate (.column "a" .date) .date) .string)) {}).2
    let e : Expr :=
      .concat [.literal (some "__v0") .string, .toDate (.column "b" .date) .date] .string
    left = ⟨["a"], [.day "__v0" .date]⟩ ∧
      (outcome (emit scope e) left).1 =
        (outcome (emit scope e) {}).1.map (Fragment.renumber left.bindings.length) ∧
      (outcome (emit scope e) left).1 = .ok (.inline
        ["var __v1 = new Date(b.getTime());", "__v1.setUTCHours(0, 0, 0, 0);"]
        "('__v0').concat(__v1.toISOString().substring(0, 10))" .string) := by
  intro scope left e
  have hleft : Reachable scope left := .emit .empty _
  have hstate : left = ⟨["a"], [.day "__v0" .date]⟩ := rfl
  refine ⟨hstate, (emit_reachable rfl hleft e).1, ?_⟩
  rw [hstate]
  rfl

end Emission

end RowScript

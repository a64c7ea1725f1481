import RowScript.Proofs.Emission.SingleInput
import RowScript.Proofs.Nodes
import RowScript.Proofs.Schema

/-!
# What compiling depends on

Of a scope, an expression depends on the columns that it names and on nothing
else. A schema only grows, so what an expression has been compiled to stays, and
so does any rejection but that of a column that was not yet known
(`tryCompile_local`).
-/

namespace RowScript

namespace Emission

variable {α β : Type} {P : Rejection → Prop}

/-- `y` does what `x` does, unless `x` is rejected for a reason in `P`. -/
def SameUnless (P : Rejection → Prop) (x y : Emission α) : Prop :=
  ∀ s, outcome x s = outcome y s ∨ ∃ r s', P r ∧ outcome x s = (.error r, s')

namespace SameUnless

theorem refl (x : Emission α) : SameUnless P x x := fun _ => .inl rfl

theorem bind {x y : Emission α} {f g : α → Emission β} (h : SameUnless P x y)
    (hfg : ∀ a, SameUnless P (f a) (g a)) : SameUnless P (x >>= f) (y >>= g) := by
  intro s
  rw [outcome_bind, outcome_bind]
  rcases h s with hsame | ⟨r, s', hr, hx⟩
  · rw [hsame]
    rcases outcome y s with ⟨r | a, s'⟩
    · exact .inl rfl
    · exact hfg a s'
  · exact .inr ⟨r, s', hr, by rw [hx]⟩

theorem bind_right (x : Emission α) {f g : α → Emission β} (h : ∀ a, SameUnless P (f a) (g a)) :
    SameUnless P (x >>= f) (x >>= g) := (refl x).bind h

theorem guard (p : Prop) [Decidable p] (r : Rejection) {f g : Unit → Emission α}
    (h : ∀ u, SameUnless P (f u) (g u)) :
    SameUnless P (if p then (MonadExcept.throw r >>= f) else f ())
      (if p then (MonadExcept.throw r >>= g) else g ()) := by
  split
  · exact bind_right _ h
  · exact h ()

end SameUnless

/-! ## Two scopes -/

/-- A column that one scope knows the other one knows as the same, and `P` has the rejections of
those that it does not know. -/
def Knows (P : Rejection → Prop) (scope scope' : Scope) (name : String) : Prop :=
  scope.lookup name = scope'.lookup name ∨
    scope.lookup name = none ∧ P (.unknownColumn name)

variable {scope scope' : Scope}

theorem addInput_congr (hm : scope.multipleInputs = scope'.multipleInputs) (name : String) :
    addInput scope name = addInput scope' name := by
  unfold addInput
  rw [hm]

theorem sameUnless_column (hm : scope.multipleInputs = scope'.multipleInputs) {name : String}
    (h : Knows P scope scope' name) : SameUnless P (column scope name) (column scope' name) := by
  unfold column
  rcases h with hlookup | ⟨hnone, hr⟩
  · rw [hlookup]
    refine .bind_right _ fun c => .guard _ _ fun _ => .guard _ _ fun _ => ?_
    rw [addInput_congr hm]
    exact .refl _
  · intro s
    refine .inr ⟨_, s, hr, ?_⟩
    rw [outcome_bind, hnone, orReject, outcome_throw]

theorem sameUnless_concat {es : List Expr}
    (hes : ∀ e ∈ es, SameUnless P (emit scope e) (emit scope' e)) (acc : Option Fragment) :
    SameUnless P (concat scope acc es) (concat scope' acc es) := by
  induction es generalizing acc with
  | nil => cases acc <;> exact .refl _
  | cons e es ih =>
    rw [concat, concat]
    refine (hes e List.mem_cons_self).bind fun f => .bind_right _ fun g => ?_
    have hrest := ih fun a ha => hes a (List.mem_cons_of_mem _ ha)
    cases acc with
    | none => exact hrest _
    | some k => exact hrest _

theorem sameUnless_emit (hm : scope.multipleInputs = scope'.multipleInputs) {e : Expr}
    (h : ∀ name ∈ e.columnNames, Knows P scope scope' name) :
    SameUnless P (emit scope e) (emit scope' e) := by
  induction e with
  | column name type =>
    rw [emit, emit]
    exact sameUnless_column hm (h name List.mem_cons_self)
  | literal value type =>
    rw [emit, emit]
    exact .refl _
  | cast e type ih =>
    rw [emit, emit]
    exact (ih h).bind fun f => .refl _
  | concat args type ih =>
    rw [emit, emit]
    refine sameUnless_concat (fun e he => ih e he fun name hname => h name ?_) none
    rw [Expr.columnNames_concat]
    exact List.mem_flatMap_of_mem he hname
  | upper e type ih =>
    rw [emit, emit]
    exact (ih h).bind fun f => .refl _
  | lower e type ih =>
    rw [emit, emit]
    exact (ih h).bind fun f => .refl _
  | substring e position length type ih ihp ihl =>
    simp only [Expr.columnNames_substring, List.forall_mem_append] at h
    rw [emit, emit]
    refine .guard _ _ fun _ => .guard _ _ fun _ => ?_
    refine (ih h.1.1).bind fun f => .bind_right _ fun g => ?_
    refine (ihp h.1.2).bind fun p => .bind_right _ fun _ => ?_
    exact (ihl h.2).bind fun l => .refl _
  | toDate e type ih =>
    rw [emit, emit]
    exact (ih h).bind fun f => .refl _
  | dateAdd date days type ihd ihn =>
    simp only [Expr.columnNames_dateAdd, List.forall_mem_append] at h
    rw [emit, emit]
    exact (ihd h.1).bind fun f => (ihn h.2).bind fun g => .refl _
  | dateSub date days type ihd ihn =>
    simp only [Expr.columnNames_dateSub, List.forall_mem_append] at h
    rw [emit, emit]
    exact (ihd h.1).bind fun f => (ihn h.2).bind fun g => .refl _
  | extract field e type ih =>
    rw [emit, emit]
    exact (ih h).bind fun f => .refl _
  | arithmetic op left right type ihl ihr =>
    simp only [Expr.columnNames_arithmetic, List.forall_mem_append] at h
    rw [emit, emit]
    exact (ihl h.1).bind fun f => (ihr h.2).bind fun g => .refl _

theorem sameUnless_rootFunction (hm : scope.multipleInputs = scope'.multipleInputs) {e : Expr}
    (h : ∀ name ∈ e.columnNames, Knows P scope scope' name) :
    SameUnless P (rootFunction scope e) (rootFunction scope' e) := by
  unfold rootFunction
  exact (sameUnless_emit hm h).bind fun f => .refl _

end Emission

/-! ## Compiling -/

theorem tryCompile_eq_or {P : Rejection → Prop} {scope scope' : Scope}
    (hm : scope.multipleInputs = scope'.multipleInputs) {e : Expr}
    (h : ∀ name ∈ e.columnNames, Emission.Knows P scope scope' name) :
    tryCompile scope e = tryCompile scope' e ∨ ∃ r, P r ∧ tryCompile scope e = .error r := by
  rcases Emission.sameUnless_rootFunction hm h {} with hsame | ⟨r, s, hr, hx⟩
  · exact .inl (congrArg Prod.fst hsame)
  · exact .inr ⟨r, hr, congrArg Prod.fst hx⟩

/-- **Locality.** Scopes that answer alike for the columns that an expression names compile it
alike, and a schema that has been offered more columns compiles it as before, unless a column was
unknown. -/
theorem tryCompile_local (e : Expr) :
    (∀ scope scope' : Scope, scope.multipleInputs = scope'.multipleInputs →
      (∀ name ∈ e.columnNames, scope.lookup name = scope'.lookup name) →
      tryCompile scope e = tryCompile scope' e) ∧
    ∀ (defs more : List ColumnDef) (multipleInputs : Bool),
      (∀ name, tryCompile ((Schema.offerAll {} defs).scope multipleInputs) e ≠
        .error (.unknownColumn name)) →
      tryCompile (((Schema.offerAll {} defs).offerAll more).scope multipleInputs) e =
        tryCompile ((Schema.offerAll {} defs).scope multipleInputs) e := by
  constructor
  · intro scope scope' hm hlookup
    have hsame := tryCompile_eq_or (P := fun _ => False) hm fun name hname =>
      .inl (hlookup name hname)
    simpa using hsame
  · intro defs more multipleInputs hknown
    let schema := Schema.offerAll {} defs
    -- A column of the smaller schema is the same one in the larger, and any other is unknown.
    have hknows : ∀ name ∈ e.columnNames,
        Emission.Knows (fun r => ∃ name, r = .unknownColumn name) (schema.scope multipleInputs)
          ((schema.offerAll more).scope multipleInputs) name := by
      intro name _
      cases hlookup : schema.lookup name with
      | none => exact .inr ⟨hlookup, name, rfl⟩
      | some c => exact .inl (hlookup.trans (Schema.lookup_offerAll hlookup more).symm)
    have hmode : (schema.scope multipleInputs).multipleInputs =
        ((schema.offerAll more).scope multipleInputs).multipleInputs := rfl
    rcases tryCompile_eq_or hmode hknows with hsame | ⟨r, ⟨name, rfl⟩, hr⟩
    · exact hsame.symm
    · exact absurd hr (hknown name)

/-- A new column makes no difference to an expression that does not name it, and a column that is
offered again is refused. -/
theorem tryCompile_local_refused :
    ((∀ name ∈ (Expr.toDate (.column "d" .date) .date).columnNames,
        (Schema.offerAll {} [⟨"d", none, .dimension, .date⟩]).lookup name =
          (Schema.offerAll {} [⟨"k", none, .measure, .long⟩, ⟨"d", none, .dimension, .date⟩]).lookup
            name) ∧
      tryCompile ((Schema.offerAll {} [⟨"d", none, .dimension, .date⟩]).scope false)
          (.toDate (.column "d" .date) .date) =
        tryCompile ((Schema.offerAll {} [⟨"k", none, .measure, .long⟩,
          ⟨"d", none, .dimension, .date⟩]).scope false) (.toDate (.column "d" .date) .date)) ∧
    (∀ name, tryCompile ((Schema.offerAll {} [⟨"d", none, .dimension, .date⟩]).scope false)
        (.toDate (.column "d" .date) .date) ≠ .error (.unknownColumn name)) ∧
      tryCompile (((Schema.offerAll {} [⟨"d", none, .dimension, .date⟩]).offerAll
          [⟨"d", none, .dimension, .string⟩, ⟨"k", none, .measure, .long⟩]).scope false)
          (.toDate (.column "d" .date) .date) =
        .ok { parameters := ["d"]
              statements := ["var __v0 = new Date(d.getTime());", "__v0.setUTCHours(0, 0, 0, 0);"]
              result := "__v0.toISOString().substring(0, 10)" } := by
  have hnamed : ∀ name ∈ (Expr.toDate (.column "d" .date) .date).columnNames,
      (Schema.offerAll {} [⟨"d", none, .dimension, .date⟩]).lookup name =
        (Schema.offerAll {} [⟨"k", none, .measure, .long⟩, ⟨"d", none, .dimension, .date⟩]).lookup
          name := by decide
  have hcompiled : tryCompile ((Schema.offerAll {} [⟨"d", none, .dimension, .date⟩]).scope false)
        (.toDate (.column "d" .date) .date) =
      .ok { parameters := ["d"]
            statements := ["var __v0 = new Date(d.getTime());", "__v0.setUTCHours(0, 0, 0, 0);"]
            result := "__v0.toISOString().substring(0, 10)" } := by rfl
  have hknown : ∀ name, tryCompile ((Schema.offerAll {} [⟨"d", none, .dimension, .date⟩]).scope false)
      (.toDate (.column "d" .date) .date) ≠ .error (.unknownColumn name) := by
    intro name h
    rw [hcompiled] at h
    contradiction
  obtain ⟨hcongr, hgrowth⟩ := tryCompile_local (.toDate (.column "d" .date) .date)
  refine ⟨⟨hnamed, hcongr _ _ rfl hnamed⟩, hknown, ?_⟩
  exact (hgrowth [⟨"d", none, .dimension, .date⟩] _ false hknown).trans hcompiled

end RowScript

import Mathlib.Logic.Relation
import RowScript.Proofs.Acceptance
import RowScript.Proofs.Days
import RowScript.Proofs.Literals

/-!
# Expressions that are emitted alike

A node looks at its operands through their fragments alone, except that it asks whether the
bounds of a `substring` are literals. An expression can therefore be replaced by any other that
has the same emission (`emit_plug`). Two such rewritings are shown here: a cast to the type that
a value has already comes and goes (`tryCompile_recasts`), and most annotations can be
anything (`tryCompile_annotations`).
-/

namespace RowScript

namespace Emission

variable {scope : Scope}

theorem ext_outcome {α : Type} {x y : Emission α} (h : ∀ s, outcome x s = outcome y s) : x = y :=
  funext h

theorem concat_congr {es es' : List Expr} (h : es.map (emit scope) = es'.map (emit scope))
    (acc : Option Fragment) : concat scope acc es = concat scope acc es' := by
  induction es generalizing es' acc with
  | nil =>
    obtain rfl : es' = [] := List.map_eq_nil_iff.mp h.symm
    rfl
  | cons e es ih =>
    obtain ⟨a, as, rfl, ha, has⟩ := List.map_eq_cons_iff.mp h.symm
    rw [concat, concat, ha]
    simp only [ih has.symm]

end Emission

/-! ## Places -/

namespace Expr.Context

def isHole : Context → Bool
  | hole => true
  | _ => false

/-- Whether the missing node is itself the position or the length of a `substring`, for which
only a literal will do. -/
def needsLiteral : Context → Bool
  | hole => false
  | substringPosition _ position _ _ => position.isHole || position.needsLiteral
  | substringLength _ _ length _ => length.isHole || length.needsLiteral
  | cast operand _ | upper operand _ | lower operand _ | toDate operand _ | extract _ operand _
  | substringOperand operand _ _ _ => operand.needsLiteral
  | concat _ arg _ _ => arg.needsLiteral
  | dateAddDate date _ _ | dateSubDate date _ _ => date.needsLiteral
  | dateAddDays _ days _ | dateSubDays _ days _ => days.needsLiteral
  | arithmeticLeft _ left _ _ => left.needsLiteral
  | arithmeticRight _ _ right _ => right.needsLiteral

theorem isLiteral_plug_of_not_isHole {C : Context} (hC : C.isHole = false) (a b : Expr) :
    (C.plug a).isLiteral = (C.plug b).isLiteral := by
  cases C with
  | hole => contradiction
  | _ => rfl

end Expr.Context

namespace Emission

variable {scope : Scope} {s s' : State} {e : Expr} {f : Fragment}

/-- What is emitted alike may stand for each other, where no literal has to stand. -/
theorem emit_plug {a b : Expr} (h : emit scope a = emit scope b) {C : Expr.Context}
    (hC : C.needsLiteral = false) : emit scope (C.plug a) = emit scope (C.plug b) := by
  induction C with
  | hole => exact h
  | cast operand type ih => rw [Expr.Context.plug, Expr.Context.plug, emit, emit, ih hC]
  | concat before arg after type ih =>
    rw [Expr.Context.plug, Expr.Context.plug, emit, emit]
    refine concat_congr ?_ none
    rw [List.map_append, List.map_append, List.map_cons, List.map_cons, ih hC]
  | upper operand type ih => rw [Expr.Context.plug, Expr.Context.plug, emit, emit, ih hC]
  | lower operand type ih => rw [Expr.Context.plug, Expr.Context.plug, emit, emit, ih hC]
  | substringOperand operand position length type ih =>
    rw [Expr.Context.plug, Expr.Context.plug, emit, emit, ih hC]
  | substringPosition operand position length type ih =>
    obtain ⟨hhole, hC⟩ := Bool.or_eq_false_iff.mp hC
    rw [Expr.Context.plug, Expr.Context.plug, emit, emit, ih hC,
      Expr.Context.isLiteral_plug_of_not_isHole hhole a b]
  | substringLength operand position length type ih =>
    obtain ⟨hhole, hC⟩ := Bool.or_eq_false_iff.mp hC
    rw [Expr.Context.plug, Expr.Context.plug, emit, emit, ih hC,
      Expr.Context.isLiteral_plug_of_not_isHole hhole a b]
  | toDate operand type ih => rw [Expr.Context.plug, Expr.Context.plug, emit, emit, ih hC]
  | dateAddDate date days type ih => rw [Expr.Context.plug, Expr.Context.plug, emit, emit, ih hC]
  | dateAddDays date days type ih => rw [Expr.Context.plug, Expr.Context.plug, emit, emit, ih hC]
  | dateSubDate date days type ih => rw [Expr.Context.plug, Expr.Context.plug, emit, emit, ih hC]
  | dateSubDays date days type ih => rw [Expr.Context.plug, Expr.Context.plug, emit, emit, ih hC]
  | extract field operand type ih => rw [Expr.Context.plug, Expr.Context.plug, emit, emit, ih hC]
  | arithmeticLeft op left right type ih =>
    rw [Expr.Context.plug, Expr.Context.plug, emit, emit, ih hC]
  | arithmeticRight op left right type ih =>
    rw [Expr.Context.plug, Expr.Context.plug, emit, emit, ih hC]

theorem tryCompile_congr {a b : Expr} (h : emit scope a = emit scope b) :
    tryCompile scope a = tryCompile scope b := by
  rw [tryCompile_eq, tryCompile_eq, rootFunction, rootFunction, h]

/-! ## Casts to the same type -/

theorem concat_type {es : List Expr} {acc : Option Fragment}
    (h : outcome (concat scope acc es) s = (.ok f, s')) : f.type = .string := by
  induction es generalizing acc s with
  | nil =>
    cases acc with
    | none => simp [concat] at h
    | some k =>
      rw [concat, outcome_pure, Prod.mk.injEq, Except.ok.injEq] at h
      rw [← h.1]
      rfl
  | cons e es ih =>
    obtain ⟨g, k, s₁, -, -, hrest⟩ := outcome_concat_cons_ok h
    exact ih hrest

theorem type_of_emit (h : outcome (emit scope e) s = (.ok f, s')) : f.type = e.typeIn scope := by
  cases e with
  | column name type =>
    rw [emit] at h
    obtain ⟨c, hlookup, -, -, rfl, -⟩ := outcome_column_ok h
    simp [Expr.typeIn, hlookup, Fragment.inline]
  | literal value type =>
    rw [emit, outcome_liftExcept, Prod.mk.injEq] at h
    obtain ⟨-, text, rfl, -⟩ := Expr.literal?_ok scope h.1
    rfl
  | cast e type =>
    rw [emit] at h
    obtain ⟨g, s₁, -, hcast⟩ := outcome_bind_ok.mp h
    obtain ⟨-, ⟨htype, rfl⟩ | ⟨-, c, -, rfl⟩⟩ := outcome_cast_ok hcast
    · exact htype
    · rfl
  | concat args type =>
    rw [emit] at h
    exact concat_type h
  | upper e type =>
    rw [emit] at h
    obtain ⟨g, s₁, -, hcase⟩ := outcome_bind_ok.mp h
    obtain ⟨-, -, rfl⟩ := outcome_changeCase_ok hcase
    rfl
  | lower e type =>
    rw [emit] at h
    obtain ⟨g, s₁, -, hcase⟩ := outcome_bind_ok.mp h
    obtain ⟨-, -, rfl⟩ := outcome_changeCase_ok hcase
    rfl
  | substring e position length type =>
    obtain ⟨-, -, g, k, p, l, s₁, s₂, -, -, -, -, -, -, rfl⟩ := outcome_substring_ok h
    rfl
  | toDate e type =>
    rw [emit] at h
    obtain ⟨g, s₁, -, hcut⟩ := outcome_bind_ok.mp h
    obtain ⟨c, -, -, rfl⟩ := outcome_cutToDay_ok hcut
    rfl
  | dateAdd date days type =>
    rw [emit] at h
    obtain ⟨g, s₁, -, hrest⟩ := outcome_bind_ok.mp h
    obtain ⟨k, s₂, -, hshift⟩ := outcome_bind_ok.mp hrest
    obtain ⟨-, c, -, -, rfl⟩ := outcome_shift_ok hshift
    rfl
  | dateSub date days type =>
    rw [emit] at h
    obtain ⟨g, s₁, -, hrest⟩ := outcome_bind_ok.mp h
    obtain ⟨k, s₂, -, hshift⟩ := outcome_bind_ok.mp hrest
    obtain ⟨-, c, -, -, rfl⟩ := outcome_shift_ok hshift
    rfl
  | extract field e type =>
    rw [emit] at h
    obtain ⟨g, s₁, -, hextract⟩ := outcome_bind_ok.mp h
    obtain ⟨-, c, -, rfl⟩ := outcome_extract_ok hextract
    rfl
  | arithmetic op left right type =>
    rw [emit] at h
    obtain ⟨l, s₁, -, hrest⟩ := outcome_bind_ok.mp h
    obtain ⟨r, s₂, -, hend⟩ := outcome_bind_ok.mp hrest
    rw [outcome_pure, Prod.mk.injEq, Except.ok.injEq] at hend
    rw [← hend.1]
    rfl

theorem emit_cast_typeIn (scope : Scope) (e : Expr) :
    emit scope (.cast e (e.typeIn scope)) = emit scope e := by
  refine ext_outcome fun s => ?_
  rw [emit, outcome_bind]
  rcases he : outcome (emit scope e) s with ⟨r | f, s'⟩
  · rfl
  · change outcome (cast f (e.typeIn scope)) s' = _
    rw [cast, if_pos (type_of_emit he), outcome_pure]

/-- A cast is put around a value somewhere in an expression, to the type that the value has where
inputs are not limited. -/
inductive Recast (lookup : String → Option Column) : Expr → Expr → Prop
  | cast {e : Expr} {f : Fragment} {s : State} {type : DataType} (C : Expr.Context)
      (h : outcome (emit ⟨lookup, true⟩ e) {} = (.ok f, s)) (htype : f.type = type)
      (hC : C.needsLiteral = false) : Recast lookup (C.plug e) (C.plug (.cast e type))

theorem Recast.emit_eq {a b : Expr} (h : Recast scope.lookup a b) : emit scope a = emit scope b := by
  obtain ⟨C, he, rfl, hC⟩ := h
  rw [type_of_emit he, ← Expr.typeIn_free scope.lookup scope.multipleInputs]
  exact emit_plug (emit_cast_typeIn scope _).symm hC

theorem outcome_toDate_string {operand : Expr} {type : DataType}
    (h : outcome (emit scope (.toDate operand type)) s = (.ok f, s')) :
    ∃ name, f.boundName = some name ∧ outcome (cast f .string) s' =
      (.ok (.inline f.statements (name ++ ".toISOString().substring(0, 10)") .string), s') := by
  have htype : f.type = .date := type_of_emit h
  rw [emit] at h
  obtain ⟨g, s₁, -, hcut⟩ := outcome_bind_ok.mp h
  obtain ⟨c, -, hs, hf⟩ := outcome_cutToDay_ok hcut
  have hbound : f.boundName = some (Script.temporaryName s₁.bindings.length) := by rw [hf]; rfl
  have hday : f.boundName.any s'.isDay = (Expr.toDate operand type).isDay := by
    rw [hbound, hs, Option.any_some, State.isDay_bind]
    simp [Binding.isDay, Binding.temporary, Expr.isDay]
  have htext := dateText_of_isDay hday fun name hname =>
    ⟨s₁.bindings.length, Option.some.inj (hname.symm.trans hbound)⟩
  obtain ⟨name, hname, htext⟩ := htext.day.mp (.toDate operand type)
  exact ⟨name, hname, by rw [outcome_cast_date htype, htext]⟩

end Emission

open Emission (State Recast emit outcome)

/-- **Casts to the same type.** Any number of casts may be put around values that have their type
already, wherever no literal has to stand: the function stays, or the rejection does. A date that
is cut to its day stays one under a cast to a date, in the same temporary. -/
theorem tryCompile_recasts (scope : Scope) :
    (∀ a b, Relation.ReflTransGen (Recast scope.lookup) a b →
      tryCompile scope b = tryCompile scope a) ∧
    ∀ operand type,
      emit scope (.cast (.toDate operand type) .date) = emit scope (.toDate operand type) ∧
      ∀ s f s', outcome (emit scope (.cast (.toDate operand type) .date)) s = (.ok f, s') →
        ∃ name, f.boundName = some name ∧ outcome (Emission.cast f .string) s' =
          (.ok (.inline f.statements (name ++ ".toISOString().substring(0, 10)") .string), s') := by
  constructor
  · intro a b h
    induction h with
    | refl => rfl
    | tail hab hbc ih => rw [← Emission.tryCompile_congr hbc.emit_eq, ih]
  · intro operand type
    have hsame : emit scope (.cast (.toDate operand type) .date) =
        emit scope (.toDate operand type) :=
      Emission.emit_cast_typeIn scope (.toDate operand type)
    refine ⟨hsame, fun s f s' h => ?_⟩
    rw [hsame] at h
    exact Emission.outcome_toDate_string h

/-- Two casts around a day and one around the column in it. -/
theorem tryCompile_recasts_day :
    let scope := Scope.ofColumn "t" ⟨"t", .dimension, .timestamp⟩
    let t : Expr := .column "t" .null
    tryCompile scope (.cast (.cast (.cast (.toDate (.cast t .timestamp) .date) .date) .date)
        .string) =
      .ok ⟨["t"], ["var __v0 = new Date(t);", "__v0.setUTCHours(0, 0, 0, 0);"],
        "__v0.toISOString().substring(0, 10)"⟩ := by
  intro scope t
  have hfirst : Recast scope.lookup (.cast (.toDate t .date) .string)
      (.cast (.cast (.toDate t .date) .date) .string) :=
    .cast (.cast .hole .string) rfl rfl rfl
  have hsecond : Recast scope.lookup (.cast (.cast (.toDate t .date) .date) .string)
      (.cast (.cast (.cast (.toDate t .date) .date) .date) .string) :=
    .cast (.cast (.cast .hole .date) .string) rfl rfl rfl
  have hthird : Recast scope.lookup (.cast (.cast (.cast (.toDate t .date) .date) .date) .string)
      (.cast (.cast (.cast (.toDate (.cast t .timestamp) .date) .date) .date) .string) :=
    .cast (.cast (.cast (.cast (.toDate .hole .date) .date) .date) .string) rfl rfl rfl
  rw [(tryCompile_recasts scope).1 _ _
    (((Relation.ReflTransGen.single hfirst).tail hsecond).tail hthird)]
  rfl

/-! ## Annotations -/

namespace Expr

mutual

/-- The expression without the annotations that say what is known anyway. Those of casts, of
arithmetic and of literals with a value are kept. -/
def stripped : Expr → Expr
  | column name _ => column name .null
  | literal none _ => literal none .null
  | literal (some text) type => literal (some text) type
  | cast e type => cast e.stripped type
  | concat args _ => concat (strippedAll args) .null
  | upper e _ => upper e.stripped .null
  | lower e _ => lower e.stripped .null
  | substring e position length _ =>
    substring e.stripped position.stripped length.stripped .null
  | toDate e _ => toDate e.stripped .null
  | dateAdd date days _ => dateAdd date.stripped days.stripped .null
  | dateSub date days _ => dateSub date.stripped days.stripped .null
  | extract field e _ => extract field e.stripped .null
  | arithmetic op left right type => arithmetic op left.stripped right.stripped type

def strippedAll : List Expr → List Expr
  | [] => []
  | e :: es => e.stripped :: strippedAll es

end

theorem strippedAll_eq_map (es : List Expr) : strippedAll es = es.map stripped := by
  induction es with
  | nil => rfl
  | cons e es ih => rw [strippedAll, ih, List.map_cons]

theorem isLiteral_stripped (e : Expr) : e.stripped.isLiteral = e.isLiteral := by
  cases e with
  | literal value type => cases value <;> rfl
  | _ => rfl

end Expr

theorem Emission.emit_stripped (scope : Scope) (e : Expr) :
    emit scope e.stripped = emit scope e := by
  induction e with
  | column name type => rw [Expr.stripped, emit, emit]
  | literal value type =>
    cases value with
    | none => rfl
    | some text => rfl
  | cast e type ih => rw [Expr.stripped, emit, emit, ih]
  | concat args type ih =>
    rw [Expr.stripped, emit, emit, Expr.strippedAll_eq_map]
    refine concat_congr ?_ none
    rw [List.map_map]
    exact List.map_congr_left ih
  | upper e type ih => rw [Expr.stripped, emit, emit, ih]
  | lower e type ih => rw [Expr.stripped, emit, emit, ih]
  | substring e position length type ih ihp ihl =>
    rw [Expr.stripped, emit, emit, ih, ihp, ihl, Expr.isLiteral_stripped, Expr.isLiteral_stripped]
  | toDate e type ih => rw [Expr.stripped, emit, emit, ih]
  | dateAdd date days type ihd ihn => rw [Expr.stripped, emit, emit, ihd, ihn]
  | dateSub date days type ihd ihn => rw [Expr.stripped, emit, emit, ihd, ihn]
  | extract field e type ih => rw [Expr.stripped, emit, emit, ih]
  | arithmetic op left right type ihl ihr => rw [Expr.stripped, emit, emit, ihl, ihr]

/-- **Annotations.** Expressions that differ in none but the annotations of columns, functions and
nulls are compiled alike. The type of a column is always that in the scope. -/
theorem tryCompile_annotations (scope : Scope) :
    (∀ a b : Expr, a.stripped = b.stripped → tryCompile scope a = tryCompile scope b) ∧
    ∀ name type s f s', outcome (emit scope (.column name type)) s = (.ok f, s') →
      ∃ c, scope.lookup name = some c ∧ f.type = c.type := by
  constructor
  · intro a b h
    refine Emission.tryCompile_congr ?_
    rw [← Emission.emit_stripped scope a, h, Emission.emit_stripped]
  · intro name type s f s' h
    rw [emit] at h
    obtain ⟨c, hlookup, -, -, rfl, -⟩ := Emission.outcome_column_ok h
    exact ⟨c, hlookup, rfl⟩

/-- A shift of a date, annotated as it is and with other types wherever this is possible. -/
theorem tryCompile_annotations_wrong :
    let scope := Scope.ofColumn "d" ⟨"d", .dimension, .date⟩
    let right : Expr := .dateAdd (.column "d" .date)
      (.arithmetic .add (.extract .month (.column "d" .date) .integer) (.literal none .null)
        .integer) .date
    let wrong : Expr := .dateAdd (.column "d" .boolean)
      (.arithmetic .add (.extract .month (.column "d" .null) .string) (.literal none .double)
        .integer) .timestamp
    tryCompile scope wrong = tryCompile scope right ∧
      tryCompile scope right = .ok ⟨["d"], ["var __v0 = new Date(d.getTime());",
        "__v0.setUTCDate(__v0.getUTCDate() + (((d.getUTCMonth() + 1)) + (null)));"],
        "__v0.toISOString()"⟩ ∧
      ∃ f s, outcome (emit scope (.column "d" .boolean)) {} = (.ok f, s) ∧ f.type = .date := by
  intro scope right wrong
  obtain ⟨halike, hcolumn⟩ := tryCompile_annotations scope
  refine ⟨halike wrong right rfl, rfl, ?_⟩
  have hd : ∃ f s, outcome (emit scope (.column "d" .boolean)) {} = (.ok f, s) := ⟨_, _, rfl⟩
  obtain ⟨f, s, hd⟩ := hd
  obtain ⟨c, hlookup, htype⟩ := hcolumn "d" .boolean {} f s hd
  obtain rfl : ⟨"d", .dimension, .date⟩ = c := Option.some.inj hlookup
  exact ⟨f, s, hd, htype⟩

end RowScript

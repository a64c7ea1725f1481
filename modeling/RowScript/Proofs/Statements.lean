import RowScript.Proofs.Hygiene
import RowScript.Proofs.Nodes
import RowScript.Proofs.Requests

/-!
# Dates and their statements

Each node that makes a date takes two statements, one that declares the next
temporary as a new date and one that changes this date. Since a node takes them
after its operands have taken theirs, statements and temporaries are in the order
of the nodes, operands first (`tryCompile_statements`).

Nothing else is changed: values only call methods that leave their object as it
is (`members_code`).
-/

namespace RowScript

open Script (Tree temporaryName references)

namespace Emission

variable {scope : Scope} {e : Expr} {s s' t u : State} {f g : Fragment} {n : Nat}

/-! ## Methods that change nothing -/

/-- The methods that values call. None of them changes the object that it is called on. -/
def readers : List String := ["concat", "getTime", "getUTCFullYear", "getUTCHours",
  "getUTCMinutes", "getUTCMonth", "getUTCSeconds", "substr", "substring", "toISOString",
  "toLowerCase", "toString", "toUpperCase"]

/-- A tree that calls no other methods than `readers`. -/
def OnlyReads (t : Tree) : Prop := ∀ name ∈ t.members, name ∈ readers

theorem OnlyReads.leaf {t : Tree} (h : t.members = []) : OnlyReads t := by
  intro name hname
  rw [h] at hname
  contradiction

theorem members_invoke (t : Tree) (name : String) (args : List Tree) :
    (t.invoke name args).members = t.members ++ [name] ++ Tree.membersOf args := by
  rw [Tree.invoke, Tree.members, Tree.members]
  unfold Tree.receiver
  split <;> simp [Tree.members]

theorem OnlyReads.invoke {t : Tree} {name : String} {args : List Tree} (ht : OnlyReads t)
    (hname : name ∈ readers) (hargs : ∀ a ∈ args, OnlyReads a) :
    OnlyReads (t.invoke name args) := by
  intro other hother
  rw [members_invoke, Tree.membersOf_eq_flatMap] at hother
  rcases List.mem_append.mp hother with hother | hother
  · rcases List.mem_append.mp hother with hother | hother
    · exact ht other hother
    · rwa [List.mem_singleton.mp hother]
  · obtain ⟨a, ha, hother⟩ := List.mem_flatMap.mp hother
    exact hargs a ha other hother

theorem members_conversion (c : Conversion) (t : Tree) :
    ∀ name ∈ (c.tree t).members, name ∈ t.members ∨ name ∈ readers := by
  cases c <;>
    simp [Conversion.tree, Tree.callGlobal, Tree.newDate, members_invoke, Tree.members,
      Tree.membersOf, readers] <;>
    grind

theorem OnlyReads.conversion {t : Tree} (ht : OnlyReads t) (c : Option Conversion) :
    OnlyReads (Conversion.treeOf c t) := fun name hname =>
  (members_conversion (c.getD .keep) t name hname).elim (ht name) id

theorem OnlyReads.field {t : Tree} (ht : OnlyReads t) (field : DateField) :
    OnlyReads (field.tree t) := by
  intro name hname
  cases field <;>
    simp [DateField.tree, members_invoke, Tree.members, Tree.membersOf] at hname <;>
    rcases hname with hname | rfl <;>
    first | exact ht name hname | decide

theorem onlyReads_literalTree (value : Option String) (type : DataType) :
    OnlyReads (Expr.literalTree value type) := by
  cases value with
  | none => exact .leaf rfl
  | some text =>
    cases type with
    | null | boolean => exact .leaf rfl
    | short | integer | long | float | double =>
      refine .leaf ?_
      rw [Expr.literalTree, Expr.numberTree]
      split <;> rfl
    | string | date | timestamp => exact OnlyReads.conversion (.leaf rfl) _

theorem onlyReads_foldl {es : List Expr} (hes : ∀ e ∈ es, ∀ n, OnlyReads (e.code scope n).value)
    {c : Code} (hc : OnlyReads c.value) :
    OnlyReads ((Expr.stringCodes scope n es).foldl Code.append c).value := by
  induction es generalizing c n with
  | nil => exact hc
  | cons e es ih =>
    refine ih (fun a ha => hes a (List.mem_cons_of_mem _ ha)) (hc.invoke (by decide) ?_)
    intro a ha
    rw [List.mem_singleton.mp ha]
    exact (hes e List.mem_cons_self n).conversion _

theorem onlyReads_code (scope : Scope) (e : Expr) (n : Nat) :
    OnlyReads (e.code scope n).value := by
  induction e generalizing n with
  | column name type => exact .leaf rfl
  | literal value type => exact onlyReads_literalTree value type
  | cast e type ih => exact (ih n).conversion _
  | concat args type ih =>
    cases args with
    | nil => exact .leaf rfl
    | cons e es =>
      exact onlyReads_foldl (fun a ha => ih a (List.mem_cons_of_mem _ ha))
        ((ih e List.mem_cons_self n).conversion _)
  | upper e type ih => exact (ih n).invoke (by decide) (by simp)
  | lower e type ih => exact (ih n).invoke (by decide) (by simp)
  | substring e position length type ih ihp ihl =>
    refine ((ih n).conversion _).invoke (by decide) ?_
    rintro a (_ | ⟨_, ha⟩)
    · exact ihp _
    · rw [List.mem_singleton.mp ha]
      exact ihl _
  | toDate e type ih => exact .leaf rfl
  | dateAdd date days type ihd ihn => exact .leaf rfl
  | dateSub date days type ihd ihn => exact .leaf rfl
  | extract field e type ih => exact ((ih n).conversion _).field field
  | arithmetic op left right type ihl ihr =>
    intro name hname
    rcases List.mem_append.mp hname with hname | hname
    · exact ihl n name hname
    · exact ihr _ name hname

/-! ## Values -/

/-- A text that refers to no temporary from `i` on and that changes nothing. -/
def Settled (i : Nat) (text : String) : Prop :=
  ∃ ts, Script.tokens? text.toList = some ts ∧
    (∀ j, temporaryName j ∈ references ts → j < i) ∧ ∀ name ∈ Script.members ts, name ∈ readers

theorem Emitted.settled (he : Emitted scope e s f s') (c : Conversion) :
    Settled s'.bindings.length (c.apply f.valueText) := by
  have hvalue := (Expr.code_grammatical he.compiles s.bindings.length).value
  have htext := Conversion.toList_apply c hvalue he.renders.value
  refine ⟨_, by rw [htext, Tree.tokens?_text (Conversion.grammatical_tree c hvalue)], ?_, ?_⟩
  · intro j hj
    rw [Hygiene.references_tree] at hj
    have htidy := Hygiene.tidy_code he.compiles (fun w hw => hw) s.bindings.length
    have hambient : temporaryName j ∉ Hygiene.ambient :=
      Script.temporaryName_not_mem j (by decide)
    have hword := ((Hygiene.keeps_tree c _).2 _ hj).resolve_right hambient
    rcases htidy.value _ hword with hid | hmem | ⟨i, hi, hij⟩
    · have husable := Expr.isUsable_of_mem_identifiers he.compiles hid
      rw [Script.not_isUsable_temporaryName] at husable
      contradiction
    · exact absurd hmem hambient
    · rw [he.length, Script.temporaryName_injective hij]
      exact hi
  · have hmembers := Tree.members_tokens (c.tree (e.code scope s.bindings.length).value) []
    rw [List.append_nil, Script.members, List.append_nil] at hmembers
    rw [hmembers]
    exact (onlyReads_code scope e s.bindings.length).conversion (some c)

/-- The text from which a new date is made. A date is copied by its time. -/
def sourceText (f : Fragment) : String :=
  if f.type = .date then Script.receiver f.valueText ++ ".getTime()" else f.valueText

theorem Emitted.settled_source (he : Emitted scope e s f s') :
    Settled s'.bindings.length (sourceText f) := by
  unfold sourceText
  split
  · exact he.settled .epochOfDate
  · exact he.settled .keep

theorem apply_ownDate {c : Conversion} (h : ownDate? f.type = some c) :
    c.apply f.valueText = "new Date(" ++ sourceText f ++ ")" := by
  unfold ownDate? at h
  unfold sourceText
  split at h
  · next htype =>
    obtain rfl := Option.some.inj h
    rw [if_pos htype]
    change "new Date(" ++ Script.receiver f.valueText ++ ".getTime())" = _
    simp only [String.append_assoc]
    rfl
  · next htype =>
    have hvalue : c = .dateOfValue := by
      unfold dateLike? at h
      rw [if_neg htype] at h
      split at h
      · exact (Option.some.inj h).symm
      · contradiction
    rw [if_neg htype, hvalue]
    rfl

/-! ## Two statements a date -/

/-- `f` is the fragment of `e` where `n` temporaries have been handed out. -/
def Holds (scope : Scope) (n : Nat) (e : Expr) (f : Fragment) : Prop :=
  ∃ s s', Reachable scope s ∧ s.bindings.length = n ∧ outcome (emit scope e) s = (.ok f, s')

def Direction.node : Direction → Expr → Expr → DataType → Expr
  | later => .dateAdd
  | earlier => .dateSub

/-- The statements that make the temporary `i` the date of a node. -/
inductive Makes (scope : Scope) (i : Nat) : Expr → String → String → Prop
  | toDate {k : Nat} {e : Expr} {f : Fragment} (type : DataType) (hk : k + e.temporaries = i)
      (he : Holds scope k e f) (hsource : Settled i (sourceText f)) :
    Makes scope i (.toDate e type)
      ("var " ++ temporaryName i ++ " = new Date(" ++ sourceText f ++ ");")
      (temporaryName i ++ ".setUTCHours(0, 0, 0, 0);")
  | shift {k : Nat} {date days : Expr} {f g : Fragment} (direction : Direction) (type : DataType)
      (hk : k + date.temporaries + days.temporaries = i) (hdate : Holds scope k date f)
      (hdays : Holds scope (k + date.temporaries) days g) (hsource : Settled i (sourceText f))
      (hshift : Settled i g.valueText) :
    Makes scope i (direction.node date days type)
      ("var " ++ temporaryName i ++ " = new Date(" ++ sourceText f ++ ");")
      (temporaryName i ++ ".setUTCDate(" ++ temporaryName i ++ ".getUTCDate() " ++
        direction.sign ++ " (" ++ g.valueText ++ "));")

/-- The statements of nodes, the first of which makes the temporary `n`. -/
inductive MakesAll (scope : Scope) : Nat → List Expr → List String → Prop
  | nil (n : Nat) : MakesAll scope n [] []
  | cons {n : Nat} {d : Expr} {ds : List Expr} {first second : String} {ss : List String}
      (hd : Makes scope n d first second) (hds : MakesAll scope (n + 1) ds ss) :
    MakesAll scope n (d :: ds) (first :: second :: ss)

namespace MakesAll

variable {ds ds' : List Expr} {ss ss' : List String}

theorem append (h : MakesAll scope n ds ss) (h' : MakesAll scope (n + ds.length) ds' ss') :
    MakesAll scope n (ds ++ ds') (ss ++ ss') := by
  induction h with
  | nil n => exact h'
  | cons hd hds ih =>
    rw [List.length_cons, Nat.add_comm _ 1, ← Nat.add_assoc] at h'
    exact .cons hd (ih h')

theorem length (h : MakesAll scope n ds ss) : ss.length = 2 * ds.length := by
  induction h with
  | nil n => rfl
  | cons hd hds ih =>
    rw [List.length_cons, List.length_cons, List.length_cons, ih]
    omega

theorem get (h : MakesAll scope n ds ss) {i : Nat} {d : Expr} (hi : ds[i]? = some d) :
    ∃ first second, ss[2 * i]? = some first ∧ ss[2 * i + 1]? = some second ∧
      Makes scope (n + i) d first second := by
  induction h generalizing i with
  | nil n => contradiction
  | cons hd hds ih =>
    cases i with
    | zero =>
      obtain rfl := Option.some.inj hi
      exact ⟨_, _, rfl, rfl, hd⟩
    | succ i =>
      obtain ⟨first, second, hfirst, hsecond, hmakes⟩ := ih hi
      rw [Nat.add_right_comm] at hmakes
      exact ⟨first, second, hfirst, hsecond, hmakes⟩

end MakesAll

/-! ## Statements of emissions -/

theorem statements_of_cast {target : DataType} (h : outcome (cast f target) s = (.ok g, s')) :
    g.statements = f.statements := by
  obtain ⟨-, ⟨-, rfl⟩ | ⟨-, c, -, rfl⟩⟩ := outcome_cast_ok h <;> rfl

theorem Reachable.next (hs : Reachable scope s)
    (h : outcome (Emission.emit scope e) s = (.ok f, s')) :
    Reachable scope s' ∧ s'.bindings.length = s.bindings.length + e.dateNodes.length := by
  refine ⟨?_, by rw [(emit_ok hs.numbered h).length, Expr.length_dateNodes]⟩
  have hnext := hs.emit e
  rwa [h] at hnext

theorem declaration_ownDate {c : Conversion} (hc : ownDate? f.type = some c) (name : String) :
    declaration name (c.apply f.valueText) =
      "var " ++ name ++ " = new Date(" ++ sourceText f ++ ");" := by
  rw [declaration, apply_ownDate hc]
  simp only [String.append_assoc]
  rfl

theorem makesAll_toDate {type : DataType} (hs : Reachable scope s)
    (h : outcome (emit scope e) s = (.ok f, s'))
    (hall : MakesAll scope s.bindings.length e.dateNodes f.statements)
    (hg : outcome (cutToDay f) s' = (.ok g, t)) :
    MakesAll scope s.bindings.length (Expr.toDate e type).dateNodes g.statements := by
  have he := emit_ok hs.numbered h
  obtain ⟨c, hc, -, rfl⟩ := outcome_cutToDay_ok hg
  rw [Expr.dateNodes_toDate, declaration_ownDate hc]
  refine hall.append ?_
  rw [← (hs.next h).2]
  exact .cons (.toDate type he.length.symm ⟨s, s', hs, rfl, h⟩ he.settled_source) (.nil _)

theorem makesAll_shift {direction : Direction} {date days : Expr} {type : DataType} {k : Fragment}
    (hs : Reachable scope s) (hf : outcome (emit scope date) s = (.ok f, s'))
    (hdate : MakesAll scope s.bindings.length date.dateNodes f.statements)
    (hg : outcome (emit scope days) s' = (.ok g, t))
    (hdays : MakesAll scope s'.bindings.length days.dateNodes g.statements)
    (hk : outcome (shift direction f g) t = (.ok k, u)) :
    MakesAll scope s.bindings.length
      (date.dateNodes ++ days.dateNodes ++ [direction.node date days type]) k.statements := by
  obtain ⟨hs', hlength'⟩ := hs.next hf
  have hd := emit_ok hs.numbered hf
  have hn := emit_ok hs'.numbered hg
  have hlength := hn.length
  obtain ⟨-, c, hc, -, rfl⟩ := outcome_shift_ok hk
  have hsource : Settled t.bindings.length (sourceText f) := by
    obtain ⟨ts, htokens, hbelow, hreads⟩ := hd.settled_source
    exact ⟨ts, htokens, fun j hj => Nat.lt_of_lt_of_le (hbelow j hj) (by omega), hreads⟩
  rw [hlength'] at hdays
  rw [declaration_ownDate hc]
  refine (hdate.append hdays).append ?_
  rw [List.length_append, ← Nat.add_assoc, ← hlength', ← (hs'.next hg).2]
  refine .cons (.shift direction type ?_ ⟨s, s', hs, rfl, hf⟩ ⟨s', t, hs', hd.length, hg⟩ hsource
    (hn.settled .keep)) (.nil _)
  rw [hlength, hd.length]

theorem makesAll_arguments {es : List Expr} {ds : List Expr} {acc : Fragment}
    (hes : ∀ e ∈ es, ∀ {s s' : State} {f : Fragment}, Reachable scope s →
      outcome (emit scope e) s = (.ok f, s') →
      MakesAll scope s.bindings.length e.dateNodes f.statements)
    (hs : Reachable scope s) (hacc : MakesAll scope n ds acc.statements)
    (hn : s.bindings.length = n + ds.length)
    (h : outcome (concat scope (some acc) es) s = (.ok g, s')) :
    MakesAll scope n (ds ++ es.flatMap Expr.dateNodes) g.statements := by
  induction es generalizing acc ds s with
  | nil =>
    rw [concat, outcome_pure, Prod.mk.injEq, Except.ok.injEq] at h
    obtain ⟨rfl, rfl⟩ := h
    rwa [List.flatMap_nil, List.append_nil]
  | cons e es ih =>
    obtain ⟨f, k, s₁, hemit, hcast, hrest⟩ := outcome_concat_cons_ok h
    have hstatements := statements_of_cast hcast
    obtain ⟨hs₁, hlength⟩ := hs.next hemit
    have hone := hes e List.mem_cons_self hs hemit
    rw [hn, ← hstatements] at hone
    rw [List.flatMap_cons, ← List.append_assoc]
    refine ih (fun a ha => hes a (List.mem_cons_of_mem _ ha)) hs₁ (hacc.append hone) ?_ hrest
    rw [hlength, hn, List.length_append, Nat.add_assoc]

/-- The statements of an expression are those of its dates, operands first. -/
theorem makesAll_emit (hs : Reachable scope s) (h : outcome (emit scope e) s = (.ok f, s')) :
    MakesAll scope s.bindings.length e.dateNodes f.statements := by
  induction e generalizing s s' f with
  | column name type =>
    rw [emit] at h
    obtain ⟨c, -, -, -, rfl, -⟩ := outcome_column_ok h
    exact .nil _
  | literal value type =>
    rw [emit, outcome_liftExcept, Prod.mk.injEq] at h
    obtain ⟨-, text, rfl, -⟩ := Expr.literal?_ok scope h.1
    exact .nil _
  | cast e type ih =>
    rw [emit] at h
    obtain ⟨g, s₁, hemit, hcast⟩ := outcome_bind_ok.mp h
    rw [statements_of_cast hcast, Expr.dateNodes_operand rfl rfl]
    exact ih hs hemit
  | concat args type ih =>
    rw [emit] at h
    rw [Expr.dateNodes_concat]
    cases args with
    | nil => simp [concat] at h
    | cons e es =>
      obtain ⟨g, k, s₁, hemit, hcast, hrest⟩ := outcome_concat_cons_ok h
      have hstatements := statements_of_cast hcast
      obtain ⟨hs₁, hlength⟩ := hs.next hemit
      have hfirst := ih e List.mem_cons_self hs hemit
      rw [← hstatements] at hfirst
      exact makesAll_arguments (fun a ha _ _ _ hr ho => ih a (List.mem_cons_of_mem _ ha) hr ho)
        hs₁ hfirst hlength hrest
  | upper e type ih =>
    rw [emit] at h
    obtain ⟨g, s₁, hemit, hcase⟩ := outcome_bind_ok.mp h
    obtain ⟨-, -, rfl⟩ := outcome_changeCase_ok hcase
    rw [Expr.dateNodes_operand rfl rfl]
    have hall := ih hs hemit
    exact hall
  | lower e type ih =>
    rw [emit] at h
    obtain ⟨g, s₁, hemit, hcase⟩ := outcome_bind_ok.mp h
    obtain ⟨-, -, rfl⟩ := outcome_changeCase_ok hcase
    rw [Expr.dateNodes_operand rfl rfl]
    have hall := ih hs hemit
    exact hall
  | substring e position length type ih ihp ihl =>
    obtain ⟨-, -, g, k, p, l, s₁, s₃, hemit, hcast, hposition, -, hlength, -, rfl⟩ :=
      outcome_substring_ok h
    have hstatements := statements_of_cast hcast
    obtain ⟨hs₁, hnext⟩ := hs.next hemit
    obtain ⟨hs₃, hnext'⟩ := hs₁.next hposition
    have hoperand := ih hs hemit
    have hp := ihp hs₁ hposition
    have hl := ihl hs₃ hlength
    rw [← hstatements] at hoperand
    rw [hnext] at hp hnext'
    rw [hnext', Nat.add_assoc, ← List.length_append] at hl
    rw [Expr.dateNodes_substring]
    exact (hoperand.append hp).append hl
  | toDate e type ih =>
    rw [emit] at h
    obtain ⟨g, s₁, hemit, hcut⟩ := outcome_bind_ok.mp h
    exact makesAll_toDate hs hemit (ih hs hemit) hcut
  | dateAdd date days type ihd ihn =>
    rw [emit] at h
    obtain ⟨g, s₁, hdate, hrest⟩ := outcome_bind_ok.mp h
    obtain ⟨k, s₂, hdays, hshift⟩ := outcome_bind_ok.mp hrest
    rw [Expr.dateNodes_dateAdd]
    exact makesAll_shift hs hdate (ihd hs hdate) hdays (ihn (hs.next hdate).1 hdays) hshift
  | dateSub date days type ihd ihn =>
    rw [emit] at h
    obtain ⟨g, s₁, hdate, hrest⟩ := outcome_bind_ok.mp h
    obtain ⟨k, s₂, hdays, hshift⟩ := outcome_bind_ok.mp hrest
    rw [Expr.dateNodes_dateSub]
    exact makesAll_shift hs hdate (ihd hs hdate) hdays (ihn (hs.next hdate).1 hdays) hshift
  | extract field e type ih =>
    rw [emit] at h
    obtain ⟨g, s₁, hemit, hextract⟩ := outcome_bind_ok.mp h
    obtain ⟨-, c, -, rfl⟩ := outcome_extract_ok hextract
    rw [Expr.dateNodes_operand rfl rfl]
    have hall := ih hs hemit
    exact hall
  | arithmetic op left right type ihl ihr =>
    rw [emit] at h
    obtain ⟨l, s₁, hleft, hrest⟩ := outcome_bind_ok.mp h
    obtain ⟨r, s₂, hright, hend⟩ := outcome_bind_ok.mp hrest
    rw [outcome_pure, Prod.mk.injEq, Except.ok.injEq] at hend
    obtain ⟨rfl, rfl⟩ := hend
    obtain ⟨hs₁, hnext⟩ := hs.next hleft
    have hr := ihr hs₁ hright
    rw [hnext] at hr
    rw [Expr.dateNodes_arithmetic]
    exact (ihl hs hleft).append hr

end Emission

open Emission (Makes Settled)

/-- **Statements.** A function has two statements for each date that its expression makes. Nothing
else in it changes anything. -/
theorem tryCompile_statements {scope : Scope} {e : Expr} {f : RowFunction}
    (h : tryCompile scope e = .ok f) :
    f.statements.length = 2 * e.dateNodes.length ∧
      (∀ i node, e.dateNodes[i]? = some node → ∃ first second,
        f.statements[2 * i]? = some first ∧ f.statements[2 * i + 1]? = some second ∧
          Makes scope i node first second) ∧
      Settled e.dateNodes.length f.result := by
  obtain ⟨g, root, hemit, hcast, -, rfl⟩ := outcome_of_tryCompile h
  have he := Emission.emit_ok .empty hemit
  have hall := Emission.makesAll_emit .empty hemit
  rw [← Emission.statements_of_cast hcast] at hall
  refine ⟨hall.length, fun i node hi => ?_, ?_⟩
  · obtain ⟨first, second, hfirst, hsecond, hmakes⟩ := hall.get hi
    rw [List.length_nil, Nat.zero_add] at hmakes
    exact ⟨first, second, hfirst, hsecond, hmakes⟩
  · have hlength := (Emission.Reachable.empty.next hemit).2
    rw [List.length_nil, Nat.zero_add] at hlength
    rw [← hlength]
    obtain ⟨-, ⟨-, rfl⟩ | ⟨-, c, -, rfl⟩⟩ := Emission.outcome_cast_ok hcast
    · exact he.settled .keep
    · exact he.settled c

/-- Dates on both sides of a shift, whose temporary comes after theirs. -/
theorem tryCompile_statements_shift :
    let scope : Scope := .ofColumn "d" ⟨"d", .dimension, .date⟩
    let cut : Expr := .toDate (.column "d" .date) .date
    let shifted : Expr := .dateSub cut (.extract .month cut .integer) .date
    let f : RowFunction := ⟨["d"],
      ["var __v0 = new Date(d.getTime());", "__v0.setUTCHours(0, 0, 0, 0);",
        "var __v1 = new Date(d.getTime());", "__v1.setUTCHours(0, 0, 0, 0);",
        "var __v2 = new Date(__v0.getTime());",
        "__v2.setUTCDate(__v2.getUTCDate() - ((__v1.getUTCMonth() + 1)));"],
      "__v2.toISOString()"⟩
    tryCompile scope shifted = .ok f ∧ f.statements.length = 2 * 3 ∧
      (∃ first second, f.statements[4]? = some first ∧ f.statements[5]? = some second ∧
        Makes scope 2 shifted first second) ∧
      Settled 3 f.result := by
  intro scope cut shifted f
  have hf : tryCompile scope shifted = .ok f := by decide +kernel
  obtain ⟨hlength, hmakes, hresult⟩ := tryCompile_statements hf
  exact ⟨hf, hlength, hmakes 2 shifted rfl, hresult⟩

end RowScript

import RowScript.Proofs.Compiled
import RowScript.Proofs.Requests

/-!
# Calendar days

A date becomes a string with its time of day, unless it has been cut to its day
and nothing has been done to it since. Which of the two it is can be seen from
the expression alone: it is a `toDate`, in any number of casts to dates
(`Expr.IsCut`). What has been emitted before, in vain or not, makes no difference,
nor does what is emitted until the string is asked for (`dateText_iff_isCut`).
-/

namespace RowScript

/-- A date that is cut to its day, in any number of casts to dates. -/
inductive Expr.IsCut : Expr → Prop
  | toDate (operand : Expr) (type : DataType) : IsCut (.toDate operand type)
  | cast {e : Expr} (h : IsCut e) : IsCut (.cast e .date)

theorem Expr.isDay_iff {e : Expr} : e.isDay = true ↔ e.IsCut := by
  constructor
  · intro h
    induction e with
    | toDate operand type => exact .toDate operand type
    | cast e type ih =>
      simp only [isDay, Bool.and_eq_true, decide_eq_true_eq] at h
      obtain ⟨rfl, hday⟩ := h
      exact .cast (ih hday)
    | _ => simp [isDay] at h
  · intro h
    induction h with
    | toDate operand type => rfl
    | cast h ih =>
      rw [isDay, ih]
      rfl

namespace Emission

open Script (temporaryName)

variable {scope : Scope} {s s' t : State} {e : Expr} {f g : Fragment}

/-! ## Temporaries of fragments -/

theorem concat_boundName {es : List Expr} {acc : Option Fragment}
    (h : outcome (concat scope acc es) s = (.ok f, s')) : f.boundName = none := by
  induction es generalizing acc s with
  | nil =>
    cases acc with
    | none => simp [concat] at h
    | some k =>
      rw [concat, outcome_pure, Prod.mk.injEq, Except.ok.injEq] at h
      rw [← h.1]
      rfl
  | cons e es ih =>
    obtain ⟨g, k, s₁, -, -, hrest⟩ := outcome_concat_cons_ok h
    exact ih hrest

theorem mem_temporaries_of_emit (h : outcome (emit scope e) s = (.ok f, s')) {name : String}
    (hname : f.boundName = some name) : name ∈ s'.bindings.map Binding.temporary := by
  induction e generalizing s s' f with
  | column column type =>
    rw [emit] at h
    obtain ⟨c, -, -, -, rfl, -⟩ := outcome_column_ok h
    contradiction
  | literal value type =>
    rw [emit, outcome_liftExcept, Prod.mk.injEq] at h
    obtain ⟨-, text, rfl, -⟩ := Expr.literal?_ok scope h.1
    contradiction
  | cast e type ih =>
    rw [emit] at h
    obtain ⟨g, s₁, hemit, hcast⟩ := outcome_bind_ok.mp h
    obtain ⟨rfl, ⟨-, rfl⟩ | ⟨-, c, -, rfl⟩⟩ := outcome_cast_ok hcast
    · exact ih hemit hname
    · contradiction
  | concat args type ih =>
    rw [emit] at h
    rw [concat_boundName h] at hname
    contradiction
  | upper e type ih =>
    rw [emit] at h
    obtain ⟨g, s₁, -, hcase⟩ := outcome_bind_ok.mp h
    obtain ⟨-, -, rfl⟩ := outcome_changeCase_ok hcase
    contradiction
  | lower e type ih =>
    rw [emit] at h
    obtain ⟨g, s₁, -, hcase⟩ := outcome_bind_ok.mp h
    obtain ⟨-, -, rfl⟩ := outcome_changeCase_ok hcase
    contradiction
  | substring e position length type ih ihp ihl =>
    obtain ⟨-, -, g, k, p, l, s₁, s₂, -, -, -, -, -, -, rfl⟩ := outcome_substring_ok h
    contradiction
  | toDate e type ih =>
    rw [emit] at h
    obtain ⟨g, s₁, -, hcut⟩ := outcome_bind_ok.mp h
    obtain ⟨c, -, rfl, rfl⟩ := outcome_cutToDay_ok hcut
    obtain rfl := Option.some.inj hname
    simp [Binding.temporary]
  | dateAdd date days type ihd ihn =>
    rw [emit] at h
    obtain ⟨g, s₁, -, hrest⟩ := outcome_bind_ok.mp h
    obtain ⟨k, s₂, -, hshift⟩ := outcome_bind_ok.mp hrest
    obtain ⟨-, c, -, rfl, rfl⟩ := outcome_shift_ok hshift
    obtain rfl := Option.some.inj hname
    simp [Binding.temporary]
  | dateSub date days type ihd ihn =>
    rw [emit] at h
    obtain ⟨g, s₁, -, hrest⟩ := outcome_bind_ok.mp h
    obtain ⟨k, s₂, -, hshift⟩ := outcome_bind_ok.mp hrest
    obtain ⟨-, c, -, rfl, rfl⟩ := outcome_shift_ok hshift
    obtain rfl := Option.some.inj hname
    simp [Binding.temporary]
  | extract field e type ih =>
    rw [emit] at h
    obtain ⟨g, s₁, -, hextract⟩ := outcome_bind_ok.mp h
    obtain ⟨-, c, -, rfl⟩ := outcome_extract_ok hextract
    contradiction
  | arithmetic op left right type ihl ihr =>
    rw [emit] at h
    obtain ⟨l, s₁, -, hrest⟩ := outcome_bind_ok.mp h
    obtain ⟨r, s₂, -, hend⟩ := outcome_bind_ok.mp hrest
    rw [outcome_pure, Prod.mk.injEq, Except.ok.injEq] at hend
    rw [← hend.1] at hname
    contradiction

theorem Advances.isDay_eq (h : Advances scope s t) (hs : s.Numbered) {name : String}
    (hname : name ∈ s.bindings.map Binding.temporary) : t.isDay name = s.isDay name := by
  obtain ⟨new, ht, hnew⟩ := h.bindings
  have hother : ((new.filter Binding.isDay).map Binding.temporary).contains name = false := by
    rw [List.contains_eq_mem, decide_eq_false_iff_not]
    intro hm
    obtain ⟨b, hb, hbn⟩ := List.mem_map.mp hm
    have hmem : name ∈ new.map Binding.temporary :=
      hbn ▸ List.mem_map_of_mem (List.mem_filter.mp hb).1
    rw [hnew] at hmem
    obtain ⟨j, hj, rfl⟩ := List.mem_map.mp hmem
    obtain ⟨i, hi, hij⟩ := hs.mem_temporaries.mp hname
    have hge := (List.mem_range'_1.mp hj).1
    rw [Script.temporaryName_injective hij] at hge
    omega
  rw [State.isDay, State.isDay, State.days, State.days, ht, List.filter_append, List.map_append,
    List.contains_append, hother, Bool.or_false]

/-! ## Dates as strings -/

/-- `text` is a date as a string, the value of `e` that the fragment `f` holds. -/
structure DateText (e : Expr) (f : Fragment) (text : String) : Prop where
  day : e.IsCut ↔
    ∃ name, f.boundName = some name ∧ text = name ++ ".toISOString().substring(0, 10)"
  whole : ¬e.IsCut → text = Script.receiver f.valueText ++ ".toISOString()"

theorem outcome_cast_date (hf : f.type = .date) (s : State) :
    outcome (cast f .string) s =
      (.ok (.inline f.statements ((if f.boundName.any s.isDay then Conversion.dayText
        else .dateText).apply f.valueText) .string), s) := by
  unfold cast
  rw [hf, if_neg (by decide), outcome_bind, outcome_get]
  rfl

theorem append_dateText_ne (a b : String) :
    a ++ ".toISOString()" ≠ b ++ ".toISOString().substring(0, 10)" := by
  intro h
  have hends := congrArg (fun text => (text.toList.reverse.drop 1).head?) h
  simp at hends

theorem dateText_of_isDay (he : f.boundName.any s.isDay = e.isDay)
    (hname : ∀ name, f.boundName = some name → ∃ i, name = temporaryName i) :
    DateText e f ((if f.boundName.any s.isDay then Conversion.dayText
      else .dateText).apply f.valueText) := by
  rw [he]
  cases hcut : e.isDay with
  | true =>
    have hiscut : e.IsCut := Expr.isDay_iff.mp hcut
    refine ⟨⟨fun _ => ?_, fun _ => hiscut⟩, fun h => absurd hiscut h⟩
    cases hbound : f.boundName with
    | none => simp [hbound, hcut] at he
    | some name =>
      obtain ⟨i, hi⟩ := hname name hbound
      have hvalue : f.valueText = name := by rw [Fragment.valueText, hbound, Option.getD_some]
      refine ⟨name, rfl, ?_⟩
      change Script.receiver f.valueText ++ ".toISOString().substring(0, 10)" = _
      rw [hvalue, hi, Script.receiver_temporaryName]
  | false =>
    have hiscut : ¬e.IsCut := fun h => by
      rw [Expr.isDay_iff.mpr h] at hcut
      contradiction
    refine ⟨⟨fun h => absurd h hiscut, ?_⟩, fun _ => rfl⟩
    rintro ⟨name, -, htext⟩
    exact absurd htext (append_dateText_ne _ _)

theorem dateText_later (hs : s.Numbered) (h : outcome (emit scope e) s = (.ok f, s'))
    (hf : f.type = .date) (ht : Advances scope s' t) :
    ∃ text, outcome (cast f .string) t = (.ok (.inline f.statements text .string), t) ∧
      DateText e f text := by
  have he := emit_ok hs h
  have hday : f.boundName.any t.isDay = e.isDay := by
    rw [← he.isDay]
    cases hname : f.boundName with
    | none => rfl
    | some name => exact ht.isDay_eq (he.numbered hs) (mem_temporaries_of_emit h hname)
  refine ⟨_, outcome_cast_date hf t, dateText_of_isDay hday fun name hname => ?_⟩
  obtain ⟨i, -, hi⟩ :=
    (he.numbered hs).mem_temporaries.mp (mem_temporaries_of_emit h hname)
  exact ⟨i, hi⟩

/-! ## Where strings are asked for -/

/-- From `s` to `s'` the code of `e` has been emitted and cast to a string with the value `text`. -/
def StringOf (scope : Scope) (s : State) (e : Expr) (text : String) (s' : State) : Prop :=
  ∃ f g, outcome (emit scope e) s = (.ok f, s') ∧ outcome (cast f .string) s' = (.ok g, s') ∧
    g.valueText = text ∧ (f.type = .date → DateText e f text)

/-- The strings of expressions, one after another. -/
inductive StringsOf (scope : Scope) : State → List Expr → List String → State → Prop
  | nil (s : State) : StringsOf scope s [] [] s
  | cons {s s' t : State} {e : Expr} {es : List Expr} {text : String} {texts : List String}
    (head : StringOf scope s e text s') (tail : StringsOf scope s' es texts t) :
    StringsOf scope s (e :: es) (text :: texts) t

/-- The call that appends strings to a first one, each of them to what there is so far. -/
def appended (first : String) (rest : List String) : String :=
  rest.foldl (fun text next => Script.receiver text ++ ".concat(" ++ next ++ ")") first

theorem stringOf_of_cast (hs : s.Numbered) (h : outcome (emit scope e) s = (.ok f, s'))
    (hcast : outcome (cast f .string) s' = (.ok g, t)) :
    t = s' ∧ s'.Numbered ∧ StringOf scope s e g.valueText s' := by
  obtain ⟨rfl, -⟩ := outcome_cast_ok hcast
  refine ⟨rfl, (emit_ok hs h).numbered hs, f, g, h, hcast, rfl, fun hf => ?_⟩
  obtain ⟨text, hdate, htext⟩ := dateText_later hs h hf (.refl scope t)
  rw [hcast, Prod.mk.injEq, Except.ok.injEq] at hdate
  rw [hdate.1]
  exact htext

theorem stringsOf_concat {es : List Expr} {first : Fragment} (hs : s.Numbered)
    (h : outcome (concat scope (some first) es) s = (.ok g, s')) :
    ∃ rest, StringsOf scope s es rest s' ∧ g.valueText = appended first.valueText rest := by
  induction es generalizing first s with
  | nil =>
    rw [concat, outcome_pure, Prod.mk.injEq, Except.ok.injEq] at h
    obtain ⟨rfl, rfl⟩ := h
    exact ⟨[], .nil s, rfl⟩
  | cons e es ih =>
    obtain ⟨f, k, s₁, hemit, hcast, hrest⟩ := outcome_concat_cons_ok h
    obtain ⟨-, hs₁, hstring⟩ := stringOf_of_cast hs hemit hcast
    obtain ⟨rest, hstrings, hvalue⟩ := ih hs₁ hrest
    exact ⟨k.valueText :: rest, .cons hstring hstrings, hvalue⟩

theorem stringOf_cast (hs : s.Numbered)
    (h : outcome (emit scope (.cast e .string)) s = (.ok g, s')) :
    StringOf scope s e g.valueText s' := by
  rw [emit] at h
  obtain ⟨f, s₁, hemit, hcast⟩ := outcome_bind_ok.mp h
  obtain ⟨rfl, -, hstring⟩ := stringOf_of_cast hs hemit hcast
  exact hstring

theorem stringsOf_arguments {args : List Expr} {type : DataType} (hs : s.Numbered)
    (h : outcome (emit scope (.concat args type)) s = (.ok g, s')) :
    ∃ first rest, StringsOf scope s args (first :: rest) s' ∧
      g.valueText = appended first rest := by
  rw [emit] at h
  cases args with
  | nil => simp [concat] at h
  | cons e es =>
    obtain ⟨f, k, s₁, hemit, hcast, hrest⟩ := outcome_concat_cons_ok h
    obtain ⟨-, hs₁, hstring⟩ := stringOf_of_cast hs hemit hcast
    obtain ⟨rest, hstrings, hvalue⟩ := stringsOf_concat hs₁ hrest
    exact ⟨k.valueText, rest, .cons hstring hstrings, hvalue⟩

theorem stringOf_substring {position length : Expr} {type : DataType} (hs : s.Numbered)
    (h : outcome (emit scope (.substring e position length type)) s = (.ok g, s')) :
    ∃ text s₁ bounds, StringOf scope s e text s₁ ∧
      g.valueText = Script.receiver text ++ ".substr(" ++ bounds ++ ")" := by
  obtain ⟨-, -, f, k, p, l, s₁, s₂, hemit, hcast, -, -, -, -, rfl⟩ := outcome_substring_ok h
  obtain ⟨-, -, hstring⟩ := stringOf_of_cast hs hemit hcast
  refine ⟨k.valueText, s₁, p.inlineText ++ ", " ++ l.inlineText, hstring, ?_⟩
  simp [slice, String.append_assoc]

theorem stringOf_root {fn : RowFunction} (h : tryCompile scope e = .ok fn) :
    ∃ s', StringOf scope {} e fn.result s' := by
  obtain ⟨f, root, hemit, hcast, -, rfl⟩ := outcome_of_tryCompile h
  obtain ⟨-, -, hstring⟩ := stringOf_of_cast .empty hemit hcast
  exact ⟨_, hstring⟩

/-- **Days.** In every state that requests have left, a date becomes a string without its time of
day if and only if it is cut to its day, wherever the string is asked for. -/
theorem dateText_iff_isCut (hs : Reachable scope s) (e : Expr) :
    (∀ f s', outcome (emit scope e) s = (.ok f, s') → f.type = .date → ∀ later,
      let t := serve scope s' later
      ∃ text, outcome (cast f .string) t = (.ok (.inline f.statements text .string), t) ∧
        DateText e f text) ∧
    (∀ g s', outcome (emit scope (.cast e .string)) s = (.ok g, s') →
      StringOf scope s e g.valueText s') ∧
    (∀ args type g s', outcome (emit scope (.concat args type)) s = (.ok g, s') →
      ∃ first rest, StringsOf scope s args (first :: rest) s' ∧
        g.valueText = appended first rest) ∧
    (∀ position length type g s',
      outcome (emit scope (.substring e position length type)) s = (.ok g, s') →
      ∃ text s₁ bounds, StringOf scope s e text s₁ ∧
        g.valueText = Script.receiver text ++ ".substr(" ++ bounds ++ ")") ∧
    ∀ fn, tryCompile scope e = .ok fn → ∃ s', StringOf scope {} e fn.result s' := by
  have hn := hs.numbered
  refine ⟨fun f s' h hf later => ?_, fun g s' => stringOf_cast hn, fun args type g s' =>
    stringsOf_arguments hn, fun position length type g s' => stringOf_substring hn,
    fun fn => stringOf_root⟩
  exact dateText_later hn h hf (advances_serve scope s' later)

theorem outcome_of_valueText (x : Emission Fragment) (s : State) (text : String)
    (h : (outcome x s).1.map Fragment.valueText = .ok text) :
    ∃ g t, outcome x s = (.ok g, t) ∧ g.valueText = text := by
  rcases hx : outcome x s with ⟨r | g, t⟩
  · rw [hx] at h
    contradiction
  · rw [hx] at h
    exact ⟨g, t, rfl, Except.ok.inj h⟩

/-- After a request that has cut a date in vain. A shift of a cut date is not cut. -/
theorem dateText_iff_isCut_refused :
    let scope : Scope := ⟨fun name => some ⟨name, .dimension, .date⟩, true⟩
    let cut : Expr := .cast (.toDate (.column "b" .date) .date) .date
    let shifted : Expr := .dateAdd cut (.literal (some "1") .long) .date
    let s := serve scope {} [.emit (.upper (.toDate (.column "a" .date) .date) .string)]
    let f : Fragment := .bound "__v1"
      ["var __v1 = new Date(b.getTime());", "__v1.setUTCHours(0, 0, 0, 0);"] .date
    let s' : State := ⟨["a", "b"], [.day "__v0" .date, .day "__v1" .date]⟩
    s = ⟨["a"], [.day "__v0" .date]⟩ ∧
      outcome (emit scope cut) s = (.ok f, s') ∧
      (∃ text, outcome (cast f .string) (serve scope s' [.emit shifted]) =
        (.ok (.inline f.statements text .string), serve scope s' [.emit shifted]) ∧
        DateText cut f text) ∧
      StringOf scope s cut "__v1.toISOString().substring(0, 10)" s' ∧
      (∃ first rest t, StringsOf scope s [cut, shifted] (first :: rest) t ∧
        appended first rest =
          "(__v1.toISOString().substring(0, 10)).concat(__v3.toISOString())") ∧
      (∃ text s₁ bounds, StringOf scope s cut text s₁ ∧
        Script.receiver text ++ ".substr(" ++ bounds ++ ")" =
          "(__v1.toISOString().substring(0, 10)).substr(0, 4)") ∧
      ∃ t, StringOf scope {} cut "__v0.toISOString().substring(0, 10)" t := by
  intro scope cut shifted s f s'
  have hs : s = ⟨["a"], [.day "__v0" .date]⟩ := rfl
  have hf : outcome (emit scope cut) s = (.ok f, s') := by decide +kernel
  have hreachable : Reachable scope s := reachable_serve .empty _
  obtain ⟨hlater, hcast, hconcat, hsubstring, hroot⟩ := dateText_iff_isCut hreachable cut
  refine ⟨hs, hf, hlater f s' hf rfl [.emit shifted], ?_, ?_, ?_, ?_⟩
  · exact hcast (.inline f.statements "__v1.toISOString().substring(0, 10)" .string) s'
      (by decide +kernel)
  · obtain ⟨g, t, hg, hvalue⟩ := outcome_of_valueText
      (emit scope (.concat [cut, shifted] .string)) s
      "(__v1.toISOString().substring(0, 10)).concat(__v3.toISOString())" (by decide +kernel)
    obtain ⟨first, rest, hstrings, htext⟩ := hconcat _ _ g t hg
    exact ⟨first, rest, t, hstrings, htext.symm.trans hvalue⟩
  · obtain ⟨g, t, hg, hvalue⟩ := outcome_of_valueText
      (emit scope
        (.substring cut (.literal (some "0") .long) (.literal (some "4") .long) .string)) s
      "(__v1.toISOString().substring(0, 10)).substr(0, 4)" (by decide +kernel)
    obtain ⟨text, s₁, bounds, hstring, htext⟩ := hsubstring _ _ _ g t hg
    exact ⟨text, s₁, bounds, hstring, htext.symm.trans hvalue⟩
  · exact hroot ⟨["b"], ["var __v0 = new Date(b.getTime());", "__v0.setUTCHours(0, 0, 0, 0);"],
      "__v0.toISOString().substring(0, 10)"⟩ (by decide +kernel)

end Emission

end RowScript

import RowScript.Proofs.Emission.Outcome
import RowScript.Proofs.Emission.Text

/-!
# What an emission has emitted

An emission that succeeds has emitted the code of its expression: the texts of
the fragment are the texts of `Expr.code`, and the state has grown by the
bindings and the identifiers of the expression (`emit_ok`). Everything else
about generated functions is read off the code.
-/

namespace RowScript

open Script (Tree Statement temporaryName)

namespace Emission

/-! ## Numbered temporaries -/

theorem map_temporary_bindings (scope : Scope) (e : Expr) (n : Nat) :
    (e.bindings scope n).map Binding.temporary =
      (List.range' n e.temporaries).map temporaryName := by
  have hmore : ∀ n a b, (List.range' n a).map temporaryName ++
      (List.range' (n + a) b).map temporaryName = (List.range' n (a + b)).map temporaryName := by
    intro n a b
    rw [← List.map_append, List.range'_append_1]
  have hone : ∀ n, [temporaryName n] = (List.range' n 1).map temporaryName := by
    intro n
    rfl
  induction e generalizing n with
  | column name type => rfl
  | literal value type => rfl
  | cast e type ih => exact ih n
  | concat args type ih =>
    rw [Expr.bindings, Expr.temporaries]
    clear type
    induction args generalizing n with
    | nil => rfl
    | cons e es ihs =>
      rw [Expr.bindingsOf, Expr.temporariesOf, List.map_append, ih e List.mem_cons_self,
        ihs fun a ha => ih a (List.mem_cons_of_mem _ ha), hmore]
  | upper e type ih => exact ih n
  | lower e type ih => exact ih n
  | substring e position length type ih ihp ihl =>
    rw [Expr.bindings, Expr.temporaries, List.map_append, List.map_append, ih, ihp, ihl, hmore,
      Nat.add_assoc n, hmore]
  | toDate e type ih =>
    rw [Expr.bindings, Expr.temporaries, List.map_append, ih, List.map_singleton,
      Binding.temporary, hone, hmore]
  | dateAdd date days type ihd ihn =>
    rw [Expr.bindings, Expr.temporaries, List.map_append, List.map_append, ihd, ihn,
      List.map_singleton, Binding.temporary, hone, hmore, Nat.add_assoc n, hmore]
  | dateSub date days type ihd ihn =>
    rw [Expr.bindings, Expr.temporaries, List.map_append, List.map_append, ihd, ihn,
      List.map_singleton, Binding.temporary, hone, hmore, Nat.add_assoc n, hmore]
  | extract field e type ih => exact ih n
  | arithmetic op left right type ihl ihr =>
    rw [Expr.bindings, Expr.temporaries, List.map_append, ihl, ihr, hmore]

theorem length_bindings (scope : Scope) (e : Expr) (n : Nat) :
    (e.bindings scope n).length = e.temporaries := by
  have h := congrArg List.length (map_temporary_bindings scope e n)
  simpa using h

/-- The temporaries are those that are handed out from zero on. -/
def State.Numbered (s : State) : Prop :=
  s.bindings.map Binding.temporary = (List.range' 0 s.bindings.length).map temporaryName

theorem State.Numbered.empty : State.Numbered {} := rfl

theorem State.Numbered.append {s : State} (h : s.Numbered) (scope : Scope) (e : Expr)
    (inputs : List String) :
    State.Numbered ⟨inputs, s.bindings ++ e.bindings scope s.bindings.length⟩ := by
  rw [State.Numbered] at *
  rw [List.map_append, h, map_temporary_bindings, List.length_append, length_bindings,
    ← List.range'_append_1, List.map_append, Nat.zero_add]

theorem State.Numbered.isDay_next {s : State} (h : s.Numbered) :
    s.isDay (temporaryName s.bindings.length) = false := by
  rw [State.isDay, List.contains_eq_mem, decide_eq_false_iff_not, State.days]
  intro hm
  obtain ⟨b, hb, hname⟩ := List.mem_map.mp hm
  have hall : b.temporary ∈ s.bindings.map Binding.temporary :=
    List.mem_map_of_mem (List.mem_filter.mp hb).1
  rw [h, hname] at hall
  obtain ⟨i, hi, heq⟩ := List.mem_map.mp hall
  have hlt := List.mem_range'_1.mp hi
  rw [Script.temporaryName_inj] at heq
  omega

theorem State.isDay_bind (s : State) (b : Binding) (name : String) :
    State.isDay { s with bindings := s.bindings ++ [b] } name =
      (s.isDay name || (b.isDay && b.temporary == name)) := by
  rw [State.isDay, State.isDay, State.days, State.days, List.filter_append, List.map_append,
    List.contains_append]
  cases b with
  | day temporary source =>
    have hday : [Binding.day temporary source].filter Binding.isDay = [.day temporary source] := rfl
    rw [hday]
    simp [Binding.isDay, Binding.temporary, Bool.beq_comm, Bool.beq_eq_decide_eq]
  | shift temporary callee =>
    have hnone : [Binding.shift temporary callee].filter Binding.isDay = [] := rfl
    rw [hnone]
    simp [Binding.isDay]

/-! ## Fragments of code -/

/-- The texts of a fragment are those of some code. -/
structure Renders (f : Fragment) (c : Code) : Prop where
  statements : f.statements.map String.toList = c.statements.map Statement.text
  value : f.valueText.toList = c.value.text

/-- What a fragment and the state after it have to do with an expression emitted in state `s`. -/
structure Emitted (scope : Scope) (e : Expr) (s : State) (f : Fragment) (s' : State) : Prop where
  compiles : e.Compiles scope
  type : f.type = e.typeIn scope
  renders : Renders f (e.code scope s.bindings.length)
  isDay : f.boundName.any s'.isDay = e.isDay
  state : s' = ⟨(e.identifiers scope).foldl addNew s.inputs,
    s.bindings ++ e.bindings scope s.bindings.length⟩

theorem Emitted.length {scope : Scope} {e : Expr} {s s' : State} {f : Fragment}
    (h : Emitted scope e s f s') : s'.bindings.length = s.bindings.length + e.temporaries := by
  rw [h.state, List.length_append, length_bindings]

theorem Emitted.numbered {scope : Scope} {e : Expr} {s s' : State} {f : Fragment}
    (h : Emitted scope e s f s') (hs : s.Numbered) : s'.Numbered := by
  rw [h.state]
  exact hs.append scope e _

theorem Expr.typeIn_of_isDay {scope : Scope} {e : Expr} (h : e.isDay = true) :
    e.typeIn scope = .date := by
  cases e with
  | toDate e type => rfl
  | cast e type =>
    simp only [Expr.isDay, Bool.and_eq_true, decide_eq_true_eq] at h
    exact h.1
  | _ => simp [Expr.isDay] at h

/-- What a cast makes of the fragment of `e`. -/
structure Cast (scope : Scope) (e : Expr) (target : DataType) (n : Nat) (s : State) (g : Fragment) :
    Prop where
  isSome : (e.conversionTo scope target).isSome = true
  type : g.type = target
  renders : Renders g ((e.code scope n).map (Conversion.treeOf (e.conversionTo scope target)))
  isDay : g.boundName.any s.isDay = (decide (target = .date) && e.isDay)

theorem conversion?_self (t : DataType) (isDay : Bool) : conversion? t t isDay = some .keep := by
  unfold conversion?
  rw [if_pos rfl]

theorem Emitted.cast {scope : Scope} {e : Expr} {s s₁ s₂ : State} {f g : Fragment}
    {target : DataType} (h : Emitted scope e s f s₁)
    (hg : outcome (cast f target) s₁ = (.ok g, s₂)) :
    s₂ = s₁ ∧ Cast scope e target s.bindings.length s₁ g := by
  obtain ⟨rfl, hcases⟩ := outcome_cast_ok hg
  refine ⟨rfl, ?_⟩
  rcases hcases with ⟨htype, rfl⟩ | ⟨htype, c, hc, rfl⟩
  · have hkeep : e.conversionTo scope target = some .keep := by
      rw [Expr.conversionTo, ← h.type, htype, conversion?_self]
    refine ⟨by rw [hkeep]; rfl, htype, ⟨h.renders.statements, ?_⟩, ?_⟩
    · rw [hkeep]
      exact h.renders.value
    · rw [h.isDay]
      cases hday : e.isDay
      · rw [Bool.and_false]
      · rw [← htype, h.type, Expr.typeIn_of_isDay hday]
        rfl
  · have hconversion : e.conversionTo scope target = some c := by
      rw [Expr.conversionTo, ← h.type, ← h.isDay, hc]
    have hvalue := (Expr.code_grammatical h.compiles s.bindings.length).value
    refine ⟨by rw [hconversion]; rfl, rfl, ⟨h.renders.statements, ?_⟩, ?_⟩
    · rw [hconversion]
      exact Conversion.toList_apply c hvalue h.renders.value
    · cases hday : e.isDay
      · rw [Bool.and_false]
        rfl
      · rw [h.type, Expr.typeIn_of_isDay hday] at htype
        simp [Fragment.inline, Ne.symm htype]

/-! ## Emission of each node -/

theorem emitted_column {scope : Scope} {name : String} {type : DataType} {s s' : State}
    {f : Fragment} (h : outcome (column scope name) s = (.ok f, s')) :
    Emitted scope (.column name type) s f s' := by
  obtain ⟨c, hlookup, hrole, husable, rfl, rfl⟩ := outcome_column_ok h
  have hname := Expr.identifierIn_of_lookup hlookup
  constructor
  · exact ⟨c, hlookup, hrole, husable⟩
  · simp [Expr.typeIn, hlookup, Fragment.inline]
  · refine ⟨rfl, ?_⟩
    rw [Expr.code, Tree.text, hname]
    rfl
  · rfl
  · simp [Expr.identifiers, Expr.bindings, hname]

theorem emitted_literal {scope : Scope} {value : Option String} {type : DataType} {s s' : State}
    {f : Fragment} (h : outcome (liftExcept (literal? value type)) s = (.ok f, s')) :
    Emitted scope (.literal value type) s f s' := by
  simp only [outcome_liftExcept, Prod.mk.injEq] at h
  obtain ⟨hf, rfl⟩ := h
  obtain ⟨hlegal, text, rfl, htext⟩ := Expr.literal?_ok scope hf
  constructor
  · exact hlegal
  · rfl
  · exact ⟨rfl, htext⟩
  · rfl
  · simp [Expr.identifiers, Expr.bindings]

theorem emitted_changeCase {scope : Scope} {e : Expr} {callee : Callee} {method : String}
    {s s₁ s' : State} {f g : Fragment} (h : Emitted scope e s f s₁)
    (hg : outcome (changeCase callee method f) s₁ = (.ok g, s')) :
    s' = s₁ ∧ e.typeIn scope = .string ∧ g.boundName = none ∧ g.type = .string ∧
      Renders g ((e.code scope s.bindings.length).map (·.invoke method [])) := by
  obtain ⟨rfl, htype, rfl⟩ := outcome_changeCase_ok hg
  have hvalue := (Expr.code_grammatical h.compiles s.bindings.length).value
  have hreceiver := Tree.toList_receiver hvalue h.renders.value
  refine ⟨rfl, h.type.symm.trans htype, rfl, rfl, h.renders.statements, ?_⟩
  simp [Code.map, Tree.text_invoke, hreceiver]

theorem toList_declaration (name : String) {init : String} {t : Tree} (h : init.toList = t.text) :
    (declaration name init).toList = (Statement.declare name t).text := by
  simp [declaration, Statement.text, h]

theorem emitted_toDate {scope : Scope} {e : Expr} {type : DataType} {s s₁ s' : State}
    {f g : Fragment} (h : Emitted scope e s f s₁)
    (hg : outcome (cutToDay f) s₁ = (.ok g, s')) : Emitted scope (.toDate e type) s g s' := by
  obtain ⟨c, hc, rfl, rfl⟩ := outcome_cutToDay_ok hg
  have hvalue := (Expr.code_grammatical h.compiles s.bindings.length).value
  have hown : ownDate? (e.typeIn scope) = some c := by rw [← h.type, hc]
  have hinit := fun name => toList_declaration name
    (Conversion.toList_apply c hvalue h.renders.value)
  rw [h.length]
  constructor
  · exact ⟨h.compiles, by rw [hown]; rfl⟩
  · rfl
  · rw [Expr.code, hown]
    refine ⟨?_, rfl⟩
    simp [Fragment.bound, Code.cut, h.renders.statements, hinit, Conversion.treeOf, Statement.text,
      Tree.text_invoke, Tree.receiver, Tree.isWord, Tree.text, Tree.argumentsText, Tree.moreText]
  · simp [Fragment.bound, State.isDay_bind, Binding.isDay, Binding.temporary, Expr.isDay]
  · rw [h.state, Expr.identifiers, Expr.bindings, h.type, List.append_assoc]

theorem toList_shiftDay (direction : Direction) (name : String) {days : String} {t : Tree}
    (h : days.toList = t.text) :
    (name ++ ".setUTCDate(" ++ name ++ ".getUTCDate() " ++ direction.sign ++ " (" ++ days ++
      "));").toList =
      (Statement.evaluate ((Tree.word name).invoke "setUTCDate"
        [.binary direction.op ((Tree.word name).invoke "getUTCDate" []) (.group t)])).text := by
  cases direction <;>
    simp [Direction.sign, Direction.op, ArithOp.symbol, Statement.text, Tree.text_invoke,
      Tree.receiver, Tree.isWord, Tree.text, h]

theorem emitted_shift {scope : Scope} {direction : Direction} {date days : Expr}
    {s s₁ s₂ s' : State} {f g k : Fragment} (hs : s.Numbered) (hd : Emitted scope date s f s₁)
    (hn : Emitted scope days s₁ g s₂) (hk : outcome (shift direction f g) s₂ = (.ok k, s')) :
    (days.typeIn scope).isIntegral = true ∧ (ownDate? (date.typeIn scope)).isSome = true ∧
      k.type = .date ∧
      Renders k (Code.shift direction
        (temporaryName (s.bindings.length + date.temporaries + days.temporaries))
        (Conversion.treeOf (ownDate? (date.typeIn scope))
          (date.code scope s.bindings.length).value)
        (date.code scope s.bindings.length)
        (days.code scope (s.bindings.length + date.temporaries))) ∧
      k.boundName.any s'.isDay = false ∧
      s' = ⟨(date.identifiers scope ++ days.identifiers scope).foldl addNew s.inputs,
        s.bindings ++ (date.bindings scope s.bindings.length ++
          days.bindings scope (s.bindings.length + date.temporaries) ++
          [.shift (temporaryName (s.bindings.length + date.temporaries + days.temporaries))
            direction.callee])⟩ := by
  obtain ⟨hintegral, c, hc, rfl, rfl⟩ := outcome_shift_ok hk
  have hvalue := (Expr.code_grammatical hd.compiles s.bindings.length).value
  have hown : ownDate? (date.typeIn scope) = some c := by rw [← hd.type, hc]
  have hinit := fun name => toList_declaration name
    (Conversion.toList_apply c hvalue hd.renders.value)
  have hlength := hd.length
  have hdays := hn.renders
  have hnext := (hn.numbered (hd.numbered hs)).isDay_next
  rw [hlength] at hdays
  have hmove := fun name => toList_shiftDay direction name hdays.value
  refine ⟨?_, ?_, rfl, ?_, ?_, ?_⟩
  · rw [← hn.type]
    exact hintegral
  · rw [hown]
    rfl
  · rw [hown, hn.length, hlength]
    refine ⟨?_, rfl⟩
    simp only [Fragment.bound, Code.shift, List.map_append, hd.renders.statements,
      hdays.statements, List.map_cons, List.map_nil, hinit, hmove]
    rfl
  · simp [Fragment.bound, State.isDay_bind, Binding.isDay, hnext]
  · rw [hn.length, hn.state, hlength, hd.state, List.foldl_append]
    simp only [List.append_assoc]

theorem emitted_extract {scope : Scope} {field : DateField} {e : Expr} {type : DataType}
    {s s₁ s' : State} {f g : Fragment} (h : Emitted scope e s f s₁)
    (hg : outcome (extract field f) s₁ = (.ok g, s')) :
    Emitted scope (.extract field e type) s g s' := by
  obtain ⟨rfl, c, hc, rfl⟩ := outcome_extract_ok hg
  have hvalue := (Expr.code_grammatical h.compiles s.bindings.length).value
  have hlike : dateLike? (e.typeIn scope) = some c := by rw [← h.type, hc]
  constructor
  · exact ⟨h.compiles, by rw [hlike]; rfl⟩
  · rfl
  · rw [Expr.code, hlike]
    have htext := Conversion.toList_apply c hvalue h.renders.value
    exact ⟨h.renders.statements, toList_fieldText field (Conversion.grammatical_tree c hvalue) htext⟩
  · rfl
  · exact h.state

theorem emitted_arithmetic {scope : Scope} {op : ArithOp} {left right : Expr} {type : DataType}
    {s s₁ s₂ : State} {l r : Fragment} (hl : Emitted scope left s l s₁)
    (hr : Emitted scope right s₁ r s₂) :
    Emitted scope (.arithmetic op left right type) s (arithmetic op l r type) s₂ := by
  have hright := hr.renders
  rw [hl.length] at hright
  constructor
  · exact ⟨hl.compiles, hr.compiles⟩
  · rfl
  · rw [Expr.code]
    refine ⟨?_, ?_⟩
    · simp [arithmetic, Fragment.inline, hl.renders.statements, hright.statements]
    · simp [arithmetic, Tree.text, hl.renders.value, hright.value]
  · rfl
  · rw [hr.state, hl.length, hl.state, Expr.identifiers, Expr.bindings, List.foldl_append,
      List.append_assoc]

/-! ## Calls with more than one argument -/

theorem Expr.literal_of_isLiteral {e : Expr} (h : e.isLiteral = true) :
    ∃ value type, e = .literal value type := by
  cases e with
  | literal value type => exact ⟨value, type, rfl⟩
  | _ => simp [Expr.isLiteral, Expr.kind] at h

theorem emit_literal_inline {scope : Scope} {e : Expr} (hl : e.isLiteral = true) {s s' : State}
    {f : Fragment} (h : outcome (emit scope e) s = (.ok f, s')) : f.valueText = f.inlineText := by
  obtain ⟨value, type, rfl⟩ := Expr.literal_of_isLiteral hl
  rw [emit, outcome_liftExcept, Prod.mk.injEq] at h
  obtain ⟨-, text, rfl, -⟩ := Expr.literal?_ok scope h.1
  rfl

theorem renders_slice {f p l : Fragment} {c d k : Code} (hc : c.value.Grammatical)
    (hf : Renders f c) (hp : Renders p d) (hl : Renders l k) (hpi : p.valueText = p.inlineText)
    (hli : l.valueText = l.inlineText) :
    Renders (slice f p l)
      { statements := c.statements ++ d.statements ++ k.statements
        value := c.value.invoke "substr" [d.value, k.value] } := by
  have hreceiver := Tree.toList_receiver hc hf.value
  refine ⟨?_, ?_⟩
  · simp [slice, Fragment.inline, hf.statements, hp.statements, hl.statements]
  · simp [slice, Tree.text_invoke, hreceiver, ← hpi, ← hli, hp.value, hl.value]

theorem emitted_substring {scope : Scope} {e position length : Expr} {type : DataType}
    {s s₁ s₂ s₃ : State} {f p l : Fragment} (hpl : position.isLiteral = true)
    (hll : length.isLiteral = true) (he : e.Compiles scope)
    (hf : Cast scope e .string s.bindings.length s₁ f)
    (hs₁ : s₁ = ⟨(e.identifiers scope).foldl addNew s.inputs,
      s.bindings ++ e.bindings scope s.bindings.length⟩)
    (hp : Emitted scope position s₁ p s₂) (hl : Emitted scope length s₂ l s₃)
    (hpt : p.type.isIntegral = true) (hlt : l.type.isIntegral = true)
    (hpi : p.valueText = p.inlineText) (hli : l.valueText = l.inlineText) :
    Emitted scope (.substring e position length type) s (slice f p l) s₃ := by
  have hlength : s₁.bindings.length = s.bindings.length + e.temporaries := by
    rw [hs₁, List.length_append, length_bindings]
  have hposition := hp.renders
  have hlast := hl.renders
  have hvalue := (Expr.code_grammatical he s.bindings.length).value
  rw [hp.length] at hlast
  rw [hlength] at hposition hlast
  constructor
  · refine ⟨he, hf.isSome, ⟨hpl, hp.compiles, ?_⟩, hll, hl.compiles, ?_⟩
    · rw [← hp.type, hpt]
    · rw [← hl.type, hlt]
  · rfl
  · rw [Expr.code]
    exact renders_slice (Conversion.grammatical_treeOf _ hvalue) hf.renders hposition hlast hpi hli
  · rfl
  · rw [hl.state, hp.length, hp.state, hlength, hs₁, Expr.identifiers, Expr.bindings,
      List.foldl_append, List.foldl_append]
    simp only [List.append_assoc]

theorem renders_appendArgument {f g : Fragment} {c d : Code} (hc : c.value.Grammatical)
    (hf : Renders f c) (hg : Renders g d) : Renders (appendArgument f g) (c.append d) := by
  have hreceiver := Tree.toList_receiver hc hf.value
  refine ⟨?_, ?_⟩
  · simp [appendArgument, Code.append, Fragment.inline, hf.statements, hg.statements]
  · simp [appendArgument, Code.append, Tree.text_invoke, hreceiver, hg.value]

theorem emitted_arguments {scope : Scope} {es : List Expr}
    (hes : ∀ e ∈ es, ∀ {s s' : State} {f : Fragment}, s.Numbered →
      outcome (emit scope e) s = (.ok f, s') → Emitted scope e s f s')
    {acc g : Fragment} {c : Code} {s s' : State} (hs : s.Numbered) (hacc : Renders acc c)
    (hc : c.Grammatical) (h : outcome (concat scope (some acc) es) s = (.ok g, s')) :
    Expr.AllCompile scope es ∧ g.boundName = none ∧ g.type = .string ∧
      Renders g ((Expr.stringCodes scope s.bindings.length es).foldl Code.append c) ∧
      s' = ⟨(Expr.identifiersOf scope es).foldl addNew s.inputs,
        s.bindings ++ Expr.bindingsOf scope s.bindings.length es⟩ := by
  induction es generalizing acc c s with
  | nil =>
    rw [concat, outcome_pure, Prod.mk.injEq, Except.ok.injEq] at h
    obtain ⟨rfl, rfl⟩ := h
    refine ⟨trivial, rfl, rfl, ⟨hacc.statements, hacc.value⟩, ?_⟩
    simp [Expr.identifiersOf, Expr.bindingsOf]
  | cons e es ih =>
    obtain ⟨f, k, s₁, hemit, hcast, hrest⟩ := outcome_concat_cons_ok h
    have he := hes e List.mem_cons_self hs hemit
    obtain ⟨-, hk⟩ := he.cast hcast
    have hcode := Expr.code_grammatical he.compiles s.bindings.length
    have hstring := Conversion.grammatical_treeOf (e.conversionTo scope .string) hcode.value
    have hnext := Code.grammatical_append hc (hcode.map hstring)
    obtain ⟨hall, hbound, htype, hrenders, hstate⟩ :=
      ih (fun a ha => hes a (List.mem_cons_of_mem _ ha)) (he.numbered hs)
        (renders_appendArgument hc.value hacc hk.renders) hnext hrest
    refine ⟨⟨⟨he.compiles, hk.isSome⟩, hall⟩, hbound, htype, ?_, ?_⟩
    · rw [he.length] at hrenders
      exact hrenders
    · rw [hstate, he.length, he.state, Expr.identifiersOf, Expr.bindingsOf, List.foldl_append,
        List.append_assoc]

/-! ## Emission of expressions -/

/-- **Emission.** An emission that succeeds has emitted the code of its expression. -/
theorem emit_ok {scope : Scope} {e : Expr} {s s' : State} {f : Fragment} (hs : s.Numbered)
    (h : outcome (emit scope e) s = (.ok f, s')) : Emitted scope e s f s' := by
  induction e generalizing s s' f with
  | column name type =>
    rw [emit] at h
    exact emitted_column h
  | literal value type =>
    rw [emit] at h
    exact emitted_literal h
  | cast e type ih =>
    rw [emit] at h
    obtain ⟨g, s₁, hemit, hcast⟩ := outcome_bind_ok.mp h
    have he := ih hs hemit
    obtain ⟨rfl, hf⟩ := he.cast hcast
    exact ⟨⟨he.compiles, hf.isSome⟩, hf.type, hf.renders, hf.isDay, he.state⟩
  | concat args type ih =>
    rw [emit] at h
    cases args with
    | nil => simp [concat] at h
    | cons e es =>
      obtain ⟨g, k, s₁, hemit, hcast, hrest⟩ := outcome_concat_cons_ok h
      have he := ih e List.mem_cons_self hs hemit
      obtain ⟨-, hk⟩ := he.cast hcast
      have hcode := Expr.code_grammatical he.compiles s.bindings.length
      obtain ⟨hall, hbound, htype, hrenders, hstate⟩ :=
        emitted_arguments (fun a ha _ _ _ hn ho => ih a (List.mem_cons_of_mem _ ha) hn ho)
          (he.numbered hs) hk.renders (hcode.map (Conversion.grammatical_treeOf _ hcode.value)) hrest
      constructor
      · exact ⟨List.cons_ne_nil _ _, ⟨he.compiles, hk.isSome⟩, hall⟩
      · exact htype
      · rw [he.length] at hrenders
        exact hrenders
      · rw [hbound]
        rfl
      · rw [hstate, he.length, he.state, Expr.identifiers, Expr.identifiersOf, Expr.bindings,
          Expr.bindingsOf, List.foldl_append, List.append_assoc]
  | upper e type ih =>
    rw [emit] at h
    obtain ⟨g, s₁, hemit, hcase⟩ := outcome_bind_ok.mp h
    have he := ih hs hemit
    obtain ⟨rfl, hstring, hbound, htype, hrenders⟩ := emitted_changeCase he hcase
    exact ⟨⟨he.compiles, hstring⟩, htype, hrenders, by rw [hbound]; rfl, he.state⟩
  | lower e type ih =>
    rw [emit] at h
    obtain ⟨g, s₁, hemit, hcase⟩ := outcome_bind_ok.mp h
    have he := ih hs hemit
    obtain ⟨rfl, hstring, hbound, htype, hrenders⟩ := emitted_changeCase he hcase
    exact ⟨⟨he.compiles, hstring⟩, htype, hrenders, by rw [hbound]; rfl, he.state⟩
  | substring e position length type ih ihp ihl =>
    obtain ⟨hpl, hll, g, k, p, l, s₁, s₂, hemit, hcast, hposition, hpt, hlength, hlt, rfl⟩ :=
      outcome_substring_ok h
    have he := ih hs hemit
    obtain ⟨-, hk⟩ := he.cast hcast
    have hp := ihp (he.numbered hs) hposition
    have hl := ihl (hp.numbered (he.numbered hs)) hlength
    exact emitted_substring hpl hll he.compiles hk he.state hp hl hpt hlt
      (emit_literal_inline hpl hposition) (emit_literal_inline hll hlength)
  | toDate e type ih =>
    rw [emit] at h
    obtain ⟨g, s₁, hemit, hcut⟩ := outcome_bind_ok.mp h
    exact emitted_toDate (ih hs hemit) hcut
  | dateAdd date days type ihd ihn =>
    rw [emit] at h
    obtain ⟨g, s₁, hdate, hrest⟩ := outcome_bind_ok.mp h
    obtain ⟨k, s₂, hdays, hshift⟩ := outcome_bind_ok.mp hrest
    have hd := ihd hs hdate
    have hn := ihn (hd.numbered hs) hdays
    obtain ⟨hintegral, hown, htype, hrenders, hday, hstate⟩ := emitted_shift hs hd hn hshift
    exact ⟨⟨hd.compiles, hn.compiles, hintegral, hown⟩, htype, hrenders, hday, hstate⟩
  | dateSub date days type ihd ihn =>
    rw [emit] at h
    obtain ⟨g, s₁, hdate, hrest⟩ := outcome_bind_ok.mp h
    obtain ⟨k, s₂, hdays, hshift⟩ := outcome_bind_ok.mp hrest
    have hd := ihd hs hdate
    have hn := ihn (hd.numbered hs) hdays
    obtain ⟨hintegral, hown, htype, hrenders, hday, hstate⟩ := emitted_shift hs hd hn hshift
    exact ⟨⟨hd.compiles, hn.compiles, hintegral, hown⟩, htype, hrenders, hday, hstate⟩
  | extract field e type ih =>
    rw [emit] at h
    obtain ⟨g, s₁, hemit, hextract⟩ := outcome_bind_ok.mp h
    exact emitted_extract (ih hs hemit) hextract
  | arithmetic op left right type ihl ihr =>
    rw [emit] at h
    obtain ⟨l, s₁, hleft, hrest⟩ := outcome_bind_ok.mp h
    obtain ⟨r, s₂, hright, hend⟩ := outcome_bind_ok.mp hrest
    rw [outcome_pure, Prod.mk.injEq, Except.ok.injEq] at hend
    obtain ⟨rfl, rfl⟩ := hend
    have hl := ihl hs hleft
    exact emitted_arithmetic hl (ihr (hl.numbered hs) hright)

end Emission

end RowScript

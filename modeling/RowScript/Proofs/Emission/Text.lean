import RowScript.Proofs.Emission.Code

/-!
# The text of code

Conversions, fields and literals paste texts together; each paste is the text of
a tree. The code of an expression is grammatical, however the expression is
nested (`Expr.code_grammatical`).
-/

namespace RowScript

open Script (Tree Statement temporaryName isIdentifier)

/-! ## Member calls -/

namespace Script.Tree

theorem grammatical_invoke {t : Tree} (name : String) {args : List Tree} (ht : t.Grammatical)
    (hname : isIdentifier name = true) (hargs : ∀ a ∈ args, a.Grammatical) :
    (t.invoke name args).Grammatical := by
  have hstrength := strength_receiver t
  refine ⟨?_, ⟨?_, grammatical_receiver ht, hname⟩, (allGrammatical_iff args).mpr hargs⟩
  · rw [strength, hstrength]
    omega
  · omega

theorem grammatical_callGlobal {name : String} {args : List Tree}
    (hname : isOperandWord name = true) (hargs : ∀ a ∈ args, a.Grammatical) :
    (callGlobal name args).Grammatical := by
  refine ⟨?_, hname, (allGrammatical_iff args).mpr hargs⟩
  rw [strength]
  omega

theorem grammatical_newDate {t : Tree} (ht : t.Grammatical) : (newDate t).Grammatical := by
  have hdate : isOperandWord "Date" = true := by decide
  exact ⟨Nat.le_refl 5, hdate, ht, trivial⟩

@[simp] theorem argumentsText_nil : argumentsText [] = [] := rfl

@[simp] theorem argumentsText_one (t : Tree) : argumentsText [t] = t.text := List.append_nil _

@[simp] theorem argumentsText_two (t u : Tree) :
    argumentsText [t, u] = t.text ++ ',' :: ' ' :: u.text := by
  simp [argumentsText, moreText]

theorem text_callGlobal (name : String) (args : List Tree) :
    (callGlobal name args).text = name.toList ++ '(' :: (argumentsText args ++ [')']) := rfl

theorem text_newDate (t : Tree) :
    (newDate t).text = "new Date(".toList ++ (t.text ++ [')']) := by
  rw [newDate, text, argumentsText_one, text]
  rfl

theorem text_member {t : Tree} (h : t.isNumber = false) (name : String) :
    (member t name).text = t.text ++ '.' :: name.toList := by
  simp [text, h]

theorem text_invoke (t : Tree) (name : String) (args : List Tree) :
    (t.invoke name args).text =
      t.receiver.text ++ '.' :: (name.toList ++ '(' :: (argumentsText args ++ [')'])) := by
  simp [invoke, text, isNumber_receiver]

end Script.Tree

/-! ## Conversions -/

namespace Conversion

theorem grammatical_number : (Tree.number "0").Grammatical ∧ (Tree.number "10").Grammatical ∧
    (Tree.number "1").Grammatical := by
  simp only [Tree.Grammatical]
  decide

theorem grammatical_tree (c : Conversion) {t : Tree} (ht : t.Grammatical) :
    (c.tree t).Grammatical := by
  obtain ⟨hzero, hten, -⟩ := grammatical_number
  have hone : ∀ a ∈ [t], a.Grammatical := by simp [ht]
  have hnone : ∀ a ∈ ([] : List Tree), a.Grammatical := by simp
  cases c with
  | keep => exact ht
  | parseFloat => exact Tree.grammatical_callGlobal (by decide) hone
  | parseInt => exact Tree.grammatical_callGlobal (by decide) (by simp [ht, hten])
  | toNumber => exact Tree.grammatical_callGlobal (by decide) hone
  | toBoolean => exact Tree.grammatical_callGlobal (by decide) hone
  | toText => exact Tree.grammatical_invoke _ ht (by decide) hnone
  | dateText => exact Tree.grammatical_invoke _ ht (by decide) hnone
  | dayText =>
    have htext := Tree.grammatical_invoke "toISOString" ht (by decide) hnone
    refine ⟨Nat.le_refl 4, ⟨Nat.le_refl 4, htext, by decide⟩, ?_⟩
    exact (Tree.allGrammatical_iff _).mpr (by simp [hzero, hten])
  | epochOfDate => exact Tree.grammatical_invoke _ ht (by decide) hnone
  | epochOfValue =>
    have hdate := Tree.grammatical_newDate ht
    have hfour : 4 ≤ (Tree.newDate t).strength := by
      rw [Tree.newDate, Tree.strength]
      omega
    exact ⟨hfour, ⟨hfour, hdate, by decide⟩, trivial⟩
  | dateOfValue => exact Tree.grammatical_newDate ht
  | dateOfNumber => exact Tree.grammatical_newDate (Tree.grammatical_callGlobal (by decide) hone)
  | dateCopy => exact Tree.grammatical_newDate (Tree.grammatical_invoke _ ht (by decide) hnone)

theorem grammatical_treeOf (c : Option Conversion) {t : Tree} (ht : t.Grammatical) :
    (treeOf c t).Grammatical := grammatical_tree _ ht

theorem toList_apply (c : Conversion) {s : String} {t : Tree} (ht : t.Grammatical)
    (h : s.toList = t.text) : (c.apply s).toList = (c.tree t).text := by
  have hreceiver := Tree.toList_receiver ht h
  cases c with
  | keep => exact h
  | parseFloat =>
    change ("parseFloat(" ++ s ++ ")").toList = _
    simp [tree, Tree.text_callGlobal, h]
  | parseInt =>
    change ("parseInt(" ++ s ++ ", 10)").toList = _
    simp [tree, Tree.text_callGlobal, Tree.text, h]
  | toNumber =>
    change ("Number(" ++ s ++ ")").toList = _
    simp [tree, Tree.text_callGlobal, h]
  | toBoolean =>
    change ("Boolean(" ++ s ++ ")").toList = _
    simp [tree, Tree.text_callGlobal, h]
  | toText =>
    change (Script.receiver s ++ ".toString()").toList = _
    simp [tree, Tree.text_invoke, hreceiver]
  | dateText =>
    change (Script.receiver s ++ ".toISOString()").toList = _
    simp [tree, Tree.text_invoke, hreceiver]
  | dayText =>
    change (Script.receiver s ++ ".toISOString().substring(0, 10)").toList = _
    rw [tree, Tree.text, Tree.text_member rfl, Tree.text_invoke]
    simp [Tree.text, hreceiver]
  | epochOfDate =>
    change (Script.receiver s ++ ".getTime()").toList = _
    simp [tree, Tree.text_invoke, hreceiver]
  | epochOfValue =>
    change ("new Date(" ++ s ++ ").getTime()").toList = _
    rw [tree, Tree.text, Tree.text_member rfl, Tree.text_newDate]
    simp [h]
  | dateOfValue =>
    change ("new Date(" ++ s ++ ")").toList = _
    simp [tree, Tree.text_newDate, h]
  | dateOfNumber =>
    change ("new Date(parseFloat(" ++ s ++ "))").toList = _
    simp [tree, Tree.text_newDate, Tree.text_callGlobal, h]
  | dateCopy =>
    change ("new Date(" ++ Script.receiver s ++ ".getTime())").toList = _
    simp [tree, Tree.text_newDate, Tree.text_invoke, hreceiver]

end Conversion

theorem DateField.grammatical_tree (field : DateField) {t : Tree} (ht : t.Grammatical) :
    (field.tree t).Grammatical := by
  have hnone : ∀ a ∈ ([] : List Tree), a.Grammatical := by simp
  cases field with
  | year => exact Tree.grammatical_invoke _ ht (by decide) hnone
  | month =>
    have hmonth := Tree.grammatical_invoke "getUTCMonth" ht (by decide) hnone
    refine ⟨?_, ?_, hmonth, Conversion.grammatical_number.2.2⟩
    · simp [Tree.invoke, Tree.strength, Script.strength]
    · simp [Tree.strength, Script.strength]
  | hour => exact Tree.grammatical_invoke _ ht (by decide) hnone
  | minute => exact Tree.grammatical_invoke _ ht (by decide) hnone
  | second => exact Tree.grammatical_invoke _ ht (by decide) hnone

theorem Emission.toList_fieldText (field : DateField) {s : String} {t : Tree} (ht : t.Grammatical)
    (h : s.toList = t.text) : (Emission.fieldText field s).toList = (field.tree t).text := by
  have hreceiver := Tree.toList_receiver ht h
  cases field with
  | year => simp [Emission.fieldText, DateField.tree, Tree.text_invoke, hreceiver]
  | month =>
    simp [Emission.fieldText, DateField.tree, Tree.text, Tree.text_invoke, ArithOp.symbol, hreceiver]
  | hour => simp [Emission.fieldText, DateField.tree, Tree.text_invoke, hreceiver]
  | minute => simp [Emission.fieldText, DateField.tree, Tree.text_invoke, hreceiver]
  | second => simp [Emission.fieldText, DateField.tree, Tree.text_invoke, hreceiver]

/-! ## Literals -/

theorem Script.isDecimal_of_isDigits {cs : List Char} (h : Script.isDigits cs = true) :
    Script.isDecimal cs = true := by
  have hdigits := Script.scanDigits_of_isDigits h
  simp only [Script.scanDigits, Prod.mk.injEq] at hdigits
  simp only [Script.isDigits, Bool.and_eq_true] at h
  rw [Script.isDecimal, hdigits.2]
  simp [hdigits.1, h.1, Script.isExponent]

theorem Script.isNumber_withoutMinus {integral : Bool} {text : String}
    (h : Script.isNumberText integral text = true) :
    Script.isNumber (Script.withoutMinus text.toList) = true := by
  simp only [Script.isNumberText, Bool.and_eq_true] at h
  obtain ⟨hzero, hdigits⟩ := h
  rw [Script.isNumber, hzero, Bool.true_and]
  cases integral
  · exact hdigits
  · exact Script.isDecimal_of_isDigits hdigits

namespace Expr

theorem numberTree_spec {integral : Bool} {text : String}
    (h : Script.isNumberText integral text = true) :
    (numberTree text).Grammatical ∧ (numberTree text).text = text.toList := by
  have hnumber := Script.isNumber_withoutMinus h
  unfold numberTree
  split
  · next digits htext =>
    rw [htext, Script.withoutMinus] at hnumber
    refine ⟨⟨?_, ?_⟩, ?_⟩
    · simp [Tree.strength]
    · rw [Tree.Grammatical, String.toList_ofList]
      exact hnumber
    · simp [Tree.text, Tree.isNegation, htext]
  · next hminus =>
    have hsame : Script.withoutMinus text.toList = text.toList := by
      unfold Script.withoutMinus
      split
      · next digits htext => exact absurd htext (hminus digits)
      · rfl
    rw [hsame] at hnumber
    exact ⟨hnumber, rfl⟩

theorem grammatical_literalTree {value : Option String} {type : DataType}
    (h : isLegal value type = true) : (literalTree value type).Grammatical := by
  have hnull : (Tree.word "null").Grammatical := by
    rw [Tree.Grammatical]
    decide
  cases value with
  | none => exact hnull
  | some text =>
    cases type with
    | null => exact hnull
    | short | integer | long | float | double => exact (numberTree_spec h).1
    | boolean =>
      have hcases : text = "true" ∨ text = "false" := by
        simpa [isLegal, DataType.isNumeric, DataType.isIntegral, DataType.isFractional] using h
      rw [literalTree, Tree.Grammatical]
      rcases hcases with rfl | rfl <;> decide
    | string | date | timestamp => exact Conversion.grammatical_treeOf _ trivial

theorem literal?_ok {value : Option String} {type : DataType} {f : Fragment} (scope : Scope)
    (h : Emission.literal? value type = .ok f) :
    isLegal value type = true ∧ ∃ text,
      f = .inline [] text ((literal value type).typeIn scope) ∧
        text.toList = (literalTree value type).text := by
  have hnumber : ∀ text, type.isNumeric = true →
      (if Script.isNumberText type.isIntegral text then Except.ok (.inline [] text type)
        else .error (Rejection.invalidLiteral text type)) = Except.ok f →
      isLegal (some text) type = true ∧ f = .inline [] text type ∧
        text.toList = (numberTree text).text := by
    intro text hnumeric h
    split at h
    · next htext =>
      rw [isLegal, if_pos hnumeric]
      exact ⟨htext, (Except.ok.inj h).symm, (numberTree_spec htext).2.symm⟩
    · contradiction
  have hquoted : ∀ text c, conversion? .string type false = some c →
      f = .inline [] (c.apply (Script.quote text)) type →
      ∃ s, f = .inline [] s type ∧
        s.toList = (Conversion.treeOf (conversion? .string type false) (.quoted text)).text := by
    intro text c hc hf
    refine ⟨_, hf, ?_⟩
    rw [hc]
    exact Conversion.toList_apply c (t := .quoted text) trivial rfl
  cases value with
  | none => exact ⟨rfl, "null", (Except.ok.inj h).symm, rfl⟩
  | some text =>
    cases type with
    | null => exact ⟨rfl, "null", (Except.ok.inj h).symm, rfl⟩
    | short | integer | long | float | double =>
      obtain ⟨hlegal, hf, htext⟩ := hnumber text rfl h
      exact ⟨hlegal, text, hf, htext⟩
    | boolean =>
      rw [Emission.literal?] at h
      split at h
      · next hcases =>
        refine ⟨?_, text, (Except.ok.inj h).symm, rfl⟩
        rw [isLegal, if_neg (by decide), if_pos rfl]
        exact hcases
      · contradiction
    | string =>
      obtain ⟨s, hf, hs⟩ := hquoted text .keep rfl (Except.ok.inj h).symm
      exact ⟨rfl, s, hf, hs⟩
    | date =>
      obtain ⟨s, hf, hs⟩ := hquoted text .dateOfValue rfl (Except.ok.inj h).symm
      exact ⟨rfl, s, hf, hs⟩
    | timestamp =>
      obtain ⟨s, hf, hs⟩ := hquoted text .epochOfValue rfl (Except.ok.inj h).symm
      exact ⟨rfl, s, hf, hs⟩

end Expr

/-! ## Code is grammatical -/

namespace Code

structure Grammatical (c : Code) : Prop where
  statements : ∀ s ∈ c.statements, s.Grammatical
  value : c.value.Grammatical

theorem Grammatical.map {c : Code} (h : c.Grammatical) {g : Tree → Tree}
    (hg : (g c.value).Grammatical) : (c.map g).Grammatical := ⟨h.statements, hg⟩

theorem grammatical_append {c d : Code} (hc : c.Grammatical) (hd : d.Grammatical) :
    (c.append d).Grammatical := by
  constructor
  · intro s hs
    rcases List.mem_append.mp hs with hs | hs
    · exact hc.statements s hs
    · exact hd.statements s hs
  · exact Tree.grammatical_invoke _ hc.value (by decide) (by simp [hd.value])

theorem grammatical_concat {cs : List Code} (h : ∀ c ∈ cs, c.Grammatical) :
    (concat cs).Grammatical := by
  cases cs with
  | nil =>
    constructor
    · simp [concat]
    · rw [concat, Tree.Grammatical]
      decide
  | cons c cs =>
    have hfold : ∀ (cs : List Code) (acc : Code), acc.Grammatical → (∀ c ∈ cs, c.Grammatical) →
        (cs.foldl append acc).Grammatical := by
      intro cs
      induction cs with
      | nil =>
        intro acc hacc _
        exact hacc
      | cons c cs ih =>
        intro acc hacc hcs
        have hnext := grammatical_append hacc (hcs c List.mem_cons_self)
        exact ih _ hnext fun d hd => hcs d (List.mem_cons_of_mem _ hd)
    exact hfold cs c (h c List.mem_cons_self) fun d hd => h d (List.mem_cons_of_mem _ hd)

theorem grammatical_word (n : Nat) : (Tree.word (temporaryName n)).Grammatical :=
  Script.isOperandWord_of_isBindable (Script.isBindable_temporaryName n)

theorem grammatical_cut {c : Code} {init : Tree} (hc : c.Grammatical) (hinit : init.Grammatical)
    (n : Nat) : (c.cut (temporaryName n) init).Grammatical := by
  have hword := grammatical_word n
  have hzero := Conversion.grammatical_number.1
  constructor
  · intro s hs
    rcases List.mem_append.mp hs with hs | hs
    · exact hc.statements s hs
    simp only [List.mem_cons, List.not_mem_nil, or_false] at hs
    rcases hs with rfl | rfl
    · exact ⟨Script.isBindable_temporaryName n, hinit⟩
    · exact Tree.grammatical_invoke _ hword (by decide) (by simp [hzero])
  · exact hword

theorem grammatical_shift {date days : Code} {init : Tree} (direction : Emission.Direction)
    (hdate : date.Grammatical) (hdays : days.Grammatical) (hinit : init.Grammatical) (n : Nat) :
    (shift direction (temporaryName n) init date days).Grammatical := by
  have hword := grammatical_word n
  have hday := Tree.grammatical_invoke "getUTCDate" hword (by decide)
    (by simp : ∀ a ∈ ([] : List Tree), a.Grammatical)
  have hmoved : (Tree.binary direction.op ((Tree.word (temporaryName n)).invoke "getUTCDate" [])
      (.group days.value)).Grammatical := by
    refine ⟨?_, ?_, hday, hdays.value⟩
    · cases direction <;> simp [Emission.Direction.op, Tree.invoke, Tree.strength, Script.strength]
    · cases direction <;> simp [Emission.Direction.op, Tree.strength, Script.strength]
  constructor
  · intro s hs
    rcases List.mem_append.mp hs with hs | hs
    · rcases List.mem_append.mp hs with hs | hs
      · exact hdate.statements s hs
      · exact hdays.statements s hs
    simp only [List.mem_cons, List.not_mem_nil, or_false] at hs
    rcases hs with rfl | rfl
    · exact ⟨Script.isBindable_temporaryName n, hinit⟩
    · exact Tree.grammatical_invoke _ hword (by decide) (by simp [hmoved])
  · exact hword

end Code

namespace Expr

/-- **Code is grammatical.** Each tree is a production, however expressions are nested. -/
theorem code_grammatical {scope : Scope} {e : Expr} (h : e.Compiles scope) (n : Nat) :
    (e.code scope n).Grammatical := by
  induction e generalizing n with
  | column name type =>
    obtain ⟨c, hlookup, -, husable⟩ := h
    have hname := identifierIn_of_lookup hlookup
    constructor
    · simp [code]
    · rw [code, Tree.Grammatical, hname]
      exact Script.isOperandWord_of_isBindable (Script.isBindable_of_isUsable husable)
  | literal value type => exact ⟨by simp [code], grammatical_literalTree h⟩
  | cast e type ih =>
    have hc := ih h.1 n
    exact hc.map (Conversion.grammatical_treeOf _ hc.value)
  | concat args type ih =>
    obtain ⟨-, hargs⟩ := h
    rw [code]
    refine Code.grammatical_concat ?_
    clear type
    induction args generalizing n with
    | nil => simp [stringCodes]
    | cons e es ihs =>
      obtain ⟨⟨he, -⟩, hes⟩ := hargs
      intro c hc
      rcases List.mem_cons.mp hc with rfl | hc
      · have hcode := ih e List.mem_cons_self he n
        exact hcode.map (Conversion.grammatical_treeOf _ hcode.value)
      · exact ihs (fun a ha => ih a (List.mem_cons_of_mem _ ha)) _ hes c hc
  | upper e type ih =>
    have hc := ih h.1 n
    exact hc.map (Tree.grammatical_invoke _ hc.value (by decide) (by simp))
  | lower e type ih =>
    have hc := ih h.1 n
    exact hc.map (Tree.grammatical_invoke _ hc.value (by decide) (by simp))
  | substring e position length type ih ihp ihl =>
    obtain ⟨he, -, ⟨-, hp, -⟩, -, hl, -⟩ := h
    have hc := ih he n
    have hp := ihp hp (n + e.temporaries)
    have hl := ihl hl (n + e.temporaries + position.temporaries)
    constructor
    · intro s hs
      rcases List.mem_append.mp hs with hs | hs
      · rcases List.mem_append.mp hs with hs | hs
        · exact hc.statements s hs
        · exact hp.statements s hs
      · exact hl.statements s hs
    · exact Tree.grammatical_invoke _ (Conversion.grammatical_treeOf _ hc.value) (by decide)
        (by simp [hp.value, hl.value])
  | toDate e type ih =>
    have hc := ih h.1 n
    exact Code.grammatical_cut hc (Conversion.grammatical_treeOf _ hc.value) _
  | dateAdd date days type ihd ihn =>
    obtain ⟨hdate, hdays, -, -⟩ := h
    have hd := ihd hdate n
    exact Code.grammatical_shift _ hd (ihn hdays _) (Conversion.grammatical_treeOf _ hd.value) _
  | dateSub date days type ihd ihn =>
    obtain ⟨hdate, hdays, -, -⟩ := h
    have hd := ihd hdate n
    exact Code.grammatical_shift _ hd (ihn hdays _) (Conversion.grammatical_treeOf _ hd.value) _
  | extract field e type ih =>
    have hc := ih h.1 n
    exact hc.map (DateField.grammatical_tree field (Conversion.grammatical_treeOf _ hc.value))
  | arithmetic op left right type ihl ihr =>
    have hl := ihl h.1 n
    have hr := ihr h.2 (n + left.temporaries)
    constructor
    · intro s hs
      rcases List.mem_append.mp hs with hs | hs
      · exact hl.statements s hs
      · exact hr.statements s hs
    · refine ⟨?_, ?_, hl.value, hr.value⟩
      · cases op <;> simp [Tree.strength, Script.strength]
      · cases op <;> simp [Tree.strength, Script.strength]

end Expr

end RowScript

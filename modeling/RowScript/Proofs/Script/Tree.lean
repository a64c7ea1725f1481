import RowScript.Proofs.Script.Token

/-!
# Syntax trees of generated text

The syntactic grammar of ES5, for the part of the language that generated text
keeps to. A tree has the tokens at its leaves (`tokens`) and a text (`text`);
`Grammatical` says that each node is a production of the grammar. A text is
scanned to the tokens of its tree (`scans_text`).
-/

namespace RowScript.Script

/-! ## Words -/

/-- The words that are never identifiers, apart from `null`, `true` and `false`. -/
def keywords : List String := [
  "break", "case", "catch", "class", "const", "continue", "debugger", "default", "delete", "do",
  "else", "enum", "export", "extends", "finally", "for", "function", "if", "implements", "import",
  "in", "instanceof", "interface", "let", "new", "package", "private", "protected", "public",
  "return", "static", "super", "switch", "this", "throw", "try", "typeof", "var", "void", "while",
  "with", "yield"]

def literalWords : List String := ["null", "true", "false"]

/-- Words that are expressions: identifiers and the literals among the words. -/
def isOperandWord (name : String) : Bool := isIdentifier name && !keywords.contains name

/-- Words that can be bound to a value. -/
def isBindable (name : String) : Bool := isOperandWord name && !literalWords.contains name

theorem isIdentifier_of_isOperandWord {name : String} (h : isOperandWord name = true) :
    isIdentifier name = true := by
  simp only [isOperandWord, Bool.and_eq_true] at h
  exact h.1

theorem isOperandWord_of_isBindable {name : String} (h : isBindable name = true) :
    isOperandWord name = true := by
  simp only [isBindable, Bool.and_eq_true] at h
  exact h.1

theorem isBindable_of_isUsable {name : String} (h : isUsable name = true) :
    isBindable name = true := by
  simp only [isUsable, Bool.and_eq_true, Bool.not_eq_true', List.contains_eq_mem,
    decide_eq_false_iff_not] at h
  obtain ⟨⟨hi, hr⟩, -⟩ := h
  have hsub : keywords ++ literalWords ⊆ reserved := by decide
  have hk : name ∉ keywords := fun hm => hr (hsub (List.mem_append_left _ hm))
  have hl : name ∉ literalWords := fun hm => hr (hsub (List.mem_append_right _ hm))
  simp [isBindable, isOperandWord, hi, hk, hl]

theorem not_literalWord_of_isUsable {name : String} (h : isUsable name = true) :
    literalWords.contains name = false := by
  have hbindable := isBindable_of_isUsable h
  simp only [isBindable, Bool.and_eq_true, Bool.not_eq_true'] at hbindable
  exact hbindable.2

/-! ## Trees -/

/-- Expressions. Round brackets are nodes of their own. -/
inductive Tree where
  | word (name : String)
  | number (text : String)
  | quoted (value : String)
  | group (inner : Tree)
  | member (object : Tree) (name : String)
  | call (callee : Tree) (arguments : List Tree)
  /-- The operator `new`. -/
  | create (callee : Tree) (arguments : List Tree)
  | negate (operand : Tree)
  | binary (op : ArithOp) (left right : Tree)

inductive Statement where
  | declare (name : String) (value : Tree)
  | evaluate (value : Tree)

/-- A function expression that ends by returning a result. -/
structure FunctionTree where
  parameters : List String
  statements : List Statement
  result : Tree

/-- Induction over trees, in which arguments count as operands. -/
@[induction_eliminator, elab_as_elim]
theorem Tree.induction {motive : Tree → Prop} (word : ∀ name, motive (.word name))
    (number : ∀ text, motive (.number text)) (quoted : ∀ value, motive (.quoted value))
    (group : ∀ t, motive t → motive (.group t))
    (member : ∀ t name, motive t → motive (.member t name))
    (call : ∀ t args, motive t → (∀ a ∈ args, motive a) → motive (.call t args))
    (create : ∀ t args, motive t → (∀ a ∈ args, motive a) → motive (.create t args))
    (negate : ∀ t, motive t → motive (.negate t))
    (binary : ∀ op l r, motive l → motive r → motive (.binary op l r)) (t : Tree) : motive t := by
  refine @Tree.rec motive (fun args => ∀ a ∈ args, motive a)
    word number quoted group (fun t name h => member t name h) call create negate binary ?_ ?_ t
  · intro a ha
    cases ha
  · intro t args ht hargs a ha
    rcases List.mem_cons.mp ha with rfl | ha
    · exact ht
    · exact hargs a ha

namespace Tree

def isNumber : Tree → Bool
  | number _ => true
  | _ => false

def isNegation : Tree → Bool
  | negate _ => true
  | _ => false

end Tree

/-! ## Productions -/

/-- How strong an operator binds its operands. -/
def strength : ArithOp → Nat
  | .add | .sub => 1
  | .mul | .div | .mod => 2

namespace Tree

/-- How strong a tree holds together: 1 for sums, 2 for products, 3 for negations, 4 for calls
and 5 for what `new` may stand before. -/
def strength : Tree → Nat
  | word _ | number _ | quoted _ | group _ | create _ _ => 5
  | member t _ => t.strength
  | call _ _ => 4
  | negate _ => 3
  | binary op _ _ => Script.strength op

mutual

/-- Each operand of a node is of a kind that the grammar has in its place. Operators of the same
strength group to the left. -/
def Grammatical : Tree → Prop
  | word name => isOperandWord name = true
  | number text => Script.isNumber text.toList = true
  | quoted _ => True
  | group t => t.Grammatical
  | member t name => 4 ≤ t.strength ∧ t.Grammatical ∧ isIdentifier name = true
  | call t args => 4 ≤ t.strength ∧ t.Grammatical ∧ AllGrammatical args
  | create t args => 5 ≤ t.strength ∧ t.Grammatical ∧ AllGrammatical args
  | negate t => 3 ≤ t.strength ∧ t.Grammatical
  | binary op l r =>
    Script.strength op ≤ l.strength ∧ Script.strength op < r.strength ∧
      l.Grammatical ∧ r.Grammatical

def AllGrammatical : List Tree → Prop
  | [] => True
  | t :: ts => t.Grammatical ∧ AllGrammatical ts

end

theorem allGrammatical_iff (ts : List Tree) : AllGrammatical ts ↔ ∀ t ∈ ts, t.Grammatical := by
  induction ts with
  | nil => simp [AllGrammatical]
  | cons t ts ih => simp [AllGrammatical, ih]

end Tree

def Statement.Grammatical : Statement → Prop
  | declare name t => isBindable name = true ∧ t.Grammatical
  | evaluate t => t.Grammatical

structure FunctionTree.Grammatical (f : FunctionTree) : Prop where
  parameters : ∀ name ∈ f.parameters, isBindable name = true
  statements : ∀ s ∈ f.statements, s.Grammatical
  result : f.result.Grammatical

/-! ## Tokens -/

namespace Tree

mutual

/-- The tokens of a tree, from left to right. -/
def tokens : Tree → List Token
  | word name => [.word name]
  | number text => [.number text]
  | quoted value => [.quoted value]
  | group t => .openBracket :: (t.tokens ++ [.closeBracket])
  | member t name => t.tokens ++ [.point, .word name]
  | call t args => t.tokens ++ .openBracket :: (argumentTokens args ++ [.closeBracket])
  | create t args =>
    .word "new" :: (t.tokens ++ .openBracket :: (argumentTokens args ++ [.closeBracket]))
  | negate t => .operator .sub :: t.tokens
  | binary op l r => l.tokens ++ .operator op :: r.tokens

def argumentTokens : List Tree → List Token
  | [] => []
  | t :: ts => t.tokens ++ moreTokens ts

/-- The tokens of the arguments after the first. -/
def moreTokens : List Tree → List Token
  | [] => []
  | t :: ts => .comma :: (t.tokens ++ moreTokens ts)

end

/-! ## Texts -/

mutual

/-- The text of a tree, with a blank on both sides of an operator and after a comma. -/
def text : Tree → List Char
  | word name => name.toList
  | number text => text.toList
  | quoted value => (quote value).toList
  | group t => '(' :: (t.text ++ [')'])
  -- A point would belong to the number before it, and two minus signs would be one operator.
  | member t name => t.text ++ ((if t.isNumber then [' '] else []) ++ '.' :: name.toList)
  | call t args => t.text ++ '(' :: (argumentsText args ++ [')'])
  | create t args =>
    'n' :: 'e' :: 'w' :: ' ' :: (t.text ++ '(' :: (argumentsText args ++ [')']))
  | negate t => '-' :: ((if t.isNegation then [' '] else []) ++ t.text)
  | binary op l r => l.text ++ ' ' :: (op.symbol.toList ++ ' ' :: r.text)

def argumentsText : List Tree → List Char
  | [] => []
  | t :: ts => t.text ++ moreText ts

/-- The text of the arguments after the first. -/
def moreText : List Tree → List Char
  | [] => []
  | t :: ts => ',' :: ' ' :: (t.text ++ moreText ts)

end

end Tree

namespace Statement

def tokens : Statement → List Token
  | declare name t => .word "var" :: .word name :: .assign :: (t.tokens ++ [.semicolon])
  | evaluate t => t.tokens ++ [.semicolon]

def text : Statement → List Char
  | declare name t => "var ".toList ++ (name.toList ++ (" = ".toList ++ (t.text ++ [';'])))
  | evaluate t => t.text ++ [';']

end Statement

namespace FunctionTree

def parameterTokens : List String → List Token
  | [] => []
  | p :: ps => .word p :: ps.flatMap fun q => [.comma, .word q]

def tokens (f : FunctionTree) : List Token :=
  .word "function" :: .openBracket :: (parameterTokens f.parameters ++
    .closeBracket :: .openBrace :: (f.statements.flatMap Statement.tokens ++
      .word "return" :: (f.result.tokens ++ [.semicolon, .closeBrace])))

def parametersText : List String → List Char
  | [] => []
  | p :: ps => p.toList ++ ps.flatMap fun q => ',' :: ' ' :: q.toList

def text (f : FunctionTree) : List Char :=
  "function".toList ++ '(' :: (parametersText f.parameters ++
    ')' :: ' ' :: '\x7b' :: ' ' :: (f.statements.flatMap (fun s => s.text ++ [' ']) ++
      ("return".toList ++ ' ' :: (f.result.text ++ [';', ' ', '\x7d']))))

end FunctionTree

/-! ## Texts are scanned to the tokens of their trees -/

namespace Tree

/-- Whether the last token of a tree ends where `rest` starts. -/
def mayPrecede : Tree → List Char → Bool
  | word _, rest | member _ _, rest => !rest.head?.any isIdentifierPart
  | number _, rest => endsNumber rest
  | negate t, rest => t.mayPrecede rest
  | binary _ _ r, rest => r.mayPrecede rest
  | _, _ => true

theorem mayPrecede_of_endsNumber {rest : List Char} (h : endsNumber rest = true) (t : Tree) :
    t.mayPrecede rest = true := by
  have hpart : rest.head?.any isIdentifierPart = false := by
    cases rest with
    | nil => rfl
    | cons c rest => simp_all [endsNumber]
  induction t with
  | word name => simp [mayPrecede, hpart]
  | number text => exact h
  | quoted value => rfl
  | group t ih => rfl
  | member t name ih => simp [mayPrecede, hpart]
  | call t args ih ihs => rfl
  | create t args ih ihs => rfl
  | negate t ih => exact ih
  | binary op l r ihl ihr => exact ihr

theorem mayPrecede_point {t : Tree} (h : 4 ≤ t.strength) (hn : t.isNumber = false)
    (rest : List Char) : t.mayPrecede ('.' :: rest) = true := by
  cases t with
  | number text => simp [isNumber] at hn
  | negate t => simp [strength] at h
  | binary op l r => cases op <;> simp [strength, Script.strength] at h
  | word _ | quoted _ | group _ | member _ _ | call _ _ | create _ _ => rfl

theorem text_start {t : Tree} (hg : t.Grammatical) (h : 4 ≤ t.strength) :
    ∃ c r, t.text = c :: r ∧ joins '-' c = false := by
  induction t with
  | word name =>
    have hn := isIdentifier_of_isOperandWord hg
    unfold isIdentifier at hn
    split at hn
    · contradiction
    · next c r hname =>
      refine ⟨c, r, hname, ?_⟩
      simp only [Bool.and_eq_true] at hn
      cases hj : joins '-' c
      · rfl
      · simp only [joins, Bool.or_eq_true, beq_iff_eq] at hj
        rcases hj with rfl | rfl <;> simp [isIdentifierStart] at hn
  | number text =>
    cases htext : text.toList with
    | nil => rw [Grammatical, htext, not_isNumber_nil] at hg; contradiction
    | cons c r =>
      rw [Grammatical, htext] at hg
      obtain ⟨-, -, -, hd⟩ := isNumber_start hg []
      refine ⟨c, r, htext, ?_⟩
      cases hj : joins '-' c
      · rfl
      · simp only [joins, Bool.or_eq_true, beq_iff_eq] at hj
        rcases hj with rfl | rfl <;> simp at hd
  | quoted value => exact ⟨_, _, toList_quote value, rfl⟩
  | group t ih => exact ⟨_, _, by rw [text], rfl⟩
  | member t name ih =>
    obtain ⟨c, r, hr, hc⟩ := ih hg.2.1 h
    exact ⟨c, _, by rw [text, hr, List.cons_append], hc⟩
  | call t args ih ihs =>
    obtain ⟨c, r, hr, hc⟩ := ih hg.2.1 hg.1
    exact ⟨c, _, by rw [text, hr, List.cons_append], hc⟩
  | create t args ih ihs => exact ⟨_, _, by rw [text], rfl⟩
  | negate t ih => simp [strength] at h
  | binary op l r ihl ihr => cases op <;> simp [strength, Script.strength] at h

theorem scans_moreText {args : List Tree} (rest : List Char)
    (h : ∀ t ∈ args, ∀ rest, t.mayPrecede rest = true → Scans t.text t.tokens rest) :
    Scans (moreText args) (moreTokens args) (')' :: rest) := by
  induction args with
  | nil => exact Scans.nil _
  | cons t args ih =>
    have hmore := ih fun u hu => h u (List.mem_cons_of_mem _ hu)
    have hnext : endsNumber (moreText args ++ ')' :: rest) = true := by
      cases args <;> rfl
    refine Scans.plain rfl (by decide) (Scans.blank ?_)
    exact (h t List.mem_cons_self _ (mayPrecede_of_endsNumber hnext t)).append hmore

theorem scans_arguments {args : List Tree} (rest : List Char)
    (h : ∀ t ∈ args, ∀ rest, t.mayPrecede rest = true → Scans t.text t.tokens rest) :
    Scans ('(' :: (argumentsText args ++ [')']))
      (.openBracket :: (argumentTokens args ++ [.closeBracket])) rest := by
  refine Scans.plain rfl (by decide) (Scans.append ?_ (Scans.plain rfl (by decide) (Scans.nil _)))
  cases args with
  | nil => exact Scans.nil _
  | cons t args =>
    have hmore := scans_moreText rest fun u hu => h u (List.mem_cons_of_mem _ hu)
    have hnext : endsNumber (moreText args ++ ')' :: rest) = true := by
      cases args <;> rfl
    exact (h t List.mem_cons_self _ (mayPrecede_of_endsNumber hnext t)).append hmore

theorem scans_text {t : Tree} (hg : t.Grammatical) (rest : List Char)
    (hr : t.mayPrecede rest = true) : Scans t.text t.tokens rest := by
  induction t generalizing rest with
  | word name =>
    rw [text, tokens, ← List.append_nil name.toList]
    refine Scans.word (isIdentifier_of_isOperandWord hg) ?_ (Scans.nil _)
    simpa [mayPrecede] using hr
  | number digits =>
    rw [text, tokens, ← List.append_nil digits.toList]
    exact Scans.number hg hr (Scans.nil _)
  | quoted value =>
    rw [text, tokens, ← List.append_nil (quote value).toList]
    exact Scans.quoted (Scans.nil _)
  | group t ih =>
    refine Scans.plain rfl (by decide) (Scans.append ?_ (Scans.plain rfl (by decide) (Scans.nil _)))
    exact ih hg _ (mayPrecede_of_endsNumber rfl t)
  | member t name ih =>
    obtain ⟨hs, ht, hn⟩ := hg
    have hname : Scans ('.' :: name.toList) [.point, .word name] rest := by
      refine Scans.mark rfl ?_ ?_ ?_
      · cases (name.toList ++ rest).head? <;> rfl
      · intro _
        unfold isIdentifier at hn
        split at hn
        · contradiction
        · next c r hc =>
          simp only [Bool.and_eq_true] at hn
          rw [hc, List.cons_append, List.head?_cons, Option.any_some]
          cases hd : c.isDigit
          · rfl
          · rw [(start_of_isDigit hd).2.1] at hn
            exact absurd hn.1 (by simp)
      · rw [← List.append_nil name.toList]
        refine Scans.word hn ?_ (Scans.nil _)
        simpa [mayPrecede] using hr
    rw [text, tokens]
    cases hnum : t.isNumber
    · exact (ih ht _ (mayPrecede_point hs hnum _)).append hname
    · exact (ih ht _ (mayPrecede_of_endsNumber rfl t)).append hname.blank
  | call t args ih ihs =>
    obtain ⟨hs, ht, hargs⟩ := hg
    rw [allGrammatical_iff] at hargs
    have hlist := scans_arguments rest fun u hu => ihs u hu (hargs u hu)
    exact (ih ht _ (mayPrecede_of_endsNumber rfl t)).append hlist
  | create t args ih ihs =>
    obtain ⟨hs, ht, hargs⟩ := hg
    rw [allGrammatical_iff] at hargs
    have hlist := scans_arguments rest fun u hu => ihs u hu (hargs u hu)
    have hcall := (ih ht _ (mayPrecede_of_endsNumber rfl t)).append hlist
    have hnew : isIdentifier "new" = true := by decide
    exact Scans.word hnew rfl hcall.blank
  | negate t ih =>
    obtain ⟨hs, ht⟩ := hg
    have hinner := ih ht rest hr
    rw [text, tokens]
    cases hneg : t.isNegation
    · have hfour : 4 ≤ t.strength := by
        cases t with
        | negate t => simp [isNegation] at hneg
        | binary op l r => cases op <;> simp [strength, Script.strength] at hs
        | member t name => exact ht.1
        | word _ | number _ | quoted _ | group _ | call _ _ | create _ _ => simp [strength]
      obtain ⟨c, r, hc, hj⟩ := text_start ht hfour
      refine Scans.mark rfl ?_ (by simp) hinner
      simp [hc, hj]
    · exact Scans.mark rfl rfl (by simp) hinner.blank
  | binary op l r ihl ihr =>
    obtain ⟨-, -, hl, hrg⟩ := hg
    refine (ihl hl _ (mayPrecede_of_endsNumber rfl l)).append ?_
    have hright := (ihr hrg rest hr).blank
    refine Scans.blank ?_
    cases op <;> exact Scans.mark rfl rfl (by simp) hright

theorem tokens?_text {t : Tree} (hg : t.Grammatical) : tokens? t.text = some t.tokens := by
  have hscan := scans_text hg [] (mayPrecede_of_endsNumber rfl t)
  rw [Scans, List.append_nil, tokens?_nil, Option.map_some, List.append_nil] at hscan
  exact hscan

end Tree

namespace Statement

theorem scans_text {s : Statement} (hg : s.Grammatical) (rest : List Char) :
    Scans s.text s.tokens rest := by
  have hend : Scans [';'] [.semicolon] rest := Scans.plain rfl (by decide) (Scans.nil _)
  cases s with
  | declare name t =>
    obtain ⟨hn, ht⟩ := hg
    have hname := isIdentifier_of_isOperandWord (isOperandWord_of_isBindable hn)
    have hvar : isIdentifier "var" = true := by decide
    have hvalue := (Tree.scans_text ht _ (Tree.mayPrecede_of_endsNumber rfl t)).append hend
    have hassign := (Scans.mark (c := '=') rfl rfl (by simp) hvalue.blank).blank
    exact Scans.word hvar rfl (Scans.word hname rfl hassign).blank
  | evaluate t => exact (Tree.scans_text hg _ (Tree.mayPrecede_of_endsNumber rfl t)).append hend

theorem tokens?_text {s : Statement} (hg : s.Grammatical) : tokens? s.text = some s.tokens := by
  have hscan := scans_text hg []
  rw [Scans, List.append_nil, tokens?_nil, Option.map_some, List.append_nil] at hscan
  exact hscan

end Statement

namespace FunctionTree

theorem scans_statements {ss : List Statement} (hg : ∀ s ∈ ss, s.Grammatical) (rest : List Char) :
    Scans (ss.flatMap fun s => s.text ++ [' ']) (ss.flatMap Statement.tokens) rest := by
  induction ss with
  | nil => exact Scans.nil _
  | cons s ss ih =>
    have hss := (ih fun u hu => hg u (List.mem_cons_of_mem _ hu)).blank
    have hs := (Statement.scans_text (hg s List.mem_cons_self) _).append hss
    rw [List.flatMap_cons, List.flatMap_cons, List.append_assoc]
    exact hs

theorem scans_parameters {ps : List String} (hg : ∀ p ∈ ps, isBindable p = true)
    (rest : List Char) : Scans (parametersText ps) (parameterTokens ps) (')' :: rest) := by
  have hname : ∀ p ∈ ps, isIdentifier p = true := fun p hp =>
    isIdentifier_of_isOperandWord (isOperandWord_of_isBindable (hg p hp))
  cases ps with
  | nil => exact Scans.nil _
  | cons p ps =>
    have hmore : Scans (ps.flatMap fun q => ',' :: ' ' :: q.toList)
        (ps.flatMap fun q => [.comma, .word q]) (')' :: rest) := by
      have htail := fun q hq => hname q (List.mem_cons_of_mem _ hq)
      clear hname hg
      induction ps with
      | nil => exact Scans.nil _
      | cons q ps ih =>
        have hps := ih fun u hu => htail u (List.mem_cons_of_mem _ hu)
        refine Scans.plain rfl (by decide) (Scans.blank (Scans.word (htail q List.mem_cons_self) ?_ hps))
        cases ps <;> rfl
    refine Scans.word (hname p List.mem_cons_self) ?_ hmore
    cases ps <;> rfl

theorem scans_return {t : Tree} (hg : t.Grammatical) :
    Scans ("return".toList ++ ' ' :: (t.text ++ [';', ' ', '\x7d']))
      (.word "return" :: (t.tokens ++ [.semicolon, .closeBrace])) [] := by
  have hreturn : isIdentifier "return" = true := by decide
  have hend : Scans [';', ' ', '\x7d'] [.semicolon, .closeBrace] [] :=
    Scans.plain rfl (by decide) (Scans.plain rfl (by decide) (Scans.nil _)).blank
  have hresult := (Tree.scans_text hg _ (Tree.mayPrecede_of_endsNumber rfl t)).append hend
  exact Scans.word hreturn rfl hresult.blank

theorem tokens?_text {f : FunctionTree} (hg : f.Grammatical) : tokens? f.text = some f.tokens := by
  have hfunction : isIdentifier "function" = true := by decide
  have hbody := (scans_statements hg.statements _).append (scans_return hg.result)
  have hbrace := (Scans.plain (c := '\x7b') rfl (by decide) hbody.blank).blank
  have hhead := (scans_parameters hg.parameters _).append (Scans.plain rfl (by decide) hbrace)
  have hall : Scans f.text f.tokens [] :=
    Scans.word hfunction rfl (Scans.plain (c := '(') rfl (by decide) hhead)
  rw [Scans, List.append_nil, tokens?_nil, Option.map_some, List.append_nil] at hall
  exact hall

end FunctionTree

end RowScript.Script

import RowScript.Proofs.Compiled
import RowScript.Proofs.Emission.Agree

/-!
# Contents of literals

What a text, a date or a timestamp is spelled like does not change the function
that it is compiled into, apart from the place where it is quoted. The function
is one template, and the quoted content is put into its holes (`literal_template`).

The checks of an emission do not see the content (`agree_plug`). Whether brackets
are put around a text is decided by the shape of its tree, which is the same for
every content (`Script.Tree.Uniform`).
-/

namespace RowScript

open Script (Tree Statement temporaryName)
open Emission (Agree SameShape emit concat outcome)

/-! ## Expressions with a place left open -/

/-- An expression in which one node is missing. -/
inductive Expr.Context where
  | hole
  | cast (operand : Context) (type : DataType)
  | concat (before : List Expr) (arg : Context) (after : List Expr) (type : DataType)
  | upper (operand : Context) (type : DataType)
  | lower (operand : Context) (type : DataType)
  | substringOperand (operand : Context) (position length : Expr) (type : DataType)
  | substringPosition (operand : Expr) (position : Context) (length : Expr) (type : DataType)
  | substringLength (operand position : Expr) (length : Context) (type : DataType)
  | toDate (operand : Context) (type : DataType)
  | dateAddDate (date : Context) (days : Expr) (type : DataType)
  | dateAddDays (date : Expr) (days : Context) (type : DataType)
  | dateSubDate (date : Context) (days : Expr) (type : DataType)
  | dateSubDays (date : Expr) (days : Context) (type : DataType)
  | extract (field : DateField) (operand : Context) (type : DataType)
  | arithmeticLeft (op : ArithOp) (left : Context) (right : Expr) (type : DataType)
  | arithmeticRight (op : ArithOp) (left : Expr) (right : Context) (type : DataType)

namespace Expr.Context

/-- The expression with `e` as the missing node. -/
def plug (e : Expr) : Context → Expr
  | hole => e
  | cast operand type => .cast (operand.plug e) type
  | concat before arg after type => .concat (before ++ arg.plug e :: after) type
  | upper operand type => .upper (operand.plug e) type
  | lower operand type => .lower (operand.plug e) type
  | substringOperand operand position length type =>
    .substring (operand.plug e) position length type
  | substringPosition operand position length type =>
    .substring operand (position.plug e) length type
  | substringLength operand position length type =>
    .substring operand position (length.plug e) type
  | toDate operand type => .toDate (operand.plug e) type
  | dateAddDate date days type => .dateAdd (date.plug e) days type
  | dateAddDays date days type => .dateAdd date (days.plug e) type
  | dateSubDate date days type => .dateSub (date.plug e) days type
  | dateSubDays date days type => .dateSub date (days.plug e) type
  | extract field operand type => .extract field (operand.plug e) type
  | arithmeticLeft op left right type => .arithmetic op (left.plug e) right type
  | arithmeticRight op left right type => .arithmetic op left (right.plug e) type

end Expr.Context

/-! ## The course of the emission -/

namespace Emission

theorem isLiteral_plug (C : Expr.Context) {a b : Expr} (h : a.isLiteral = b.isLiteral) :
    (C.plug a).isLiteral = (C.plug b).isLiteral := by
  cases C with
  | hole => exact h
  | _ => rfl

theorem agree_arguments {scope : Scope} {a b : Expr}
    (h : Agree SameShape (emit scope a) (emit scope b)) (before after : List Expr)
    (acc : Option Fragment) :
    Agree SameShape (concat scope acc (before ++ a :: after))
      (concat scope acc (before ++ b :: after)) := by
  induction before generalizing acc with
  | nil =>
    rw [List.nil_append, List.nil_append, concat, concat]
    refine .bind h fun f g hfg => .bind (agree_cast hfg .string) fun p q hpq => ?_
    cases acc with
    | none => exact agree_concat scope hpq after
    | some f => exact agree_concat scope (.inline ..) after
  | cons e before ih =>
    rw [List.cons_append, List.cons_append, concat, concat]
    refine .bind_right _ fun f => .bind_right _ fun g => ?_
    cases acc with
    | none => exact ih _
    | some f => exact ih _

theorem agree_plug {scope : Scope} {a b : Expr} (hl : a.isLiteral = b.isLiteral)
    (h : Agree SameShape (emit scope a) (emit scope b)) (C : Expr.Context) :
    Agree SameShape (emit scope (C.plug a)) (emit scope (C.plug b)) := by
  induction C with
  | hole => exact h
  | cast operand type ih =>
    simp only [Expr.Context.plug, emit]
    exact .bind ih fun f g hfg => agree_cast hfg type
  | concat before arg after type ih =>
    simp only [Expr.Context.plug, emit]
    exact agree_arguments ih before after none
  | upper operand type ih =>
    simp only [Expr.Context.plug, emit]
    exact .bind ih fun f g hfg => agree_changeCase hfg _ _
  | lower operand type ih =>
    simp only [Expr.Context.plug, emit]
    exact .bind ih fun f g hfg => agree_changeCase hfg _ _
  | substringOperand operand position length type ih =>
    rw [Expr.Context.plug, Expr.Context.plug, emit, emit]
    refine .guard _ _ fun _ => .guard _ _ fun _ => ?_
    refine .bind ih fun f g hfg => .bind (agree_cast hfg .string) fun p q hpq => ?_
    refine .bind_right _ fun p => .bind_right _ fun _ => ?_
    exact .bind_right _ fun l => .bind_right _ fun _ => .pure (.inline ..)
  | substringPosition operand position length type ih =>
    rw [Expr.Context.plug, Expr.Context.plug, emit, emit, isLiteral_plug position hl]
    refine .guard _ _ fun _ => .guard _ _ fun _ => ?_
    refine .bind_right _ fun f => .bind_right _ fun g => ?_
    refine .bind ih fun p q hpq => ?_
    unfold expectIntegral
    rw [hpq.type]
    refine .bind (agree_expect hpq _ _ _) fun _ _ _ => ?_
    exact .bind_right _ fun l => .bind_right _ fun _ => .pure (.inline ..)
  | substringLength operand position length type ih =>
    rw [Expr.Context.plug, Expr.Context.plug, emit, emit, isLiteral_plug length hl]
    refine .guard _ _ fun _ => .guard _ _ fun _ => ?_
    refine .bind_right _ fun f => .bind_right _ fun g => ?_
    refine .bind_right _ fun p => .bind_right _ fun _ => ?_
    refine .bind ih fun p q hpq => ?_
    unfold expectIntegral
    rw [hpq.type]
    exact .bind (agree_expect hpq _ _ _) fun _ _ _ => .pure (.inline ..)
  | toDate operand type ih =>
    simp only [Expr.Context.plug, emit]
    exact .bind ih fun f g hfg => agree_cutToDay hfg
  | dateAddDate date days type ih =>
    simp only [Expr.Context.plug, emit]
    refine .bind ih fun f g hfg => .bind_right _ fun k => ?_
    exact agree_shift hfg (.refl k) _
  | dateAddDays date days type ih =>
    simp only [Expr.Context.plug, emit]
    refine .bind_right _ fun k => .bind ih fun f g hfg => ?_
    exact agree_shift (.refl k) hfg _
  | dateSubDate date days type ih =>
    simp only [Expr.Context.plug, emit]
    refine .bind ih fun f g hfg => .bind_right _ fun k => ?_
    exact agree_shift hfg (.refl k) _
  | dateSubDays date days type ih =>
    simp only [Expr.Context.plug, emit]
    refine .bind_right _ fun k => .bind ih fun f g hfg => ?_
    exact agree_shift (.refl k) hfg _
  | extract field operand type ih =>
    simp only [Expr.Context.plug, emit]
    exact .bind ih fun f g hfg => agree_extract hfg field
  | arithmeticLeft op left right type ih =>
    simp only [Expr.Context.plug, emit]
    exact .bind ih fun f g hfg => .bind_right _ fun k => .pure (.inline ..)
  | arithmeticRight op left right type ih =>
    simp only [Expr.Context.plug, emit]
    exact .bind_right _ fun k => .bind ih fun f g hfg => .pure (.inline ..)

theorem agree_literal (scope : Scope) {type : DataType}
    (ht : type = .string ∨ type = .date ∨ type = .timestamp) (v w : String) :
    Agree SameShape (emit scope (.literal (some v) type)) (emit scope (.literal (some w) type)) := by
  rw [emit, emit]
  rcases ht with rfl | rfl | rfl
  · exact .pure (.inline ..)
  · exact .pure (.inline ..)
  · exact .pure (.inline ..)

theorem agree_rootFunction (scope : Scope) {a b : Expr}
    (h : Agree SameShape (emit scope a) (emit scope b)) :
    Agree (fun f g => f.parameters = g.parameters) (rootFunction scope a) (rootFunction scope b) := by
  unfold rootFunction
  refine .bind h fun f g hfg => .bind (agree_cast hfg .string) fun p q hpq => ?_
  exact .bind_right _ fun s => .guard _ _ fun _ => .pure rfl

end Emission

/-! ## Templates -/

/-- A part of a template. -/
inductive Piece where
  | text (s : String)
  | hole

abbrev Template := List Piece

def Piece.fill (s : String) : Piece → String
  | text t => t
  | hole => s

/-- The template with `s` in each of its holes. -/
def Template.fill (T : Template) (s : String) : String := String.join (T.map (Piece.fill s))

/-- A function with holes in its statements and its result. -/
structure FunctionTemplate where
  parameters : List String
  statements : List Template
  result : Template

def FunctionTemplate.fill (T : FunctionTemplate) (s : String) : RowFunction where
  parameters := T.parameters
  statements := T.statements.map (·.fill s)
  result := T.result.fill s

theorem Template.fill_append (T U : Template) (s : String) :
    Template.fill (T ++ U) s = T.fill s ++ U.fill s := by
  rw [Template.fill, List.map_append, String.join_append]
  rfl

namespace Script

/-- Texts that one template makes of the quoted contents. -/
def Uniform (g : String → List Char) : Prop :=
  ∃ T : Template, ∀ v, g v = (T.fill (quote v)).toList

namespace Uniform

theorem const (cs : List Char) : Uniform fun _ => cs :=
  ⟨[.text (String.ofList cs)], by simp [Template.fill, Piece.fill]⟩

theorem quoted : Uniform fun v => (quote v).toList :=
  ⟨[.hole], by simp [Template.fill, Piece.fill]⟩

theorem append {g h : String → List Char} (hg : Uniform g) (hh : Uniform h) :
    Uniform fun v => g v ++ h v := by
  obtain ⟨T, hT⟩ := hg
  obtain ⟨U, hU⟩ := hh
  refine ⟨T ++ U, ?_⟩
  intro v
  change g v ++ h v = _
  rw [hT, hU, Template.fill_append, String.toList_append]

theorem cons (c : Char) {g : String → List Char} (hg : Uniform g) : Uniform fun v => c :: g v :=
  (const [c]).append hg

end Uniform

/-- Trees that are alike but for a quoted content. -/
structure Tree.Uniform (g : String → Tree) : Prop where
  text : Script.Uniform fun v => (g v).text
  isWord : ∀ v w, (g v).isWord = (g w).isWord
  isGroup : ∀ v w, (g v).isGroup = (g w).isGroup

namespace Tree.Uniform

variable {g h : String → Tree}

theorem const (t : Tree) : Tree.Uniform fun _ => t :=
  ⟨.const t.text, fun _ _ => rfl, fun _ _ => rfl⟩

theorem quoted : Tree.Uniform .quoted := ⟨.quoted, fun _ _ => rfl, fun _ _ => rfl⟩

theorem group (hg : Tree.Uniform g) : Tree.Uniform fun v => .group (g v) :=
  ⟨.cons '(' (hg.text.append (.const [')'])), fun _ _ => rfl, fun _ _ => rfl⟩

theorem receiver (hg : Tree.Uniform g) : Tree.Uniform fun v => (g v).receiver := by
  -- Brackets depend on the root of the tree alone, and all contents have the same root.
  have hsame : ∀ v, ((g v).isWord || (g v).isGroup) = ((g "").isWord || (g "").isGroup) := by
    intro v
    rw [hg.isWord v "", hg.isGroup v ""]
  unfold Tree.receiver
  simp only [hsame]
  split
  · exact hg
  · exact hg.group

theorem moreText {gs : List (String → Tree)} (h : ∀ g ∈ gs, Tree.Uniform g) :
    Script.Uniform fun v => Tree.moreText (gs.map (· v)) := by
  induction gs with
  | nil => exact .const []
  | cons g gs ih =>
    have hrest := ih fun f hf => h f (List.mem_cons_of_mem _ hf)
    exact .cons ',' (.cons ' ' ((h g List.mem_cons_self).text.append hrest))

theorem argumentsText {gs : List (String → Tree)} (h : ∀ g ∈ gs, Tree.Uniform g) :
    Script.Uniform fun v => '(' :: (Tree.argumentsText (gs.map (· v)) ++ [')']) := by
  refine .cons '(' (.append ?_ (.const [')']))
  cases gs with
  | nil => exact .const []
  | cons g gs =>
    have hrest := moreText fun f hf => h f (List.mem_cons_of_mem _ hf)
    exact (h g List.mem_cons_self).text.append hrest

theorem call (hg : Tree.Uniform g) (gs : List (String → Tree)) (h : ∀ g ∈ gs, Tree.Uniform g) :
    Tree.Uniform fun v => .call (g v) (gs.map (· v)) :=
  ⟨hg.text.append (argumentsText h), fun _ _ => rfl, fun _ _ => rfl⟩

theorem create (hg : Tree.Uniform g) (gs : List (String → Tree)) (h : ∀ g ∈ gs, Tree.Uniform g) :
    Tree.Uniform fun v => .create (g v) (gs.map (· v)) :=
  ⟨(Script.Uniform.const ['n', 'e', 'w', ' ']).append (hg.text.append (argumentsText h)),
    fun _ _ => rfl, fun _ _ => rfl⟩

theorem member (hg : Tree.Uniform g) (hn : ∀ v, (g v).isNumber = false) (name : String) :
    Tree.Uniform fun v => .member (g v) name := by
  refine ⟨?_, fun _ _ => rfl, fun _ _ => rfl⟩
  simp only [fun v => text_member (hn v) name]
  exact hg.text.append (.const _)

theorem binary (op : ArithOp) (hg : Tree.Uniform g) (hh : Tree.Uniform h) :
    Tree.Uniform fun v => .binary op (g v) (h v) := by
  refine ⟨?_, fun _ _ => rfl, fun _ _ => rfl⟩
  exact hg.text.append (.cons ' ' ((Script.Uniform.const _).append (.cons ' ' hh.text)))

theorem invoke (hg : Tree.Uniform g) (name : String) (gs : List (String → Tree))
    (h : ∀ g ∈ gs, Tree.Uniform g) : Tree.Uniform fun v => (g v).invoke name (gs.map (· v)) :=
  (hg.receiver.member (fun v => isNumber_receiver (g v)) name).call gs h

theorem newDate (hg : Tree.Uniform g) : Tree.Uniform fun v => .newDate (g v) :=
  create (.const _) [g] (by simpa using hg)

theorem callGlobal (name : String) (gs : List (String → Tree)) (h : ∀ g ∈ gs, Tree.Uniform g) :
    Tree.Uniform fun v => .callGlobal name (gs.map (· v)) := (const _).call gs h

end Tree.Uniform

end Script

theorem Conversion.uniform_tree (c : Conversion) {g : String → Tree} (h : Tree.Uniform g) :
    Tree.Uniform fun v => c.tree (g v) := by
  have hone : ∀ f ∈ [g], Tree.Uniform f := by simpa using h
  have hnone : ∀ f ∈ ([] : List (String → Tree)), Tree.Uniform f := by simp
  cases c with
  | keep => exact h
  | parseFloat => exact .callGlobal _ [g] hone
  | parseInt =>
    exact .callGlobal _ [g, fun _ => .number "10"] (by simp [h, Tree.Uniform.const])
  | toNumber => exact .callGlobal _ [g] hone
  | toBoolean => exact .callGlobal _ [g] hone
  | toText => exact h.invoke _ [] hnone
  | dateText => exact h.invoke _ [] hnone
  | dayText =>
    have htext := (h.invoke "toISOString" [] hnone).member (fun _ => rfl) "substring"
    exact htext.call [fun _ => .number "0", fun _ => .number "10"]
      (by simp [Tree.Uniform.const])
  | epochOfDate => exact h.invoke _ [] hnone
  | epochOfValue => exact (h.newDate.member (fun _ => rfl) "getTime").call [] hnone
  | dateOfValue => exact h.newDate
  | dateOfNumber => exact (Tree.Uniform.callGlobal "parseFloat" [g] hone).newDate
  | dateCopy => exact (h.invoke "getTime" [] hnone).newDate

theorem DateField.uniform_tree (field : DateField) {g : String → Tree} (h : Tree.Uniform g) :
    Tree.Uniform fun v => field.tree (g v) := by
  have hnone : ∀ f ∈ ([] : List (String → Tree)), Tree.Uniform f := by simp
  cases field with
  | year => exact h.invoke _ [] hnone
  | month => exact ((h.invoke "getUTCMonth" [] hnone).binary .add (.const (.number "1"))).group
  | hour => exact h.invoke _ [] hnone
  | minute => exact h.invoke _ [] hnone
  | second => exact h.invoke _ [] hnone

namespace Code

/-- Codes that are alike but for a quoted content. -/
structure Uniform (c : String → Code) : Prop where
  statements : ∃ ss : List (String → Statement), (∀ v, (c v).statements = ss.map (· v)) ∧
    ∀ s ∈ ss, Script.Uniform fun v => (s v).text
  value : Tree.Uniform fun v => (c v).value

namespace Uniform

variable {c d e : String → Code}

theorem const (c : Code) : Uniform fun _ => c := by
  refine ⟨⟨c.statements.map fun s _ => s, by simp [Function.comp_def], ?_⟩, .const _⟩
  intro s hs
  obtain ⟨t, -, rfl⟩ := List.mem_map.mp hs
  exact .const _

theorem binary {value : String → Tree} (hc : Uniform c) (hd : Uniform d)
    (hvalue : Tree.Uniform value) :
    Uniform fun v => ⟨(c v).statements ++ (d v).statements, value v⟩ := by
  obtain ⟨ss, hss, huss⟩ := hc.statements
  obtain ⟨ts, hts, huts⟩ := hd.statements
  refine ⟨⟨ss ++ ts, ?_, ?_⟩, hvalue⟩
  · intro v
    rw [List.map_append, ← hss, ← hts]
  · intro s hs
    rcases List.mem_append.mp hs with hs | hs
    · exact huss s hs
    · exact huts s hs

theorem map (hc : Uniform c) {g : Tree → Tree} (hg : Tree.Uniform fun v => g (c v).value) :
    Uniform fun v => (c v).map g := ⟨hc.statements, hg⟩

theorem append (hc : Uniform c) (hd : Uniform d) : Uniform fun v => (c v).append (d v) :=
  hc.binary hd (hc.value.invoke "concat" [fun v => (d v).value] (by simpa using hd.value))

theorem slice (hc : Uniform c) (hd : Uniform d) (he : Uniform e) :
    Uniform fun v => ⟨(c v).statements ++ (d v).statements ++ (e v).statements,
      (c v).value.invoke "substr" [(d v).value, (e v).value]⟩ := by
  have hboth := hc.binary hd hc.value
  refine hboth.binary he ?_
  exact hc.value.invoke "substr" [fun v => (d v).value, fun v => (e v).value]
    (by simp [hd.value, he.value])

theorem bind {init change : String → Tree} (hc : Uniform c) (hinit : Tree.Uniform init)
    (hchange : Tree.Uniform change) (name : String) :
    Uniform fun v => ⟨(c v).statements ++ [.declare name (init v), .evaluate (change v)],
      .word name⟩ := by
  have hdeclare : Script.Uniform fun v => (Statement.declare name (init v)).text :=
    (Script.Uniform.const _).append ((Script.Uniform.const _).append ((Script.Uniform.const _).append
      (hinit.text.append (.const _))))
  have hevaluate : Script.Uniform fun v => (Statement.evaluate (change v)).text :=
    hchange.text.append (.const _)
  have hpair : Uniform fun v => ⟨[.declare name (init v), .evaluate (change v)], .word name⟩ := by
    refine ⟨⟨[fun v => .declare name (init v), fun v => .evaluate (change v)], fun _ => rfl, ?_⟩,
      .const _⟩
    intro s hs
    simp only [List.mem_cons, List.not_mem_nil, or_false] at hs
    rcases hs with rfl | rfl
    · exact hdeclare
    · exact hevaluate
  exact hc.binary hpair (.const _)

theorem cut (hc : Uniform c) (own : Option Conversion) (name : String) :
    Uniform fun v => (c v).cut name (Conversion.treeOf own (c v).value) :=
  hc.bind (Conversion.uniform_tree _ hc.value) (.const _) name

theorem shift (hc : Uniform c) (hd : Uniform d) (own : Option Conversion)
    (direction : Emission.Direction) (name : String) :
    Uniform fun v => Code.shift direction name (Conversion.treeOf own (c v).value) (c v) (d v) := by
  refine (hc.binary hd hc.value).bind (Conversion.uniform_tree _ hc.value) ?_ name
  exact (Tree.Uniform.const (.word name)).invoke "setUTCDate"
    [fun v => .binary direction.op ((Tree.word name).invoke "getUTCDate" []) (.group (d v).value)]
    (by simpa using (Tree.Uniform.const _).binary direction.op hd.value.group)

theorem foldl {cs : List (String → Code)} (hc : Uniform c) (hcs : ∀ d ∈ cs, Uniform d) :
    Uniform fun v => (cs.map (· v)).foldl Code.append (c v) := by
  induction cs generalizing c with
  | nil => exact hc
  | cons d cs ih =>
    exact ih (hc.append (hcs d List.mem_cons_self)) fun e he => hcs e (List.mem_cons_of_mem _ he)

theorem concat {cs : List (String → Code)} (hcs : ∀ d ∈ cs, Uniform d) :
    Uniform fun v => Code.concat (cs.map (· v)) := by
  cases cs with
  | nil => exact const _
  | cons c cs =>
    exact (hcs c List.mem_cons_self).foldl fun e he => hcs e (List.mem_cons_of_mem _ he)

end Uniform

end Code

/-! ## One template for all contents -/

/-- What the nodes around `e` ask for, apart from the code of `e`. -/
structure Expr.SameOutline (scope : Scope) (a b : Expr) : Prop where
  typeIn : a.typeIn scope = b.typeIn scope
  isDay : a.isDay = b.isDay
  temporaries : a.temporaries = b.temporaries

theorem Expr.sameOutline_plug {scope : Scope} {a b : Expr} (h : a.SameOutline scope b)
    (C : Expr.Context) : (C.plug a).SameOutline scope (C.plug b) := by
  have harguments : ∀ before after x y, Expr.temporaries x = y.temporaries →
      temporariesOf (before ++ x :: after) = temporariesOf (before ++ y :: after) := by
    intro before after x y hxy
    induction before with
    | nil => rw [List.nil_append, List.nil_append, temporariesOf, temporariesOf, hxy]
    | cons e before ih =>
      rw [List.cons_append, List.cons_append, temporariesOf, temporariesOf, ih]
  induction C with
  | hole => exact h
  | cast operand type ih =>
    refine ⟨rfl, ?_, ih.temporaries⟩
    rw [Context.plug, Context.plug, Expr.isDay, Expr.isDay, ih.isDay]
  | concat before arg after type ih =>
    exact ⟨rfl, rfl, harguments before after _ _ ih.temporaries⟩
  | upper operand type ih => exact ⟨rfl, rfl, ih.temporaries⟩
  | lower operand type ih => exact ⟨rfl, rfl, ih.temporaries⟩
  | substringOperand operand position length type ih =>
    exact ⟨rfl, rfl, by simp only [Context.plug, Expr.temporaries, ih.temporaries]⟩
  | substringPosition operand position length type ih =>
    exact ⟨rfl, rfl, by simp only [Context.plug, Expr.temporaries, ih.temporaries]⟩
  | substringLength operand position length type ih =>
    exact ⟨rfl, rfl, by simp only [Context.plug, Expr.temporaries, ih.temporaries]⟩
  | toDate operand type ih =>
    exact ⟨rfl, rfl, by simp only [Context.plug, Expr.temporaries, ih.temporaries]⟩
  | dateAddDate date days type ih =>
    exact ⟨rfl, rfl, by simp only [Context.plug, Expr.temporaries, ih.temporaries]⟩
  | dateAddDays date days type ih =>
    exact ⟨rfl, rfl, by simp only [Context.plug, Expr.temporaries, ih.temporaries]⟩
  | dateSubDate date days type ih =>
    exact ⟨rfl, rfl, by simp only [Context.plug, Expr.temporaries, ih.temporaries]⟩
  | dateSubDays date days type ih =>
    exact ⟨rfl, rfl, by simp only [Context.plug, Expr.temporaries, ih.temporaries]⟩
  | extract field operand type ih => exact ⟨rfl, rfl, ih.temporaries⟩
  | arithmeticLeft op left right type ih =>
    exact ⟨rfl, rfl, by simp only [Context.plug, Expr.temporaries, ih.temporaries]⟩
  | arithmeticRight op left right type ih =>
    exact ⟨rfl, rfl, by simp only [Context.plug, Expr.temporaries, ih.temporaries]⟩

namespace Expr

theorem uniform_stringCodes {scope : Scope} {x : String → Expr}
    (hx : ∀ v w, (x v).SameOutline scope (x w))
    (hcode : ∀ n, Code.Uniform fun v => (x v).code scope n) (before after : List Expr) (n : Nat) :
    ∃ cs : List (String → Code), (∀ c ∈ cs, Code.Uniform c) ∧
      ∀ v, stringCodes scope n (before ++ x v :: after) = cs.map (· v) := by
  induction before generalizing n with
  | nil =>
    have hconversion : ∀ v, (x v).conversionTo scope .string = (x "").conversionTo scope .string := by
      intro v
      rw [conversionTo, conversionTo, (hx v "").typeIn, (hx v "").isDay]
    refine ⟨(fun v => ((x v).code scope n).map (Conversion.treeOf ((x "").conversionTo scope .string)))
      :: (stringCodes scope (n + (x "").temporaries) after).map fun c _ => c, ?_, ?_⟩
    · intro c hc
      rcases List.mem_cons.mp hc with rfl | hc
      · exact (hcode n).map (Conversion.uniform_tree _ (hcode n).value)
      · obtain ⟨d, -, rfl⟩ := List.mem_map.mp hc
        exact .const d
    · intro v
      rw [List.nil_append, stringCodes, hconversion, (hx v "").temporaries]
      simp [Function.comp_def]
  | cons e before ih =>
    obtain ⟨cs, hcs, heq⟩ := ih (n + e.temporaries)
    refine ⟨(fun _ => (e.code scope n).map (Conversion.treeOf (e.conversionTo scope .string))) :: cs,
      ?_, ?_⟩
    · intro c hc
      rcases List.mem_cons.mp hc with rfl | hc
      · exact .const _
      · exact hcs c hc
    · intro v
      rw [List.cons_append, stringCodes, heq]
      rfl

theorem uniform_code {scope : Scope} {x : String → Expr}
    (hx : ∀ v w, (x v).SameOutline scope (x w))
    (hcode : ∀ n, Code.Uniform fun v => (x v).code scope n) (C : Expr.Context) (n : Nat) :
    Code.Uniform fun v => (C.plug (x v)).code scope n := by
  have hnone : ∀ f ∈ ([] : List (String → Tree)), Tree.Uniform f := by simp
  -- The operands beside the hole have the same code for all contents, and so do their numbers.
  induction C generalizing n with
  | hole => exact hcode n
  | cast operand type ih =>
    have hsame := fun v => sameOutline_plug (hx v "") operand
    simp only [Context.plug, code, conversionTo, fun v => (hsame v).typeIn, fun v => (hsame v).isDay]
    exact (ih n).map (Conversion.uniform_tree _ (ih n).value)
  | concat before arg after type ih =>
    obtain ⟨cs, hcs, heq⟩ :=
      uniform_stringCodes (fun v w => sameOutline_plug (hx v w) arg) ih before after n
    simp only [Context.plug, code, heq]
    exact .concat hcs
  | upper operand type ih => exact (ih n).map ((ih n).value.invoke _ [] hnone)
  | lower operand type ih => exact (ih n).map ((ih n).value.invoke _ [] hnone)
  | substringOperand operand position length type ih =>
    have hsame := fun v => sameOutline_plug (hx v "") operand
    simp only [Context.plug, code, conversionTo, fun v => (hsame v).typeIn, fun v => (hsame v).isDay,
      fun v => (hsame v).temporaries]
    exact ((ih n).map (Conversion.uniform_tree _ (ih n).value)).slice (.const _) (.const _)
  | substringPosition operand position length type ih =>
    have hsame := fun v => sameOutline_plug (hx v "") position
    simp only [Context.plug, code, fun v => (hsame v).temporaries]
    exact (Code.Uniform.const _).slice (ih _) (.const _)
  | substringLength operand position length type ih =>
    exact (Code.Uniform.const _).slice (.const _) (ih _)
  | toDate operand type ih =>
    have hsame := fun v => sameOutline_plug (hx v "") operand
    simp only [Context.plug, code, fun v => (hsame v).typeIn, fun v => (hsame v).temporaries]
    exact (ih n).cut _ _
  | dateAddDate date days type ih =>
    have hsame := fun v => sameOutline_plug (hx v "") date
    simp only [Context.plug, code, fun v => (hsame v).typeIn, fun v => (hsame v).temporaries]
    exact (ih n).shift (.const _) _ _ _
  | dateAddDays date days type ih =>
    have hsame := fun v => sameOutline_plug (hx v "") days
    simp only [Context.plug, code, fun v => (hsame v).temporaries]
    exact (Code.Uniform.const _).shift (ih _) _ _ _
  | dateSubDate date days type ih =>
    have hsame := fun v => sameOutline_plug (hx v "") date
    simp only [Context.plug, code, fun v => (hsame v).typeIn, fun v => (hsame v).temporaries]
    exact (ih n).shift (.const _) _ _ _
  | dateSubDays date days type ih =>
    have hsame := fun v => sameOutline_plug (hx v "") days
    simp only [Context.plug, code, fun v => (hsame v).temporaries]
    exact (Code.Uniform.const _).shift (ih _) _ _ _
  | extract field operand type ih =>
    have hsame := fun v => sameOutline_plug (hx v "") operand
    simp only [Context.plug, code, fun v => (hsame v).typeIn]
    exact (ih n).map (field.uniform_tree (Conversion.uniform_tree _ (ih n).value))
  | arithmeticLeft op left right type ih =>
    have hsame := fun v => sameOutline_plug (hx v "") left
    simp only [Context.plug, code, fun v => (hsame v).temporaries]
    exact (ih n).binary (.const _) ((ih n).value.group.binary op (Tree.Uniform.const _).group)
  | arithmeticRight op left right type ih =>
    exact (Code.Uniform.const _).binary (ih _)
      ((Tree.Uniform.const _).group.binary op (ih _).value.group)

end Expr

theorem Script.Uniform.exists_templates {ss : List (String → Statement)}
    (h : ∀ s ∈ ss, Script.Uniform fun v => (s v).text) :
    ∃ Ts : List Template, ∀ v,
      (ss.map (· v)).map Statement.text = (Ts.map (·.fill (quote v))).map String.toList := by
  induction ss with
  | nil => exact ⟨[], fun v => rfl⟩
  | cons s ss ih =>
    obtain ⟨T, hT⟩ := h s List.mem_cons_self
    obtain ⟨Ts, hTs⟩ := ih fun t ht => h t (List.mem_cons_of_mem _ ht)
    refine ⟨T :: Ts, ?_⟩
    intro v
    rw [List.map_cons, List.map_cons, hTs]
    simpa using hT v

theorem RowFunction.ext_toList {f g : RowFunction} (hp : f.parameters = g.parameters)
    (hs : f.statements.map String.toList = g.statements.map String.toList)
    (hr : f.result.toList = g.result.toList) : f = g := by
  obtain ⟨ps, ss, r⟩ := f
  obtain ⟨qs, ts, u⟩ := g
  have hinjective : Function.Injective String.toList := fun a b => String.toList_inj.mp
  have hstatements : ss = ts := List.map_inj_right (fun a b => @hinjective a b) |>.mp hs
  have hresult : r = u := hinjective hr
  rw [RowFunction.mk.injEq]
  exact ⟨hp, hstatements, hresult⟩

section Contents

variable {scope : Scope} {type : DataType}

theorem tryCompile_plug (ht : type = .string ∨ type = .date ∨ type = .timestamp)
    (C : Expr.Context) (v w : String) :
    (∃ r, tryCompile scope (C.plug (.literal (some v) type)) = .error r ∧
      tryCompile scope (C.plug (.literal (some w) type)) = .error r) ∨
    ∃ f g, tryCompile scope (C.plug (.literal (some v) type)) = .ok f ∧
      tryCompile scope (C.plug (.literal (some w) type)) = .ok g ∧
      f.parameters = g.parameters := by
  have hisLiteral : (Expr.literal (some v) type).isLiteral = (Expr.literal (some w) type).isLiteral :=
    rfl
  have hplug := Emission.agree_plug hisLiteral (Emission.agree_literal scope ht v w) C
  rw [tryCompile_eq, tryCompile_eq]
  rcases Emission.agree_rootFunction scope hplug {} with ⟨r, s, hv, hw⟩ | ⟨f, g, s, hv, hw, hfg⟩
  · rw [hv, hw]
    exact .inl ⟨r, rfl, rfl⟩
  · rw [hv, hw]
    exact .inr ⟨f, g, rfl, rfl, hfg⟩

theorem sameOutline_literal (v w : String) :
    (Expr.literal (some v) type).SameOutline scope (.literal (some w) type) := ⟨rfl, rfl, rfl⟩

theorem uniform_literal (ht : type = .string ∨ type = .date ∨ type = .timestamp) (n : Nat) :
    Code.Uniform fun v => (Expr.literal (some v) type).code scope n := by
  refine ⟨⟨[], fun _ => rfl, by simp⟩, ?_⟩
  rcases ht with rfl | rfl | rfl
  · exact Conversion.uniform_tree .keep .quoted
  · exact Conversion.uniform_tree .dateOfValue .quoted
  · exact Conversion.uniform_tree .epochOfValue .quoted

theorem uniform_stringCode (ht : type = .string ∨ type = .date ∨ type = .timestamp)
    (C : Expr.Context) :
    Code.Uniform fun v => (C.plug (.literal (some v) type)).stringCode scope := by
  have hsame : ∀ v, (C.plug (.literal (some v) type)).SameOutline scope
      (C.plug (.literal (some "") type)) := by
    intro v
    exact Expr.sameOutline_plug (sameOutline_literal v "") C
  have hcode : Code.Uniform fun v => (C.plug (.literal (some v) type)).code scope 0 :=
    Expr.uniform_code sameOutline_literal (uniform_literal ht) C 0
  simp only [Expr.stringCode, Expr.conversionTo, fun v => (hsame v).typeIn, fun v => (hsame v).isDay]
  exact hcode.map (Conversion.uniform_tree _ hcode.value)

end Contents

/-- **One template for all contents.** A text, a date or a timestamp somewhere in an expression
makes it fail in the same way whatever the content, or the function is one template with the
quoted content in its holes. -/
theorem literal_template (scope : Scope) {type : DataType}
    (ht : type = .string ∨ type = .date ∨ type = .timestamp) (C : Expr.Context) :
    (∃ r, ∀ v, tryCompile scope (C.plug (.literal (some v) type)) = .error r) ∨
      ∃ T : FunctionTemplate, ∀ v,
        tryCompile scope (C.plug (.literal (some v) type)) = .ok (T.fill (Script.quote v)) := by
  rcases hrun : tryCompile scope (C.plug (.literal (some "") type)) with r | f
  · refine .inl ⟨r, ?_⟩
    intro v
    rcases tryCompile_plug ht C "" v with ⟨q, hempty, hv⟩ | ⟨g, h, hempty, -, -⟩
    · rw [hv, ← hempty, hrun]
    · rw [hrun] at hempty
      contradiction
  · have hcode : Code.Uniform fun v => (C.plug (.literal (some v) type)).stringCode scope :=
      uniform_stringCode ht C
    obtain ⟨ss, hss, huniform⟩ := hcode.statements
    obtain ⟨Ts, hTs⟩ := Script.Uniform.exists_templates huniform
    obtain ⟨T, hT⟩ := hcode.value.text
    refine .inr ⟨⟨f.parameters, Ts, T⟩, ?_⟩
    intro v
    rcases tryCompile_plug ht C "" v with ⟨q, hempty, -⟩ | ⟨g, h, hempty, hv, hparameters⟩
    · rw [hrun] at hempty
      contradiction
    rw [hrun, Except.ok.injEq] at hempty
    have hcompiled := compiled_of_tryCompile hv
    rw [hv]
    refine congrArg Except.ok (RowFunction.ext_toList ?_ ?_ ?_)
    · rw [← hparameters, ← hempty]
      rfl
    · rw [hcompiled.statements, hss, hTs]
      rfl
    · rw [hcompiled.result]
      exact hT v

/-- A text that a method is called on, however many brackets it has. -/
theorem literal_template_receiver :
    ∃ T : FunctionTemplate, ∀ v,
      tryCompile (.ofColumn "c" ⟨"c", .dimension, .string⟩)
        (.concat [.literal (some v) .string, .column "c" .string] .string) =
          .ok (T.fill (Script.quote v)) := by
  let scope := Scope.ofColumn "c" ⟨"c", .dimension, .string⟩
  let C : Expr.Context := .concat [] .hole [.column "c" .string] .string
  rcases literal_template scope (.inl rfl) C with ⟨r, h⟩ | h
  · have hok : tryCompile scope (C.plug (.literal (some ")") .string)) =
        .ok { parameters := ["c"], result := "(')').concat(c)" } := rfl
    rw [h] at hok
    contradiction
  · exact h

end RowScript

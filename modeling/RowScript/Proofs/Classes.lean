import RowScript.Proofs.Calls
import RowScript.Proofs.Nodes
import RowScript.Proofs.Simulation

/-!
# The classes of generated code

The class of the value of an expression can be read off the expression, and with
it whether the members that its code calls are members of their receivers
(`Expr.class?`). A generated function whose class as a string is that of texts
calls only members that its receivers have, and gives a text (`call_text`).

Every node keeps the promise of its type but one: an arithmetic node has the
type of its annotation, and this need not be what the operator gives. Where such
annotations are true every function gives a text
(`Expr.stringClass?_of_isTrue`); where one is not, a function can give a number
(`exists_call_not_text`).
-/

namespace RowScript

open Script (Tree Ref Env Statement FunctionTree temporaryName)

variable {P D : Type} {I : Primitives P D} {kind : P → ValueClass} {env : Env P}

/-! ## Types -/

def DataType.valueClass : DataType → ValueClass
  | .null => .null
  | .boolean => .boolean
  | .string => .text
  | .date => .date
  | .short | .integer | .long | .float | .double | .timestamp => .number

/-- What generated code relies on when it handles a value of class `c` as one of type `t`. -/
def DataType.Promises (t : DataType) (c : ValueClass) : Prop :=
  match t with
  | .string => c = .text
  | .date => c = .date
  | .short | .integer | .long | .float | .double | .timestamp => c ≠ .null
  | .null | .boolean => True

theorem DataType.promises_valueClass (t : DataType) : t.Promises t.valueClass := by
  cases t <;> simp [Promises, valueClass]

/-! ## Classes of results -/

namespace ValueClass

/-- The class of what a member gives, if values of class `c` have it. -/
def invoke? (c : ValueClass) (name : String) : Option ValueClass :=
  if c.hasMember name then some (.ofMember name) else none

theorem invoke?_eq_some {c d : ValueClass} {name : String} :
    c.invoke? name = some d ↔ c.hasMember name = true ∧ .ofMember name = d := by
  unfold invoke?
  split <;> simp_all

theorem eq_date_of_setter {c : ValueClass} {name : String} (hname : name ∈ Script.Machine.setters)
    (h : c.hasMember name = true) : c = .date := by
  have hsetter : name = "setUTCHours" ∨ name = "setUTCDate" := by
    simpa [Script.Machine.setters] using hname
  rcases hsetter with rfl | rfl <;> cases c <;> first | rfl | contradiction

/-- The class of all strings of a list, the first one first. -/
def concat? : List ValueClass → Option ValueClass
  | [] => some .null
  | c :: cs => cs.foldlM (fun c _ => c.invoke? "concat") c

theorem concat?_texts {cs : List ValueClass} (hne : cs ≠ []) (h : ∀ c ∈ cs, c = text) :
    concat? cs = some text := by
  obtain ⟨c, cs, rfl⟩ := List.exists_cons_of_ne_nil hne
  obtain rfl := h _ List.mem_cons_self
  clear h hne
  change cs.foldlM (fun c _ => c.invoke? "concat") text = some text
  induction cs with
  | nil => rfl
  | cons d cs ih => exact ih

end ValueClass

namespace Conversion

/-- The class of what a conversion makes of a value of class `c`. -/
def class? (c : ValueClass) : Conversion → Option ValueClass
  | keep => some c
  | parseFloat | parseInt | toNumber => some .number
  | toBoolean => some .boolean
  | toText => c.invoke? "toString"
  | dateText => c.invoke? "toISOString"
  | dayText => (c.invoke? "toISOString").bind (·.invoke? "substring")
  | epochOfDate => c.invoke? "getTime"
  | epochOfValue => ValueClass.date.invoke? "getTime"
  | dateOfValue | dateOfNumber => some .date
  | dateCopy => (c.invoke? "getTime").map fun _ => .date

def classOf? (conversion : Option Conversion) (c : ValueClass) : Option ValueClass :=
  (conversion.getD keep).class? c

theorem sound_tree (hI : I.Classed kind) {t : Tree} {c d : ValueClass} (h : t.Sound I kind env c)
    {conversion : Conversion} (hclass : conversion.class? c = some d) :
    (conversion.tree t).Sound I kind env d := by
  have hnumber : ∀ text, (Tree.number text).Sound I kind env .number := .number hI
  have hone : ∀ u ∈ [t], ∃ c, u.Sound I kind env c := by
    intro u hu
    rw [List.mem_singleton.mp hu]
    exact ⟨c, h⟩
  cases conversion with
  | keep =>
    obtain rfl := Option.some.inj hclass
    exact h
  | parseFloat | toNumber | toBoolean =>
    obtain rfl := Option.some.inj hclass
    exact .callGlobal hI (by decide) hone
  | parseInt =>
    obtain rfl := Option.some.inj hclass
    refine .callGlobal hI (by decide) fun u hu => ?_
    rcases List.mem_cons.mp hu with rfl | hu
    · exact ⟨c, h⟩
    · rw [List.mem_singleton.mp hu]
      exact ⟨_, hnumber "10"⟩
  | toText | dateText | epochOfDate =>
    obtain ⟨hmember, rfl⟩ := ValueClass.invoke?_eq_some.mp hclass
    exact h.invoke hI hmember (by simp)
  | dayText =>
    obtain ⟨_, hwhole, hday⟩ := Option.bind_eq_some_iff.mp hclass
    obtain ⟨hiso, rfl⟩ := ValueClass.invoke?_eq_some.mp hwhole
    obtain ⟨hcut, rfl⟩ := ValueClass.invoke?_eq_some.mp hday
    refine (h.invoke hI hiso (by simp)).callMember hI hcut fun u hu => ?_
    rcases List.mem_cons.mp hu with rfl | hu
    · exact ⟨_, hnumber "0"⟩
    · rw [List.mem_singleton.mp hu]
      exact ⟨_, hnumber "10"⟩
  | epochOfValue =>
    obtain ⟨hmember, rfl⟩ := ValueClass.invoke?_eq_some.mp hclass
    exact h.newDate.callMember hI hmember (by simp)
  | dateOfValue =>
    obtain rfl := Option.some.inj hclass
    exact h.newDate
  | dateOfNumber =>
    obtain rfl := Option.some.inj hclass
    have hparsed : (Tree.callGlobal "parseFloat" [t]).Sound I kind env .number :=
      .callGlobal hI (by decide) hone
    exact hparsed.newDate
  | dateCopy =>
    obtain ⟨time, htime, rfl⟩ := Option.map_eq_some_iff.mp hclass
    exact (h.invoke hI (ValueClass.invoke?_eq_some.mp htime).1 (by simp)).newDate

end Conversion

namespace DateField

/-- The member that reads a field of a date. -/
def member : DateField → String
  | year => "getUTCFullYear"
  | month => "getUTCMonth"
  | hour => "getUTCHours"
  | minute => "getUTCMinutes"
  | second => "getUTCSeconds"

theorem sound_tree (hI : I.Classed kind) {date : Tree} {c d : ValueClass}
    (h : date.Sound I kind env c) {field : DateField} (hclass : c.invoke? field.member = some d) :
    (field.tree date).Sound I kind env d := by
  obtain ⟨hmember, rfl⟩ := ValueClass.invoke?_eq_some.mp hclass
  have hread : (date.invoke field.member []).Sound I kind env (.ofMember field.member) :=
    h.invoke hI hmember (by simp)
  cases field with
  | month => exact (hread.binary hI (.number hI "1") .add).group
  | year | hour | minute | second => exact hread

end DateField

/-! ## Classes of expressions -/

namespace Expr

mutual

/-- The class of the value of an expression, if all members that its code calls are members of
their receivers. -/
def class? (scope : Scope) : Expr → Option ValueClass
  | column name type => some ((column name type).typeIn scope).valueClass
  | literal value type => some ((literal value type).typeIn scope).valueClass
  | cast e type => (e.class? scope).bind (Conversion.classOf? (e.conversionTo scope type))
  | concat args _ => (stringClasses? scope args).bind ValueClass.concat?
  | upper e _ => (e.class? scope).bind (·.invoke? "toUpperCase")
  | lower e _ => (e.class? scope).bind (·.invoke? "toLowerCase")
  | substring e position length _ => do
    let c ← (e.class? scope).bind (Conversion.classOf? (e.conversionTo scope .string))
    let _ ← position.class? scope
    let _ ← length.class? scope
    c.invoke? "substr"
  | toDate e _ => do
    let c ← (e.class? scope).bind (Conversion.classOf? (ownDate? (e.typeIn scope)))
    let _ ← c.invoke? "setUTCHours"
    some c
  | dateAdd date days _ | dateSub date days _ => do
    let c ← (date.class? scope).bind (Conversion.classOf? (ownDate? (date.typeIn scope)))
    let _ ← days.class? scope
    let _ ← c.invoke? "setUTCDate"
    some c
  | extract field e _ => do
    let c ← (e.class? scope).bind (Conversion.classOf? (dateLike? (e.typeIn scope)))
    c.invoke? field.member
  | arithmetic op left right _ => do
    let l ← left.class? scope
    let r ← right.class? scope
    some (.ofOperator op l r)

/-- The classes of arguments, each of them made a string. -/
def stringClasses? (scope : Scope) : List Expr → Option (List ValueClass)
  | [] => some []
  | e :: es => do
    let c ← (e.class? scope).bind (Conversion.classOf? (e.conversionTo scope .string))
    let cs ← stringClasses? scope es
    some (c :: cs)

end

/-- The class of the value of an expression as a string. -/
def stringClass? (scope : Scope) (e : Expr) : Option ValueClass :=
  (e.class? scope).bind (Conversion.classOf? (e.conversionTo scope .string))

/-- An arithmetic node that is annotated to be a text or a date is one. -/
def IsTrue (scope : Scope) : Expr → Prop
  | arithmetic op left right type => type = .string ∨ type = .date →
      (arithmetic op left right type).class? scope = some type.valueClass
  | _ => True

end Expr

/-! ## True annotations -/

theorem DataType.Promises.hasMember_toString {t : DataType} {c : ValueClass} (h : t.Promises c)
    (ht : (t.isNumeric || t = .timestamp) = true) : c.hasMember "toString" = true := by
  have hnull : c ≠ .null := by
    cases t <;> first | exact h | contradiction
  cases c <;> first | rfl | contradiction

theorem conversion?_class? {source target : DataType} {isDay : Bool} {c : ValueClass}
    (h : (conversion? source target isDay).isSome = true) (hc : source.Promises c) :
    ∃ d, Conversion.classOf? (conversion? source target isDay) c = some d ∧ target.Promises d := by
  obtain ⟨conversion, h⟩ := Option.isSome_iff_exists.mp h
  rw [h]
  change ∃ d, conversion.class? c = some d ∧ target.Promises d
  by_cases hsame : source = target
  · unfold conversion? at h
    rw [if_pos hsame] at h
    obtain rfl := Option.some.inj h
    exact ⟨c, rfl, hsame ▸ hc⟩
  · refine ⟨target.valueClass, ?_, target.promises_valueClass⟩
    unfold conversion? at h
    rw [if_neg hsame] at h
    have hdate : source = .date → c = .date := by
      rintro rfl
      exact hc
    cases target with
    | null => contradiction
    | boolean =>
      obtain rfl := Option.some.inj h
      rfl
    | string =>
      dsimp only at h
      split_ifs at h with hvalue hd hday <;> obtain rfl := Option.some.inj h
      · exact ValueClass.invoke?_eq_some.mpr ⟨hc.hasMember_toString hvalue, rfl⟩
      · rw [hdate hd]
        rfl
      · rw [hdate hd]
        rfl
    | timestamp =>
      dsimp only at h
      split_ifs at h with hd hvalue <;> obtain rfl := Option.some.inj h
      · rw [hdate hd]
        rfl
      · rfl
    | date | short | integer | long | float | double =>
      dsimp only at h
      split_ifs at h <;> obtain rfl := Option.some.inj h <;> rfl

theorem dateLike?_class? {source : DataType} {c : ValueClass}
    (h : (dateLike? source).isSome = true) (hc : source.Promises c) :
    Conversion.classOf? (dateLike? source) c = some .date := by
  unfold dateLike? at h ⊢
  split_ifs at h ⊢ with hdate hvalue
  · subst hdate
    exact congrArg some hc
  · rfl
  · contradiction

theorem ownDate?_class? {source : DataType} {c : ValueClass}
    (h : (ownDate? source).isSome = true) (hc : source.Promises c) :
    Conversion.classOf? (ownDate? source) c = some .date := by
  unfold ownDate? at h ⊢
  split_ifs at h ⊢ with hdate
  · subst hdate
    obtain rfl : c = .date := hc
    rfl
  · exact dateLike?_class? h hc

namespace Expr

/-- The value of an expression is what code relies on that handles it by its type. -/
def KeepsPromise (scope : Scope) (e : Expr) : Prop :=
  ∃ c, e.class? scope = some c ∧ (e.typeIn scope).Promises c

variable {scope : Scope} {e : Expr}

namespace KeepsPromise

theorem stringClass? (h : e.KeepsPromise scope)
    (hstring : (e.conversionTo scope .string).isSome = true) :
    e.stringClass? scope = some .text := by
  obtain ⟨c, hc, hpromises⟩ := h
  obtain ⟨d, hd, htext⟩ := conversion?_class? hstring hpromises
  obtain rfl : d = .text := htext
  exact Option.bind_eq_some_iff.mpr ⟨c, hc, hd⟩

theorem class?_text (h : e.KeepsPromise scope) (htype : e.typeIn scope = .string) :
    e.class? scope = some .text := by
  obtain ⟨c, hc, hpromises⟩ := h
  rw [htype] at hpromises
  obtain rfl : c = .text := hpromises
  exact hc

theorem ownDate (h : e.KeepsPromise scope) (hown : (ownDate? (e.typeIn scope)).isSome = true) :
    (e.class? scope).bind (Conversion.classOf? (ownDate? (e.typeIn scope))) = some .date := by
  obtain ⟨c, hc, hpromises⟩ := h
  exact Option.bind_eq_some_iff.mpr ⟨c, hc, ownDate?_class? hown hpromises⟩

theorem dateLike (h : e.KeepsPromise scope) (hdate : (dateLike? (e.typeIn scope)).isSome = true) :
    (e.class? scope).bind (Conversion.classOf? (dateLike? (e.typeIn scope))) = some .date := by
  obtain ⟨c, hc, hpromises⟩ := h
  exact Option.bind_eq_some_iff.mpr ⟨c, hc, dateLike?_class? hdate hpromises⟩

end KeepsPromise

theorem stringClasses?_texts {args : List Expr}
    (h : ∀ a ∈ args, a.stringClass? scope = some .text) :
    stringClasses? scope args = some (args.map fun _ => .text) := by
  induction args with
  | nil => rfl
  | cons a args ih =>
    have ha : (a.class? scope).bind (Conversion.classOf? (a.conversionTo scope .string)) =
        some .text := h a List.mem_cons_self
    rw [stringClasses?, ha, ih fun b hb => h b (List.mem_cons_of_mem a hb)]
    rfl

/-- Where annotations are true, all members are there and every node keeps its promise. -/
theorem keepsPromise_of_isTrue (h : e.Compiles scope) (htrue : ∀ n ∈ e.nodes, n.IsTrue scope) :
    e.KeepsPromise scope := by
  induction e with
  | column name type => exact ⟨_, by rw [class?], DataType.promises_valueClass _⟩
  | literal value type => exact ⟨_, by rw [class?], DataType.promises_valueClass _⟩
  | cast e type ih =>
    obtain ⟨c, hc, hpromises⟩ := ih h.1 fun n hn => htrue n (List.mem_cons_of_mem _ hn)
    obtain ⟨d, hd, htype⟩ := conversion?_class? h.2 hpromises
    exact ⟨d, by rw [class?, hc]; exact hd, htype⟩
  | concat args type ih =>
    obtain ⟨hne, hall⟩ := h
    rw [allCompile_iff] at hall
    have htexts : ∀ a ∈ args, a.stringClass? scope = some .text := fun a ha =>
      (ih a ha (hall a ha).1 fun n hn => htrue n
        (List.mem_cons_of_mem _ (nodes_subset_nodesOf ha hn))).stringClass? (hall a ha).2
    refine ⟨.text, ?_, rfl⟩
    rw [class?, stringClasses?_texts htexts]
    exact ValueClass.concat?_texts (by simpa using hne) (by simp)
  | upper e type ih | lower e type ih =>
    have he := ih h.1 fun n hn => htrue n (List.mem_cons_of_mem _ hn)
    exact ⟨.text, by rw [class?, he.class?_text h.2]; rfl, rfl⟩
  | substring e position length type ih ihp ihl =>
    obtain ⟨hcompiles, hstring, ⟨-, hp, -⟩, -, hl, -⟩ := h
    simp only [nodes, List.forall_mem_cons, List.forall_mem_append] at htrue
    obtain ⟨-, ⟨hte, htp⟩, htl⟩ := htrue
    obtain ⟨_, hposition, -⟩ := ihp hp htp
    obtain ⟨_, hlength, -⟩ := ihl hl htl
    have he : (e.class? scope).bind (Conversion.classOf? (e.conversionTo scope .string)) =
        some .text := (ih hcompiles hte).stringClass? hstring
    exact ⟨.text, by rw [class?, he, hposition, hlength]; rfl, rfl⟩
  | toDate e type ih =>
    have he := ih h.1 fun n hn => htrue n (List.mem_cons_of_mem _ hn)
    exact ⟨.date, by rw [class?, he.ownDate h.2]; rfl, rfl⟩
  | dateAdd date days type ihd ihn | dateSub date days type ihd ihn =>
    obtain ⟨hdate, hdays, -, hown⟩ := h
    simp only [nodes, List.forall_mem_cons, List.forall_mem_append] at htrue
    obtain ⟨-, htd, htn⟩ := htrue
    obtain ⟨_, hdays, -⟩ := ihn hdays htn
    exact ⟨.date, by rw [class?, (ihd hdate htd).ownDate hown, hdays]; rfl, rfl⟩
  | extract field e type ih =>
    have he := ih h.1 fun n hn => htrue n (List.mem_cons_of_mem _ hn)
    refine ⟨.number, ?_, by simp [typeIn, DataType.Promises]⟩
    rw [class?, he.dateLike h.2]
    cases field <;> rfl
  | arithmetic op left right type ihl ihr =>
    have hself := htrue _ List.mem_cons_self
    simp only [nodes, List.forall_mem_cons, List.forall_mem_append] at htrue
    obtain ⟨l, hl, -⟩ := ihl h.1 htrue.2.1
    obtain ⟨r, hr, -⟩ := ihr h.2 htrue.2.2
    have hclass : (arithmetic op left right type).class? scope = some (.ofOperator op l r) := by
      rw [class?, hl, hr]
      rfl
    refine ⟨_, hclass, ?_⟩
    -- The only node that has its type from outside. A number has all members that are called on
    -- values of a type that is neither a text nor a date.
    rw [typeIn]
    cases type with
    | string => exact Option.some.inj (hclass.symm.trans (hself (.inl rfl)))
    | date => exact Option.some.inj (hclass.symm.trans (hself (.inr rfl)))
    | null | boolean => trivial
    | short | integer | long | float | double | timestamp =>
      change ValueClass.ofOperator op l r ≠ .null
      unfold ValueClass.ofOperator
      split <;> decide

theorem stringClass?_of_isTrue (h : e.Compiles scope)
    (hstring : (e.conversionTo scope .string).isSome = true)
    (htrue : ∀ n ∈ e.nodes, n.IsTrue scope) : e.stringClass? scope = some .text :=
  (keepsPromise_of_isTrue h htrue).stringClass? hstring

end Expr

/-! ## Code -/

/-- In a good environment all calls of a piece of code fit, and its value is of class `c`. -/
structure Code.Sound (I : Primitives P D) (kind : P → ValueClass) (Good : Env P → Prop)
    (code : Code) (c : ValueClass) : Prop where
  statements : ∀ s ∈ code.statements, s.Sound I kind Good
  value : ∀ env, Good env → code.value.Sound I kind env c

namespace Code.Sound

variable {Good : Env P → Prop} {code days : Code} {c d : ValueClass}

theorem map (h : code.Sound I kind Good c) {g : Tree → Tree}
    (hg : ∀ env t, t.Sound I kind env c → (g t).Sound I kind env d) :
    (code.map g).Sound I kind Good d where
  statements := h.statements
  value env hgood := hg env _ (h.value env hgood)

theorem convert (hI : I.Classed kind) (h : code.Sound I kind Good c)
    {conversion : Option Conversion} (hclass : Conversion.classOf? conversion c = some d) :
    (code.map (Conversion.treeOf conversion)).Sound I kind Good d :=
  h.map fun _ _ ht => Conversion.sound_tree hI ht hclass

theorem invoke (hI : I.Classed kind) (h : code.Sound I kind Good c) {name : String}
    (hclass : c.invoke? name = some d) : (code.map (·.invoke name [])).Sound I kind Good d := by
  obtain ⟨hmember, rfl⟩ := ValueClass.invoke?_eq_some.mp hclass
  exact h.map fun _ _ ht => ht.invoke hI hmember (by simp)

theorem append {more : Code} {e : ValueClass} (hI : I.Classed kind) (h : code.Sound I kind Good c)
    (hmore : more.Sound I kind Good e) (hclass : c.invoke? "concat" = some d) :
    (code.append more).Sound I kind Good d where
  statements := List.forall_mem_append.mpr ⟨h.statements, hmore.statements⟩
  value env hgood := by
    obtain ⟨hmember, rfl⟩ := ValueClass.invoke?_eq_some.mp hclass
    refine (h.value env hgood).invoke hI hmember fun u hu => ⟨e, ?_⟩
    rw [List.mem_singleton.mp hu]
    exact hmore.value env hgood

theorem concat (hI : I.Classed kind) {codes : List Code} {cs : List ValueClass}
    (h : List.Forall₂ (Code.Sound I kind Good) codes cs) (hclass : ValueClass.concat? cs = some d) :
    (Code.concat codes).Sound I kind Good d := by
  cases h with
  | nil =>
    obtain rfl := Option.some.inj hclass
    exact ⟨by simp [Code.concat], fun env _ => .literalWord (by decide) hI.null⟩
  | @cons code c codes cs hcode hcodes =>
    change cs.foldlM (fun c _ => c.invoke? "concat") c = some d at hclass
    change (codes.foldl Code.append code).Sound I kind Good d
    induction hcodes generalizing code c with
    | nil =>
      obtain rfl := Option.some.inj hclass
      exact hcode
    | cons hmore _ ih =>
      obtain ⟨c', hc', hrest⟩ := Option.bind_eq_some_iff.mp hclass
      exact ih (hcode.append hI hmore hc') hrest

/-- A name that may be bound to any date, and is bound to nothing else. -/
structure IsDateName (I : Primitives P D) (kind : P → ValueClass) (Good : Env P → Prop)
    (name : String) : Prop where
  bind : ∀ env r, Good env → r.valueClass kind = .date → Good (env.bind name r)
  word : ∀ env, Good env → (Tree.word name).Sound I kind env .date

theorem setDate (hI : I.Classed kind) {t : Tree} (ht : ∀ env, Good env → t.Sound I kind env .date)
    {setter : String} (hsetter : ValueClass.date.hasMember setter = true) {args : List Tree}
    (hargs : ∀ env, Good env → ∀ u ∈ args, ∃ c, u.Sound I kind env c) :
    (Statement.evaluate (t.invoke setter args)).Sound I kind Good :=
  .evaluate fun env hgood => (ht env hgood).invoke hI hsetter (hargs env hgood)

theorem cut (hI : I.Classed kind) {name : String} (hname : IsDateName I kind Good name)
    {conversion : Option Conversion} (h : code.Sound I kind Good c)
    (hclass : Conversion.classOf? conversion c = some .date) :
    (code.cut name (Conversion.treeOf conversion code.value)).Sound I kind Good .date where
  statements := by
    refine List.forall_mem_append.mpr ⟨h.statements, List.forall_mem_cons.mpr
      ⟨.declare (h.convert hI hclass).value hname.bind, List.forall_mem_singleton.mpr ?_⟩⟩
    refine setDate hI hname.word (by decide) fun env _ u hu => ⟨.number, ?_⟩
    have hzero : u = .number "0" := by simpa using hu
    rw [hzero]
    exact .number hI "0"
  value := hname.word

theorem shift (hI : I.Classed kind) {name : String} (hname : IsDateName I kind Good name)
    {conversion : Option Conversion} (h : code.Sound I kind Good c)
    (hdays : days.Sound I kind Good d)
    (hclass : Conversion.classOf? conversion c = some .date) (direction : Emission.Direction) :
    (Code.shift direction name (Conversion.treeOf conversion code.value) code days).Sound I kind
      Good .date where
  statements := by
    have hparts := List.forall_mem_append.mpr ⟨h.statements, hdays.statements⟩
    refine List.forall_mem_append.mpr ⟨hparts, List.forall_mem_cons.mpr
      ⟨.declare (h.convert hI hclass).value hname.bind, List.forall_mem_singleton.mpr ?_⟩⟩
    refine setDate hI hname.word (by decide) fun env hgood u hu => ?_
    rw [List.mem_singleton.mp hu]
    have hday : ((Tree.word name).invoke "getUTCDate" []).Sound I kind env .number :=
      (hname.word env hgood).invoke hI (by decide) (by simp)
    exact ⟨_, hday.binary hI (hdays.value env hgood).group direction.op⟩
  value := hname.word

end Code.Sound

/-! ## Code of expressions -/

/-- What variables hold while the function of `root` runs. -/
structure Populated (kind : P → ValueClass) (scope : Scope) (root : Expr) (env : Env P) : Prop where
  columns : ∀ name ∈ root.columnNames, ∀ c, scope.lookup name = some c →
    ∀ r, env (Expr.identifierIn scope name) = some r → r.valueClass kind = c.type.valueClass
  temporaries : ∀ n r, env (temporaryName n) = some r → r.valueClass kind = .date

variable {scope : Scope} {root : Expr}

theorem isUsable_identifierIn (hroot : root.Compiles scope) {name : String}
    (hname : name ∈ root.columnNames) :
    Script.isUsable (Expr.identifierIn scope name) = true := by
  refine Expr.isUsable_of_mem_identifiers hroot ?_
  rw [Expr.identifiers_eq_map]
  exact List.mem_map_of_mem hname

theorem isDateName_temporaryName (hroot : root.Compiles scope) (n : Nat) :
    Code.Sound.IsDateName I kind (Populated kind scope root) (temporaryName n) where
  bind env r hgood hr := by
    refine ⟨?_, ?_⟩
    · intro name hname c hc q hq
      have hne : Expr.identifierIn scope name ≠ temporaryName n := by
        intro heq
        have husable := isUsable_identifierIn hroot hname
        rw [heq, Script.not_isUsable_temporaryName] at husable
        contradiction
      rw [Env.bind, if_neg hne] at hq
      exact hgood.columns name hname c hc q hq
    · intro m q hq
      rw [Env.bind] at hq
      split at hq
      · obtain rfl := Option.some.inj hq
        exact hr
      · exact hgood.temporaries m q hq
  word env hgood := by
    have hword : temporaryName n ∉ Script.literalWords :=
      Script.temporaryName_not_mem n (by decide)
    exact .variableWord (by simp [hword]) (hgood.temporaries n)

theorem sound_column (hroot : root.Compiles scope) {name : String} {c : Column}
    (hname : name ∈ root.columnNames) (hc : scope.lookup name = some c) {env : Env P}
    (hgood : Populated kind scope root env) :
    (Tree.word (Expr.identifierIn scope name)).Sound I kind env c.type.valueClass := by
  have husable := isUsable_identifierIn hroot hname
  exact .variableWord (Script.not_literalWord_of_isUsable husable) (hgood.columns name hname c hc)

theorem sound_numberTree (hI : I.Classed kind) (text : String) :
    (Expr.numberTree text).Sound I kind env .number := by
  unfold Expr.numberTree
  split
  · exact .negate hI (.number hI _)
  · exact .number hI text

theorem sound_literalTree (hI : I.Classed kind) {value : Option String} {type : DataType}
    (h : Expr.isLegal value type = true) :
    (Expr.literalTree value type).Sound I kind env
      ((Expr.literal value type).typeIn scope).valueClass := by
  cases value with
  | none => exact .literalWord (by decide) hI.null
  | some text =>
    have hquoted : (Tree.quoted text).Sound I kind env .text := .quoted hI text
    cases type with
    | null => exact .literalWord (by decide) hI.null
    | short | integer | long | float | double => exact sound_numberTree hI text
    | boolean =>
      have hlegal : (text = "true" || text = "false") = true := h
      have hword : text = "true" ∨ text = "false" := by simpa using hlegal
      refine .literalWord ?_ (hI.boolean text (by simpa using hword))
      rcases hword with rfl | rfl <;> decide
    | string => exact hquoted
    | date => exact hquoted.newDate
    | timestamp => exact hquoted.newDate.callMember hI (by decide) (by simp)

theorem forall₂_stringCodes (hI : I.Classed kind) {Good : Env P → Prop} {args : List Expr}
    (hargs : ∀ a ∈ args, ∀ c, a.class? scope = some c → ∀ n,
      (a.code scope n).Sound I kind Good c)
    {cs : List ValueClass} (hcs : Expr.stringClasses? scope args = some cs) (n : Nat) :
    List.Forall₂ (Code.Sound I kind Good) (Expr.stringCodes scope n args) cs := by
  induction args generalizing cs n with
  | nil =>
    obtain rfl := Option.some.inj hcs
    exact .nil
  | cons a args ih =>
    rw [Expr.stringClasses?] at hcs
    obtain ⟨d, hd, hcs⟩ := Option.bind_eq_some_iff.mp hcs
    obtain ⟨ds, hds, hcs⟩ := Option.bind_eq_some_iff.mp hcs
    obtain rfl := Option.some.inj hcs
    obtain ⟨b, hb, hd⟩ := Option.bind_eq_some_iff.mp hd
    exact .cons ((hargs a List.mem_cons_self b hb n).convert hI hd)
      (ih (fun b hb => hargs b (List.mem_cons_of_mem a hb)) hds _)

/-- **Soundness.** Where an expression has a class, its code calls only members that its receivers
have, and its value is of that class. -/
theorem sound_code (hI : I.Classed kind) (hroot : root.Compiles scope) {e : Expr}
    (h : e.Compiles scope) (hsub : e.nodes ⊆ root.nodes) {c : ValueClass}
    (hclass : e.class? scope = some c) (n : Nat) :
    (e.code scope n).Sound I kind (Populated kind scope root) c := by
  -- Parts of `root` run in one environment, so what holds of it is said with all names of `root`.
  induction e generalizing n c with
  | column name type =>
    obtain ⟨column, hcolumn, -⟩ := h
    have hname := Expr.mem_columnNames.mpr ⟨type, hsub List.mem_cons_self⟩
    rw [Expr.class?, Expr.typeIn, hcolumn] at hclass
    obtain rfl := Option.some.inj hclass
    exact ⟨by simp [Expr.code], fun env hgood => sound_column hroot hname hcolumn hgood⟩
  | literal value type =>
    rw [Expr.class?] at hclass
    obtain rfl := Option.some.inj hclass
    exact ⟨by simp [Expr.code], fun env _ => sound_literalTree hI h⟩
  | cast e type ih =>
    rw [Expr.class?] at hclass
    obtain ⟨d, hd, hclass⟩ := Option.bind_eq_some_iff.mp hclass
    exact (ih h.1 (List.subset_of_cons_subset hsub) hd n).convert hI hclass
  | concat args type ih =>
    rw [Expr.class?] at hclass
    obtain ⟨cs, hcs, hclass⟩ := Option.bind_eq_some_iff.mp hclass
    refine .concat hI (forall₂_stringCodes hI (fun a ha d hd => ?_) hcs n) hclass
    refine ih a ha ((Expr.allCompile_iff scope args).mp h.2 a ha).1 (fun n hn => ?_) hd
    exact hsub (List.mem_cons_of_mem _ (Expr.nodes_subset_nodesOf ha hn))
  | upper e type ih | lower e type ih =>
    rw [Expr.class?] at hclass
    obtain ⟨d, hd, hclass⟩ := Option.bind_eq_some_iff.mp hclass
    exact (ih h.1 (List.subset_of_cons_subset hsub) hd n).invoke hI hclass
  | substring e position length type ih ihp ihl =>
    obtain ⟨he, hstring, ⟨-, hp, -⟩, -, hl, -⟩ := h
    have hparts := List.subset_of_cons_subset hsub
    obtain ⟨hparts, hsubl⟩ := List.append_subset.mp hparts
    obtain ⟨hsube, hsubp⟩ := List.append_subset.mp hparts
    rw [Expr.class?] at hclass
    obtain ⟨d, hd, hclass⟩ := Option.bind_eq_some_iff.mp hclass
    obtain ⟨p, hpclass, hclass⟩ := Option.bind_eq_some_iff.mp hclass
    obtain ⟨l, hlclass, hclass⟩ := Option.bind_eq_some_iff.mp hclass
    obtain ⟨b, hb, hd⟩ := Option.bind_eq_some_iff.mp hd
    obtain ⟨hmember, rfl⟩ := ValueClass.invoke?_eq_some.mp hclass
    have hbase := (ih he hsube hb n).convert hI hd
    have hposition := ihp hp hsubp hpclass (n + e.temporaries)
    have hlength := ihl hl hsubl hlclass (n + e.temporaries + position.temporaries)
    refine ⟨?_, ?_⟩
    · have hfirst := List.forall_mem_append.mpr ⟨hbase.statements, hposition.statements⟩
      exact List.forall_mem_append.mpr ⟨hfirst, hlength.statements⟩
    · intro env hgood
      refine (hbase.value env hgood).invoke hI hmember fun u hu => ?_
      simp only [List.mem_cons, List.not_mem_nil, or_false] at hu
      rcases hu with rfl | rfl
      · exact ⟨_, hposition.value env hgood⟩
      · exact ⟨_, hlength.value env hgood⟩
  | toDate e type ih =>
    rw [Expr.class?] at hclass
    obtain ⟨d, hd, hclass⟩ := Option.bind_eq_some_iff.mp hclass
    obtain ⟨_, hset, hclass⟩ := Option.bind_eq_some_iff.mp hclass
    obtain rfl := Option.some.inj hclass
    obtain ⟨b, hb, hd⟩ := Option.bind_eq_some_iff.mp hd
    obtain rfl := ValueClass.eq_date_of_setter (by decide) (ValueClass.invoke?_eq_some.mp hset).1
    exact (ih h.1 (List.subset_of_cons_subset hsub) hb n).cut hI
      (isDateName_temporaryName hroot _) hd
  | dateAdd date days type ihd ihn | dateSub date days type ihd ihn =>
    obtain ⟨hdate, hdays, -⟩ := h
    obtain ⟨hsubd, hsubn⟩ := List.append_subset.mp (List.subset_of_cons_subset hsub)
    rw [Expr.class?] at hclass
    obtain ⟨d, hd, hclass⟩ := Option.bind_eq_some_iff.mp hclass
    obtain ⟨m, hm, hclass⟩ := Option.bind_eq_some_iff.mp hclass
    obtain ⟨_, hset, hclass⟩ := Option.bind_eq_some_iff.mp hclass
    obtain rfl := Option.some.inj hclass
    obtain ⟨b, hb, hd⟩ := Option.bind_eq_some_iff.mp hd
    obtain rfl := ValueClass.eq_date_of_setter (by decide) (ValueClass.invoke?_eq_some.mp hset).1
    exact (ihd hdate hsubd hb n).shift hI (isDateName_temporaryName hroot _)
      (ihn hdays hsubn hm _) hd _
  | extract field e type ih =>
    rw [Expr.class?] at hclass
    obtain ⟨d, hd, hclass⟩ := Option.bind_eq_some_iff.mp hclass
    obtain ⟨b, hb, hd⟩ := Option.bind_eq_some_iff.mp hd
    have hdate := (ih h.1 (List.subset_of_cons_subset hsub) hb n).convert hI hd
    exact hdate.map fun env t ht => DateField.sound_tree hI ht hclass
  | arithmetic op left right type ihl ihr =>
    obtain ⟨hsubl, hsubr⟩ := List.append_subset.mp (List.subset_of_cons_subset hsub)
    rw [Expr.class?] at hclass
    obtain ⟨l, hl, hclass⟩ := Option.bind_eq_some_iff.mp hclass
    obtain ⟨r, hr, hclass⟩ := Option.bind_eq_some_iff.mp hclass
    obtain rfl := Option.some.inj hclass
    have hleft := ihl h.1 hsubl hl n
    have hright := ihr h.2 hsubr hr (n + left.temporaries)
    refine ⟨List.forall_mem_append.mpr ⟨hleft.statements, hright.statements⟩, ?_⟩
    intro env hgood
    exact (hleft.value env hgood).group.binary hI (hright.value env hgood).group op

theorem call_class {e : Expr} {f : RowFunction} (h : tryCompile scope e = .ok f) {c : ValueClass}
    (hclass : e.stringClass? scope = some c) (hI : I.Classed kind) (row : Row P D)
    (hrow : ∀ name ∈ e.columnNames, ∀ c, scope.lookup name = some c →
      (row.value (Expr.identifierIn scope name)).valueClass kind = c.type.valueClass) :
    (∀ call ∈ (e.functionTree scope).calls I (f.parameters.map row.value) row.heap,
        call.Fits kind) ∧
      ∀ r heap, ((e.functionTree scope).call I (f.parameters.map row.value)).result row.heap =
        (some r, heap) → r.valueClass kind = c := by
  have hf := compiled_of_tryCompile h
  obtain ⟨b, hb, hc⟩ := Option.bind_eq_some_iff.mp hclass
  have hcode := (sound_code hI hf.compiles hf.compiles (List.Subset.refl _) hb 0).convert hI hc
  have hgood : Populated kind scope e fun name =>
      ((e.parameters scope).zip ((e.parameters scope).map row.value)).lookup name := by
    refine ⟨?_, ?_⟩
    · intro name hname c hc r hr
      rw [lookup_zip_map] at hr
      split at hr
      · obtain rfl := Option.some.inj hr
        exact hrow name hname c hc
      · contradiction
    · -- No parameter has the name of a temporary.
      intro n r hr
      rw [lookup_zip_map, if_neg] at hr
      · contradiction
      · intro hm
        have husable := Expr.isUsable_of_mem_identifiers hf.compiles (Expr.mem_parameters.mp hm)
        rw [Script.not_isUsable_temporaryName] at husable
        contradiction
  rw [hf.parameters]
  exact FunctionTree.sound_call hgood hcode.statements hcode.value row.heap

/-- **Texts.** Where the class of an expression as a string is that of texts, a call of its function
with values of the classes of their columns calls only members that the receivers have, and what it
gives, if it does not throw, is a text. -/
theorem call_text {e : Expr} {f : RowFunction} (h : tryCompile scope e = .ok f)
    (hclass : e.stringClass? scope = some .text) (hI : I.Classed kind) (row : Row P D)
    (hrow : ∀ name ∈ e.columnNames, ∀ c, scope.lookup name = some c →
      (row.value (Expr.identifierIn scope name)).valueClass kind = c.type.valueClass) :
    ∃ body : FunctionTree, f.Parses body ∧
      (∀ call ∈ body.calls I (f.parameters.map row.value) row.heap, call.Fits kind) ∧
      ∀ r heap, (body.call I (f.parameters.map row.value)).result row.heap = (some r, heap) →
        r.valueClass kind = .text :=
  ⟨e.functionTree scope, (compiled_of_tryCompile h).parses, call_class h hclass hI row hrow⟩

/-! A number that says that it is a text is none, but a conversion of it can be. -/

example : (Expr.arithmetic .sub (.column "n" .long) (.literal (some "1") .integer)
    .string).stringClass? (.ofColumn "n" ⟨"n", .dimension, .long⟩) = some .number := rfl

example : (Expr.cast (.cast (.arithmetic .sub (.column "n" .long) (.literal (some "1") .integer)
    .string) .integer) .string).stringClass? (.ofColumn "n" ⟨"n", .dimension, .long⟩) =
    some .text := rfl

/-! ## Whole numbers and texts -/

theorem eq_of_lookup_ofColumn {name other : String} {c d : Column}
    (h : (Scope.ofColumn name c).lookup other = some d) : d = c := by
  dsimp only [Scope.ofColumn] at h
  split at h
  · exact (Option.some.inj h).symm
  · contradiction

/-- Values that are no objects, of which the numbers are whole. -/
inductive PlainValue where
  | null
  | boolean (b : Bool)
  | number (n : Int)
  | text (s : String)

def PlainValue.valueClass : PlainValue → ValueClass
  | null => .null
  | boolean _ => .boolean
  | number _ => .number
  | text _ => .text

/-- Sums, differences and texts put together. -/
def plainPrimitives : Primitives PlainValue Int where
  word
    | "true" => .boolean true
    | "false" => .boolean false
    | _ => .null
  number text := .number (text.toList.foldl (fun n c => 10 * n + (c.toNat - '0'.toNat)) 0)
  text := .text
  negate
    | .prim (.number n) => some (.number (-n))
    | _ => none
  operate
    | .add, .prim (.number m), .prim (.number n) => some (.number (m + n))
    | .add, .prim (.text s), .prim (.number n) => some (.text (s ++ toString n))
    | .sub, .prim (.number m), .prim (.number n) => some (.number (m - n))
    | _, _, _ => none
  apply _ _ := none
  create _ := none
  invoke
    | "concat", .prim (.text s), [.prim (.text more)] => some (.text (s ++ more))
    | "toString", .prim (.number n), [] => some (.text (toString n))
    | _, _, _ => none
  change _ _ _ := none

theorem classed_plainPrimitives : plainPrimitives.Classed PlainValue.valueClass where
  null := rfl
  boolean := by decide
  number _ := rfl
  text _ := rfl
  negate v p h := by
    unfold plainPrimitives at h
    dsimp only at h
    split at h
    · obtain rfl := Option.some.inj h
      rfl
    · contradiction
  operate op v w p h := by
    unfold plainPrimitives at h
    dsimp only at h
    split at h
    all_goals first
      | contradiction
      | obtain rfl := Option.some.inj h
        rfl
  apply name _ vs p h := by contradiction
  invoke name v vs p _ h := by
    unfold plainPrimitives at h
    dsimp only at h
    split at h
    all_goals first
      | contradiction
      | obtain rfl := Option.some.inj h
        rfl
  change name d vs next p h := by contradiction

/-- A sum that is a text, and says so. -/
theorem call_text_sum :
    ∃ body : FunctionTree,
      RowFunction.Parses { parameters := ["s"], result := "((s) + (1)).concat(s)" } body ∧
      (body.call plainPrimitives [.prim (.text "a")]).result [] =
        (some (.prim (.text "a1a")), []) ∧
      body.calls plainPrimitives [.prim (.text "a")] [] = [⟨"concat", .prim (.text "a1")⟩] ∧
      (∀ call ∈ body.calls plainPrimitives [.prim (.text "a")] [],
        call.Fits PlainValue.valueClass) ∧
      ∀ r heap, (body.call plainPrimitives [.prim (.text "a")]).result [] = (some r, heap) →
        r.valueClass PlainValue.valueClass = .text := by
  let scope := Scope.ofColumn "s" ⟨"s", .dimension, .string⟩
  let sum : Expr := .arithmetic .add (.column "s" .string) (.literal (some "1") .integer) .string
  let e : Expr := .concat [sum, .column "s" .string] .string
  have h : tryCompile scope e =
      .ok { parameters := ["s"], result := "((s) + (1)).concat(s)" } := rfl
  have hclass : e.stringClass? scope = some .text := rfl
  let row : Row PlainValue Int := ⟨[], fun _ => .prim (.text "a"), fun _ => rfl⟩
  have hrow : ∀ name ∈ e.columnNames, ∀ c, scope.lookup name = some c →
      (row.value (Expr.identifierIn scope name)).valueClass PlainValue.valueClass =
        c.type.valueClass := by
    intro name _ c hc
    rw [eq_of_lookup_ofColumn hc]
    rfl
  obtain ⟨body, hbody, hcalls, htext⟩ := call_text h hclass classed_plainPrimitives row hrow
  have hunique : body = e.functionTree scope :=
    ((compiled_of_tryCompile h).parses.text body).mp ((hbody.text body).mpr rfl)
  exact ⟨body, hbody, by rw [hunique]; rfl, by rw [hunique]; rfl, hcalls, htext⟩

/-- A difference that says that it is a text is returned as it is, a number. -/
theorem exists_call_not_text :
    ¬ ∀ (scope : Scope) (e : Expr) (f : RowFunction) (I : Primitives PlainValue Int)
      (kind : PlainValue → ValueClass) (row : Row PlainValue Int),
      tryCompile scope e = .ok f → I.Classed kind →
      (∀ name ∈ e.columnNames, ∀ c, scope.lookup name = some c →
        (row.value (Expr.identifierIn scope name)).valueClass kind = c.type.valueClass) →
      ∃ body : FunctionTree, f.Parses body ∧
        (∀ call ∈ body.calls I (f.parameters.map row.value) row.heap, call.Fits kind) ∧
        ∀ r heap, (body.call I (f.parameters.map row.value)).result row.heap = (some r, heap) →
          r.valueClass kind = .text := by
  intro hall
  let scope := Scope.ofColumn "n" ⟨"n", .dimension, .long⟩
  let e : Expr := .arithmetic .sub (.column "n" .long) (.literal (some "1") .integer) .string
  have h : tryCompile scope e = .ok { parameters := ["n"], result := "(n) - (1)" } := rfl
  let row : Row PlainValue Int := ⟨[], fun _ => .prim (.number 5), fun _ => rfl⟩
  obtain ⟨body, hbody, -, htext⟩ := hall scope e _ plainPrimitives PlainValue.valueClass row h
    classed_plainPrimitives fun name _ c hc => by rw [eq_of_lookup_ofColumn hc]; rfl
  have hunique : body = e.functionTree scope :=
    ((compiled_of_tryCompile h).parses.text body).mp ((hbody.text body).mpr rfl)
  have hrun : ((e.functionTree scope).call plainPrimitives [.prim (.number 5)]).result [] =
      (some (.prim (.number 4)), []) := rfl
  rw [hunique] at htext
  exact absurd (htext _ _ hrun) (by decide)

end RowScript

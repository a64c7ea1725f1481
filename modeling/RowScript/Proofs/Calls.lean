import RowScript.Proofs.Emission.Code
import RowScript.Proofs.Script.Machine

/-!
# Calls of members and the classes of values

A call of a member fits if values of the class of its receiver have that member.
Which calls are made while a tree runs is read off the machine (`Tree.calls`);
where all of them fit, nothing depends on what a member does to a receiver that
lacks it (`FunctionTree.call_members`).

The classes of results are taken from the language (`Primitives.Classed`). Each
kind of tree has one lemma here, which says that its calls fit and gives the
class of its value, and from trees it goes on to statements and to functions
(`FunctionTree.sound_call`).
-/

namespace RowScript

open Script (Tree Ref Env Statement FunctionTree Machine)

/-! ## Classes -/

inductive ValueClass where
  | null | boolean | number | text | date
  deriving DecidableEq, Repr

namespace ValueClass

def textMembers : List String := ["concat", "toUpperCase", "toLowerCase", "substr", "substring"]

def dateMembers : List String :=
  ["getTime", "toISOString", "getUTCFullYear", "getUTCMonth", "getUTCDate", "getUTCHours",
    "getUTCMinutes", "getUTCSeconds", "setUTCHours", "setUTCDate"]

def hasMember (c : ValueClass) (name : String) : Bool :=
  match c with
  | null => false
  | boolean | number => name = "toString"
  | text => name = "toString" || textMembers.contains name
  | date => name = "toString" || dateMembers.contains name

/-- Whether `+` takes a value of this class for a text. -/
def isJoined : ValueClass → Bool
  | text | date => true
  | null | boolean | number => false

def ofOperator (op : ArithOp) (left right : ValueClass) : ValueClass :=
  if op = .add && (left.isJoined || right.isJoined) then text else number

def ofMember (name : String) : ValueClass :=
  if name = "toString" || name = "toISOString" || textMembers.contains name then text else number

def globals : List String := ["parseInt", "parseFloat", "Number", "Boolean"]

def ofGlobal (name : String) : ValueClass := if name = "Boolean" then boolean else number

end ValueClass

variable {P D : Type}

def Datum.valueClass (kind : P → ValueClass) : Datum P D → ValueClass
  | prim p => kind p
  | date _ => .date

def Script.Ref.valueClass (kind : P → ValueClass) : Ref P → ValueClass
  | prim p => kind p
  | date _ => .date

theorem valueClass_view {kind : P → ValueClass} {r : Ref P} {heap : List D} {v : Datum P D}
    (h : r.view heap = some v) : v.valueClass kind = r.valueClass kind := by
  cases r with
  | prim p =>
    obtain rfl := Option.some.inj h
    rfl
  | date address =>
    obtain ⟨d, -, rfl⟩ := Option.map_eq_some_iff.mp h
    rfl

/-- What the language says about the classes of results, if `kind` tells the class of a value that
is no object. Of the members only those are meant that the class of the receiver has. -/
structure Primitives.Classed (I : Primitives P D) (kind : P → ValueClass) : Prop where
  null : kind (I.word "null") = .null
  boolean : ∀ name ∈ ["true", "false"], kind (I.word name) = .boolean
  number : ∀ text, kind (I.number text) = .number
  text : ∀ value, kind (I.text value) = .text
  negate : ∀ v p, I.negate v = some p → kind p = .number
  operate : ∀ op v w p, I.operate op v w = some p →
    kind p = .ofOperator op (v.valueClass kind) (w.valueClass kind)
  apply : ∀ name ∈ ValueClass.globals, ∀ vs p, I.apply name vs = some p → kind p = .ofGlobal name
  invoke : ∀ name v vs p, (v.valueClass kind).hasMember name = true →
    I.invoke name v vs = some p → kind p = .ofMember name
  change : ∀ name d vs next p, I.change name d vs = some (next, p) → kind p = .number

/-- The members of receivers that have them are those of `I`. -/
def Primitives.HasMembers (I : Primitives P D) (kind : P → ValueClass)
    (members : String → Datum P D → List (Datum P D) → Option P) : Prop :=
  ∀ name v vs, (v.valueClass kind).hasMember name = true → members name v vs = I.invoke name v vs

/-! ## Calls -/

/-- A call of a member, by the name of the member and the receiver. -/
structure MemberCall (P : Type) where
  name : String
  receiver : Ref P

def MemberCall.Fits (kind : P → ValueClass) (call : MemberCall P) : Prop :=
  (call.receiver.valueClass kind).hasMember call.name = true

namespace Script

open Machine

/-- What is recorded after a computation, if that does not throw. -/
def Machine.after {α β : Type} (x : Machine D α) (heap : List D) (more : α → List D → List β) :
    List β :=
  match x.result heap with
  | (some a, heap') => more a heap'
  | (none, _) => []

namespace Tree

mutual

/-- The calls of members that are made while a tree runs, the first one first. A call is made
when its receiver and its arguments have values. -/
def calls (I : Primitives P D) (env : Env P) : Tree → List D → List (MemberCall P)
  | word _, _ | number _, _ | quoted _, _ => []
  | group t, heap | negate t, heap => t.calls I env heap
  | call (member t name) args, heap =>
    t.calls I env heap ++ (t.eval I env).after heap fun object heap' =>
      callsAll I env args heap' ++ (evalAll I env args).after heap' fun _ _ => [⟨name, object⟩]
  | call (word name) args, heap =>
    if (env name).isSome then [] else callsAll I env args heap
  | create (word name) args, heap =>
    if name ≠ "Date" ∨ (env name).isSome then [] else callsAll I env args heap
  | binary _ left right, heap =>
    left.calls I env heap ++ (left.eval I env).after heap fun _ heap' => right.calls I env heap'
  | member _ _, _ | call _ _, _ | create _ _, _ => []

def callsAll (I : Primitives P D) (env : Env P) : List Tree → List D → List (MemberCall P)
  | [], _ => []
  | t :: ts, heap =>
    t.calls I env heap ++ (t.eval I env).after heap fun _ heap' => callsAll I env ts heap'

end

end Tree

namespace Statement

def calls (I : Primitives P D) (env : Env P) : Statement → List D → List (MemberCall P)
  | declare _ t, heap | evaluate t, heap => t.calls I env heap

def callsAll (I : Primitives P D) : List Statement → Env P → List D → List (MemberCall P)
  | [], _, _ => []
  | s :: ss, env, heap =>
    s.calls I env heap ++ (s.run I env).after heap fun env' heap' => callsAll I ss env' heap'

end Statement

/-- The calls of members that are made during a call of a function. -/
def FunctionTree.calls (I : Primitives P D) (f : FunctionTree) (args : List (Ref P))
    (heap : List D) : List (MemberCall P) :=
  let env : Env P := fun name => (f.parameters.zip args).lookup name
  Statement.callsAll I f.statements env heap ++
    (Statement.runAll I f.statements env).after heap fun env' heap' => f.result.calls I env' heap'

/-! ## Runs that succeed -/

theorem Machine.result_bind_some {α β : Type} {x : Machine D α} {f : α → Machine D β}
    {heap heap' : List D} {b : β} :
    (x >>= f).result heap = (some b, heap') ↔
      ∃ a heap'', x.result heap = (some a, heap'') ∧ (f a).result heap'' = (some b, heap') := by
  rw [result_bind]
  rcases x.result heap with ⟨_ | a, heap''⟩ <;> simp [and_assoc]

theorem Machine.result_pure_some {α : Type} {a b : α} {heap heap' : List D} :
    (pure a : Machine D α).result heap = (some b, heap') ↔ a = b ∧ heap = heap' := by
  rw [result_pure, Prod.mk.injEq, Option.some.injEq]

theorem Machine.result_orThrow_some {α : Type} {x : Option α} {heap heap' : List D} {a : α} :
    (orThrow x : Machine D α).result heap = (some a, heap') ↔ x = some a ∧ heap = heap' := by
  rw [result_orThrow, Prod.mk.injEq]

theorem Machine.result_failure {α : Type} (heap : List D) :
    (failure : Machine D α).result heap = (none, heap) := rfl

theorem Machine.result_view_some {r : Ref P} {heap heap' : List D} {v : Datum P D} :
    (view r : Machine D (Datum P D)).result heap = (some v, heap') ↔
      r.view heap = some v ∧ heap = heap' := by
  rw [view, result_bind]
  exact result_orThrow_some

theorem Machine.result_allocate (d : D) (heap : List D) :
    (allocate d : Machine D (Ref P)).result heap = (some (.date heap.length), heap ++ [d]) := rfl

theorem Machine.mem_after {α β : Type} {x : Machine D α} {heap : List D}
    {more : α → List D → List β} {b : β} :
    b ∈ x.after heap more ↔ ∃ a heap', x.result heap = (some a, heap') ∧ b ∈ more a heap' := by
  rw [after]
  rcases x.result heap with ⟨_ | a, heap'⟩ <;> simp [and_assoc]

theorem Machine.result_bind_congr {α β : Type} {x y : Machine D α} {f g : α → Machine D β}
    {heap : List D} (h : x.result heap = y.result heap)
    (hfg : ∀ a heap', y.result heap = (some a, heap') → (f a).result heap' = (g a).result heap') :
    (x >>= f).result heap = (y >>= g).result heap := by
  rw [result_bind, result_bind, h]
  rcases hy : y.result heap with ⟨_ | a, heap'⟩
  · rfl
  · exact hfg a heap' hy

/-! ## What the record of calls tells -/

section Members

variable {I : Primitives P D} {kind : P → ValueClass}
  {members : String → Datum P D → List (Datum P D) → Option P}

theorem Machine.result_invoke_members (hmembers : I.HasMembers kind members) {name : String}
    {object : Ref P} (hfits : (MemberCall.mk name object).Fits kind) (rs : List (Ref P))
    (heap : List D) :
    (Machine.invoke { I with invoke := members } name object rs).result heap =
      (Machine.invoke I name object rs).result heap := by
  unfold Machine.invoke
  refine result_bind_congr rfl fun vs heap₁ _ => ?_
  have hplain : ∀ heap : List D, (do
      let v ← view object
      let p ← orThrow (members name v vs)
      pure (Ref.prim p) : Machine D (Ref P)).result heap = (do
      let v ← view object
      let p ← orThrow (I.invoke name v vs)
      pure (Ref.prim p) : Machine D (Ref P)).result heap := by
    intro heap
    refine result_bind_congr rfl fun v heap₂ hv => ?_
    have hclass : v.valueClass kind = object.valueClass kind :=
      valueClass_view (result_view_some.mp hv).1
    rw [hmembers name v vs (hclass ▸ hfits)]
  cases object with
  | prim p => exact hplain heap₁
  | date address =>
    cases hsetter : setters.contains name with
    | false => exact hplain heap₁
    | true => rfl

namespace Tree

variable {env : Env P}

/-- What a tree gives does not depend on members that receivers lack. -/
def Ignores (I : Primitives P D) (kind : P → ValueClass)
    (members : String → Datum P D → List (Datum P D) → Option P) (env : Env P) (t : Tree) : Prop :=
  ∀ heap, (∀ call ∈ t.calls I env heap, call.Fits kind) →
    (t.eval { I with invoke := members } env).result heap = (t.eval I env).result heap

theorem evalAll_members {args : List Tree} (h : ∀ t ∈ args, t.Ignores I kind members env)
    (heap : List D) (hcalls : ∀ call ∈ callsAll I env args heap, call.Fits kind) :
    (evalAll { I with invoke := members } env args).result heap =
      (evalAll I env args).result heap := by
  induction args generalizing heap with
  | nil => rw [evalAll, evalAll]
  | cons t ts ih =>
    rw [evalAll, evalAll]
    rw [callsAll, List.forall_mem_append] at hcalls
    refine result_bind_congr (h t List.mem_cons_self heap hcalls.1) fun r heap' hr => ?_
    refine result_bind_congr (ih (fun t ht => h t (List.mem_cons_of_mem _ ht)) heap' ?_)
      fun _ _ _ => rfl
    exact fun call hcall => hcalls.2 call (mem_after.mpr ⟨r, heap', hr, hcall⟩)

theorem ignores_callMember (hmembers : I.HasMembers kind members) {t : Tree} {name : String}
    {args : List Tree} (ht : t.Ignores I kind members env)
    (hargs : ∀ t ∈ args, t.Ignores I kind members env) :
    (call (member t name) args).Ignores I kind members env := by
  intro heap h
  rw [eval, eval]
  rw [calls, List.forall_mem_append] at h
  refine result_bind_congr (ht heap h.1) fun object heap' hobject => ?_
  have hrest := fun call hcall => h.2 call (mem_after.mpr ⟨object, heap', hobject, hcall⟩)
  rw [List.forall_mem_append] at hrest
  refine result_bind_congr (evalAll_members hargs heap' hrest.1) fun rs heap'' hrs => ?_
  refine result_invoke_members hmembers ?_ rs heap''
  exact hrest.2 _ (mem_after.mpr ⟨rs, heap'', hrs, List.mem_singleton.mpr rfl⟩)

theorem ignores_callWord {name : String} {args : List Tree}
    (hargs : ∀ t ∈ args, t.Ignores I kind members env) :
    (call (word name) args).Ignores I kind members env := by
  intro heap h
  rw [eval, eval]
  rw [calls] at h
  split at h
  · next hname =>
    rw [if_pos hname, if_pos hname]
    refine result_bind_congr rfl fun _ _ hfail => ?_
    simp [result_failure] at hfail
  · next hname =>
    rw [if_neg hname, if_neg hname]
    exact result_bind_congr (evalAll_members hargs heap h) fun _ _ _ => rfl

theorem ignores_createWord {name : String} {args : List Tree}
    (hargs : ∀ t ∈ args, t.Ignores I kind members env) :
    (create (word name) args).Ignores I kind members env := by
  intro heap h
  rw [eval, eval]
  rw [calls] at h
  split at h
  · next hname =>
    rw [if_pos hname, if_pos hname]
    refine result_bind_congr rfl fun _ _ hfail => ?_
    simp [result_failure] at hfail
  · next hname =>
    rw [if_neg hname, if_neg hname]
    exact result_bind_congr (evalAll_members hargs heap h) fun _ _ _ => rfl

theorem eval_members (hmembers : I.HasMembers kind members) (t : Tree) :
    t.Ignores I kind members env := by
  -- A member has no value of its own: what counts is its object.
  suffices h : t.Ignores I kind members env ∧
      ∀ u name, t = member u name → u.Ignores I kind members env from h.1
  induction t with
  | word name | number text | quoted value => exact ⟨fun heap _ => by rw [eval, eval], by simp⟩
  | group t ih =>
    refine ⟨fun heap h => ?_, by simp⟩
    rw [eval, eval]
    rw [calls] at h
    exact ih.1 heap h
  | member t name ih =>
    refine ⟨fun heap _ => by rw [eval, eval], ?_⟩
    rintro u other ⟨⟩
    exact ih.1
  | call t args ih ihs =>
    refine ⟨?_, by simp⟩
    have hargs := fun a ha => (ihs a ha).1
    cases t with
    | member t name => exact ignores_callMember hmembers (ih.2 t name rfl) hargs
    | word name => exact ignores_callWord hargs
    | _ => exact fun heap _ => rfl
  | create t args ih ihs =>
    refine ⟨?_, by simp⟩
    have hargs := fun a ha => (ihs a ha).1
    cases t with
    | word name => exact ignores_createWord hargs
    | _ => exact fun heap _ => rfl
  | negate t ih =>
    refine ⟨fun heap h => ?_, by simp⟩
    rw [eval, eval]
    rw [calls] at h
    exact result_bind_congr (ih.1 heap h) fun _ _ _ => rfl
  | binary op left right ihl ihr =>
    refine ⟨fun heap h => ?_, by simp⟩
    rw [eval, eval]
    rw [calls, List.forall_mem_append] at h
    refine result_bind_congr (ihl.1 heap h.1) fun l heap' hl => ?_
    refine result_bind_congr (ihr.1 heap' fun call hcall => ?_) fun _ _ _ => rfl
    exact h.2 call (mem_after.mpr ⟨l, heap', hl, hcall⟩)

end Tree

theorem Statement.run_members (hmembers : I.HasMembers kind members) {env : Env P} (s : Statement)
    (heap : List D) (h : ∀ call ∈ s.calls I env heap, call.Fits kind) :
    (s.run { I with invoke := members } env).result heap = (s.run I env).result heap := by
  cases s with
  | declare name t => exact result_bind_congr (Tree.eval_members hmembers t heap h) fun _ _ _ => rfl
  | evaluate t => exact result_bind_congr (Tree.eval_members hmembers t heap h) fun _ _ _ => rfl

theorem Statement.runAll_members (hmembers : I.HasMembers kind members) {env : Env P}
    (ss : List Statement) (heap : List D)
    (h : ∀ call ∈ Statement.callsAll I ss env heap, call.Fits kind) :
    (Statement.runAll { I with invoke := members } ss env).result heap =
      (Statement.runAll I ss env).result heap := by
  induction ss generalizing env heap with
  | nil => rfl
  | cons s ss ih =>
    rw [Statement.callsAll, List.forall_mem_append] at h
    refine result_bind_congr (s.run_members hmembers heap h.1) fun env' heap' hs => ?_
    exact ih heap' fun call hcall => h.2 call (mem_after.mpr ⟨env', heap', hs, hcall⟩)

/-- Where all calls fit, it makes no difference what else members could do. -/
theorem FunctionTree.call_members (hmembers : I.HasMembers kind members) (f : FunctionTree)
    (args : List (Ref P)) (heap : List D) (h : ∀ call ∈ f.calls I args heap, call.Fits kind) :
    (f.call { I with invoke := members } args).result heap = (f.call I args).result heap := by
  rw [FunctionTree.calls, List.forall_mem_append] at h
  refine result_bind_congr (Statement.runAll_members hmembers f.statements heap h.1) ?_
  intro env heap' hrun
  exact Tree.eval_members hmembers f.result heap' fun call hcall =>
    h.2 call (mem_after.mpr ⟨env, heap', hrun, hcall⟩)

end Members

/-! ## Sound trees -/

/-- Whatever the heap, all calls of a tree fit and its value is of class `c`. -/
structure Tree.Sound (I : Primitives P D) (kind : P → ValueClass) (env : Env P) (t : Tree)
    (c : ValueClass) : Prop where
  calls : ∀ heap, ∀ call ∈ t.calls I env heap, call.Fits kind
  value : ∀ heap r heap', (t.eval I env).result heap = (some r, heap') → r.valueClass kind = c

namespace Tree.Sound

variable {I : Primitives P D} {kind : P → ValueClass} {env : Env P} {t : Tree} {c : ValueClass}

theorem callsAll {args : List Tree} (h : ∀ t ∈ args, ∃ c, t.Sound I kind env c) (heap : List D) :
    ∀ call ∈ Tree.callsAll I env args heap, call.Fits kind := by
  induction args generalizing heap with
  | nil => simp [Tree.callsAll]
  | cons t ts ih =>
    obtain ⟨c, ht⟩ := h t List.mem_cons_self
    intro call hcall
    rw [Tree.callsAll] at hcall
    rcases List.mem_append.mp hcall with hcall | hcall
    · exact ht.calls heap call hcall
    · obtain ⟨r, heap', -, hmore⟩ := mem_after.mp hcall
      exact ih (fun t ht => h t (List.mem_cons_of_mem _ ht)) heap' call hmore

/-! Trees without calls of members -/

theorem literalWord {name : String} (hname : literalWords.contains name = true)
    (h : kind (I.word name) = c) : (word name).Sound I kind env c where
  calls heap call hcall := by simp [Tree.calls] at hcall
  value heap r heap' hr := by
    rw [eval, if_pos hname] at hr
    obtain ⟨rfl, -⟩ := result_pure_some.mp hr
    exact h

theorem variableWord {name : String} (hname : literalWords.contains name = false)
    (h : ∀ r, env name = some r → r.valueClass kind = c) : (word name).Sound I kind env c where
  calls heap call hcall := by simp [Tree.calls] at hcall
  value heap r heap' hr := by
    rw [eval, hname, if_neg Bool.false_ne_true, result_orThrow_some] at hr
    exact h r hr.1

theorem number (hI : I.Classed kind) (text : String) :
    (Tree.number text).Sound I kind env .number where
  calls heap call hcall := by simp [Tree.calls] at hcall
  value heap r heap' hr := by
    rw [eval] at hr
    obtain ⟨rfl, -⟩ := result_pure_some.mp hr
    exact hI.number text

theorem quoted (hI : I.Classed kind) (value : String) :
    (Tree.quoted value).Sound I kind env .text where
  calls heap call hcall := by simp [Tree.calls] at hcall
  value heap r heap' hr := by
    rw [eval] at hr
    obtain ⟨rfl, -⟩ := result_pure_some.mp hr
    exact hI.text value

theorem group (h : t.Sound I kind env c) : (Tree.group t).Sound I kind env c where
  calls heap call hcall := by
    rw [Tree.calls] at hcall
    exact h.calls heap call hcall
  value heap r heap' hr := by
    rw [eval] at hr
    exact h.value heap r heap' hr

theorem negate (hI : I.Classed kind) (h : t.Sound I kind env c) :
    (Tree.negate t).Sound I kind env .number where
  calls heap call hcall := by
    rw [Tree.calls] at hcall
    exact h.calls heap call hcall
  value heap r heap' hr := by
    rw [eval] at hr
    obtain ⟨x, _, -, hr⟩ := result_bind_some.mp hr
    obtain ⟨v, _, -, hr⟩ := result_bind_some.mp hr
    obtain ⟨p, _, hp, hr⟩ := result_bind_some.mp hr
    obtain ⟨rfl, -⟩ := result_pure_some.mp hr
    exact hI.negate v p (result_orThrow_some.mp hp).1

theorem binary (hI : I.Classed kind) {left right : Tree} {c d : ValueClass}
    (hl : left.Sound I kind env c) (hr : right.Sound I kind env d) (op : ArithOp) :
    (Tree.binary op left right).Sound I kind env (.ofOperator op c d) where
  calls heap call hcall := by
    rw [Tree.calls] at hcall
    rcases List.mem_append.mp hcall with hcall | hcall
    · exact hl.calls heap call hcall
    · obtain ⟨_, heap', -, hcall⟩ := mem_after.mp hcall
      exact hr.calls heap' call hcall
  value heap r heap' hresult := by
    rw [eval] at hresult
    obtain ⟨x, _, hx, hresult⟩ := result_bind_some.mp hresult
    obtain ⟨y, _, hy, hresult⟩ := result_bind_some.mp hresult
    obtain ⟨v, _, hv, hresult⟩ := result_bind_some.mp hresult
    obtain ⟨w, _, hw, hresult⟩ := result_bind_some.mp hresult
    obtain ⟨p, _, hp, hresult⟩ := result_bind_some.mp hresult
    obtain ⟨rfl, -⟩ := result_pure_some.mp hresult
    have hclass := hI.operate op v w p (result_orThrow_some.mp hp).1
    rw [valueClass_view (result_view_some.mp hv).1, valueClass_view (result_view_some.mp hw).1,
      hl.value _ x _ hx, hr.value _ y _ hy] at hclass
    exact hclass

theorem callGlobal (hI : I.Classed kind) {name : String} (hname : name ∈ ValueClass.globals)
    {args : List Tree} (hargs : ∀ t ∈ args, ∃ c, t.Sound I kind env c) :
    (Tree.callGlobal name args).Sound I kind env (.ofGlobal name) where
  calls heap call hcall := by
    rw [Tree.callGlobal, Tree.calls] at hcall
    split at hcall
    · simp at hcall
    · exact callsAll hargs heap call hcall
  value heap r heap' hr := by
    rw [Tree.callGlobal, eval] at hr
    split at hr
    · obtain ⟨_, _, hfail, -⟩ := result_bind_some.mp hr
      simp [result_failure] at hfail
    · obtain ⟨rs, _, -, hr⟩ := result_bind_some.mp hr
      obtain ⟨vs, _, -, hr⟩ := result_bind_some.mp hr
      obtain ⟨p, _, hp, hr⟩ := result_bind_some.mp hr
      obtain ⟨rfl, -⟩ := result_pure_some.mp hr
      exact hI.apply name hname vs p (result_orThrow_some.mp hp).1

theorem newDate (h : t.Sound I kind env c) : (Tree.newDate t).Sound I kind env .date where
  calls heap call hcall := by
    rw [Tree.newDate, Tree.calls] at hcall
    split at hcall
    · simp at hcall
    · refine callsAll (fun u hu => ⟨c, ?_⟩) heap call hcall
      rw [List.mem_singleton.mp hu]
      exact h
  value heap r heap' hr := by
    rw [Tree.newDate, eval] at hr
    split at hr
    · obtain ⟨_, _, hfail, -⟩ := result_bind_some.mp hr
      simp [result_failure] at hfail
    · obtain ⟨rs, _, -, hr⟩ := result_bind_some.mp hr
      obtain ⟨vs, _, -, hr⟩ := result_bind_some.mp hr
      obtain ⟨d, _, -, hr⟩ := result_bind_some.mp hr
      rw [result_allocate, Prod.mk.injEq, Option.some.injEq] at hr
      obtain ⟨rfl, -⟩ := hr
      rfl

/-! Calls of members -/

theorem valueClass_member (hI : I.Classed kind) {name : String} {object r : Ref P}
    {vs : List (Datum P D)} {heap heap' : List D}
    (hmember : (object.valueClass kind).hasMember name = true)
    (h : (do
      let v ← view object
      let p ← orThrow (I.invoke name v vs)
      pure (.prim p) : Machine D (Ref P)).result heap = (some r, heap')) :
    r.valueClass kind = .ofMember name := by
  obtain ⟨v, _, hv, h⟩ := result_bind_some.mp h
  obtain ⟨p, _, hp, h⟩ := result_bind_some.mp h
  obtain ⟨rfl, -⟩ := result_pure_some.mp h
  rw [← valueClass_view (result_view_some.mp hv).1] at hmember
  exact hI.invoke name v vs p hmember (result_orThrow_some.mp hp).1

theorem valueClass_invoke (hI : I.Classed kind) {name : String} {object r : Ref P}
    {rs : List (Ref P)} {heap heap' : List D}
    (hmember : (object.valueClass kind).hasMember name = true)
    (h : (Machine.invoke I name object rs).result heap = (some r, heap')) :
    r.valueClass kind = .ofMember name := by
  unfold Machine.invoke at h
  obtain ⟨vs, _, -, h⟩ := result_bind_some.mp h
  cases object with
  | prim p => exact valueClass_member hI hmember h
  | date address =>
    cases hsetter : setters.contains name with
    | false =>
      rw [hsetter] at h
      exact valueClass_member hI hmember h
    | true =>
      rw [hsetter] at h
      obtain ⟨_, _, -, h⟩ := result_bind_some.mp h
      obtain ⟨d, _, -, h⟩ := result_bind_some.mp h
      obtain ⟨next, _, hnext, h⟩ := result_bind_some.mp h
      obtain ⟨_, _, -, h⟩ := result_bind_some.mp h
      obtain ⟨rfl, -⟩ := result_pure_some.mp h
      have hclass := hI.change name d vs next.1 next.2 (result_orThrow_some.mp hnext).1
      have hname : name = "setUTCHours" ∨ name = "setUTCDate" := by
        simpa [setters] using hsetter
      rcases hname with rfl | rfl <;> exact hclass

theorem callMember (hI : I.Classed kind) (h : t.Sound I kind env c) {name : String}
    (hmember : c.hasMember name = true) {args : List Tree}
    (hargs : ∀ t ∈ args, ∃ c, t.Sound I kind env c) :
    (Tree.call (.member t name) args).Sound I kind env (.ofMember name) where
  calls heap call hcall := by
    rw [Tree.calls] at hcall
    rcases List.mem_append.mp hcall with hcall | hcall
    · exact h.calls heap call hcall
    · obtain ⟨object, heap', hobject, hcall⟩ := mem_after.mp hcall
      rcases List.mem_append.mp hcall with hcall | hcall
      · exact callsAll hargs heap' call hcall
      · obtain ⟨_, _, -, hcall⟩ := mem_after.mp hcall
        rw [List.mem_singleton.mp hcall, MemberCall.Fits, h.value heap object heap' hobject]
        exact hmember
  value heap r heap' hr := by
    rw [eval] at hr
    obtain ⟨object, _, hobject, hr⟩ := result_bind_some.mp hr
    obtain ⟨rs, _, -, hr⟩ := result_bind_some.mp hr
    refine valueClass_invoke hI ?_ hr
    rw [h.value _ object _ hobject]
    exact hmember

theorem receiver (h : t.Sound I kind env c) : t.receiver.Sound I kind env c := by
  unfold Tree.receiver
  split
  · exact h
  · exact h.group

theorem invoke (hI : I.Classed kind) (h : t.Sound I kind env c) {name : String}
    (hmember : c.hasMember name = true) {args : List Tree}
    (hargs : ∀ t ∈ args, ∃ c, t.Sound I kind env c) :
    (t.invoke name args).Sound I kind env (.ofMember name) :=
  h.receiver.callMember hI hmember hargs

end Tree.Sound

/-! ## Sound statements -/

variable {I : Primitives P D} {kind : P → ValueClass} {Good : Env P → Prop}

/-- In a good environment all calls of a statement fit, and the one that it leaves is good. -/
structure Statement.Sound (I : Primitives P D) (kind : P → ValueClass) (Good : Env P → Prop)
    (s : Statement) : Prop where
  calls : ∀ env, Good env → ∀ heap, ∀ call ∈ s.calls I env heap, call.Fits kind
  keeps : ∀ env, Good env → ∀ heap env' heap',
    (s.run I env).result heap = (some env', heap') → Good env'

namespace Statement.Sound

theorem declare {name : String} {t : Tree} {c : ValueClass}
    (ht : ∀ env, Good env → t.Sound I kind env c)
    (hbind : ∀ env r, Good env → r.valueClass kind = c → Good (env.bind name r)) :
    (Statement.declare name t).Sound I kind Good where
  calls env hgood heap call hcall := (ht env hgood).calls heap call hcall
  keeps env hgood heap env' heap' hrun := by
    rw [run] at hrun
    obtain ⟨r, _, hr, hrun⟩ := result_bind_some.mp hrun
    obtain ⟨rfl, -⟩ := result_pure_some.mp hrun
    exact hbind env r hgood ((ht env hgood).value _ r _ hr)

theorem evaluate {t : Tree} {c : ValueClass} (ht : ∀ env, Good env → t.Sound I kind env c) :
    (Statement.evaluate t).Sound I kind Good where
  calls env hgood heap call hcall := (ht env hgood).calls heap call hcall
  keeps env hgood heap env' heap' hrun := by
    rw [run] at hrun
    obtain ⟨_, _, -, hrun⟩ := result_bind_some.mp hrun
    obtain ⟨rfl, -⟩ := result_pure_some.mp hrun
    exact hgood

theorem callsAll {ss : List Statement} (h : ∀ s ∈ ss, s.Sound I kind Good) {env : Env P}
    (hgood : Good env) (heap : List D) :
    ∀ call ∈ Statement.callsAll I ss env heap, call.Fits kind := by
  induction ss generalizing env heap with
  | nil => simp [Statement.callsAll]
  | cons s ss ih =>
    have hs := h s List.mem_cons_self
    intro call hcall
    rw [Statement.callsAll] at hcall
    rcases List.mem_append.mp hcall with hcall | hcall
    · exact hs.calls env hgood heap call hcall
    · obtain ⟨env', heap', hrun, hcall⟩ := mem_after.mp hcall
      have hgood' := hs.keeps env hgood heap env' heap' hrun
      exact ih (fun s hs => h s (List.mem_cons_of_mem _ hs)) hgood' heap' call hcall

theorem runAll {ss : List Statement} (h : ∀ s ∈ ss, s.Sound I kind Good) {env env' : Env P}
    (hgood : Good env) {heap heap' : List D}
    (hrun : (Statement.runAll I ss env).result heap = (some env', heap')) : Good env' := by
  induction ss generalizing env heap with
  | nil =>
    obtain ⟨rfl, -⟩ := result_pure_some.mp hrun
    exact hgood
  | cons s ss ih =>
    rw [Statement.runAll] at hrun
    obtain ⟨env₁, heap₁, hs, hrun⟩ := result_bind_some.mp hrun
    have hgood₁ := (h s List.mem_cons_self).keeps env hgood heap env₁ heap₁ hs
    exact ih (fun s hs => h s (List.mem_cons_of_mem _ hs)) hgood₁ hrun

end Statement.Sound

theorem FunctionTree.sound_call {f : FunctionTree} {c : ValueClass} {args : List (Ref P)}
    (hgood : Good fun name => (f.parameters.zip args).lookup name)
    (hstatements : ∀ s ∈ f.statements, s.Sound I kind Good)
    (hresult : ∀ env, Good env → f.result.Sound I kind env c) (heap : List D) :
    (∀ call ∈ f.calls I args heap, call.Fits kind) ∧
      ∀ r heap', (f.call I args).result heap = (some r, heap') → r.valueClass kind = c := by
  constructor
  · intro call hcall
    rcases List.mem_append.mp hcall with hcall | hcall
    · exact Statement.Sound.callsAll hstatements hgood heap call hcall
    · obtain ⟨env, heap', hrun, hcall⟩ := mem_after.mp hcall
      exact (hresult env (Statement.Sound.runAll hstatements hgood hrun)).calls heap' call hcall
  · intro r heap' hr
    obtain ⟨env, _, hrun, hr⟩ := result_bind_some.mp hr
    exact (hresult env (Statement.Sound.runAll hstatements hgood hrun)).value _ r heap' hr

end Script

end RowScript

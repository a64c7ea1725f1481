import RowScript.Proofs.Script.Tree

/-!
# Running generated text

Trees run in an environment of variables and a heap of date objects. What the
operations of the language compute is left open (`Primitives`): they see the
content of a date but not which object it is, and may throw.

What has been done before a throw stays done, so the heap can be asked for in
any case (`Machine.result`).
-/

namespace RowScript

/-- A value by its content: a date is the moment that its object holds. -/
inductive Datum (P D : Type) where
  | prim (p : P)
  | date (d : D)

/-- The operations of the language. Those that give nothing throw. -/
structure Primitives (P D : Type) where
  /-- The words `null`, `true` and `false`. -/
  word : String → P
  number : String → P
  text : String → P
  negate : Datum P D → Option P
  operate : ArithOp → Datum P D → Datum P D → Option P
  /-- Calls of global functions. -/
  apply : String → List (Datum P D) → Option P
  /-- What a new date holds. -/
  create : List (Datum P D) → Option D
  /-- Calls of members that leave their object as it is. -/
  invoke : String → Datum P D → List (Datum P D) → Option P
  /-- Calls of the setters: what the date holds then, and what the call gives. -/
  change : String → D → List (Datum P D) → Option (D × P)

namespace Script

variable {P D α β : Type}

/-! ## Machines -/

/-- A value as variables hold it. -/
inductive Ref (P : Type) where
  | prim (p : P)
  | date (address : Nat)

/-- What a reference stands for in a heap. -/
def Ref.view (heap : List D) : Ref P → Option (Datum P D)
  | prim p => some (.prim p)
  | date address => heap[address]?.map .date

abbrev Env (P : Type) := String → Option (Ref P)

def Env.bind (env : Env P) (name : String) (r : Ref P) : Env P :=
  fun other => if other = name then some r else env other

/-- A computation that changes a heap of dates, also where it throws. -/
abbrev Machine (D : Type) := OptionT (StateM (List D))

namespace Machine

/-- What a computation gives, and the heap that it leaves. -/
def result (x : Machine D α) (heap : List D) : Option α × List D := OptionT.run x heap

def orThrow (x : Option α) : Machine D α :=
  match x with
  | some a => pure a
  | none => failure

/-- The content of a value at this moment. -/
def view (r : Ref P) : Machine D (Datum P D) := do
  orThrow (r.view (← get))

def viewAll (rs : List (Ref P)) : Machine D (List (Datum P D)) := do
  let heap ← get
  orThrow (rs.mapM (Ref.view heap))

/-- A date object that nothing refers to yet. -/
def allocate (d : D) : Machine D (Ref P) := do
  let heap ← get
  set (heap ++ [d])
  pure (.date heap.length)

def setters : List String := ["setUTCHours", "setUTCDate"]

/-- A call of a member. Contents are looked at when it is made. -/
def invoke (I : Primitives P D) (name : String) (object : Ref P) (args : List (Ref P)) :
    Machine D (Ref P) := do
  let vs ← viewAll args
  match object, setters.contains name with
  | .date address, true => do
    let heap ← get
    let d ← orThrow heap[address]?
    let next ← orThrow (I.change name d vs)
    set (heap.set address next.1)
    pure (.prim next.2)
  | _, _ => do
    let v ← view object
    let p ← orThrow (I.invoke name v vs)
    pure (.prim p)

end Machine

/-! ## Trees -/

open Machine

namespace Tree

mutual

/-- The value of a tree, its operands from left to right. Members and globals can only be called,
and values are no functions. -/
def eval (I : Primitives P D) (env : Env P) : Tree → Machine D (Ref P)
  | word name =>
    if literalWords.contains name then pure (.prim (I.word name)) else orThrow (env name)
  | number text => pure (.prim (I.number text))
  | quoted value => pure (.prim (I.text value))
  | group t => t.eval I env
  | call (member t name) args => do
    let object ← t.eval I env
    let rs ← evalAll I env args
    invoke I name object rs
  | call (word name) args => do
    if (env name).isSome then failure
    let rs ← evalAll I env args
    let vs ← viewAll rs
    let p ← orThrow (I.apply name vs)
    pure (.prim p)
  | create (word name) args => do
    if name ≠ "Date" ∨ (env name).isSome then failure
    let rs ← evalAll I env args
    let vs ← viewAll rs
    let d ← orThrow (I.create vs)
    allocate d
  | negate t => do
    let r ← t.eval I env
    let v ← view r
    let p ← orThrow (I.negate v)
    pure (.prim p)
  | binary op left right => do
    let l ← left.eval I env
    let r ← right.eval I env
    let v ← view l
    let w ← view r
    let p ← orThrow (I.operate op v w)
    pure (.prim p)
  | member _ _ | call _ _ | create _ _ => failure

def evalAll (I : Primitives P D) (env : Env P) : List Tree → Machine D (List (Ref P))
  | [] => pure []
  | t :: ts => do
    let r ← t.eval I env
    let rs ← evalAll I env ts
    pure (r :: rs)

end

end Tree

/-! ## Statements and functions -/

namespace Statement

def run (I : Primitives P D) (env : Env P) : Statement → Machine D (Env P)
  | declare name t => do
    let r ← t.eval I env
    pure (env.bind name r)
  | evaluate t => do
    let _ ← t.eval I env
    pure env

def runAll (I : Primitives P D) : List Statement → Env P → Machine D (Env P)
  | [], env => pure env
  | s :: ss, env => do runAll I ss (← s.run I env)

end Statement

/-- A call of a function, with a value for each of its parameters. -/
def FunctionTree.call (I : Primitives P D) (f : FunctionTree) (args : List (Ref P)) :
    Machine D (Ref P) := do
  let env ← Statement.runAll I f.statements fun name => (f.parameters.zip args).lookup name
  f.result.eval I env

/-! ## Results -/

namespace Machine

@[simp] theorem result_pure (a : α) (heap : List D) :
    (pure a : Machine D α).result heap = (some a, heap) := rfl

@[simp] theorem result_get (heap : List D) :
    (get : Machine D (List D)).result heap = (some heap, heap) := rfl

@[simp] theorem result_set (heap' heap : List D) :
    (set heap' : Machine D PUnit).result heap = (some (), heap') := rfl

@[simp] theorem result_orThrow (x : Option α) (heap : List D) :
    (orThrow x : Machine D α).result heap = (x, heap) := by
  cases x <;> rfl

theorem result_bind (x : Machine D α) (f : α → Machine D β) (heap : List D) :
    (x >>= f).result heap =
      match x.result heap with
      | (some a, heap') => (f a).result heap'
      | (none, heap') => (none, heap') := by
  unfold result
  rw [OptionT.run_bind, Option.elimM]
  change (StateT.bind (OptionT.run x) _) heap = _
  unfold StateT.bind
  generalize OptionT.run x heap = y
  rcases y with ⟨r, heap'⟩
  cases r <;> rfl

end Machine

end Script

end RowScript

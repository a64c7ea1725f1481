import Mathlib.Data.List.Forall2
import RowScript.Proofs.Meaning

/-!
# Trees that stand for values

A tree denotes a value if it evaluates to it wherever it is put: in every later
heap and under every later binding of temporaries. Heaps only grow while a tree is
evaluated, so what one operand has given is still there after the next. Each
node that generated text has denotes what its operation makes of its operands.
-/

namespace RowScript

open Script (Tree Ref Env Machine temporaryName)
open Script.Tree (evalAll)
open Script.Machine (view viewAll orThrow setters result_bind result_pure)

variable {P D α β γ δ : Type}

/-! ## Machines that agree with a value -/

/-- What a reference stands for. -/
def Shows (heap : List D) (r : Ref P) (v : Datum P D) : Prop := r.view heap = some v

theorem Shows.mono {heap heap' : List D} {r : Ref P} {v : Datum P D} (h : heap <+: heap')
    (hr : Shows heap r v) : Shows heap' r v := by
  obtain ⟨more, rfl⟩ := h
  cases r with
  | prim p => exact hr
  | date address =>
    obtain ⟨d, hd, hv⟩ := Option.map_eq_some_iff.mp hr
    have hlt := (List.getElem?_eq_some_iff.mp hd).1
    rw [Shows, Ref.view, List.getElem?_append_left hlt, hd, ← hv]
    rfl

/-- What a machine gives is what `v` says, or both are missing. The dates of the heap stay as
they are, and new ones come after them. -/
def Yields (R : List D → α → β → Prop) (x : Machine D α) (v : Option β) (heap : List D) : Prop :=
  ∃ r heap', x.result heap = (r, heap') ∧ heap <+: heap' ∧ Option.Rel (R heap') r v

namespace Yields

variable {R : List D → α → β → Prop} {S : List D → γ → δ → Prop} {heap : List D}

theorem pure {a : α} {b : β} (h : R heap a b) : Yields R (pure a) (some b) heap :=
  ⟨some a, heap, rfl, List.prefix_refl heap, .some h⟩

theorem orThrow (x : Option α) : Yields (fun _ => Eq) (orThrow x) x heap := by
  refine ⟨x, heap, Machine.result_orThrow x heap, List.prefix_refl heap, ?_⟩
  cases x with
  | none => exact .none
  | some a => exact .some rfl

theorem mono {R' : List D → α → β → Prop} {x : Machine D α} {v : Option β} (h : Yields R x v heap)
    (hR : ∀ heap' a b, R heap' a b → R' heap' a b) : Yields R' x v heap := by
  obtain ⟨r, heap', hx, hgrow, hr⟩ := h
  refine ⟨r, heap', hx, hgrow, ?_⟩
  cases hr with
  | none => exact .none
  | some h => exact .some (hR _ _ _ h)

theorem bind {x : Machine D α} {v : Option β} {f : α → Machine D γ} {g : β → Option δ}
    (hx : Yields R x v heap)
    (hf : ∀ a b heap', heap <+: heap' → R heap' a b → Yields S (f a) (g b) heap') :
    Yields S (x >>= f) (v >>= g) heap := by
  obtain ⟨r, heap', hrun, hgrow, hr⟩ := hx
  unfold Yields
  rw [result_bind, hrun]
  cases hr with
  | none => exact ⟨none, heap', rfl, hgrow, .none⟩
  | some hab =>
    obtain ⟨s, heap'', hrest, hmore, hs⟩ := hf _ _ heap' hgrow hab
    exact ⟨s, heap'', hrest, hgrow.trans hmore, hs⟩

theorem bind_some {x : Machine D α} {b : β} {f : α → Machine D γ} {w : Option δ}
    (hx : Yields R x (some b) heap)
    (hf : ∀ a heap', heap <+: heap' → R heap' a b → Yields S (f a) w heap') :
    Yields S (x >>= f) w heap := by
  obtain ⟨r, heap', hrun, hgrow, hr⟩ := hx
  unfold Yields
  rw [result_bind, hrun]
  cases hr with
  | some hab =>
    obtain ⟨s, heap'', hrest, hmore, hs⟩ := hf _ heap' hgrow hab
    exact ⟨s, heap'', hrest, hgrow.trans hmore, hs⟩

end Yields

section Operations

variable {heap : List D} {I : Primitives P D}

theorem yields_view {r : Ref P} {v : Datum P D} (h : Shows heap r v) :
    Yields (fun _ => Eq) (view r) (some v) heap := by
  refine ⟨some v, heap, ?_, List.prefix_refl heap, .some rfl⟩
  change Machine.result (orThrow (r.view heap)) heap = _
  rw [h]
  rfl

theorem result_viewAll {rs : List (Ref P)} {vs : List (Datum P D)}
    (h : List.Forall₂ (Shows heap) rs vs) : (viewAll rs).result heap = (some vs, heap) := by
  change Machine.result (orThrow (rs.mapM (Ref.view heap))) heap = _
  have hall : rs.mapM (Ref.view heap) = some vs := by
    induction h with
    | nil => rfl
    | cons hr _ ih =>
      rw [List.mapM_cons, hr, ih]
      rfl
  rw [hall]
  rfl

theorem yields_viewAll {rs : List (Ref P)} {vs : List (Datum P D)}
    (h : List.Forall₂ (Shows heap) rs vs) : Yields (fun _ => Eq) (viewAll rs) (some vs) heap :=
  ⟨some vs, heap, result_viewAll h, List.prefix_refl heap, .some rfl⟩

theorem yields_prim (p : Option P) :
    Yields Shows (do let q ← orThrow p; Pure.pure (.prim q)) (do let q ← p; some (.prim q)) heap :=
  (Yields.orThrow p).bind fun _ _ _ _ h => .pure (h ▸ rfl)

theorem yields_invoke {name : String} (hname : setters.contains name = false) {r : Ref P}
    {v : Datum P D} (hr : Shows heap r v) {rs : List (Ref P)} {vs : List (Datum P D)}
    (hrs : List.Forall₂ (Shows heap) rs vs) :
    Yields Shows (Machine.invoke I name r rs) (do let p ← I.invoke name v vs; some (.prim p))
      heap := by
  unfold Machine.invoke
  refine (yields_viewAll hrs).bind_some ?_
  rintro ws heap' hgrow rfl
  have hview : Yields Shows (do
      let v ← view r
      let p ← orThrow (I.invoke name v ws)
      Pure.pure (.prim p)) (do let p ← I.invoke name v ws; some (.prim p)) heap' := by
    refine (yields_view (hr.mono hgrow)).bind_some ?_
    rintro w heap'' - rfl
    exact yields_prim _
  rw [hname]
  cases r with
  | prim p => exact hview
  | date address => exact hview

end Operations

/-! ## New dates -/

/-- The last date of the heap, which was not there when the heap was `base`. -/
def Fresh (base heap : List D) (r : Ref P) (v : Datum P D) : Prop :=
  ∃ before d, heap = before ++ [d] ∧ base <+: before ∧ r = .date before.length ∧ v = .date d

theorem Fresh.shows {base : List D} {r : Ref P} {v : Datum P D} (h : Fresh base heap r v) :
    Shows heap r v := by
  obtain ⟨before, d, rfl, -, rfl, rfl⟩ := h
  simp [Shows, Ref.view]

/-! ## Environments -/

/-- Nothing but temporaries from number `n` on is bound in another way. -/
def SameBelow (n : Nat) (env env' : Env P) : Prop :=
  ∀ name, (∀ k, n ≤ k → name ≠ temporaryName k) → env' name = env name

theorem SameBelow.refl (n : Nat) (env : Env P) : SameBelow n env env := fun _ _ => rfl

theorem SameBelow.mono {m n : Nat} {env env' : Env P} (hmn : m ≤ n) (h : SameBelow n env env') :
    SameBelow m env env' := fun name hname => h name fun k hk => hname k (hmn.trans hk)

theorem SameBelow.trans {n : Nat} {env env' env'' : Env P} (h : SameBelow n env env')
    (h' : SameBelow n env' env'') : SameBelow n env env'' :=
  fun name hname => (h' name hname).trans (h name hname)

theorem SameBelow.bind (n : Nat) (env : Env P) (r : Ref P) :
    SameBelow n env (env.bind (temporaryName n) r) := by
  intro name hname
  rw [Env.bind, if_neg (hname n (Nat.le_refl n))]

theorem SameBelow.temporary {m n : Nat} {env env' : Env P} (h : SameBelow n env env')
    (hm : m < n) : env' (temporaryName m) = env (temporaryName m) := by
  refine h _ ?_
  intro k hk he
  have hmk := Script.temporaryName_injective he
  omega

theorem Script.Tree.eval_temporary (I : Primitives P D) (env : Env P) (m : Nat) :
    (word (temporaryName m)).eval I env = Machine.orThrow (env (temporaryName m)) := by
  have hword : temporaryName m ∉ literalWords := temporaryName_not_mem m (by decide)
  simp [eval, hword]

/-- What a call has to do with: the operations, and a value for each parameter. -/
structure Setting (P D : Type) where
  primitives : Primitives P D
  names : List String
  usable : ∀ name ∈ names, Script.isUsable name = true
  row : String → Datum P D

namespace Setting

variable (S : Setting P D)

/-- The parameters are bound to their values, and no word of the language is bound. -/
structure Loaded (env : Env P) (heap : List D) : Prop where
  inputs : ∀ name ∈ S.names, ∃ r, env name = some r ∧ Shows heap r (S.row name)
  reserved : ∀ name ∈ Script.reserved, env name = none

/-- A tree has the outcome `v` in every later heap, whatever temporaries from number `n` on are
bound to. -/
def Denotes (n : Nat) (env : Env P) (heap : List D) (t : Tree) (v : Option (Datum P D)) :
    Prop :=
  ∀ env' heap', S.Loaded env' heap' → SameBelow n env env' → heap <+: heap' →
    Yields Shows (t.eval S.primitives env') v heap'

variable {S} {n : Nat} {env env' : Env P} {heap heap' : List D}

theorem Loaded.mono (h : S.Loaded env heap) (henv : SameBelow n env env') (hheap : heap <+: heap') :
    S.Loaded env' heap' := by
  refine ⟨?_, ?_⟩
  · intro name hn
    obtain ⟨r, hr, hshows⟩ := h.inputs name hn
    refine ⟨r, ?_, hshows.mono hheap⟩
    rw [← hr]
    refine henv name ?_
    rintro k - rfl
    have husable := S.usable _ hn
    rw [Script.not_isUsable_temporaryName] at husable
    contradiction
  · intro name hn
    rw [← h.reserved name hn]
    refine henv name ?_
    rintro k - rfl
    exact Script.temporaryName_not_mem k (by decide) hn

theorem Denotes.mono {m : Nat} {t : Tree} {v : Option (Datum P D)} (h : S.Denotes m env heap t v)
    (hmn : m ≤ n) (henv : SameBelow m env env') (hheap : heap <+: heap') :
    S.Denotes n env' heap' t v := by
  intro env'' heap'' hloaded hframe hgrow
  exact h env'' heap'' hloaded (henv.trans (hframe.mono hmn)) (hheap.trans hgrow)

/-! ## Leaves -/

namespace Denotes

variable {t u : Tree} {v w : Option (Datum P D)} {ts : List Tree}
  {vs : List (Option (Datum P D))}

theorem input {name : String} (hn : name ∈ S.names) :
    S.Denotes n env heap (.word name) (some (S.row name)) := by
  intro env' heap' hloaded _ _
  obtain ⟨r, hr, hshows⟩ := hloaded.inputs name hn
  rw [Tree.eval, Script.not_literalWord_of_isUsable (S.usable name hn), hr]
  exact .pure hshows

theorem temporary {m : Nat} {r : Ref P} {d : Datum P D} (hm : m < n)
    (hr : env (temporaryName m) = some r) (hshows : Shows heap r d) :
    S.Denotes n env heap (.word (temporaryName m)) (some d) := by
  intro env' heap' _ hframe hgrow
  rw [Tree.eval_temporary, hframe.temporary hm, hr]
  exact .pure (hshows.mono hgrow)

theorem literalWord {name : String} (h : Script.literalWords.contains name = true) :
    S.Denotes n env heap (.word name) (some (.prim (S.primitives.word name))) := by
  intro env' heap' _ _ _
  rw [Tree.eval, h]
  exact .pure rfl

theorem number (text : String) :
    S.Denotes n env heap (.number text) (S.primitives.numeral text) := by
  intro env' heap' _ _ _
  rw [Tree.eval]
  exact .pure rfl

theorem quoted (text : String) :
    S.Denotes n env heap (.quoted text) (some (.prim (S.primitives.text text))) := by
  intro env' heap' _ _ _
  rw [Tree.eval]
  exact .pure rfl

/-! ## Nodes -/

theorem group (ht : S.Denotes n env heap t v) : S.Denotes n env heap (.group t) v := by
  intro env' heap' hloaded hframe hgrow
  rw [Tree.eval]
  exact ht env' heap' hloaded hframe hgrow

theorem receiver (ht : S.Denotes n env heap t v) : S.Denotes n env heap t.receiver v := by
  unfold Tree.receiver
  split
  · exact ht
  · exact ht.group

theorem negate (ht : S.Denotes n env heap t v) :
    S.Denotes n env heap (.negate t) (S.primitives.negated v) := by
  intro env' heap' hloaded hframe hgrow
  rw [Tree.eval, Primitives.negated]
  refine (ht env' heap' hloaded hframe hgrow).bind ?_
  intro r a heap₁ _ hr
  refine (yields_view hr).bind_some ?_
  rintro b heap₂ - rfl
  exact yields_prim _

theorem binary (op : ArithOp) (ht : S.Denotes n env heap t v) (hu : S.Denotes n env heap u w) :
    S.Denotes n env heap (.binary op t u) (S.primitives.operated op v w) := by
  intro env' heap' hloaded hframe hgrow
  rw [Tree.eval, Primitives.operated]
  refine (ht env' heap' hloaded hframe hgrow).bind ?_
  intro r a heap₁ h₁ hr
  have hloaded₁ := hloaded.mono (.refl 0 _) h₁
  refine (hu env' heap₁ hloaded₁ hframe (hgrow.trans h₁)).bind ?_
  intro q b heap₂ h₂ hq
  refine (yields_view (hr.mono h₂)).bind_some ?_
  rintro c heap₃ h₃ rfl
  refine (yields_view (hq.mono h₃)).bind_some ?_
  rintro d heap₄ - rfl
  exact yields_prim _

theorem all (h : List.Forall₂ (S.Denotes n env heap) ts vs) (hloaded : S.Loaded env' heap')
    (hframe : SameBelow n env env') (hgrow : heap <+: heap') :
    Yields (fun heap => List.Forall₂ (Shows heap)) (evalAll S.primitives env' ts) (vs.mapM id)
      heap' := by
  induction h generalizing heap' with
  | nil => exact .pure .nil
  | cons ht _ ih =>
    rw [evalAll, List.mapM_cons]
    refine (ht env' heap' hloaded hframe hgrow).bind ?_
    intro r a heap₁ h₁ hr
    refine (ih (hloaded.mono (.refl 0 _) h₁) (hgrow.trans h₁)).bind ?_
    intro rs as heap₂ h₂ hrs
    exact .pure (.cons (hr.mono h₂) hrs)

theorem callMember (ht : S.Denotes n env heap t v) (name : String)
    (hname : setters.contains name = false) (hts : List.Forall₂ (S.Denotes n env heap) ts vs) :
    S.Denotes n env heap (.call (.member t name) ts) (S.primitives.invoked name v vs) := by
  intro env' heap' hloaded hframe hgrow
  rw [Tree.eval, Primitives.invoked]
  refine (ht env' heap' hloaded hframe hgrow).bind ?_
  intro r a heap₁ h₁ hr
  have hloaded₁ := hloaded.mono (.refl 0 _) h₁
  refine (all hts hloaded₁ hframe (hgrow.trans h₁)).bind ?_
  intro rs as heap₂ h₂ hrs
  exact yields_invoke hname (hr.mono h₂) hrs

theorem invoke (ht : S.Denotes n env heap t v) (name : String)
    (hname : setters.contains name = false) (hts : List.Forall₂ (S.Denotes n env heap) ts vs) :
    S.Denotes n env heap (t.invoke name ts) (S.primitives.invoked name v vs) :=
  ht.receiver.callMember name hname hts

theorem callGlobal {name : String} (hname : name ∈ Script.reserved)
    (hts : List.Forall₂ (S.Denotes n env heap) ts vs) :
    S.Denotes n env heap (.callGlobal name ts) (S.primitives.applied name vs) := by
  intro env' heap' hloaded hframe hgrow
  rw [Tree.callGlobal, Tree.eval, hloaded.reserved name hname, Primitives.applied]
  refine (all hts hloaded hframe hgrow).bind ?_
  intro rs as heap₁ _ hrs
  refine (yields_viewAll hrs).bind_some ?_
  rintro bs heap₂ - rfl
  exact yields_prim _

end Denotes

/-! ## Dates that are made -/

theorem Denotes.fresh {t : Tree} {v : Option (Datum P D)} (ht : S.Denotes n env heap t v)
    (hloaded : S.Loaded env' heap') (hframe : SameBelow n env env') (hgrow : heap <+: heap') :
    Yields (Fresh heap') ((Tree.newDate t).eval S.primitives env') (S.primitives.created [v])
      heap' := by
  have hdate : env' "Date" = none := hloaded.reserved "Date" (by decide)
  rw [Tree.newDate, Tree.eval, hdate, Primitives.created]
  have hone : List.Forall₂ (S.Denotes n env heap) [t] [v] := .cons ht .nil
  refine (Denotes.all hone hloaded hframe hgrow).bind ?_
  intro rs as heap₁ h₁ hrs
  refine (yields_viewAll hrs).bind_some ?_
  rintro bs heap₂ h₂ rfl
  refine (Yields.orThrow _).bind ?_
  rintro d e heap₃ h₃ rfl
  have hbase : heap' <+: heap₃ := h₁.trans (h₂.trans h₃)
  exact ⟨some (.date heap₃.length), heap₃ ++ [d], rfl, List.prefix_append heap₃ [d],
    .some ⟨heap₃, d, rfl, hbase, rfl, rfl⟩⟩

theorem Denotes.newDate {t : Tree} {v : Option (Datum P D)} (ht : S.Denotes n env heap t v) :
    S.Denotes n env heap (.newDate t) (S.primitives.created [v]) :=
  fun _ _ hloaded hframe hgrow => (ht.fresh hloaded hframe hgrow).mono fun _ _ _ => Fresh.shows

end Setting

/-! ## Conversions, fields and literals -/

section Parts

variable {S : Setting P D} {n : Nat} {env env' : Env P} {heap heap' : List D} {t : Tree}
  {v : Option (Datum P D)}

theorem Conversion.denotes_tree (c : Conversion) (ht : S.Denotes n env heap t v) :
    S.Denotes n env heap (c.tree t) (c.meaning S.primitives v) := by
  have hone : List.Forall₂ (S.Denotes n env heap) [t] [v] := .cons ht .nil
  have hnumber : ∀ text, S.Denotes n env heap (.number text) (S.primitives.numeral text) :=
    Setting.Denotes.number
  cases c with
  | keep => exact ht
  | parseFloat => exact .callGlobal (by decide) hone
  | parseInt => exact .callGlobal (by decide) (.cons ht (.cons (hnumber "10") .nil))
  | toNumber => exact .callGlobal (by decide) hone
  | toBoolean => exact .callGlobal (by decide) hone
  | toText => exact ht.invoke _ (by decide) .nil
  | dateText => exact ht.invoke _ (by decide) .nil
  | dayText =>
    have htext := ht.invoke "toISOString" (by decide) .nil
    exact htext.callMember _ (by decide) (.cons (hnumber "0") (.cons (hnumber "10") .nil))
  | epochOfDate => exact ht.invoke _ (by decide) .nil
  | epochOfValue => exact ht.newDate.callMember _ (by decide) .nil
  | dateOfValue => exact ht.newDate
  | dateOfNumber => exact (Setting.Denotes.callGlobal (by decide) hone).newDate
  | dateCopy => exact (ht.invoke _ (by decide) .nil).newDate

theorem Conversion.denotes_treeOf (c : Option Conversion) (ht : S.Denotes n env heap t v) :
    S.Denotes n env heap (treeOf c t) (meaningOf S.primitives c v) := denotes_tree _ ht

theorem Conversion.fresh_treeOf {type : DataType} (h : (ownDate? type).isSome = true)
    (ht : S.Denotes n env heap t v) (hloaded : S.Loaded env' heap') (hframe : SameBelow n env env')
    (hgrow : heap <+: heap') :
    Yields (Fresh heap') ((treeOf (ownDate? type) t).eval S.primitives env')
      (meaningOf S.primitives (ownDate? type) v) heap' := by
  have hcases : ownDate? type = some .dateCopy ∨ ownDate? type = some .dateOfValue := by
    revert h
    cases type <;> decide
  rcases hcases with hown | hown
  · rw [hown]
    have htime := ht.invoke "getTime" (by decide) .nil
    exact htime.fresh hloaded hframe hgrow
  · rw [hown]
    exact ht.fresh hloaded hframe hgrow

theorem DateField.denotes_tree (field : DateField) (ht : S.Denotes n env heap t v) :
    S.Denotes n env heap (field.tree t) (field.meaning S.primitives v) := by
  cases field with
  | year => exact ht.invoke _ (by decide) .nil
  | month => exact ((ht.invoke _ (by decide) .nil).binary .add (.number "1")).group
  | hour => exact ht.invoke _ (by decide) .nil
  | minute => exact ht.invoke _ (by decide) .nil
  | second => exact ht.invoke _ (by decide) .nil

theorem Expr.denotes_numberTree (text : String) :
    S.Denotes n env heap (numberTree text) (numberMeaning S.primitives text) := by
  by_cases h : ∃ digits, text.toList = '-' :: digits
  · obtain ⟨digits, h⟩ := h
    have htree : numberTree text = .negate (.number (String.ofList digits)) := by
      simp only [numberTree, h]
    have hmeaning : numberMeaning S.primitives text =
        S.primitives.negated (S.primitives.numeral (String.ofList digits)) := by
      simp only [numberMeaning, h]
    rw [htree, hmeaning]
    exact (Setting.Denotes.number _).negate
  · have htree : numberTree text = .number text := by
      unfold numberTree
      split
      · next digits hd => exact absurd ⟨digits, hd⟩ h
      · rfl
    have hmeaning : numberMeaning S.primitives text = S.primitives.numeral text := by
      unfold numberMeaning
      split
      · next digits hd => exact absurd ⟨digits, hd⟩ h
      · rfl
    rw [htree, hmeaning]
    exact .number text

theorem Expr.denotes_literalTree {value : Option String} {type : DataType}
    (h : isLegal value type = true) :
    S.Denotes n env heap (literalTree value type) (literalMeaning S.primitives value type) := by
  have hnull : S.Denotes n env heap (.word "null") (some (.prim (S.primitives.word "null"))) :=
    .literalWord (by decide)
  cases value with
  | none => exact hnull
  | some text =>
    cases type with
    | null => exact hnull
    | boolean =>
      have hword : text = "true" ∨ text = "false" := by
        simpa [isLegal, DataType.isNumeric, DataType.isIntegral, DataType.isFractional] using h
      rcases hword with rfl | rfl
      · exact .literalWord (by decide)
      · exact .literalWord (by decide)
    | short => exact denotes_numberTree text
    | integer => exact denotes_numberTree text
    | long => exact denotes_numberTree text
    | float => exact denotes_numberTree text
    | double => exact denotes_numberTree text
    | string => exact Conversion.denotes_treeOf _ (.quoted text)
    | date => exact Conversion.denotes_treeOf _ (.quoted text)
    | timestamp => exact Conversion.denotes_treeOf _ (.quoted text)

end Parts

end RowScript

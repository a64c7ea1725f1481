import RowScript.Proofs.Script.Tree

/-!
# Reading syntax trees

A machine over the tokens of an expression. It holds the brackets and operators
that are still open, the innermost first, and what it has read last. It reads a
grammatical tree back from its tokens (`run_tokens`), so that no two trees have
the same tokens and a text has one tree at most (`FunctionTree.reads_iff`).
-/

namespace RowScript.Script

namespace Reader

/-- What is open around the place that the machine has come to. -/
inductive Frame where
  | group
  /-- The arguments that have been read, of a call or of `new`. -/
  | arguments (isCreation : Bool) (callee : Tree) (done : List Tree)
  | create
  | negate
  | left (operand : Tree) (op : ArithOp)

/-- What comes next: an operand, the name after a point, or what may follow an operand. -/
inductive Mode where
  | operand
  | name (object : Tree)
  | after (t : Tree)

def application (isCreation : Bool) (callee : Tree) (arguments : List Tree) : Tree :=
  if isCreation then .create callee arguments else .call callee arguments

/-- Ends the operators around an operand that bind it as strong as `k` at least. -/
def reduce (k : Nat) : List Frame → Tree → List Frame × Tree
  | .negate :: fs, t => if k ≤ 3 then reduce k fs (.negate t) else (.negate :: fs, t)
  | .left l op :: fs, t =>
    if k ≤ strength op then reduce k fs (.binary op l t) else (.left l op :: fs, t)
  | fs, t => (fs, t)

def stepOperand (fs : List Frame) : Token → Option (List Frame × Mode)
  | .word name =>
    if name = "new" then some (.create :: fs, .operand)
    else if isOperandWord name then some (fs, .after (.word name))
    else none
  | .number text => some (fs, .after (.number text))
  | .quoted value => some (fs, .after (.quoted value))
  | .operator .sub => some (.negate :: fs, .operand)
  | .openBracket => some (.group :: fs, .operand)
  | .closeBracket =>
    match fs with
    | .arguments b callee [] :: fs => some (fs, .after (application b callee []))
    | _ => none
  | _ => none

/-- The bracket after an operand opens its arguments. -/
def openArguments (t : Tree) : List Frame → List Frame
  | .create :: fs => .arguments true t [] :: fs
  | fs => .arguments false t [] :: fs

def stepComma : List Frame × Tree → Option (List Frame × Mode)
  | (.arguments b callee done :: fs, t) => some (.arguments b callee (done ++ [t]) :: fs, .operand)
  | _ => none

def stepClose : List Frame × Tree → Option (List Frame × Mode)
  | (.group :: fs, t) => some (fs, .after (.group t))
  | (.arguments b callee done :: fs, t) => some (fs, .after (application b callee (done ++ [t])))
  | _ => none

def stepAfter (fs : List Frame) (t : Tree) : Token → Option (List Frame × Mode)
  | .point => some (fs, .name t)
  | .openBracket => some (openArguments t fs, .operand)
  | .operator op =>
    let (fs, t) := reduce (strength op) fs t
    some (.left t op :: fs, .operand)
  | .comma => stepComma (reduce 1 fs t)
  | .closeBracket => stepClose (reduce 1 fs t)
  | _ => none

def step : List Frame × Mode → Token → Option (List Frame × Mode)
  | (fs, .operand), token => stepOperand fs token
  | (fs, .name t), .word name => some (fs, .after (.member t name))
  | (_, .name _), _ => none
  | (fs, .after t), token => stepAfter fs t token

def run (state : List Frame × Mode) (ts : List Token) : Option (List Frame × Mode) :=
  ts.foldlM step state

theorem run_append (state : List Frame × Mode) (ts us : List Token) :
    run state (ts ++ us) = (run state ts).bind fun state => run state us := by
  rw [run, List.foldlM_append]
  rfl

theorem run_cons (state : List Frame × Mode) (token : Token) (ts : List Token) :
    run state (token :: ts) = (step state token).bind fun state => run state ts := rfl

def finish : List Frame × Mode → Option Tree
  | (fs, .after t) =>
    match reduce 1 fs t with
    | ([], t) => some t
    | _ => none
  | _ => none

end Reader

/-- The tree of the tokens of an expression. -/
def Tree.read? (ts : List Token) : Option Tree := (Reader.run ([], .operand) ts).bind Reader.finish

/-! ## The machine reads trees back -/

namespace Reader

/-- The strength that a tree has to have where the frame is the innermost. -/
def Frame.admits : Frame → Nat → Prop
  | left _ op, k => Script.strength op < k
  | negate, k => 3 ≤ k
  | create, k => 5 ≤ k
  | group, _ | arguments _ _ _, _ => True

def Admits (fs : List Frame) (k : Nat) : Prop := ∀ f, fs.head? = some f → f.admits k

theorem Frame.admits_mono {f : Frame} {j k : Nat} (h : f.admits j) (hjk : j ≤ k) : f.admits k := by
  cases f with
  | left l op => exact Nat.lt_of_lt_of_le h hjk
  | negate => exact Nat.le_trans h hjk
  | create => exact Nat.le_trans h hjk
  | group => trivial
  | arguments b callee done => trivial

theorem Admits.mono {fs : List Frame} {j k : Nat} (h : Admits fs j) (hjk : j ≤ k) :
    Admits fs k := fun f hf => Frame.admits_mono (h f hf) hjk

theorem admits_cons {f : Frame} {k : Nat} (fs : List Frame) (h : f.admits k) :
    Admits (f :: fs) k := by
  intro g hg
  rw [List.head?_cons, Option.some.injEq] at hg
  rw [← hg]
  exact h

theorem strength_op_pos (op : ArithOp) : 1 ≤ strength op ∧ strength op ≤ 2 := by
  cases op <;> simp [strength]

theorem reduce_of_admits {fs : List Frame} {k : Nat} (h : Admits fs k) (hk : k ≤ 2) (t : Tree) :
    reduce k fs t = (fs, t) := by
  cases fs with
  | nil => rfl
  | cons f fs =>
    have hf := h f rfl
    cases f with
    | left l op =>
      have hlt : strength op < k := hf
      rw [reduce, if_neg (by omega)]
    | negate =>
      have hge : 3 ≤ k := hf
      omega
    | create => rfl
    | group => rfl
    | arguments b callee done => rfl

theorem reduce_call {k : Nat} (hk : 4 ≤ k) (fs : List Frame) (t : Tree) :
    reduce k fs t = (fs, t) := by
  cases fs with
  | nil => rfl
  | cons f fs =>
    cases f with
    | left l op =>
      have := strength_op_pos op
      rw [reduce, if_neg (by omega)]
    | negate => rw [reduce, if_neg (by omega)]
    | create => rfl
    | group => rfl
    | arguments b callee done => rfl

theorem openArguments_of_admits {fs : List Frame} {k : Nat} (h : Admits fs k) (hk : k ≤ 4)
    (t : Tree) : openArguments t fs = .arguments false t [] :: fs := by
  cases fs with
  | nil => rfl
  | cons f fs =>
    cases f with
    | create =>
      have : 5 ≤ k := h .create rfl
      omega
    | left _ _ | negate | group | arguments _ _ _ => rfl

/-- The machine has read `t`, up to operators of `t` that a stronger one may still divide. -/
def HasRead (fs : List Frame) (t : Tree) (state : Option (List Frame × Mode)) : Prop :=
  ∃ fs' t', state = some (fs', .after t') ∧ ∀ k ≤ t.strength, reduce k fs' t' = reduce k fs t

theorem HasRead.exact {fs : List Frame} {t : Tree} {state : Option (List Frame × Mode)}
    (h : HasRead fs t state) (ht : 4 ≤ t.strength) : state = some (fs, .after t) := by
  obtain ⟨fs', t', hs, hr⟩ := h
  have heq := hr 4 ht
  rw [reduce_call (Nat.le_refl 4), reduce_call (Nat.le_refl 4)] at heq
  rw [hs, (Prod.mk.inj heq).1, (Prod.mk.inj heq).2]

theorem hasRead_self (fs : List Frame) (t : Tree) : HasRead fs t (some (fs, .after t)) :=
  ⟨fs, t, rfl, fun _ _ => rfl⟩

theorem strength_pos {t : Tree} (h : t.Grammatical) : 1 ≤ t.strength := by
  cases t with
  | member t name => exact Nat.le_trans (by omega) h.1
  | binary op l r => exact (strength_op_pos op).1
  | word _ | number _ | quoted _ | group _ | call _ _ | create _ _ | negate _ =>
    simp [Tree.strength]

/-- `t` is read back from its tokens, wherever the grammar has a tree like it. -/
def ReadsBack (t : Tree) : Prop :=
  ∀ fs, Admits fs t.strength → HasRead fs t (run (fs, .operand) t.tokens)

theorem run_moreTokens {b : Bool} {callee : Tree} {args : List Tree} (fs : List Frame)
    (h : ∀ t ∈ args, t.Grammatical ∧ ReadsBack t) (done : List Tree) (t t' : Tree)
    (fs' : List Frame)
    (ht : reduce 1 fs' t' = (.arguments b callee done :: fs, t)) :
    run (fs', .after t') (Tree.moreTokens args ++ [.closeBracket]) =
      some (fs, .after (application b callee (done ++ t :: args))) := by
  induction args generalizing done t t' fs' with
  | nil =>
    rw [Tree.moreTokens, List.nil_append, run_cons, step, stepAfter, ht]
    rfl
  | cons u args ih =>
    obtain ⟨hg, hu⟩ := h u List.mem_cons_self
    have hframe : Frame.admits (.arguments b callee (done ++ [t])) u.strength := trivial
    obtain ⟨fs₁, u₁, hrun, hreduce⟩ := hu _ (admits_cons fs hframe)
    have hone := hreduce 1 (strength_pos hg)
    rw [Tree.moreTokens, List.cons_append, run_cons, step, stepAfter, ht, stepComma,
      Option.bind_some, List.append_assoc, run_append, hrun, Option.bind_some,
      ih (fun v hv => h v (List.mem_cons_of_mem _ hv)) (done ++ [t]) u u₁ fs₁ hone]
    simp

theorem run_arguments (b : Bool) (callee : Tree) {args : List Tree} (fs : List Frame)
    (h : ∀ t ∈ args, t.Grammatical ∧ ReadsBack t) :
    run (.arguments b callee [] :: fs, .operand) (Tree.argumentTokens args ++ [.closeBracket]) =
      some (fs, .after (application b callee args)) := by
  cases args with
  | nil => rfl
  | cons t args =>
    obtain ⟨hg, ht⟩ := h t List.mem_cons_self
    have hframe : Frame.admits (.arguments b callee []) t.strength := trivial
    obtain ⟨fs₁, t₁, hrun, hreduce⟩ := ht _ (admits_cons fs hframe)
    rw [Tree.argumentTokens, List.append_assoc, run_append, hrun, Option.bind_some]
    exact run_moreTokens fs (fun u hu => h u (List.mem_cons_of_mem _ hu)) [] t t₁ fs₁
      (hreduce 1 (strength_pos hg))

theorem run_tokens {t : Tree} (hg : t.Grammatical) : ReadsBack t := by
  induction t with
  | word name =>
    intro fs _
    have hnew : name ≠ "new" := by
      rintro rfl
      exact absurd hg (by simp [Tree.Grammatical]; decide)
    have hword : isOperandWord name = true := hg
    rw [Tree.tokens, run_cons, step, stepOperand, if_neg hnew, if_pos hword]
    exact hasRead_self fs _
  | number text => exact fun fs _ => hasRead_self fs _
  | quoted value => exact fun fs _ => hasRead_self fs _
  | group t ih =>
    intro fs _
    obtain ⟨fs', t', hrun, hreduce⟩ := ih hg (.group :: fs) (admits_cons fs trivial)
    have hone := hreduce 1 (strength_pos hg)
    rw [Tree.tokens, run_cons, step, stepOperand, Option.bind_some, run_append, hrun,
      Option.bind_some, run_cons, step, stepAfter, hone]
    exact hasRead_self fs _
  | member t name ih =>
    obtain ⟨hs, ht, hn⟩ := hg
    intro fs hfs
    rw [Tree.tokens, run_append, (ih ht fs hfs).exact hs]
    exact hasRead_self fs _
  | call t args ih ihs =>
    obtain ⟨hs, ht, hargs⟩ := hg
    rw [Tree.allGrammatical_iff] at hargs
    intro fs hfs
    have hopen := openArguments_of_admits hfs (Nat.le_refl 4) t
    have hlist := run_arguments false t fs fun u hu => ⟨hargs u hu, ihs u hu (hargs u hu)⟩
    rw [Tree.tokens, run_append, (ih ht fs (hfs.mono hs)).exact hs, Option.bind_some, run_cons, step,
      stepAfter, hopen, Option.bind_some, hlist]
    exact hasRead_self fs _
  | create t args ih ihs =>
    obtain ⟨hs, ht, hargs⟩ := hg
    rw [Tree.allGrammatical_iff] at hargs
    intro fs _
    have hread := (ih ht (.create :: fs) (admits_cons fs hs)).exact (Nat.le_of_succ_le hs)
    have hlist := run_arguments true t fs fun u hu => ⟨hargs u hu, ihs u hu (hargs u hu)⟩
    rw [Tree.tokens, run_cons, step, stepOperand, if_pos rfl, Option.bind_some, run_append, hread,
      Option.bind_some, run_cons, step, stepAfter, openArguments, Option.bind_some, hlist]
    exact hasRead_self fs _
  | negate t ih =>
    obtain ⟨hs, ht⟩ := hg
    intro fs _
    obtain ⟨fs', t', hrun, hreduce⟩ := ih ht (.negate :: fs) (admits_cons fs hs)
    rw [Tree.tokens, run_cons, step, stepOperand, Option.bind_some]
    refine ⟨fs', t', hrun, fun k hk => ?_⟩
    have hk3 : k ≤ 3 := hk
    rw [hreduce k (Nat.le_trans hk3 hs), reduce, if_pos hk3]
  | binary op l r ihl ihr =>
    obtain ⟨hls, hrs, hl, hr⟩ := hg
    intro fs hfs
    have hop := strength_op_pos op
    obtain ⟨fs₁, l₁, hrun₁, hreduce₁⟩ := ihl hl fs (hfs.mono hls)
    obtain ⟨fs₂, r₂, hrun₂, hreduce₂⟩ := ihr hr (.left l op :: fs) (admits_cons fs hrs)
    have hleft : reduce (strength op) fs₁ l₁ = (fs, l) := by
      rw [hreduce₁ _ hls]
      exact reduce_of_admits hfs hop.2 l
    rw [Tree.tokens, run_append, hrun₁, Option.bind_some, run_cons, step, stepAfter, hleft,
      Option.bind_some]
    refine ⟨fs₂, r₂, hrun₂, fun k hk => ?_⟩
    have hkop : k ≤ strength op := hk
    rw [hreduce₂ k (Nat.le_trans hkop (Nat.le_of_lt hrs)), reduce, if_pos hkop]

end Reader

theorem Tree.read?_tokens {t : Tree} (hg : t.Grammatical) : Tree.read? t.tokens = some t := by
  have hempty : Reader.Admits [] t.strength := by simp [Reader.Admits]
  obtain ⟨fs, t', hrun, hreduce⟩ := Reader.run_tokens hg [] hempty
  have hone := hreduce 1 (Reader.strength_pos hg)
  rw [Tree.read?, hrun, Option.bind_some, Reader.finish, hone]
  rfl

/-! ## A text has one tree at most -/

theorem Tree.tokens_injective {t u : Tree} (ht : t.Grammatical) (hu : u.Grammatical)
    (h : t.tokens = u.tokens) : t = u := by
  have hread := Tree.read?_tokens ht
  rw [h, Tree.read?_tokens hu, Option.some.injEq] at hread
  exact hread.symm

/-- The tokens that expressions are made of. -/
def Token.inExpressions : Token → Bool
  | assign | semicolon | openBrace | closeBrace => false
  | _ => true

namespace Tree

theorem inExpressions_moreTokens {args : List Tree}
    (h : ∀ t ∈ args, ∀ token ∈ t.tokens, token.inExpressions = true) :
    ∀ token ∈ moreTokens args, token.inExpressions = true := by
  induction args with
  | nil => simp [moreTokens]
  | cons t args ih =>
    intro token hm
    simp only [moreTokens, List.mem_cons, List.mem_append] at hm
    rcases hm with rfl | hm | hm
    · rfl
    · exact h t List.mem_cons_self token hm
    · exact ih (fun u hu => h u (List.mem_cons_of_mem _ hu)) token hm

theorem inExpressions_argumentTokens {args : List Tree}
    (h : ∀ t ∈ args, ∀ token ∈ t.tokens, token.inExpressions = true) :
    ∀ token ∈ argumentTokens args, token.inExpressions = true := by
  cases args with
  | nil => simp [argumentTokens]
  | cons t args =>
    intro token hm
    rw [argumentTokens, List.mem_append] at hm
    rcases hm with hm | hm
    · exact h t List.mem_cons_self token hm
    · exact inExpressions_moreTokens (fun u hu => h u (List.mem_cons_of_mem _ hu)) token hm

theorem inExpressions_tokens (t : Tree) : ∀ token ∈ t.tokens, token.inExpressions = true := by
  induction t with
  | word name => simp [tokens, Token.inExpressions]
  | number text => simp [tokens, Token.inExpressions]
  | quoted value => simp [tokens, Token.inExpressions]
  | group t ih =>
    simp only [tokens, List.mem_cons, List.mem_append, List.not_mem_nil, or_false]
    rintro token (rfl | hm | rfl)
    · rfl
    · exact ih token hm
    · rfl
  | member t name ih =>
    simp only [tokens, List.mem_cons, List.mem_append, List.not_mem_nil, or_false]
    rintro token (hm | rfl | rfl)
    · exact ih token hm
    · rfl
    · rfl
  | call t args ih ihs =>
    simp only [tokens, List.mem_cons, List.mem_append, List.not_mem_nil, or_false]
    rintro token (hm | rfl | hm | rfl)
    · exact ih token hm
    · rfl
    · exact inExpressions_argumentTokens ihs token hm
    · rfl
  | create t args ih ihs =>
    simp only [tokens, List.mem_cons, List.mem_append, List.not_mem_nil, or_false]
    rintro token (rfl | hm | rfl | hm | rfl)
    · rfl
    · exact ih token hm
    · rfl
    · exact inExpressions_argumentTokens ihs token hm
    · rfl
  | negate t ih =>
    simp only [tokens, List.mem_cons]
    rintro token (rfl | hm)
    · rfl
    · exact ih token hm
  | binary op l r ihl ihr =>
    simp only [tokens, List.mem_cons, List.mem_append]
    rintro token (hm | rfl | hm)
    · exact ihl token hm
    · rfl
    · exact ihr token hm

theorem tokens_start {t : Tree} (hg : t.Grammatical) :
    ∃ token ts, t.tokens = token :: ts ∧
      ∀ name, token = .word name → name = "new" ∨ isOperandWord name = true := by
  induction t with
  | word name =>
    refine ⟨_, _, rfl, ?_⟩
    rintro name' heq
    rw [Token.word.injEq] at heq
    exact Or.inr (heq ▸ hg)
  | number text => exact ⟨_, _, rfl, by simp⟩
  | quoted value => exact ⟨_, _, rfl, by simp⟩
  | group t ih => exact ⟨_, _, rfl, by simp⟩
  | member t name ih =>
    obtain ⟨token, ts, ht, hw⟩ := ih hg.2.1
    exact ⟨token, _, by rw [tokens, ht, List.cons_append], hw⟩
  | call t args ih ihs =>
    obtain ⟨token, ts, ht, hw⟩ := ih hg.2.1
    exact ⟨token, _, by rw [tokens, ht, List.cons_append], hw⟩
  | create t args ih ihs =>
    refine ⟨_, _, rfl, ?_⟩
    rintro name heq
    rw [Token.word.injEq] at heq
    exact Or.inl heq.symm
  | negate t ih => exact ⟨_, _, rfl, by simp⟩
  | binary op l r ihl ihr =>
    obtain ⟨token, ts, ht, hw⟩ := ihl hg.2.2.1
    exact ⟨token, _, by rw [tokens, ht, List.cons_append], hw⟩

theorem tokens_ne_keyword {t : Tree} (hg : t.Grammatical) {name : String}
    (hk : isOperandWord name = false ∧ name ≠ "new") (ts : List Token) :
    t.tokens ≠ .word name :: ts := by
  intro heq
  obtain ⟨token, us, ht, hw⟩ := tokens_start hg
  rw [heq] at ht
  rcases hw name (List.cons.inj ht).1.symm with hnew | hword
  · exact hk.2 hnew
  · rw [hk.1] at hword
    contradiction

end Tree

theorem append_cons_inj {α : Type} {a : α} {xs xs' ys ys' : List α} (hx : a ∉ xs) (hx' : a ∉ xs')
    (h : xs ++ a :: ys = xs' ++ a :: ys') : xs = xs' ∧ ys = ys' := by
  induction xs generalizing xs' with
  | nil =>
    cases xs' with
    | nil => exact ⟨rfl, (List.cons.inj h).2⟩
    | cons x xs' => exact absurd (List.cons.inj h).1 (List.ne_of_not_mem_cons hx')
  | cons x xs ih =>
    cases xs' with
    | nil => exact absurd (List.cons.inj h).1.symm (List.ne_of_not_mem_cons hx)
    | cons x' xs' =>
      obtain ⟨hhead, htail⟩ := List.cons.inj h
      obtain ⟨hxs, hys⟩ := ih (List.not_mem_of_not_mem_cons hx) (List.not_mem_of_not_mem_cons hx') htail
      exact ⟨by rw [hhead, hxs], hys⟩

namespace Statement

/-- The tokens of a statement before the semicolon that ends it. -/
def body : Statement → List Token
  | declare name t => .word "var" :: .word name :: .assign :: t.tokens
  | evaluate t => t.tokens

theorem tokens_eq (s : Statement) : s.tokens = s.body ++ [.semicolon] := by
  cases s <;> rfl

theorem semicolon_not_mem_body (s : Statement) : Token.semicolon ∉ s.body := by
  have hnot : ∀ t : Tree, Token.semicolon ∉ t.tokens := fun t hm =>
    absurd (t.inExpressions_tokens _ hm) (by simp [Token.inExpressions])
  cases s with
  | declare name t => simp [body, hnot]
  | evaluate t => exact hnot t

theorem body_injective {s s' : Statement} (hs : s.Grammatical) (hs' : s'.Grammatical)
    (h : s.body = s'.body) : s = s' := by
  have hvar : isOperandWord "var" = false ∧ "var" ≠ "new" := by decide
  cases s with
  | declare name t =>
    cases s' with
    | declare name' t' =>
      simp only [body, List.cons.injEq, Token.word.injEq, true_and] at h
      obtain ⟨rfl, ht⟩ := h
      rw [Tree.tokens_injective hs.2 hs'.2 ht]
    | evaluate t' => exact absurd h.symm (Tree.tokens_ne_keyword hs' hvar _)
  | evaluate t =>
    cases s' with
    | declare name' t' => exact absurd h (Tree.tokens_ne_keyword hs hvar _)
    | evaluate t' => rw [Tree.tokens_injective hs hs' h]

theorem tokens_injective {s s' : Statement} (hs : s.Grammatical) (hs' : s'.Grammatical)
    (h : s.tokens = s'.tokens) : s = s' := by
  rw [tokens_eq, tokens_eq] at h
  exact body_injective hs hs' (List.append_cancel_right h)

end Statement

namespace FunctionTree

theorem parameterTokens_injective {ps qs : List String}
    (h : parameterTokens ps = parameterTokens qs) : ps = qs := by
  have hmore : ∀ ps qs : List String,
      (ps.flatMap fun p => [Token.comma, .word p]) = (qs.flatMap fun p => [.comma, .word p]) →
      ps = qs := by
    intro ps
    induction ps with
    | nil =>
      intro qs h
      cases qs with
      | nil => rfl
      | cons q qs => simp at h
    | cons p ps ih =>
      intro qs h
      cases qs with
      | nil => simp at h
      | cons q qs =>
        simp only [List.flatMap_cons, List.cons_append, List.nil_append, List.cons.injEq,
          Token.word.injEq, true_and] at h
        rw [h.1, ih qs h.2]
  cases ps with
  | nil =>
    cases qs with
    | nil => rfl
    | cons q qs => simp [parameterTokens] at h
  | cons p ps =>
    cases qs with
    | nil => simp [parameterTokens] at h
    | cons q qs =>
      simp only [parameterTokens, List.cons.injEq, Token.word.injEq] at h
      rw [h.1, hmore ps qs h.2]

theorem closeBracket_not_mem_parameterTokens (ps : List String) :
    Token.closeBracket ∉ parameterTokens ps := by
  cases ps <;> simp [parameterTokens]

/-- The tokens between the braces of a function. -/
def bodyTokens (ss : List Statement) (t : Tree) : List Token :=
  ss.flatMap Statement.tokens ++ .word "return" :: (t.tokens ++ [.semicolon, .closeBrace])

theorem bodyTokens_cons (s : Statement) (ss : List Statement) (t : Tree) :
    bodyTokens (s :: ss) t = s.body ++ .semicolon :: bodyTokens ss t := by
  simp [bodyTokens, Statement.tokens_eq]

theorem semicolon_not_mem_return (t : Tree) : Token.semicolon ∉ Token.word "return" :: t.tokens := by
  have hm : Token.semicolon ∉ t.tokens := fun hm =>
    absurd (t.inExpressions_tokens _ hm) (by simp [Token.inExpressions])
  simp [hm]

theorem body_ne_return {s : Statement} (hs : s.Grammatical) (ts : List Token) :
    s.body ≠ .word "return" :: ts := by
  have hreturn : isOperandWord "return" = false ∧ "return" ≠ "new" := by decide
  cases s with
  | declare name t => simp [Statement.body]
  | evaluate t => exact Tree.tokens_ne_keyword hs hreturn ts

theorem bodyTokens_injective {ss ss' : List Statement} {t t' : Tree}
    (hs : ∀ s ∈ ss, s.Grammatical) (hs' : ∀ s ∈ ss', s.Grammatical) (ht : t.Grammatical)
    (ht' : t'.Grammatical) (h : bodyTokens ss t = bodyTokens ss' t') : ss = ss' ∧ t = t' := by
  have hreturn : ∀ u : Tree, bodyTokens [] u =
      (.word "return" :: u.tokens) ++ .semicolon :: [.closeBrace] := by simp [bodyTokens]
  induction ss generalizing ss' with
  | nil =>
    cases ss' with
    | nil =>
      rw [hreturn, hreturn] at h
      have htokens := (append_cons_inj (semicolon_not_mem_return t) (semicolon_not_mem_return t') h).1
      exact ⟨rfl, Tree.tokens_injective ht ht' (List.cons.inj htokens).2⟩
    | cons s' ss' =>
      rw [hreturn, bodyTokens_cons] at h
      have hbody := (append_cons_inj (semicolon_not_mem_return t) s'.semicolon_not_mem_body h).1
      exact absurd hbody.symm (body_ne_return (hs' s' List.mem_cons_self) _)
  | cons s ss ih =>
    cases ss' with
    | nil =>
      rw [hreturn, bodyTokens_cons] at h
      have hbody := (append_cons_inj s.semicolon_not_mem_body (semicolon_not_mem_return t') h).1
      exact absurd hbody (body_ne_return (hs s List.mem_cons_self) _)
    | cons s' ss' =>
      rw [bodyTokens_cons, bodyTokens_cons] at h
      obtain ⟨hbody, hrest⟩ := append_cons_inj s.semicolon_not_mem_body s'.semicolon_not_mem_body h
      have hhead := Statement.body_injective (hs s List.mem_cons_self) (hs' s' List.mem_cons_self) hbody
      obtain ⟨htail, hresult⟩ := ih (fun u hu => hs u (List.mem_cons_of_mem _ hu))
        (fun u hu => hs' u (List.mem_cons_of_mem _ hu)) hrest
      exact ⟨by rw [hhead, htail], hresult⟩

theorem tokens_injective {f g : FunctionTree} (hf : f.Grammatical) (hg : g.Grammatical)
    (h : f.tokens = g.tokens) : f = g := by
  have hsplit : parameterTokens f.parameters ++
        .closeBracket :: .openBrace :: bodyTokens f.statements f.result =
      parameterTokens g.parameters ++
        .closeBracket :: .openBrace :: bodyTokens g.statements g.result :=
    (List.cons.inj (List.cons.inj h).2).2
  obtain ⟨hparameters, hrest⟩ := append_cons_inj (closeBracket_not_mem_parameterTokens _)
    (closeBracket_not_mem_parameterTokens _) hsplit
  obtain ⟨hstatements, hresult⟩ := bodyTokens_injective hf.statements hg.statements hf.result
    hg.result (List.cons.inj hrest).2
  cases f
  cases g
  rw [FunctionTree.mk.injEq]
  exact ⟨parameterTokens_injective hparameters, hstatements, hresult⟩

end FunctionTree

/-! ## Reading texts -/

/-- The text is that of the expression `t`, by the grammar. -/
def Tree.Reads (text : String) (t : Tree) : Prop :=
  t.Grammatical ∧ tokens? text.toList = some t.tokens

def Statement.Reads (text : String) (s : Statement) : Prop :=
  s.Grammatical ∧ tokens? text.toList = some s.tokens

def FunctionTree.Reads (text : String) (f : FunctionTree) : Prop :=
  f.Grammatical ∧ tokens? text.toList = some f.tokens

theorem Tree.reads_iff {text : String} {t : Tree} (hg : t.Grammatical)
    (h : text.toList = t.text) (u : Tree) : Tree.Reads text u ↔ u = t := by
  constructor
  · rintro ⟨hu, htokens⟩
    rw [h, tokens?_text hg, Option.some.injEq] at htokens
    exact Tree.tokens_injective hu hg htokens.symm
  · rintro rfl
    exact ⟨hg, by rw [h, tokens?_text hg]⟩

theorem Statement.reads_iff {text : String} {s : Statement} (hg : s.Grammatical)
    (h : text.toList = s.text) (u : Statement) : Statement.Reads text u ↔ u = s := by
  constructor
  · rintro ⟨hu, htokens⟩
    rw [h, tokens?_text hg, Option.some.injEq] at htokens
    exact Statement.tokens_injective hu hg htokens.symm
  · rintro rfl
    exact ⟨hg, by rw [h, tokens?_text hg]⟩

theorem FunctionTree.reads_iff {text : String} {f : FunctionTree} (hg : f.Grammatical)
    (h : text.toList = f.text) (u : FunctionTree) : FunctionTree.Reads text u ↔ u = f := by
  constructor
  · rintro ⟨hu, htokens⟩
    rw [h, tokens?_text hg, Option.some.injEq] at htokens
    exact FunctionTree.tokens_injective hu hg htokens.symm
  · rintro rfl
    exact ⟨hg, by rw [h, tokens?_text hg]⟩

end RowScript.Script

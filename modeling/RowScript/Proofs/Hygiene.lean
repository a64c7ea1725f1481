import Mathlib.Data.List.Nodup
import RowScript.Proofs.Compiled
import RowScript.Proofs.Script.Words

/-!
# Scope and hygiene of generated functions

A word of a generated function is a parameter, a temporary that has been
declared before, a global or a word of the language. Temporaries are declared
once, none of them is a parameter, and nothing that is declared goes unused.

The statements come in pairs, a declaration of the next temporary and a change
of it (`Paired`). What a value refers to is carried along from operand to
operand (`Tidy`).
-/

namespace RowScript

open Script (Tree Statement Token temporaryName references declared?)

namespace Hygiene

/-- The globals that generated text calls. -/
def globals : List String := ["Boolean", "Date", "Number", "parseFloat", "parseInt"]

def languageWords : List String := ["var", "new", "null", "true", "false"]

/-- Words that mean the same in every function. -/
def ambient : List String := globals ++ languageWords

variable {ps ids : List String} {n m k : Nat}

/-- What may be referred to where the temporaries below `n` are declared. -/
def MayRefer (ps : List String) (n : Nat) (name : String) : Prop :=
  name ∈ ps ∨ name ∈ ambient ∨ ∃ i < n, name = temporaryName i

theorem MayRefer.mono {name : String} (h : MayRefer ps n name) (hnm : n ≤ m) :
    MayRefer ps m name := by
  rcases h with h | h | ⟨i, hi, h⟩
  · exact .inl h
  · exact .inr (.inl h)
  · exact .inr (.inr ⟨i, by omega, h⟩)

/-! ## Pairs of statements -/

/-- Declarations of the temporaries from `n` up to `m`, each one followed by a change. -/
inductive Paired (ps : List String) : Nat → List Statement → Nat → Prop
  | nil (n : Nat) : Paired ps n [] n
  | cons {n m : Nat} {init change : Tree} {ss : List Statement}
      (hinit : ∀ w ∈ init.words, MayRefer ps n w)
      (hchange : ∀ w ∈ change.words, MayRefer ps (n + 1) w)
      (hname : temporaryName n ∈ change.words) (hss : Paired ps (n + 1) ss m) :
      Paired ps n (.declare (temporaryName n) init :: .evaluate change :: ss) m

theorem Paired.append {ss ts : List Statement} (h : Paired ps n ss m) (h' : Paired ps m ts k) :
    Paired ps n (ss ++ ts) k := by
  induction h with
  | nil n => exact h'
  | cons hinit hchange hname hss ih => exact .cons hinit hchange hname (ih h')

theorem Paired.declares {ss : List Statement} (h : Paired ps n ss m) :
    ss.filterMap Statement.declares? = (List.range' n (m - n)).map temporaryName ∧ n ≤ m := by
  induction h with
  | nil n => simp
  | cons hinit hchange hname hss ih =>
    rename_i n m init change ss
    obtain ⟨hnames, hle⟩ := ih
    have hsucc : m - n = (m - (n + 1)) + 1 := by omega
    refine ⟨?_, by omega⟩
    rw [hsucc, List.range'_succ, List.map_cons, ← hnames]
    rfl

theorem Paired.references {ss before after : List Statement} {s : Statement}
    (h : Paired ps n ss m) (hss : ss = before ++ s :: after) :
    (∀ name t, s = .declare name t →
      ∀ w ∈ t.words, MayRefer ps n w ∨ w ∈ before.filterMap Statement.declares?) ∧
    ∀ w ∈ s.words, MayRefer ps n w ∨ w ∈ before.filterMap Statement.declares? ∨
      s.declares? = some w := by
  -- Each statement refers to what is declared before it. Only a change also refers to what it
  -- follows, which a declaration does not.
  induction h generalizing before with
  | nil n => simp at hss
  | cons hinit hchange hname hrest ih =>
    rename_i n m init change ss
    cases before with
    | nil =>
      simp only [List.nil_append, List.cons.injEq] at hss
      obtain ⟨rfl, -⟩ := hss
      constructor
      · intro name t ht w hw
        rw [Statement.declare.injEq] at ht
        rw [← ht.2] at hw
        exact .inl (hinit w hw)
      · intro w hw
        rcases List.mem_cons.mp hw with rfl | hw
        · exact .inl (.inr (.inl (by decide)))
        rcases List.mem_cons.mp hw with rfl | hw
        · exact .inr (.inr rfl)
        · exact .inl (hinit w hw)
    | cons d before =>
      simp only [List.cons_append, List.cons.injEq] at hss
      obtain ⟨rfl, hss⟩ := hss
      -- The temporary that has just been declared is the only one to come into scope.
      have hnew : ∀ w, MayRefer ps (n + 1) w →
          MayRefer ps n w ∨ w = temporaryName n := by
        rintro w (h | h | ⟨i, hi, rfl⟩)
        · exact .inl (.inl h)
        · exact .inl (.inr (.inl h))
        · by_cases hin : i = n
          · exact .inr (by rw [hin])
          · exact .inl (.inr (.inr ⟨i, by omega, rfl⟩))
      cases before with
      | nil =>
        simp only [List.nil_append, List.cons.injEq] at hss
        obtain ⟨rfl, -⟩ := hss
        constructor
        · intro name t ht
          simp at ht
        · intro w hw
          rcases hnew w (hchange w hw) with hw | rfl
          · exact .inl hw
          · exact .inr (.inl (by simp [Statement.declares?]))
      | cons d before =>
        simp only [List.cons_append, List.cons.injEq] at hss
        obtain ⟨rfl, hss⟩ := hss
        obtain ⟨hdeclare, hwords⟩ := ih hss
        constructor
        · intro name t ht w hw
          rcases hdeclare name t ht w hw with hw | hw
          · rcases hnew w hw with hw | rfl
            · exact .inl hw
            · exact .inr (by simp [Statement.declares?])
          · exact .inr (List.mem_cons_of_mem _ hw)
        · intro w hw
          rcases hwords w hw with hw | hw | hw
          · rcases hnew w hw with hw | rfl
            · exact .inl hw
            · exact .inr (.inl (by simp [Statement.declares?]))
          · exact .inr (.inl (List.mem_cons_of_mem _ hw))
          · exact .inr (.inr hw)

theorem Paired.changes {ss before after : List Statement} {s t : Statement} {name : String}
    (h : Paired ps n ss m) (hss : ss = before ++ s :: t :: after) (hs : s.declares? = some name) :
    name ∈ t.words := by
  induction h generalizing before with
  | nil n => simp at hss
  | cons hinit hchange hname hrest ih =>
    cases before with
    | nil =>
      simp only [List.nil_append, List.cons.injEq] at hss
      obtain ⟨rfl, rfl, -⟩ := hss
      rw [Statement.declares?, Option.some.injEq] at hs
      rw [← hs]
      exact hname
    | cons d before =>
      cases before with
      | nil =>
        simp only [List.cons_append, List.nil_append, List.cons.injEq] at hss
        obtain ⟨-, rfl, -⟩ := hss
        simp [Statement.declares?] at hs
      | cons d' before =>
        simp only [List.cons_append, List.cons.injEq] at hss
        exact ih hss.2.2

/-! ## Use -/

/-- What the statements and then a value refer to. -/
def occurrences (ss : List Statement) (value : List String) : List String :=
  ss.flatMap Statement.words ++ value

theorem occurrences_append (ss ts : List Statement) (value : List String) :
    occurrences (ss ++ ts) value = ss.flatMap Statement.words ++ occurrences ts value := by
  rw [occurrences, occurrences, List.flatMap_append, List.append_assoc]

/-- Every temporary is referred to again after the two statements that make it. -/
inductive Used : List Statement → List String → Prop
  | nil (value : List String) : Used [] value
  | cons {name : String} {init change : Tree} {ss : List Statement} {value : List String}
      (hname : name ∈ occurrences ss value) (hss : Used ss value) :
      Used (.declare name init :: .evaluate change :: ss) value

theorem Used.append {ss ts : List Statement} {value value' : List String} (h : Used ss value)
    (hvalue : ∀ w ∈ value, w ∈ occurrences ts value') (h' : Used ts value') :
    Used (ss ++ ts) value' := by
  induction h with
  | nil value => exact h'
  | cons hname hss ih =>
    refine .cons (?_ : _ ∈ occurrences (_ ++ ts) value') (ih hvalue)
    rw [occurrences_append]
    rcases List.mem_append.mp hname with hname | hname
    · exact List.mem_append_left _ hname
    · exact List.mem_append_right _ (hvalue _ hname)

theorem Used.occurs {ss before after : List Statement} {s : Statement} {value : List String}
    {name : String} (h : Used ss value) (hss : ss = before ++ s :: after)
    (hs : s.declares? = some name) :
    ∃ change after', after = change :: after' ∧ name ∈ occurrences after' value := by
  induction h generalizing before with
  | nil value => simp at hss
  | cons hname hrest ih =>
    cases before with
    | nil =>
      simp only [List.nil_append, List.cons.injEq] at hss
      obtain ⟨rfl, rfl⟩ := hss
      rw [Statement.declares?, Option.some.injEq] at hs
      subst hs
      exact ⟨_, _, rfl, hname⟩
    | cons d before =>
      cases before with
      | nil =>
        simp only [List.cons_append, List.nil_append, List.cons.injEq] at hss
        obtain ⟨-, rfl, -⟩ := hss
        simp [Statement.declares?] at hs
      | cons d' before =>
        simp only [List.cons_append, List.cons.injEq] at hss
        exact ih hss.2.2

/-! ## Words of values -/

/-- Code that refers to what is in scope and to all of `ids`, and that uses its temporaries. -/
structure Tidy (ps ids : List String) (n m : Nat) (c : Code) : Prop where
  paired : Paired ps n c.statements m
  value : ∀ w ∈ c.value.words, MayRefer ps m w
  used : Used c.statements c.value.words
  ids : ∀ w ∈ ids, w ∈ occurrences c.statements c.value.words

/-- A way to use a tree that refers to what the tree refers to and to nothing else. -/
def Keeps (g : Tree → Tree) : Prop :=
  ∀ t : Tree, (∀ w ∈ t.words, w ∈ (g t).words) ∧ ∀ w ∈ (g t).words, w ∈ t.words ∨ w ∈ ambient

theorem words_receiver (t : Tree) : t.receiver.words = t.words := by
  unfold Tree.receiver
  split <;> simp [Tree.words]

theorem words_invoke (t : Tree) (name : String) (args : List Tree) :
    (t.invoke name args).words = t.words ++ Tree.wordsOf args := by
  rw [Tree.invoke, Tree.words, Tree.words, words_receiver]

theorem keeps_invoke (name : String) : Keeps (·.invoke name []) := by
  intro t
  rw [words_invoke, Tree.wordsOf, List.append_nil]
  exact ⟨fun w hw => hw, fun w hw => .inl hw⟩

theorem keeps_tree (c : Conversion) : Keeps c.tree := by
  intro t
  cases c <;>
    simp [Conversion.tree, Tree.callGlobal, Tree.newDate, words_invoke, Tree.words, Tree.wordsOf,
      ambient, globals, languageWords] <;>
    grind

theorem keeps_treeOf (c : Option Conversion) : Keeps (Conversion.treeOf c) := keeps_tree _

theorem keeps_field (field : DateField) : Keeps field.tree := by
  intro t
  have hsame : (field.tree t).words = t.words := by
    cases field <;> simp [DateField.tree, words_invoke, Tree.words, Tree.wordsOf]
  rw [hsame]
  exact ⟨fun w hw => hw, fun w hw => .inl hw⟩

theorem Keeps.comp {g g' : Tree → Tree} (h : Keeps g) (h' : Keeps g') : Keeps (fun t => g (g' t)) := by
  intro t
  obtain ⟨hin, hout⟩ := h (g' t)
  obtain ⟨hin', hout'⟩ := h' t
  constructor
  · exact fun w hw => hin w (hin' w hw)
  · intro w hw
    rcases hout w hw with hw | hw
    · exact hout' w hw
    · exact .inr hw

theorem Tidy.map {c : Code} (h : Tidy ps ids n m c) {g : Tree → Tree} (hg : Keeps g) :
    Tidy ps ids n m (c.map g) := by
  obtain ⟨hin, hout⟩ := hg c.value
  have hmore : ∀ w ∈ occurrences c.statements c.value.words,
      w ∈ occurrences c.statements (g c.value).words := by
    intro w hw
    rcases List.mem_append.mp hw with hw | hw
    · exact List.mem_append_left _ hw
    · exact List.mem_append_right _ (hin w hw)
  refine ⟨h.paired, ?_, ?_, fun w hw => hmore w (h.ids w hw)⟩
  · intro w hw
    rcases hout w hw with hw | hw
    · exact h.value w hw
    · exact .inr (.inl hw)
  · have hvalue : ∀ w ∈ c.value.words, w ∈ occurrences [] (g c.value).words := hin
    have hused := h.used.append hvalue (.nil _)
    rw [List.append_nil] at hused
    exact hused

theorem Tidy.binary {ids' : List String} {c d : Code} (hc : Tidy ps ids n m c)
    (hd : Tidy ps ids' m k d) (value : Tree)
    (hvalue : ∀ w, w ∈ value.words ↔ w ∈ c.value.words ∨ w ∈ d.value.words) :
    Tidy ps (ids ++ ids') n k ⟨c.statements ++ d.statements, value⟩ := by
  have hmk := hd.paired.declares.2
  have hleft : ∀ w ∈ c.value.words, w ∈ occurrences d.statements value.words := by
    intro w hw
    exact List.mem_append_right _ ((hvalue w).mpr (.inl hw))
  have hright : ∀ w ∈ d.value.words, w ∈ occurrences [] value.words := by
    intro w hw
    exact (hvalue w).mpr (.inr hw)
  have hlast := hd.used.append hright (.nil _)
  rw [List.append_nil] at hlast
  refine ⟨hc.paired.append hd.paired, ?_, hc.used.append hleft hlast, ?_⟩
  · intro w hw
    rcases (hvalue w).mp hw with hw | hw
    · exact (hc.value w hw).mono hmk
    · exact hd.value w hw
  · intro w hw
    rw [occurrences_append]
    rcases List.mem_append.mp hw with hw | hw
    · rcases List.mem_append.mp (hc.ids w hw) with hw | hw
      · exact List.mem_append_left _ hw
      · exact List.mem_append_right _ (hleft w hw)
    · rcases List.mem_append.mp (hd.ids w hw) with hw | hw
      · exact List.mem_append_right _ (List.mem_append_left _ hw)
      · exact List.mem_append_right _ (List.mem_append_right _ (hright w hw))

theorem Tidy.bind {c : Code} {init change : Tree} (hc : Tidy ps ids n m c)
    (hinit : ∀ w ∈ init.words, w ∈ c.value.words ∨ w ∈ ambient)
    (hchange : ∀ w ∈ change.words, w ∈ c.value.words ∨ w = temporaryName m)
    (hname : temporaryName m ∈ change.words)
    (hall : ∀ w ∈ c.value.words, w ∈ init.words ∨ w ∈ change.words) :
    Tidy ps ids n (m + 1)
      { statements := c.statements ++ [.declare (temporaryName m) init, .evaluate change]
        value := .word (temporaryName m) } := by
  have hpair : Paired ps m [.declare (temporaryName m) init, .evaluate change] (m + 1) := by
    refine .cons ?_ ?_ hname (.nil _)
    · intro w hw
      rcases hinit w hw with hw | hw
      · exact hc.value w hw
      · exact .inr (.inl hw)
    · intro w hw
      rcases hchange w hw with hw | rfl
      · exact (hc.value w hw).mono (by omega)
      · exact .inr (.inr ⟨m, by omega, rfl⟩)
  have hused : Used [.declare (temporaryName m) init, .evaluate change]
      (Tree.word (temporaryName m)).words := .cons (List.mem_singleton.mpr rfl) (.nil _)
  have hvalue : ∀ w ∈ c.value.words, w ∈ occurrences
      [.declare (temporaryName m) init, .evaluate change] (Tree.word (temporaryName m)).words := by
    intro w hw
    rcases hall w hw with hw | hw
    · simp [occurrences, Statement.words, hw]
    · simp [occurrences, Statement.words, hw]
  refine ⟨hc.paired.append hpair, ?_, hc.used.append hvalue hused, ?_⟩
  · intro w hw
    rw [Tree.words, List.mem_singleton] at hw
    exact .inr (.inr ⟨m, by omega, hw⟩)
  · intro w hw
    rw [occurrences_append]
    rcases List.mem_append.mp (hc.ids w hw) with hw | hw
    · exact List.mem_append_left _ hw
    · exact List.mem_append_right _ (hvalue w hw)

/-! ## Code -/

theorem tidy_leaf {value : Tree} (h : ∀ w ∈ value.words, w ∈ ids ∨ w ∈ ambient)
    (hids : ∀ w ∈ ids, w ∈ value.words) (hps : ∀ w ∈ ids, w ∈ ps) (n : Nat) :
    Tidy ps ids n n { value } := by
  refine ⟨.nil n, ?_, .nil _, hids⟩
  intro w hw
  rcases h w hw with hw | hw
  · exact .inl (hps w hw)
  · exact .inr (.inl hw)

theorem words_literalTree {value : Option String} {type : DataType}
    (h : Expr.isLegal value type = true) :
    ∀ w ∈ (Expr.literalTree value type).words, w ∈ ambient := by
  have hnull : ∀ w ∈ (Tree.word "null").words, w ∈ ambient := by
    intro w hw
    rw [Tree.words, List.mem_singleton] at hw
    rw [hw]
    decide
  cases value with
  | none => exact hnull
  | some text =>
    cases type with
    | null => exact hnull
    | short | integer | long | float | double =>
      intro w hw
      rw [Expr.literalTree, Expr.numberTree] at hw
      split at hw <;> simp [Tree.words] at hw
    | boolean =>
      have hcases : text = "true" ∨ text = "false" := by
        simpa [Expr.isLegal, DataType.isNumeric, DataType.isIntegral, DataType.isFractional] using h
      intro w hw
      rw [Expr.literalTree, Tree.words, List.mem_singleton] at hw
      rw [hw]
      rcases hcases with rfl | rfl <;> decide
    | string | date | timestamp =>
      intro w hw
      rcases (keeps_treeOf _ _).2 w hw with hw | hw
      · simp [Tree.words] at hw
      · exact hw

theorem tidy_cut {c : Code} (h : Tidy ps ids n m c) {own : Tree → Tree} (hown : Keeps own) :
    Tidy ps ids n (m + 1) (c.cut (temporaryName m) (own c.value)) := by
  obtain ⟨hin, hout⟩ := hown c.value
  refine Tidy.bind h hout ?_ ?_ fun w hw => .inl (hin w hw)
  · intro w hw
    simp only [words_invoke, Tree.words, Tree.wordsOf, List.append_nil, List.mem_singleton] at hw
    exact .inr hw
  · simp [words_invoke, Tree.words]

theorem tidy_shift {ids' : List String} {date days : Code} (hdate : Tidy ps ids n m date)
    (hdays : Tidy ps ids' m k days) {own : Tree → Tree} (hown : Keeps own)
    (direction : Emission.Direction) :
    Tidy ps (ids ++ ids') n (k + 1)
      (Code.shift direction (temporaryName k) (own date.value) date days) := by
  obtain ⟨hin, hout⟩ := hown date.value
  have hboth := hdate.binary hdays (.binary .add date.value days.value) (by simp [Tree.words])
  refine Tidy.bind hboth ?_ ?_ ?_ ?_
  · intro w hw
    rcases hout w hw with hw | hw
    · exact .inl (List.mem_append_left _ hw)
    · exact .inr hw
  · intro w hw
    simp only [words_invoke, Tree.words, Tree.wordsOf, List.append_nil, List.mem_append,
      List.mem_singleton] at hw ⊢
    grind
  · simp [words_invoke, Tree.words]
  · intro w hw
    rcases List.mem_append.mp hw with hw | hw
    · exact .inl (hin w hw)
    · exact .inr (by simp [words_invoke, Tree.words, Tree.wordsOf, hw])

theorem tidy_slice {ids' ids'' : List String} {l : Nat} {c d e : Code} (hc : Tidy ps ids n m c)
    (hd : Tidy ps ids' m k d) (he : Tidy ps ids'' k l e) :
    Tidy ps (ids ++ ids' ++ ids'') n l
      ⟨c.statements ++ d.statements ++ e.statements,
        c.value.invoke "substr" [d.value, e.value]⟩ := by
  have hboth := hc.binary hd (.binary .add c.value d.value) (by simp [Tree.words])
  exact hboth.binary he _ (by simp [words_invoke, Tree.words, Tree.wordsOf, or_assoc])

theorem tidy_append {ids' : List String} {c d : Code} (hc : Tidy ps ids n m c)
    (hd : Tidy ps ids' m k d) : Tidy ps (ids ++ ids') n k (c.append d) :=
  hc.binary hd _ (by simp [words_invoke, Tree.wordsOf])

theorem tidy_foldl {scope : Scope} {es : List Expr}
    (hes : ∀ e ∈ es, ∀ n, Tidy ps (e.identifiers scope) n (n + e.temporaries) (e.code scope n))
    {c : Code} (hc : Tidy ps ids n m c) :
    Tidy ps (ids ++ Expr.identifiersOf scope es) n (m + Expr.temporariesOf es)
      ((Expr.stringCodes scope m es).foldl Code.append c) := by
  induction es generalizing ids c m with
  | nil => simpa [Expr.identifiersOf, Expr.temporariesOf, Expr.stringCodes] using hc
  | cons e es ih =>
    have he := (hes e List.mem_cons_self m).map (keeps_treeOf (e.conversionTo scope .string))
    have hrest := ih (fun a ha => hes a (List.mem_cons_of_mem _ ha)) (tidy_append hc he)
    rw [List.append_assoc, Nat.add_assoc] at hrest
    exact hrest

/-- **Hygiene of code.** Whatever is emitted refers to what is in scope where it stands. -/
theorem tidy_code {scope : Scope} {e : Expr} (h : e.Compiles scope)
    (hps : ∀ w ∈ e.identifiers scope, w ∈ ps) (n : Nat) :
    Tidy ps (e.identifiers scope) n (n + e.temporaries) (e.code scope n) := by
  induction e generalizing n with
  | column name type =>
    refine tidy_leaf ?_ ?_ hps n
    · exact fun w hw => .inl hw
    · exact fun w hw => hw
  | literal value type =>
    refine tidy_leaf ?_ (by simp [Expr.identifiers]) hps n
    exact fun w hw => .inr (words_literalTree h w hw)
  | cast e type ih => exact (ih h.1 hps n).map (keeps_treeOf _)
  | concat args type ih =>
    obtain ⟨hne, hargs⟩ := h
    rw [Expr.allCompile_iff] at hargs
    have hin : ∀ e ∈ args, ∀ w ∈ e.identifiers scope, w ∈ Expr.identifiersOf scope args := by
      clear hne hargs hps ih
      induction args with
      | nil => simp
      | cons e es ih =>
        intro a ha w hw
        rcases List.mem_cons.mp ha with rfl | ha
        · exact List.mem_append_left _ hw
        · exact List.mem_append_right _ (ih a ha w hw)
    have htidy : ∀ e ∈ args, ∀ n,
        Tidy ps (e.identifiers scope) n (n + e.temporaries) (e.code scope n) :=
      fun e he n => ih e he (hargs e he).1 (fun w hw => hps w (hin e he w hw)) n
    cases args with
    | nil => exact absurd rfl hne
    | cons e es =>
      have he := (htidy e List.mem_cons_self n).map (keeps_treeOf (e.conversionTo scope .string))
      have hrest := tidy_foldl (fun a ha => htidy a (List.mem_cons_of_mem _ ha)) he
      rw [Nat.add_assoc] at hrest
      exact hrest
  | upper e type ih => exact (ih h.1 hps n).map (keeps_invoke _)
  | lower e type ih => exact (ih h.1 hps n).map (keeps_invoke _)
  | substring e position length type ih ihp ihl =>
    obtain ⟨he, -, ⟨-, hp, -⟩, -, hl, -⟩ := h
    have hpse : ∀ w ∈ e.identifiers scope, w ∈ ps := fun w hw => hps w (by simp [Expr.identifiers, hw])
    have hpsp : ∀ w ∈ position.identifiers scope, w ∈ ps := fun w hw =>
      hps w (by simp [Expr.identifiers, hw])
    have hpsl : ∀ w ∈ length.identifiers scope, w ∈ ps := fun w hw =>
      hps w (by simp [Expr.identifiers, hw])
    have hc := (ih he hpse n).map (keeps_treeOf (e.conversionTo scope .string))
    have hpos := ihp hp hpsp (n + e.temporaries)
    have hlen := ihl hl hpsl (n + e.temporaries + position.temporaries)
    have htemps : n + (Expr.substring e position length type).temporaries =
        n + e.temporaries + position.temporaries + length.temporaries := by
      rw [Expr.temporaries]
      omega
    rw [htemps]
    exact tidy_slice hc hpos hlen
  | toDate e type ih => exact tidy_cut (ih h.1 hps n) (keeps_treeOf _)
  | dateAdd date days type ihd ihn =>
    have hd := ihd h.1 (fun w hw => hps w (List.mem_append_left _ hw)) n
    have hn := ihn h.2.1 (fun w hw => hps w (List.mem_append_right _ hw)) (n + date.temporaries)
    have htemps : n + (Expr.dateAdd date days type).temporaries =
        n + date.temporaries + days.temporaries + 1 := by
      rw [Expr.temporaries]
      omega
    rw [htemps]
    exact tidy_shift hd hn (keeps_treeOf (ownDate? (date.typeIn scope))) .later
  | dateSub date days type ihd ihn =>
    have hd := ihd h.1 (fun w hw => hps w (List.mem_append_left _ hw)) n
    have hn := ihn h.2.1 (fun w hw => hps w (List.mem_append_right _ hw)) (n + date.temporaries)
    have htemps : n + (Expr.dateSub date days type).temporaries =
        n + date.temporaries + days.temporaries + 1 := by
      rw [Expr.temporaries]
      omega
    rw [htemps]
    exact tidy_shift hd hn (keeps_treeOf (ownDate? (date.typeIn scope))) .earlier
  | extract field e type ih =>
    exact (ih h.1 hps n).map ((keeps_field field).comp (keeps_treeOf (dateLike? (e.typeIn scope))))
  | arithmetic op left right type ihl ihr =>
    have hl := ihl h.1 (fun w hw => hps w (List.mem_append_left _ hw)) n
    have hr := ihr h.2 (fun w hw => hps w (List.mem_append_right _ hw)) (n + left.temporaries)
    have hboth := hl.binary hr (.binary op (.group (left.code scope n).value)
      (.group (right.code scope (n + left.temporaries)).value)) (by simp [Tree.words])
    rw [Nat.add_assoc] at hboth
    exact hboth

/-! ## Tokens -/

/-- The hygiene of a function, by the tokens of its statements and of its result. -/
structure Hygienic (parameters : List String) (statements : List (List Token))
    (result : List Token) : Prop where
  parameters_ne_nil : parameters ≠ []
  parameters_nodup : parameters.Nodup
  /-- Parameters are identifiers with no other meaning. -/
  parameters_usable : ∀ p ∈ parameters, Script.isIdentifier p = true ∧ p ∉ Script.reserved ∧
    p ∉ globals ∧ Script.isTemporaryName p = false
  /-- A statement refers to what has been declared before it and to what it declares. -/
  statement_refers : ∀ before s after, statements = before ++ s :: after → ∀ w ∈ references s,
    w ∈ parameters ∨ w ∈ before.filterMap declared? ∨ declared? s = some w ∨
      w ∈ globals ∨ w ∈ languageWords
  /-- A variable is not read where it is initialised. -/
  initial_refers : ∀ before name init after,
    statements = before ++ (.word "var" :: .word name :: .assign :: init) :: after →
    ∀ w ∈ references init,
      w ∈ parameters ∨ w ∈ before.filterMap declared? ∨ w ∈ globals ∨ w ∈ languageWords
  result_refers : ∀ w ∈ references result,
    w ∈ parameters ∨ w ∈ statements.filterMap declared? ∨ w ∈ globals ∨ w ∈ languageWords
  declared_nodup : (statements.filterMap declared?).Nodup
  declared_temporary : ∀ name ∈ statements.filterMap declared?,
    Script.isTemporaryName name = true ∧ name ∉ parameters
  parameter_occurs : ∀ p ∈ parameters, p ∈ statements.flatMap references ++ references result
  /-- A declaration is followed by a change of what it declares, and by a use after that. -/
  declared_occurs : ∀ before s after name, statements = before ++ s :: after →
    declared? s = some name → ∃ change after', after = change :: after' ∧
      name ∈ references change ∧ name ∈ after'.flatMap references ++ references result

theorem globals_subset_reserved : globals ⊆ Script.reserved := by decide

theorem usable_cases {p : String} (h : Script.isUsable p = true) :
    Script.isIdentifier p = true ∧ p ∉ Script.reserved ∧ p ∉ globals ∧
      Script.isTemporaryName p = false := by
  simp only [Script.isUsable, Bool.and_eq_true, Bool.not_eq_true', List.contains_eq_mem,
    decide_eq_false_iff_not] at h
  obtain ⟨⟨hident, hreserved⟩, htemporary⟩ := h
  exact ⟨hident, hreserved, fun hm => hreserved (globals_subset_reserved hm), htemporary⟩

theorem MayRefer.zero {name : String} (h : MayRefer ps 0 name) :
    name ∈ ps ∨ name ∈ globals ∨ name ∈ languageWords := by
  rcases h with h | h | ⟨i, hi, -⟩
  · exact .inl h
  · exact .inr (List.mem_append.mp h)
  · omega

theorem filterMap_declared? {ss : List Statement} (hg : ∀ s ∈ ss, s.Grammatical) :
    (ss.map Statement.tokens).filterMap declared? = ss.filterMap Statement.declares? := by
  rw [List.filterMap_map]
  refine List.filterMap_congr ?_
  intro s hs
  exact Statement.declared?_tokens (hg s hs)

theorem flatMap_references (ss : List Statement) :
    (ss.map Statement.tokens).flatMap references = ss.flatMap Statement.words := by
  rw [List.flatMap_map]
  congr 1
  funext s
  exact s.references_tokens

theorem references_tree (t : Tree) : references t.tokens = t.words := by
  have h := t.references_tokens []
  simpa [references] using h

theorem hygienic_of_tidy {c : Code} (hc : Tidy ps ps 0 m c) (hg : c.Grammatical) (hne : ps ≠ [])
    (hnodup : ps.Nodup) (husable : ∀ p ∈ ps, Script.isUsable p = true) :
    Hygienic ps (c.statements.map Statement.tokens) c.value.tokens := by
  obtain ⟨hdeclares, -⟩ := hc.paired.declares
  rw [Nat.sub_zero] at hdeclares
  refine ⟨hne, hnodup, fun p hp => usable_cases (husable p hp), ?_, ?_, ?_, ?_, ?_, ?_, ?_⟩
  · intro before s after heq w hw
    obtain ⟨ss, rest, hss, rfl, hrest⟩ := List.map_eq_append_iff.mp heq
    obtain ⟨t, ts, rfl, rfl, rfl⟩ := List.map_eq_cons_iff.mp hrest
    rw [filterMap_declared? fun u hu => hg.statements u (by rw [hss]; simp [hu]),
      Statement.declared?_tokens (hg.statements t (by rw [hss]; simp))]
    rw [Statement.references_tokens] at hw
    rcases (hc.paired.references hss).2 w hw with hw | hw | hw
    · rcases hw.zero with hw | hw | hw
      · exact .inl hw
      · exact .inr (.inr (.inr (.inl hw)))
      · exact .inr (.inr (.inr (.inr hw)))
    · exact .inr (.inl hw)
    · exact .inr (.inr (.inl hw))
  · intro before name init after heq w hw
    obtain ⟨ss, rest, hss, rfl, hrest⟩ := List.map_eq_append_iff.mp heq
    obtain ⟨t, ts, rfl, htokens, rfl⟩ := List.map_eq_cons_iff.mp hrest
    rw [filterMap_declared? fun u hu => hg.statements u (by rw [hss]; simp [hu])]
    have hdeclared := Statement.declared?_tokens (hg.statements t (by rw [hss]; simp))
    rw [htokens] at hdeclared
    cases t with
    | declare name' t =>
      simp only [Statement.tokens, List.cons.injEq, true_and] at htokens
      rw [← htokens.2, Tree.references_tokens] at hw
      simp only [references, List.append_nil] at hw
      rcases (hc.paired.references hss).1 name' t rfl w hw with hw | hw
      · rcases hw.zero with hw | hw | hw
        · exact .inl hw
        · exact .inr (.inr (.inl hw))
        · exact .inr (.inr (.inr hw))
      · exact .inr (.inl hw)
    | evaluate t => simp [declared?, Statement.declares?] at hdeclared
  · intro w hw
    rw [filterMap_declared? hg.statements, hdeclares]
    rw [references_tree] at hw
    rcases hc.value w hw with hw | hw | ⟨i, hi, rfl⟩
    · exact .inl hw
    · exact .inr (.inr (List.mem_append.mp hw))
    · exact .inr (.inl (List.mem_map_of_mem (List.mem_range'_1.mpr (by omega))))
  · rw [filterMap_declared? hg.statements, hdeclares]
    exact List.Nodup.map (fun _ _ h => Script.temporaryName_injective h) List.nodup_range'
  · intro name hn
    rw [filterMap_declared? hg.statements, hdeclares] at hn
    obtain ⟨i, -, rfl⟩ := List.mem_map.mp hn
    refine ⟨Script.isTemporaryName_temporaryName i, ?_⟩
    intro hp
    have hused := husable _ hp
    rw [Script.not_isUsable_temporaryName] at hused
    contradiction
  · intro p hp
    rw [flatMap_references, references_tree]
    exact hc.ids p hp
  · intro before s after name heq hs
    obtain ⟨ss, rest, hss, rfl, hrest⟩ := List.map_eq_append_iff.mp heq
    obtain ⟨t, ts, rfl, rfl, rfl⟩ := List.map_eq_cons_iff.mp hrest
    rw [Statement.declared?_tokens (hg.statements t (by rw [hss]; simp))] at hs
    obtain ⟨change, ts', rfl, hoccurs⟩ := hc.used.occurs hss hs
    refine ⟨change.tokens, ts'.map Statement.tokens, rfl, ?_, ?_⟩
    · rw [Statement.references_tokens]
      exact hc.paired.changes hss hs
    · rw [flatMap_references, references_tree]
      exact hoccurs

end Hygiene

open Hygiene (Hygienic)

/-- **Scope and hygiene.** Statements and result of a generated function can be scanned, and their
words refer to what is in scope. -/
theorem tryCompile_hygienic {scope : Scope} {e : Expr} {f : RowFunction}
    (h : tryCompile scope e = .ok f) :
    ∃ statements result, f.statements.map (fun s => Script.tokens? s.toList) = statements.map some ∧
      Script.tokens? f.result.toList = some result ∧ Hygienic f.parameters statements result := by
  have hf := compiled_of_tryCompile h
  have hg := Expr.stringCode_grammatical hf.compiles
  have husable : ∀ p ∈ e.parameters scope, Script.isUsable p = true := fun p hp =>
    Expr.isUsable_of_mem_identifiers hf.compiles (Expr.mem_parameters.mp hp)
  have htidy := Hygiene.tidy_code hf.compiles (fun w hw => Expr.mem_parameters.mpr hw) 0
  have hstring := htidy.map (Hygiene.keeps_treeOf (e.conversionTo scope .string))
  have hids : Hygiene.Tidy (e.parameters scope) (e.parameters scope) 0 (0 + e.temporaries)
      (e.stringCode scope) :=
    ⟨hstring.paired, hstring.value, hstring.used, fun w hw =>
      hstring.ids w (Expr.mem_parameters.mp hw)⟩
  refine ⟨(e.stringCode scope).statements.map Statement.tokens,
    (e.stringCode scope).value.tokens, ?_, ?_, ?_⟩
  · have hcomp : f.statements.map (fun s => Script.tokens? s.toList) =
        (f.statements.map String.toList).map Script.tokens? := by rw [List.map_map]; rfl
    rw [hcomp, hf.statements, List.map_map, List.map_map]
    refine List.map_congr_left ?_
    intro s hs
    exact Statement.tokens?_text (hg.statements s hs)
  · rw [hf.result, Tree.tokens?_text hg.value]
  · have hne := hf.parameters_ne_nil
    rw [hf.parameters] at hne ⊢
    exact Hygiene.hygienic_of_tidy hids hg hne (Expr.nodup_parameters scope e) husable

/-- A shift by a number of days, of a column whose name is nearly that of a temporary. -/
theorem tryCompile_hygienic_shift :
    ∃ statements result,
      ["var __v0 = new Date(__v.getTime());", "__v0.setUTCDate(__v0.getUTCDate() + (-3));"].map
        (fun s => Script.tokens? s.toList) = statements.map some ∧
      Script.tokens? "__v0.toISOString()".toList = some result ∧
      Hygienic ["__v"] statements result := by
  let scope := Scope.ofColumn "__v" ⟨"__v", .dimension, .date⟩
  let e : Expr := .dateAdd (.column "__v" .date) (.literal (some "-3") .integer) .date
  have h : tryCompile scope e = .ok
      { parameters := ["__v"]
        statements := ["var __v0 = new Date(__v.getTime());",
          "__v0.setUTCDate(__v0.getUTCDate() + (-3));"]
        result := "__v0.toISOString()" } := rfl
  exact tryCompile_hygienic h

end RowScript

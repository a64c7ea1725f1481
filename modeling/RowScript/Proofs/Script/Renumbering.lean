import RowScript.Proofs.Script.Names
import RowScript.Proofs.Script.Receiver

/-!
# Texts with other temporaries

To renumber a text by `k` is to put the temporary that stands `k` numbers further
on in the place of each temporary. Quoted texts stay as they are, whatever they
hold. The text of a tree is renumbered by renumbering the words of the tree
(`Tree.renumberChars_text`), and its receivers keep their brackets.
-/

namespace RowScript.Script

/-! ## Names -/

def temporaryNumber (name : String) : Nat :=
  Nat.ofDigitChars 10 (name.toList.drop temporaryMark.length) 0

/-- A temporary gets another number, any other name stays. -/
def renumber (k : Nat) (name : String) : String :=
  if isTemporaryName name then temporaryName (temporaryNumber name + k) else name

theorem renumber_temporaryName (k n : Nat) :
    renumber k (temporaryName n) = temporaryName (n + k) := by
  have hdigits : (temporaryName n).toList.drop temporaryMark.length = Nat.toDigits 10 n := by
    rw [toList_temporaryName]
    rfl
  rw [renumber, if_pos (isTemporaryName_temporaryName n), temporaryNumber, hdigits,
    Nat.ofDigitChars_ten_toDigits]

theorem renumber_other {name : String} (h : isTemporaryName name = false) (k : Nat) :
    renumber k name = name := by
  rw [renumber, if_neg (by simp [h])]

theorem isTemporaryName_of_ne {c : Char} (hc : c ≠ '_') (cs : List Char) :
    isTemporaryName (String.ofList (c :: cs)) = false := by
  unfold isTemporaryName
  split
  · next digits hname =>
    rw [String.toList_ofList, List.cons.injEq] at hname
    exact absurd hname.1 hc
  · rfl

theorem renumber_of_isUsable {name : String} (h : isUsable name = true) (k : Nat) :
    renumber k name = name := by
  simp only [isUsable, Bool.and_eq_true, Bool.not_eq_true'] at h
  exact renumber_other h.2 k

/-! ## Texts -/

def renumberChars (k : Nat) : ScanMode → List Char → List Char
  | _, [] => []
  | .escaped, c :: cs => c :: renumberChars k .quoted cs
  | .quoted, c :: cs =>
    c :: renumberChars k (if c = '\\' then .escaped else if c = '\'' then .code else .quoted) cs
  | .code, c :: cs =>
    -- A word is taken as a whole, so what it ends with is no temporary of its own.
    if isIdentifierPart c then
      (renumber k (String.ofList (c :: cs.takeWhile isIdentifierPart))).toList ++
        renumberChars k .code (cs.dropWhile isIdentifierPart)
    else c :: renumberChars k (if c = '\'' then .quoted else .code) cs
termination_by _ cs => cs.length
decreasing_by
  · simp
  · simp
  · exact Nat.lt_succ_of_le (List.dropWhile_suffix _).length_le
  · simp

/-- The text with each temporary that is an identifier of its own, outside of quotes, renumbered. -/
def renumberText (k : Nat) (text : String) : String :=
  String.ofList (renumberChars k .code text.toList)

theorem renumberChars_nil (k : Nat) (mode : ScanMode) : renumberChars k mode [] = [] := by
  cases mode <;> rw [renumberChars]

theorem toList_renumberText (k : Nat) (text : String) :
    (renumberText k text).toList = renumberChars k .code text.toList := String.toList_ofList

theorem renumberText_empty (k : Nat) : renumberText k "" = "" := by
  rw [← String.toList_inj, toList_renumberText, String.toList_empty, renumberChars_nil]

theorem renumberChars_escape (k : Nat) (c : Char) (rest : List Char) :
    renumberChars k .quoted (escape c ++ rest) = escape c ++ renumberChars k .quoted rest := by
  have hpair : ∀ d rest, renumberChars k .quoted ('\\' :: d :: rest) =
      '\\' :: d :: renumberChars k .quoted rest := by
    intro d rest
    rw [renumberChars, if_pos rfl, renumberChars]
  have hplain : ∀ {d : Char}, d ≠ '\\' → d ≠ '\'' → ∀ rest,
      renumberChars k .quoted (d :: rest) = d :: renumberChars k .quoted rest := by
    intro d hb hq rest
    rw [renumberChars, if_neg hb, if_neg hq]
  have hhex : ∀ (n : Nat) rest, renumberChars k .quoted (hexDigit (n % 16) :: rest) =
      hexDigit (n % 16) :: renumberChars k .quoted rest := fun n =>
    hplain (hexDigit_ne n).1 (hexDigit_ne n).2
  unfold escape
  split_ifs with h1 h2 h3 h4 h5 h6
  · exact hpair _ _
  · exact hpair _ _
  · exact hpair _ _
  · exact hpair _ _
  · exact hpair _ _
  · rw [hexDigits_four]
    simp only [List.cons_append, List.nil_append, hpair, hhex]
  · exact hplain h1 h2 _

/-- Before `rest`, the text `cs` becomes `ds`. -/
def Becomes (k : Nat) (cs ds rest : List Char) : Prop :=
  renumberChars k .code (cs ++ rest) = ds ++ renumberChars k .code rest

namespace Becomes

variable {k : Nat} {cs cs' ds ds' rest : List Char}

theorem nil : Becomes k [] [] rest := rfl

theorem append (h : Becomes k cs ds (cs' ++ rest)) (h' : Becomes k cs' ds' rest) :
    Becomes k (cs ++ cs') (ds ++ ds') rest := by
  rw [Becomes] at *
  rw [List.append_assoc, h, h', List.append_assoc]

theorem mark {c : Char} (hc : isIdentifierPart c = false) (hq : c ≠ '\'')
    (h : Becomes k cs ds rest) : Becomes k (c :: cs) (c :: ds) rest := by
  rw [Becomes] at *
  rw [List.cons_append, renumberChars, if_neg (by simp [hc]), if_neg hq, h, List.cons_append]

/-! ### Words -/

theorem chars (hne : cs ≠ []) (hcs : ∀ c ∈ cs, isIdentifierPart c = true)
    (hr : rest.head?.any isIdentifierPart = false) :
    Becomes k cs (renumber k (String.ofList cs)).toList rest := by
  have hrest := word_ends hr
  cases cs with
  | nil => contradiction
  | cons c cs =>
    obtain ⟨hc, hall⟩ := List.forall_mem_cons.mp hcs
    rw [Becomes, List.cons_append, renumberChars, if_pos hc, List.takeWhile_append_of_pos hall,
      List.dropWhile_append_of_pos hall, hrest.1, hrest.2, List.append_nil]

theorem word {name : String} (hn : isIdentifier name = true)
    (hr : rest.head?.any isIdentifierPart = false) :
    Becomes k name.toList (renumber k name).toList rest := by
  have hne : name.toList ≠ [] := by
    intro hnil
    rw [isIdentifier, hnil] at hn
    contradiction
  have hword := chars (k := k) hne (fun c hc => isIdentifierPart_of_mem hn hc) hr
  rw [String.ofList_toList] at hword
  exact hword

theorem keyword {name : String} (hn : isIdentifier name = true) (ht : isTemporaryName name = false)
    (h : Becomes k cs ds rest) :
    Becomes k (name.toList ++ ' ' :: cs) (name.toList ++ ' ' :: ds) rest := by
  have hword := word (k := k) hn (rfl : (' ' :: (cs ++ rest)).head?.any isIdentifierPart = false)
  rw [renumber_other ht] at hword
  exact hword.append (mark rfl (by decide) h)

/-! ### Numbers -/

theorem unmarked (hcs : ∀ c ∈ cs, c ≠ '_' ∧ c ≠ '\'')
    (hr : rest.head?.any isIdentifierPart = false) : Becomes k cs cs rest := by
  induction hn : cs.length using Nat.strongRecOn generalizing cs with
  | ind n ih =>
  cases cs with
  | nil => exact nil
  | cons c cs =>
    obtain ⟨⟨hmark, hq⟩, hall⟩ := List.forall_mem_cons.mp hcs
    rw [List.length_cons] at hn
    by_cases hc : isIdentifierPart c = true
    · have hsplit : c :: cs =
          (c :: cs.takeWhile isIdentifierPart) ++ cs.dropWhile isIdentifierPart := by
        rw [List.cons_append, List.takeWhile_append_dropWhile]
      have hnext : (cs.dropWhile isIdentifierPart ++ rest).head?.any isIdentifierPart = false := by
        have hhead := List.head?_dropWhile_not isIdentifierPart cs
        cases hd : cs.dropWhile isIdentifierPart with
        | nil => exact hr
        | cons d ds =>
          rw [hd] at hhead
          exact hhead
      have hrest := ih (cs.dropWhile isIdentifierPart).length
        (hn ▸ Nat.lt_succ_of_le (List.dropWhile_suffix _).length_le)
        (fun d hd => hall d ((List.dropWhile_suffix _).subset hd)) rfl
      have hword : Becomes k (c :: cs.takeWhile isIdentifierPart) (c :: cs.takeWhile isIdentifierPart)
          (cs.dropWhile isIdentifierPart ++ rest) := by
        have hchars := chars (k := k) (List.cons_ne_nil c (cs.takeWhile isIdentifierPart))
          (List.forall_mem_cons.mpr ⟨hc, fun d hd => List.mem_takeWhile_imp hd⟩) hnext
        rw [renumber_other (isTemporaryName_of_ne hmark _), String.toList_ofList] at hchars
        exact hchars
      rw [hsplit]
      exact hword.append hrest
    · exact mark (by simpa using hc) hq (ih cs.length (by omega) hall rfl)

theorem number {text : String} (hn : isNumber text.toList = true) (hr : endsNumber rest = true) :
    Becomes k text.toList text.toList rest := by
  refine unmarked (fun c hc => ?_) ?_
  · rcases isNumber_mem hn hc with hd | hm
    · constructor
      · rintro rfl
        contradiction
      · rintro rfl
        contradiction
    · simp only [numberMarks, List.mem_cons, List.not_mem_nil, or_false] at hm
      rcases hm with rfl | rfl | rfl | rfl | rfl <;> decide
  · cases rest with
    | nil => rfl
    | cons d rest => simp_all [endsNumber]

/-! ### Quoted texts -/

theorem quoted (value : String) : Becomes k (quote value).toList (quote value).toList rest := by
  have hinside : ∀ cs : List Char, renumberChars k .quoted (cs.flatMap escape ++ '\'' :: rest) =
      cs.flatMap escape ++ '\'' :: renumberChars k .code rest := by
    intro cs
    induction cs with
    | nil =>
      rw [List.flatMap_nil, List.nil_append, renumberChars, if_neg (by decide), if_pos rfl,
        List.nil_append]
    | cons c cs ih =>
      rw [List.flatMap_cons, List.append_assoc, renumberChars_escape, ih, List.append_assoc]
  rw [Becomes, toList_quote, List.cons_append, List.append_assoc, renumberChars,
    if_neg (by decide), if_pos rfl, List.cons_append, List.nil_append, hinside, List.cons_append,
    List.append_assoc, List.cons_append, List.nil_append]

end Becomes

/-! ## Trees -/

namespace Tree

mutual

def renumber (k : Nat) : Tree → Tree
  | word name => word (Script.renumber k name)
  | number text => number text
  | quoted value => quoted value
  | group t => group (t.renumber k)
  | member t name => member (t.renumber k) (Script.renumber k name)
  | call t args => call (t.renumber k) (renumberAll k args)
  | create t args => create (t.renumber k) (renumberAll k args)
  | negate t => negate (t.renumber k)
  | binary op l r => binary op (l.renumber k) (r.renumber k)

def renumberAll (k : Nat) : List Tree → List Tree
  | [] => []
  | t :: ts => t.renumber k :: renumberAll k ts

end

theorem isNumber_renumber (k : Nat) (t : Tree) : (t.renumber k).isNumber = t.isNumber := by
  cases t <;> rfl

theorem isNegation_renumber (k : Nat) (t : Tree) : (t.renumber k).isNegation = t.isNegation := by
  cases t <;> rfl

theorem renumber_receiver (k : Nat) (t : Tree) :
    t.receiver.renumber k = (t.renumber k).receiver := by
  cases t <;> rfl

theorem becomes_moreText {k : Nat} {args : List Tree} (rest : List Char)
    (h : ∀ t ∈ args, ∀ rest, t.mayPrecede rest = true →
      Becomes k t.text (t.renumber k).text rest) :
    Becomes k (moreText args) (moreText (renumberAll k args)) (')' :: rest) := by
  induction args with
  | nil => exact .nil
  | cons t args ih =>
    have hmore := ih fun u hu => h u (List.mem_cons_of_mem _ hu)
    have hnext : endsNumber (moreText args ++ ')' :: rest) = true := by
      cases args <;> rfl
    refine .mark rfl (by decide) (.mark rfl (by decide) ?_)
    exact (h t List.mem_cons_self _ (mayPrecede_of_endsNumber hnext t)).append hmore

theorem becomes_arguments {k : Nat} {args : List Tree} (rest : List Char)
    (h : ∀ t ∈ args, ∀ rest, t.mayPrecede rest = true →
      Becomes k t.text (t.renumber k).text rest) :
    Becomes k ('(' :: (argumentsText args ++ [')']))
      ('(' :: (argumentsText (renumberAll k args) ++ [')'])) rest := by
  refine .mark rfl (by decide) (.append ?_ (.mark rfl (by decide) .nil))
  cases args with
  | nil => exact .nil
  | cons t args =>
    have hmore := becomes_moreText rest fun u hu => h u (List.mem_cons_of_mem _ hu)
    have hnext : endsNumber (moreText args ++ ')' :: rest) = true := by
      cases args <;> rfl
    exact (h t List.mem_cons_self _ (mayPrecede_of_endsNumber hnext t)).append hmore

theorem becomes_text {k : Nat} {t : Tree} (hg : t.Grammatical) (rest : List Char)
    (hr : t.mayPrecede rest = true) : Becomes k t.text (t.renumber k).text rest := by
  induction t generalizing rest with
  | word name =>
    refine .word (isIdentifier_of_isOperandWord hg) ?_
    simpa [mayPrecede] using hr
  | number digits => exact .number hg hr
  | quoted value => exact .quoted value
  | group t ih =>
    refine .mark rfl (by decide) (.append ?_ (.mark rfl (by decide) .nil))
    exact ih hg _ (mayPrecede_of_endsNumber rfl t)
  | member t name ih =>
    obtain ⟨hs, ht, hn⟩ := hg
    have hname : Becomes k ('.' :: name.toList) ('.' :: (Script.renumber k name).toList) rest :=
      .mark rfl (by decide) (.word hn (by simpa [mayPrecede] using hr))
    rw [renumber, text, text, isNumber_renumber]
    cases hnum : t.isNumber
    · exact (ih ht _ (mayPrecede_point hs hnum _)).append hname
    · exact (ih ht _ (mayPrecede_of_endsNumber rfl t)).append (.mark rfl (by decide) hname)
  | call t args ih ihs =>
    obtain ⟨hs, ht, hargs⟩ := hg
    rw [allGrammatical_iff] at hargs
    have hlist := becomes_arguments rest fun u hu => ihs u hu (hargs u hu)
    exact (ih ht _ (mayPrecede_of_endsNumber rfl t)).append hlist
  | create t args ih ihs =>
    obtain ⟨hs, ht, hargs⟩ := hg
    rw [allGrammatical_iff] at hargs
    have hlist := becomes_arguments rest fun u hu => ihs u hu (hargs u hu)
    have hcall := (ih ht _ (mayPrecede_of_endsNumber rfl t)).append hlist
    have hnew : isIdentifier "new" = true := by decide
    exact .keyword hnew (by decide) hcall
  | negate t ih =>
    have hinner := ih hg.2 rest hr
    rw [renumber, text, text, isNegation_renumber]
    cases t.isNegation
    · exact .mark rfl (by decide) hinner
    · exact .mark rfl (by decide) (.mark rfl (by decide) hinner)
  | binary op l r ihl ihr =>
    obtain ⟨-, -, hl, hrg⟩ := hg
    refine (ihl hl _ (mayPrecede_of_endsNumber rfl l)).append ?_
    have hright := Becomes.mark (c := ' ') rfl (by decide) (ihr hrg rest hr)
    refine .mark rfl (by decide) ?_
    cases op <;> exact .mark rfl (by decide) hright

theorem renumberChars_text {t : Tree} (hg : t.Grammatical) (k : Nat) :
    renumberChars k .code t.text = (t.renumber k).text := by
  have hall := becomes_text (k := k) hg [] (mayPrecede_of_endsNumber rfl t)
  rw [Becomes, List.append_nil, renumberChars_nil, List.append_nil] at hall
  exact hall

end Tree

namespace Statement

def renumber (k : Nat) : Statement → Statement
  | declare name t => declare (Script.renumber k name) (t.renumber k)
  | evaluate t => evaluate (t.renumber k)

theorem becomes_text {k : Nat} {s : Statement} (hg : s.Grammatical) (rest : List Char) :
    Becomes k s.text (s.renumber k).text rest := by
  have hend : Becomes k [';'] [';'] rest := .mark rfl (by decide) .nil
  cases s with
  | declare name t =>
    obtain ⟨hn, ht⟩ := hg
    have hvalue := (Tree.becomes_text (k := k) ht _ (Tree.mayPrecede_of_endsNumber rfl t)).append hend
    have hassign : Becomes k (" = ".toList ++ (t.text ++ [';']))
        (" = ".toList ++ ((t.renumber k).text ++ [';'])) rest :=
      .mark rfl (by decide) (.mark rfl (by decide) (.mark rfl (by decide) hvalue))
    have hname := (Becomes.word (k := k) (isIdentifier_of_isOperandWord
      (isOperandWord_of_isBindable hn)) rfl).append hassign
    have hvar : isIdentifier "var" = true := by decide
    exact .keyword hvar (by decide) hname
  | evaluate t => exact (Tree.becomes_text hg _ (Tree.mayPrecede_of_endsNumber rfl t)).append hend

theorem renumberChars_text {s : Statement} (hg : s.Grammatical) (k : Nat) :
    renumberChars k .code s.text = (s.renumber k).text := by
  have hall := becomes_text (k := k) hg []
  rw [Becomes, List.append_nil, renumberChars_nil, List.append_nil] at hall
  exact hall

end Statement

example : renumberText 2 "__v1.concat('__v1', a__v1);" = "__v3.concat('__v1', a__v1);" := by
  decide +kernel

end RowScript.Script

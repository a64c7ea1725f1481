import RowScript.Proofs.Script.Reader

/-!
# Words and members

The words of a text outside quotes: those that refer to something (`references`)
and the names of members (`members`). Both are read off the tokens and, for the
text of a tree, off the tree (`references_tokens`, `members_tokens`).
-/

namespace RowScript.Script

/-- The words that are not names of members. -/
def references : List Token → List String
  | .point :: .word _ :: ts => references ts
  | .word name :: ts => name :: references ts
  | _ :: ts => references ts
  | [] => []

/-- The names of members, each of which stands after a point. -/
def members : List Token → List String
  | .point :: .word name :: ts => name :: members ts
  | _ :: ts => members ts
  | [] => []

/-- The variable that a statement declares. -/
def declared? : List Token → Option String
  | .word "var" :: .word name :: _ => some name
  | _ => none

namespace Tree

mutual

def words : Tree → List String
  | word name => [name]
  | number _ | quoted _ => []
  | group t | negate t => t.words
  | member t _ => t.words
  | call t args => t.words ++ wordsOf args
  | create t args => "new" :: (t.words ++ wordsOf args)
  | binary _ l r => l.words ++ r.words

def wordsOf : List Tree → List String
  | [] => []
  | t :: ts => t.words ++ wordsOf ts

end

theorem wordsOf_eq_flatMap (args : List Tree) : wordsOf args = args.flatMap words := by
  induction args with
  | nil => rfl
  | cons t args ih => rw [wordsOf, ih, List.flatMap_cons]

mutual

def members : Tree → List String
  | word _ | number _ | quoted _ => []
  | group t | negate t => t.members
  | member t name => t.members ++ [name]
  | call t args | create t args => t.members ++ membersOf args
  | binary _ l r => l.members ++ r.members

def membersOf : List Tree → List String
  | [] => []
  | t :: ts => t.members ++ membersOf ts

end

theorem membersOf_eq_flatMap (args : List Tree) : membersOf args = args.flatMap members := by
  induction args with
  | nil => rfl
  | cons t args ih => rw [membersOf, ih, List.flatMap_cons]

/-! ## Arguments -/

section

variable {gather : List Token → List String} {own : Tree → List String} {args : List Tree}

theorem gather_moreTokens (hcomma : ∀ ts, gather (.comma :: ts) = gather ts)
    (h : ∀ t ∈ args, ∀ rest, gather (t.tokens ++ rest) = own t ++ gather rest)
    (rest : List Token) : gather (moreTokens args ++ rest) = args.flatMap own ++ gather rest := by
  induction args with
  | nil => rfl
  | cons t args ih =>
    have hmore := ih fun u hu => h u (List.mem_cons_of_mem _ hu)
    rw [moreTokens, List.cons_append, hcomma, List.append_assoc, h t List.mem_cons_self, hmore,
      List.flatMap_cons, List.append_assoc]

theorem gather_arguments (hcomma : ∀ ts, gather (.comma :: ts) = gather ts)
    (hopen : ∀ ts, gather (.openBracket :: ts) = gather ts)
    (hclose : ∀ ts, gather (.closeBracket :: ts) = gather ts)
    (h : ∀ t ∈ args, ∀ rest, gather (t.tokens ++ rest) = own t ++ gather rest)
    (rest : List Token) :
    gather (.openBracket :: (argumentTokens args ++ [.closeBracket]) ++ rest) =
      args.flatMap own ++ gather rest := by
  rw [List.cons_append, hopen, List.append_assoc]
  cases args with
  | nil => exact hclose rest
  | cons t args =>
    have hmore := gather_moreTokens hcomma fun u hu => h u (List.mem_cons_of_mem _ hu)
    rw [argumentTokens, List.append_assoc, h t List.mem_cons_self, hmore, List.singleton_append,
      hclose, List.flatMap_cons, List.append_assoc]

end

/-! ## Trees -/

theorem references_tokens (t : Tree) (rest : List Token) :
    references (t.tokens ++ rest) = t.words ++ references rest := by
  induction t generalizing rest with
  | word name => rfl
  | number text => rfl
  | quoted value => rfl
  | group t ih =>
    change references (t.tokens ++ [.closeBracket] ++ rest) = _
    rw [List.append_assoc, ih]
    rfl
  | member t name ih =>
    rw [tokens, List.append_assoc, ih]
    rfl
  | call t args ih ihs =>
    rw [tokens, List.append_assoc, ih,
      gather_arguments (fun _ => rfl) (fun _ => rfl) (fun _ => rfl) ihs, words,
      wordsOf_eq_flatMap, List.append_assoc]
  | create t args ih ihs =>
    change "new" :: references (t.tokens ++ _ ++ rest) = _
    rw [List.append_assoc, ih,
      gather_arguments (fun _ => rfl) (fun _ => rfl) (fun _ => rfl) ihs, words,
      wordsOf_eq_flatMap, List.cons_append, List.append_assoc]
  | negate t ih => exact ih rest
  | binary op l r ihl ihr =>
    rw [tokens, List.append_assoc, ihl]
    change l.words ++ references (r.tokens ++ rest) = _
    rw [ihr, words, List.append_assoc]

theorem members_tokens (t : Tree) (rest : List Token) :
    Script.members (t.tokens ++ rest) = t.members ++ Script.members rest := by
  induction t generalizing rest with
  | word name => rfl
  | number text => rfl
  | quoted value => rfl
  | group t ih =>
    change Script.members (t.tokens ++ [.closeBracket] ++ rest) = _
    rw [List.append_assoc, ih]
    rfl
  | member t name ih =>
    rw [tokens, List.append_assoc, ih, members, List.append_assoc]
    rfl
  | call t args ih ihs =>
    rw [tokens, List.append_assoc, ih,
      gather_arguments (fun _ => rfl) (fun _ => rfl) (fun _ => rfl) ihs, members,
      membersOf_eq_flatMap, List.append_assoc]
  | create t args ih ihs =>
    change Script.members (t.tokens ++ _ ++ rest) = _
    rw [List.append_assoc, ih,
      gather_arguments (fun _ => rfl) (fun _ => rfl) (fun _ => rfl) ihs, members,
      membersOf_eq_flatMap, List.append_assoc]
  | negate t ih => exact ih rest
  | binary op l r ihl ihr =>
    rw [tokens, List.append_assoc, ihl]
    change l.members ++ Script.members (r.tokens ++ rest) = _
    rw [ihr, members, List.append_assoc]

end Tree

namespace Statement

def words : Statement → List String
  | declare name t => "var" :: name :: t.words
  | evaluate t => t.words

theorem references_tokens (s : Statement) : references s.tokens = s.words := by
  cases s with
  | declare name t =>
    change "var" :: name :: references (t.tokens ++ [.semicolon]) = _
    rw [Tree.references_tokens]
    simp [references, words]
  | evaluate t =>
    rw [tokens, Tree.references_tokens]
    simp [references, words]

def declares? : Statement → Option String
  | declare name _ => some name
  | evaluate _ => none

theorem declared?_tokens {s : Statement} (hg : s.Grammatical) :
    declared? s.tokens = s.declares? := by
  have hvar : isOperandWord "var" = false ∧ "var" ≠ "new" := by decide
  cases s with
  | declare name t => rfl
  | evaluate t =>
    unfold declared?
    split
    · next name ts htokens =>
      obtain ⟨token, us, ht, hw⟩ := Tree.tokens_start hg
      rw [tokens, ht, List.cons_append, List.cons.injEq] at htokens
      rcases hw "var" htokens.1 with hnew | hword
      · exact absurd hnew hvar.2
      · rw [hvar.1] at hword
        contradiction
    · rfl

end Statement

end RowScript.Script

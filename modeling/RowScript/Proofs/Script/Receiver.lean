import RowScript.Proofs.Script.Tree
import RowScript.Script.Receiver

/-!
# Receivers as trees

Whether the text before a point gets brackets is decided from that text alone.
The decision is right: `receiver` leaves the texts of words and of bracket
groups as they are and makes every other tree a group (`toList_receiver`).

The scan for the closing bracket comes out of the text of a tree as deep as it
went in, whatever brackets and quotes the quoted texts inside hold.
-/

namespace RowScript.Script

/-! ## The steps of the scan -/

theorem closesAtEnd_plain {c : Char} (hq : c ≠ '\'') (ho : c ≠ '(') (hc : c ≠ ')') (inner : Nat)
    (cs : List Char) : closesAtEnd .code inner (c :: cs) = closesAtEnd .code inner cs := by
  rw [closesAtEnd.eq_def]
  simp only [hq, ho, hc, if_false]

theorem closesAtEnd_open (inner : Nat) (cs : List Char) :
    closesAtEnd .code inner ('(' :: cs) = closesAtEnd .code (inner + 1) cs := rfl

theorem closesAtEnd_close (inner : Nat) (cs : List Char) :
    closesAtEnd .code (inner + 1) (')' :: cs) = closesAtEnd .code inner cs := rfl

theorem closesAtEnd_last (cs : List Char) : closesAtEnd .code 0 (')' :: cs) = cs.isEmpty := rfl

theorem closesAtEnd_quote (inner : Nat) (cs : List Char) :
    closesAtEnd .code inner ('\'' :: cs) = closesAtEnd .quoted inner cs := by
  rw [closesAtEnd.eq_def]
  simp only [if_true]

/-! ## Scans that come out as deep as they went in -/

/-- A text that closes the brackets it opens, and no other. -/
def Level (cs : List Char) : Prop :=
  ∀ inner rest, closesAtEnd .code inner (cs ++ rest) = closesAtEnd .code inner rest

namespace Level

theorem nil : Level [] := fun _ _ => rfl

theorem append {cs ds : List Char} (hc : Level cs) (hd : Level ds) : Level (cs ++ ds) := by
  intro inner rest
  rw [List.append_assoc, hc, hd]

theorem cons {c : Char} {cs : List Char} (hq : c ≠ '\'') (ho : c ≠ '(') (hc : c ≠ ')')
    (h : Level cs) : Level (c :: cs) := by
  intro inner rest
  rw [List.cons_append, closesAtEnd_plain hq ho hc, h]

theorem plain {cs : List Char} (h : ∀ c ∈ cs, c ≠ '\'' ∧ c ≠ '(' ∧ c ≠ ')') : Level cs := by
  induction cs with
  | nil => exact nil
  | cons c cs ih =>
    obtain ⟨hq, ho, hc⟩ := h c List.mem_cons_self
    exact cons hq ho hc (ih fun d hd => h d (List.mem_cons_of_mem _ hd))

theorem of_all {cs : List Char}
    (h : cs.all (fun c => c != '\'' && c != '(' && c != ')') = true) : Level cs := by
  refine plain fun c hc => ?_
  simpa [and_assoc] using List.all_eq_true.mp h c hc

theorem bracketed {cs : List Char} (h : Level cs) : Level ('(' :: (cs ++ [')'])) := by
  intro inner rest
  rw [List.cons_append, List.append_assoc, closesAtEnd_open, h, List.cons_append,
    List.nil_append, closesAtEnd_close]

end Level

theorem closesAtEnd_quoted {c : Char} (hb : c ≠ '\\') (hq : c ≠ '\'') (inner : Nat)
    (rest : List Char) : closesAtEnd .quoted inner (c :: rest) = closesAtEnd .quoted inner rest := by
  rw [closesAtEnd, if_neg hb, if_neg hq]

theorem hexDigit_ne (d : Nat) : hexDigit (d % 16) ≠ '\\' ∧ hexDigit (d % 16) ≠ '\'' := by
  have hall : ∀ d < 16, hexDigit d ≠ '\\' ∧ hexDigit d ≠ '\'' := by decide
  exact hall _ (Nat.mod_lt _ (by decide))

theorem closesAtEnd_escape (c : Char) (inner : Nat) (rest : List Char) :
    closesAtEnd .quoted inner (escape c ++ rest) = closesAtEnd .quoted inner rest := by
  have hpair : ∀ d rest, closesAtEnd .quoted inner ('\\' :: d :: rest) =
      closesAtEnd .quoted inner rest := by
    intro d rest
    rw [closesAtEnd, if_pos rfl, closesAtEnd]
  unfold escape
  split_ifs with h1 h2 h3 h4 h5 h6
  · exact hpair _ _
  · exact hpair _ _
  · exact hpair _ _
  · exact hpair _ _
  · exact hpair _ _
  · rw [hexDigits_four, List.cons_append, List.cons_append, hpair]
    simp only [List.cons_append, List.nil_append]
    rw [closesAtEnd_quoted (hexDigit_ne _).1 (hexDigit_ne _).2,
      closesAtEnd_quoted (hexDigit_ne _).1 (hexDigit_ne _).2,
      closesAtEnd_quoted (hexDigit_ne _).1 (hexDigit_ne _).2,
      closesAtEnd_quoted (hexDigit_ne _).1 (hexDigit_ne _).2]
  · exact closesAtEnd_quoted h1 h2 _ _

theorem level_quote (value : String) : Level (quote value).toList := by
  intro inner rest
  have hinside : ∀ cs : List Char, closesAtEnd .quoted inner (cs.flatMap escape ++ '\'' :: rest) =
      closesAtEnd .code inner rest := by
    intro cs
    induction cs with
    | nil => rw [List.flatMap_nil, List.nil_append, closesAtEnd, if_neg (by decide), if_pos rfl]
    | cons c cs ih => rw [List.flatMap_cons, List.append_assoc, closesAtEnd_escape, ih]
  rw [toList_quote, List.cons_append, List.append_assoc, closesAtEnd_quote, List.cons_append,
    List.nil_append, hinside]

theorem level_identifier {name : String} (h : isIdentifier name = true) : Level name.toList := by
  refine Level.plain fun c hc => ?_
  have hpart := isIdentifierPart_of_mem h hc
  refine ⟨?_, ?_, ?_⟩
  · rintro rfl
    contradiction
  · rintro rfl
    contradiction
  · rintro rfl
    contradiction

theorem level_number {cs : List Char} (h : isNumber cs = true) : Level cs := by
  refine Level.plain fun c hc => ?_
  rcases isNumber_mem h hc with hd | hm
  · refine ⟨?_, ?_, ?_⟩
    · rintro rfl
      contradiction
    · rintro rfl
      contradiction
    · rintro rfl
      contradiction
  · simp only [numberMarks, List.mem_cons, List.not_mem_nil, or_false] at hm
    rcases hm with rfl | rfl | rfl | rfl | rfl <;> decide

namespace Tree

theorem level_moreText {args : List Tree} (h : ∀ t ∈ args, Level t.text) :
    Level (moreText args) := by
  induction args with
  | nil => exact Level.nil
  | cons t args ih =>
    have hmore := ih fun u hu => h u (List.mem_cons_of_mem _ hu)
    have ht := (h t List.mem_cons_self).append hmore
    exact Level.cons (by decide) (by decide) (by decide)
      (Level.cons (by decide) (by decide) (by decide) ht)

theorem level_argumentsText {args : List Tree} (h : ∀ t ∈ args, Level t.text) :
    Level (argumentsText args) := by
  cases args with
  | nil => exact Level.nil
  | cons t args =>
    exact (h t List.mem_cons_self).append
      (level_moreText fun u hu => h u (List.mem_cons_of_mem _ hu))

theorem level_text {t : Tree} (hg : t.Grammatical) : Level t.text := by
  induction t with
  | word name => exact level_identifier (isIdentifier_of_isOperandWord hg)
  | number digits => exact level_number hg
  | quoted value => exact level_quote value
  | group t ih => exact (ih hg).bracketed
  | member t name ih =>
    have hname := Level.cons (c := '.') (by decide) (by decide) (by decide)
      (level_identifier hg.2.2)
    refine (ih hg.2.1).append ?_
    split
    · exact Level.cons (by decide) (by decide) (by decide) hname
    · exact hname
  | call t args ih ihs =>
    obtain ⟨-, ht, hargs⟩ := hg
    rw [allGrammatical_iff] at hargs
    have hlist := level_argumentsText fun u hu => ihs u hu (hargs u hu)
    exact (ih ht).append hlist.bracketed
  | create t args ih ihs =>
    obtain ⟨-, ht, hargs⟩ := hg
    rw [allGrammatical_iff] at hargs
    have hlist := level_argumentsText fun u hu => ihs u hu (hargs u hu)
    have hnew : Level ['n', 'e', 'w', ' '] := Level.of_all (by decide)
    exact hnew.append ((ih ht).append hlist.bracketed)
  | negate t ih =>
    have hblank : Level (if t.isNegation then [' '] else []) := by
      split
      · exact Level.of_all (by decide)
      · exact Level.nil
    exact Level.cons (by decide) (by decide) (by decide) (hblank.append (ih hg.2))
  | binary op l r ihl ihr =>
    have hop : Level (op.symbol.toList ++ [' ']) := by
      cases op <;> exact Level.of_all (by decide)
    have hright := Level.cons (c := ' ') (by decide) (by decide) (by decide)
      (hop.append (ihr hg.2.2.2))
    rw [List.append_assoc] at hright
    exact (ihl hg.2.2.1).append hright

/-! ## Which texts are one bracket group -/

def isGroup : Tree → Bool
  | group _ => true
  | _ => false

def isWord : Tree → Bool
  | word _ => true
  | _ => false

theorem text_ne_nil {t : Tree} (hg : t.Grammatical) : t.text ≠ [] := by
  induction t with
  | word name =>
    intro hname
    rw [text] at hname
    have hn := isIdentifier_of_isOperandWord hg
    rw [isIdentifier, hname] at hn
    contradiction
  | number digits =>
    intro hdigits
    rw [text] at hdigits
    rw [Grammatical, hdigits] at hg
    contradiction
  | quoted value => rw [text, toList_quote]; simp
  | group t ih => simp [text]
  | member t name ih => simp [text, ih hg.2.1]
  | call t args ih ihs => simp [text]
  | create t args ih ihs => simp [text]
  | negate t ih => simp [text]
  | binary op l r ihl ihr => simp [text]

theorem text_append {t : Tree} (hg : t.Grammatical) {c : Char} {cs r : List Char}
    (h : t.text ++ cs = c :: r) : ∃ r', t.text = c :: r' ∧ r = r' ++ cs := by
  rcases List.append_eq_cons_iff.mp h with ⟨hnil, -⟩ | hcons
  · exact absurd hnil (text_ne_nil hg)
  · exact hcons

theorem closesAtEnd_text {t : Tree} (hg : t.Grammatical) {r : List Char} (hr : t.text = '(' :: r)
    {tail : List Char} (ht : t.isGroup = true → tail ≠ []) :
    closesAtEnd .code 0 (r ++ tail) = false := by
  -- The bracket that a text starts with is closed before its end, unless the tree is a group.
  induction t generalizing r tail with
  | word name =>
    have hpart := isIdentifierPart_of_mem (isIdentifier_of_isOperandWord hg)
      (c := '(') (by rw [text] at hr; rw [hr]; exact List.mem_cons_self)
    contradiction
  | number digits =>
    have hc := isNumber_mem hg (c := '(') (by rw [text] at hr; rw [hr]; exact List.mem_cons_self)
    exact absurd hc (by decide)
  | quoted value => rw [text, toList_quote] at hr; simp at hr
  | group t ih =>
    rw [text, List.cons.injEq] at hr
    rw [← hr.2, List.append_assoc, level_text (t := t) hg, List.cons_append, closesAtEnd_last,
      List.nil_append]
    cases tail with
    | nil => exact absurd rfl (ht rfl)
    | cons c tail => rfl
  | member t name ih =>
    obtain ⟨r', hr', rfl⟩ := text_append hg.2.1 hr
    rw [List.append_assoc]
    refine ih hg.2.1 hr' fun _ => ?_
    split <;> simp
  | call t args ih ihs =>
    obtain ⟨r', hr', rfl⟩ := text_append hg.2.1 hr
    rw [List.append_assoc]
    exact ih hg.2.1 hr' fun _ => by simp
  | create t args ih ihs => rw [text] at hr; simp at hr
  | negate t ih => rw [text] at hr; simp at hr
  | binary op l r ihl ihr =>
    obtain ⟨r', hr', rfl⟩ := text_append hg.2.2.1 hr
    rw [List.append_assoc]
    exact ihl hg.2.2.1 hr' fun _ => by simp

theorem isBracketed_text {t : Tree} (hg : t.Grammatical) {s : String} (h : s.toList = t.text) :
    isBracketed s = t.isGroup := by
  unfold isBracketed
  rw [h]
  cases hgroup : t.isGroup
  · split
    · next r hr =>
      have hclosed : closesAtEnd .code 0 (r ++ []) = false :=
        closesAtEnd_text hg hr (by simp [hgroup])
      rw [List.append_nil] at hclosed
      exact hclosed
    · rfl
  · cases t with
    | group t =>
      rw [text]
      simp only
      rw [level_text (t := t) hg, closesAtEnd_last]
      rfl
    | _ => simp [isGroup] at hgroup

/-! ## Which texts are identifiers -/

theorem isIdentifier_of_mem {s : String} {c : Char} (hc : c ∈ s.toList)
    (hpart : isIdentifierPart c = false) : isIdentifier s = false := by
  cases hs : isIdentifier s
  · rfl
  · rw [isIdentifierPart_of_mem hs hc] at hpart
    contradiction

theorem isIdentifier_text {t : Tree} (hg : t.Grammatical) {s : String} (h : s.toList = t.text) :
    isIdentifier s = t.isWord := by
  cases t with
  | word name =>
    rw [text] at h
    rw [String.toList_inj.mp h]
    exact isIdentifier_of_isOperandWord hg
  | number digits =>
    rw [text] at h
    change isIdentifier s = false
    rw [String.toList_inj.mp h, isIdentifier]
    split
    · rfl
    · next c cs hdigits =>
      rw [Grammatical, hdigits] at hg
      rw [(isNumber_start hg []).2.1, Bool.false_and]
  | quoted value =>
    refine isIdentifier_of_mem (c := '\'') ?_ rfl
    rw [h, text, toList_quote]
    exact List.mem_cons_self
  | group t => exact isIdentifier_of_mem (c := '(') (by simp [h, text]) rfl
  | member t name => exact isIdentifier_of_mem (c := '.') (by simp [h, text]) rfl
  | call t args => exact isIdentifier_of_mem (c := '(') (by simp [h, text]) rfl
  | create t args => exact isIdentifier_of_mem (c := '(') (by simp [h, text]) rfl
  | negate t => exact isIdentifier_of_mem (c := '-') (by simp [h, text]) rfl
  | binary op l r => exact isIdentifier_of_mem (c := ' ') (by simp [h, text]) rfl

/-! ## Receivers -/

/-- The tree before a point: a word, a group, or a group around anything else. -/
def receiver (t : Tree) : Tree := if t.isWord || t.isGroup then t else group t

theorem grammatical_receiver {t : Tree} (hg : t.Grammatical) : t.receiver.Grammatical := by
  unfold receiver
  split <;> exact hg

theorem strength_receiver (t : Tree) : t.receiver.strength = 5 := by
  cases t <;> rfl

theorem isNumber_receiver (t : Tree) : t.receiver.isNumber = false := by
  cases t <;> rfl

/-- **The brackets of a receiver.** They depend on the tree of its text alone. -/
theorem toList_receiver {t : Tree} (hg : t.Grammatical) {s : String} (h : s.toList = t.text) :
    (Script.receiver s).toList = t.receiver.text := by
  unfold Script.receiver receiver
  rw [isIdentifier_text hg h, isBracketed_text hg h]
  split
  · exact h
  · simp [text, h]

end Tree

end RowScript.Script

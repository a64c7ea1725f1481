import RowScript.Proofs.Script.Tree

/-!
# Texts of one line

No character of a generated text ends a line, also inside quoted texts: the
text of a grammatical function can stand in a log or a cell as it is
(`FunctionTree.inLine_text`).
-/

namespace RowScript.Script

/-- A text without the end of a line. -/
def InLine (cs : List Char) : Prop := ∀ c ∈ cs, isLineTerminator c = false

namespace InLine

theorem append {cs ds : List Char} (hc : InLine cs) (hd : InLine ds) : InLine (cs ++ ds) := by
  intro c hm
  rcases List.mem_append.mp hm with hm | hm
  · exact hc c hm
  · exact hd c hm

theorem cons {c : Char} {cs : List Char} (hc : isLineTerminator c = false) (h : InLine cs) :
    InLine (c :: cs) := by
  intro d hm
  rcases List.mem_cons.mp hm with rfl | hm
  · exact hc
  · exact h d hm

theorem of_all {cs : List Char} (h : cs.all (fun c => !isLineTerminator c) = true) :
    InLine cs := by
  intro c hc
  simpa using List.all_eq_true.mp h c hc

theorem flatMap {α : Type} {xs : List α} {f : α → List Char} (h : ∀ x ∈ xs, InLine (f x)) :
    InLine (xs.flatMap f) := by
  intro c hm
  obtain ⟨x, hx, hc⟩ := List.mem_flatMap.mp hm
  exact h x hx c hc

end InLine

/-! ## Characters -/

theorem isLineTerminator_cases {c : Char} (h : isLineTerminator c = true) :
    c = '\n' ∨ c = '\x0d' ∨ c.toNat = 0x2028 ∨ c.toNat = 0x2029 := by
  simp only [isLineTerminator, isLineSeparator, Bool.or_eq_true, beq_iff_eq] at h
  rcases h with (h | h) | h | h
  · exact .inl h
  · exact .inr (.inl h)
  · exact .inr (.inr (.inl h))
  · exact .inr (.inr (.inr h))

theorem inLine_identifier {name : String} (h : isIdentifier name = true) : InLine name.toList := by
  intro c hc
  have hpart := isIdentifierPart_of_mem h hc
  cases hl : isLineTerminator c
  · rfl
  · have hascii : c = '_' ∨ c = '$' ∨ c.toNat ≤ 122 := by
      have hparts : (c = '_' ∨ c = '$') ∨ c.isAlpha = true ∨ c.isDigit = true := by
        simpa only [isIdentifierPart, Char.isAlphanum, Bool.or_eq_true, beq_iff_eq] using hpart
      rcases hparts with (h | h) | h | h
      · exact .inl h
      · exact .inr (.inl h)
      · have halpha := code_of_isAlpha h
        omega
      · have hdigit := code_of_isDigit h
        omega
    rcases isLineTerminator_cases hl with rfl | rfl | hn | hn
    · contradiction
    · contradiction
    · rcases hascii with rfl | rfl | hle
      · contradiction
      · contradiction
      · omega
    · rcases hascii with rfl | rfl | hle
      · contradiction
      · contradiction
      · omega

theorem inLine_number {cs : List Char} (h : isNumber cs = true) : InLine cs := by
  intro c hc
  rcases isNumber_mem h hc with hd | hm
  · cases hl : isLineTerminator c
    · rfl
    · have hle := (code_of_isDigit hd).2
      rcases isLineTerminator_cases hl with rfl | rfl | hn | hn
      · simp at hd
      · simp at hd
      · omega
      · omega
  · simp only [numberMarks, List.mem_cons, List.not_mem_nil, or_false] at hm
    rcases hm with rfl | rfl | rfl | rfl | rfl <;> rfl

theorem inLine_escape (c : Char) : InLine (escape c) := by
  have hhex : ∀ d < 16, isLineTerminator (hexDigit d) = false := by decide
  have hdigit : ∀ d, isLineTerminator (hexDigit (d % 16)) = false := fun d =>
    hhex _ (Nat.mod_lt _ (by decide))
  unfold escape
  split_ifs with h1 h2 h3 h4 h5 h6
  · exact InLine.of_all (by decide)
  · exact InLine.of_all (by decide)
  · exact InLine.of_all (by decide)
  · exact InLine.of_all (by decide)
  · exact InLine.of_all (by decide)
  · rw [hexDigits_four]
    intro d hd
    simp only [List.mem_cons, List.not_mem_nil, or_false] at hd
    rcases hd with rfl | rfl | rfl | rfl | rfl | rfl
    · rfl
    · rfl
    · exact hdigit _
    · exact hdigit _
    · exact hdigit _
    · exact hdigit _
  · simp only [Bool.or_eq_true, not_or, Bool.not_eq_true] at h6
    intro d hd
    rw [List.mem_singleton.mp hd]
    simp [isLineTerminator, h3, h4, h6.1]

theorem inLine_quote (value : String) : InLine (quote value).toList := by
  rw [toList_quote]
  refine InLine.cons rfl (InLine.append (InLine.flatMap fun c _ => inLine_escape c) ?_)
  exact InLine.cons rfl fun _ h => absurd h List.not_mem_nil

/-! ## Trees -/

namespace Tree

theorem inLine_moreText {args : List Tree} (h : ∀ t ∈ args, InLine t.text) :
    InLine (moreText args) := by
  induction args with
  | nil => exact fun _ h => absurd h List.not_mem_nil
  | cons t args ih =>
    have hmore := ih fun u hu => h u (List.mem_cons_of_mem _ hu)
    exact InLine.cons rfl (InLine.cons rfl ((h t List.mem_cons_self).append hmore))

theorem inLine_argumentsText {args : List Tree} (h : ∀ t ∈ args, InLine t.text) :
    InLine ('(' :: (argumentsText args ++ [')'])) := by
  have hclose : InLine [')'] := by
    intro c hc
    rw [List.mem_singleton.mp hc]
    rfl
  cases args with
  | nil => exact InLine.cons rfl hclose
  | cons t args =>
    have hmore := inLine_moreText fun u hu => h u (List.mem_cons_of_mem _ hu)
    exact InLine.cons rfl (((h t List.mem_cons_self).append hmore).append hclose)

theorem inLine_text {t : Tree} (hg : t.Grammatical) : InLine t.text := by
  have hblank : ∀ b : Bool, InLine (if b = true then [' '] else []) := by
    intro b c hc
    cases b
    · simp at hc
    · rw [List.mem_singleton.mp hc]
      rfl
  induction t with
  | word name => exact inLine_identifier (isIdentifier_of_isOperandWord hg)
  | number digits => exact inLine_number hg
  | quoted value => exact inLine_quote value
  | group t ih =>
    refine InLine.cons rfl ((ih hg).append ?_)
    exact InLine.cons rfl fun _ h => absurd h List.not_mem_nil
  | member t name ih =>
    have hname := InLine.cons (c := '.') rfl (inLine_identifier hg.2.2)
    exact (ih hg.2.1).append ((hblank _).append hname)
  | call t args ih ihs =>
    obtain ⟨-, ht, hargs⟩ := hg
    rw [allGrammatical_iff] at hargs
    exact (ih ht).append (inLine_argumentsText fun u hu => ihs u hu (hargs u hu))
  | create t args ih ihs =>
    obtain ⟨-, ht, hargs⟩ := hg
    rw [allGrammatical_iff] at hargs
    have hcall := (ih ht).append (inLine_argumentsText fun u hu => ihs u hu (hargs u hu))
    exact InLine.cons rfl (InLine.cons rfl (InLine.cons rfl (InLine.cons rfl hcall)))
  | negate t ih => exact InLine.cons rfl ((hblank _).append (ih hg.2))
  | binary op l r ihl ihr =>
    have hop : InLine op.symbol.toList := by cases op <;> exact InLine.cons rfl (by simp [InLine])
    have hright := hop.append (InLine.cons (c := ' ') rfl (ihr hg.2.2.2))
    exact (ihl hg.2.2.1).append (InLine.cons rfl hright)

end Tree

theorem Statement.inLine_text {s : Statement} (hg : s.Grammatical) : InLine s.text := by
  have hend : InLine [';'] := InLine.cons rfl fun _ h => absurd h List.not_mem_nil
  cases s with
  | declare name t =>
    have hname := isIdentifier_of_isOperandWord (isOperandWord_of_isBindable hg.1)
    have hvar : InLine "var ".toList := .of_all (by decide)
    have hassign : InLine " = ".toList := .of_all (by decide)
    exact hvar.append ((inLine_identifier hname).append
      (hassign.append ((Tree.inLine_text hg.2).append hend)))
  | evaluate t => exact (Tree.inLine_text hg).append hend

theorem FunctionTree.inLine_text {f : FunctionTree} (hg : f.Grammatical) : InLine f.text := by
  have hname : ∀ p ∈ f.parameters, InLine p.toList := fun p hp =>
    inLine_identifier (isIdentifier_of_isOperandWord (isOperandWord_of_isBindable
      (hg.parameters p hp)))
  have hparameters : InLine (parametersText f.parameters) := by
    cases hps : f.parameters with
    | nil => exact fun _ h => absurd h List.not_mem_nil
    | cons p ps =>
      rw [hps] at hname
      refine (hname p List.mem_cons_self).append (InLine.flatMap fun q hq => ?_)
      exact InLine.cons rfl (InLine.cons rfl (hname q (List.mem_cons_of_mem _ hq)))
  have hstatements : InLine (f.statements.flatMap fun s => s.text ++ [' ']) := by
    refine InLine.flatMap fun s hs => (Statement.inLine_text (hg.statements s hs)).append ?_
    exact InLine.cons rfl fun _ h => absurd h List.not_mem_nil
  have hfunction : InLine "function".toList := .of_all (by decide)
  have hreturn : InLine "return".toList := .of_all (by decide)
  have hend : InLine [';', ' ', '\x7d'] := .of_all (by decide)
  have hresult := (Tree.inLine_text hg.result).append hend
  have hbody := hstatements.append (hreturn.append (InLine.cons (c := ' ') rfl hresult))
  have hbrace := InLine.cons (c := '\x7b') rfl (InLine.cons (c := ' ') rfl hbody)
  have hclose := InLine.cons (c := ')') rfl (InLine.cons (c := ' ') rfl hbrace)
  exact hfunction.append (InLine.cons rfl (hparameters.append hclose))

end RowScript.Script

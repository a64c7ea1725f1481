import RowScript.Proofs.Script.Depth
import RowScript.Proofs.Script.Receiver

/-!
# The scan for the closing bracket

The scan goes as deep as the text (`closesAtEnd_append`), so the texts that it takes for
bracketed are the groups (`isBracketed_iff_isGroup`). As a program with a counter and
byte offsets, it never takes the counter below zero (`bracketed?_eq`).

So `receiver` makes of any balanced text an identifier or a group that is balanced as
well, and a second pass changes nothing (`receiver_balanced`).
-/

namespace RowScript.Script

/-! ## The scan -/

theorem closesAtEnd_cons {mode : ScanMode} {inner n : Nat} {c : Char}
    (hn : (n : Int) = inner + mode.rise c) (cs : List Char) :
    closesAtEnd mode inner (c :: cs) = closesAtEnd (mode.next c) n cs := by
  rcases rise_cases hn with ⟨rfl, rfl, rfl⟩ | ⟨rfl, rfl, rfl⟩ | ⟨rfl, hplain⟩
  · exact closesAtEnd_open inner cs
  · exact closesAtEnd_close n cs
  · cases mode with
    | escaped => rfl
    | quoted => rfl
    | code =>
      obtain ⟨ho, hc⟩ := hplain rfl
      by_cases hq : c = '\''
      · subst hq
        exact closesAtEnd_quote n cs
      · rw [closesAtEnd_plain hq ho hc, ScanMode.next_code hq]

theorem closesAtEnd_append {mode : ScanMode} {inner n : Nat} {cs : List Char}
    (h : NeverBelow mode inner cs) (hn : (n : Int) = inner + depthFrom mode cs)
    (rest : List Char) :
    closesAtEnd mode inner (cs ++ rest) = closesAtEnd (mode.after cs) n rest := by
  induction cs generalizing mode inner with
  | nil =>
    rw [depthFrom_nil] at hn
    obtain rfl : n = inner := by omega
    rfl
  | cons c cs ih =>
    obtain ⟨m, hm⟩ := Int.eq_ofNat_of_zero_le h.rise_nonneg
    rw [List.cons_append, closesAtEnd_cons hm.symm, ScanMode.after_cons]
    refine ih ((neverBelow_cons_iff hm.symm cs).mp h) ?_
    rw [hn, depthFrom_cons, ← Int.add_assoc, hm]

theorem closesAtEnd_iff {cs : List Char} :
    closesAtEnd .code 0 cs = true ↔ ∃ inner, cs = inner ++ [')'] ∧ Balanced inner := by
  -- At the first return the scan answers whether it is the end.
  have hreturn : ∀ {b after : List Char}, ScanMode.code.after b = .code →
      ((0 : Nat) : Int) + depthFrom .code b = 0 → NeverBelow .code 0 b →
      closesAtEnd .code 0 (b ++ ')' :: after) = after.isEmpty := by
    intro b after hcode hlevel hb
    rw [closesAtEnd_append hb (n := 0) hlevel.symm, hcode, closesAtEnd_last]
  constructor
  · intro h
    rcases neverBelow_or_exists_return .code 0 cs with hall | ⟨b, after, rfl, hcode, hlevel, hb⟩
    · -- Without a return the text is over before the scan has an answer.
      obtain ⟨n, hn⟩ := Int.eq_ofNat_of_zero_le (hall cs List.prefix_rfl)
      have hover := closesAtEnd_append hall hn.symm []
      rw [List.append_nil, h, closesAtEnd] at hover
      contradiction
    · rw [hreturn hcode hlevel hb] at h
      obtain rfl := List.isEmpty_iff.mp h
      exact ⟨b, rfl, closed_iff_after.mpr hcode, by simpa [depth] using hlevel,
        neverBelow_code_iff.mp hb⟩
  · rintro ⟨inner, rfl, hinner⟩
    rw [hreturn (closed_iff_after.mp hinner.closed) (by simpa [depth] using hinner.level)
      (neverBelow_code_iff.mpr hinner.nonneg)]
    rfl

theorem isBracketed_iff_isGroup {text : String} :
    isBracketed text = true ↔ IsGroup text.toList := by
  unfold isBracketed IsGroup
  split
  · next cs hcs => simp only [closesAtEnd_iff, hcs, List.cons.injEq, true_and]
  · next hne =>
    refine ⟨nofun, ?_⟩
    rintro ⟨inner, hinner, -⟩
    exact absurd hinner (hne _)

/-! ## The counter -/

theorem utf8ByteSize_ofList_cons (c : Char) (cs : List Char) :
    (String.ofList (c :: cs)).utf8ByteSize = c.utf8Size + (String.ofList cs).utf8ByteSize := by
  rw [String.ofList_cons, String.utf8ByteSize_append, String.utf8ByteSize_singleton]

theorem offset_beq_last (offset : Nat) (cs : List Char) :
    (offset == offset + (String.ofList (')' :: cs)).utf8ByteSize - 1) = cs.isEmpty := by
  -- A bracket is of one byte. It is the last character if its offset is that of the last byte,
  -- however many bytes the characters have.
  have hbracket : Char.utf8Size ')' = 1 := rfl
  rw [utf8ByteSize_ofList_cons, hbracket]
  cases cs with
  | nil => simp
  | cons d cs =>
    have hpos := d.utf8Size_pos
    rw [utf8ByteSize_ofList_cons]
    simp only [List.isEmpty_cons, beq_eq_false_iff_ne]
    omega

/-- What the program keeps from one character to the next. -/
structure BracketScan where
  depth : Nat := 0
  inQuotes : Bool := false
  escaped : Bool := false

namespace BracketScan

inductive Outcome where
  | goOn (s : BracketScan)
  | answer (bracketed : Bool)
  /-- There is no bracket left to close. -/
  | belowZero

/-- One character, of which the byte offset is known, of a text of `size` bytes. -/
def step (size offset : Nat) (s : BracketScan) (c : Char) : Outcome :=
  if s.inQuotes then
    if s.escaped then .goOn { s with escaped := false }
    else if c = '\\' then .goOn { s with escaped := true }
    else if c = '\'' then .goOn { s with inQuotes := false }
    else .goOn s
  else if c = '\'' then .goOn { s with inQuotes := true }
  else if c = '(' then .goOn { s with depth := s.depth + 1 }
  else if c = ')' then
    match s.depth with
    | 0 => .belowZero
    | 1 => .answer (offset == size - 1)
    | depth + 2 => .goOn { s with depth := depth + 1 }
  else .goOn s

def run? (size : Nat) : Nat → BracketScan → List Char → Option Bool
  | _, _, [] => some false
  | offset, s, c :: cs =>
    match s.step size offset c with
    | .goOn s => run? size (offset + c.utf8Size) s cs
    | .answer bracketed => some bracketed
    | .belowZero => none

/-- The first bracket is open, and `inner` brackets inside of it. -/
def inside (mode : ScanMode) (inner : Nat) : BracketScan where
  depth := inner + 1
  inQuotes := mode != .code
  escaped := mode == .escaped

theorem step_inside {mode : ScanMode} {inner n : Nat} {c : Char}
    (hn : (n : Int) = inner + mode.rise c) (size offset : Nat) :
    (inside mode inner).step size offset c = .goOn (inside (mode.next c) n) := by
  rcases rise_cases hn with ⟨rfl, rfl, rfl⟩ | ⟨rfl, rfl, rfl⟩ | ⟨rfl, hplain⟩
  · rfl
  · rfl
  · cases mode with
    | escaped => rfl
    | quoted =>
      by_cases hb : c = '\\'
      · subst hb
        rfl
      by_cases hq : c = '\''
      · subst hq
        rfl
      · rw [ScanMode.next_quoted hb hq]
        simp [step, inside, hb, hq]
    | code =>
      obtain ⟨ho, hc⟩ := hplain rfl
      by_cases hq : c = '\''
      · subst hq
        rfl
      · rw [ScanMode.next_code hq]
        simp [step, inside, ho, hc, hq]

theorem step_close (size offset : Nat) :
    (inside .code 0).step size offset ')' = .answer (offset == size - 1) := rfl

/-- The program gives the answer of the scan, from wherever it is after the first bracket. -/
theorem run?_inside (mode : ScanMode) (inner : Nat) (cs : List Char) (offset : Nat) :
    run? (offset + (String.ofList cs).utf8ByteSize) offset (inside mode inner) cs =
      some (closesAtEnd mode inner cs) := by
  induction cs generalizing mode inner offset with
  | nil => cases mode <;> rfl
  | cons c cs ih =>
    rw [run?]
    by_cases hstep : 0 ≤ inner + mode.rise c
    · obtain ⟨n, hn⟩ := Int.eq_ofNat_of_zero_le hstep
      simp only [step_inside hn.symm]
      rw [utf8ByteSize_ofList_cons, ← Nat.add_assoc, ih, closesAtEnd_cons hn.symm]
    · obtain ⟨rfl, rfl, rfl⟩ := eq_close_of_rise_neg hstep
      simp only [step_close]
      rw [offset_beq_last, closesAtEnd_last]

end BracketScan

/-- `isBracketed` as a program that counts, `none` if the counter were to go below zero. -/
def bracketed? (text : String) : Option Bool :=
  if text.toList.head? = some '(' then BracketScan.run? text.utf8ByteSize 0 {} text.toList
  else some false

theorem bracketed?_eq (text : String) : bracketed? text = some (isBracketed text) := by
  unfold bracketed? isBracketed
  cases htext : text.toList with
  | nil => rfl
  | cons c cs =>
    by_cases hc : c = '('
    · subst hc
      have hsize : text.utf8ByteSize = 0 + Char.utf8Size '(' + (String.ofList cs).utf8ByteSize := by
        rw [← String.ofList_toList (s := text), htext, utf8ByteSize_ofList_cons, Nat.zero_add]
      have hfirst : ({} : BracketScan).step text.utf8ByteSize 0 '(' = .goOn (.inside .code 0) := rfl
      rw [List.head?_cons, if_pos rfl, BracketScan.run?, hfirst]
      simp only
      rw [hsize, BracketScan.run?_inside]
    · have hhead : (c :: cs).head? ≠ some '(' := by simpa using hc
      rw [if_neg hhead]
      split
      · next ds hds => exact absurd (List.cons.inj hds).1 hc
      · rfl

/-! ## Receivers -/

theorem toList_group (text : String) :
    ("(" ++ text ++ ")").toList = '(' :: (text.toList ++ [')']) := by
  simp

theorem receiver_eq_of {text : String} (h : isIdentifier text = true ∨ IsGroup text.toList) :
    receiver text = text := by
  rw [receiver, if_pos]
  rwa [Bool.or_eq_true, isBracketed_iff_isGroup]

theorem receiver_cases {text : String} (h : Balanced text.toList) :
    (isIdentifier (receiver text) = true ∨ IsGroup (receiver text).toList) ∧
      (receiver text = text ∨ receiver text = "(" ++ text ++ ")") := by
  by_cases hkept : isIdentifier text = true ∨ IsGroup text.toList
  · rw [receiver_eq_of hkept]
    exact ⟨hkept, Or.inl rfl⟩
  · have hgroup : receiver text = "(" ++ text ++ ")" := by
      rw [receiver, if_neg]
      rwa [Bool.or_eq_true, isBracketed_iff_isGroup]
    rw [hgroup]
    exact ⟨Or.inr ⟨text.toList, toList_group text, h⟩, Or.inr rfl⟩

theorem balanced_receiver {text : String} (h : Balanced text.toList) :
    Balanced (receiver text).toList := by
  rcases (receiver_cases h).2 with heq | heq
  · rwa [heq]
  · rw [heq]
    exact IsGroup.balanced ⟨text.toList, toList_group text, h⟩

/-- **Brackets before a point.** The count of open brackets never goes below zero. A text is taken
for bracketed if it starts with a bracket and its first return to depth zero, outside of quotes, is
its last character. A balanced text is kept before a point or gets one pair of brackets more; it is
an identifier or one group then, as balanced as before, and kept from there on. -/
theorem receiver_balanced :
    (∀ text, bracketed? text = some (isBracketed text)) ∧
    (∀ text, isBracketed text = true ↔ text.toList.head? = some '(' ∧
      ∃ before, IsFirstReturn text.toList before ∧ text.toList = before ++ [')']) ∧
    ∀ text, Balanced text.toList →
      (isIdentifier (receiver text) = true ∨ IsGroup (receiver text).toList) ∧
      Balanced (receiver text).toList ∧
      (receiver text = text ∨ receiver text = "(" ++ text ++ ")") ∧
      receiver (receiver text) = receiver text := by
  refine ⟨bracketed?_eq, ?_, ?_⟩
  · intro text
    rw [isBracketed_iff_isGroup, isGroup_iff_isFirstReturn]
  · intro text h
    obtain ⟨hshape, htext⟩ := receiver_cases h
    exact ⟨hshape, balanced_receiver h, htext, receiver_eq_of hshape⟩

/-- The first bracket is closed before the end, and the last but one is in quotes. -/
theorem receiver_balanced_quoted :
    Balanced "(a) + ('é\\')')".toList ∧ IsGroup (receiver "(a) + ('é\\')')").toList ∧
      receiver (receiver "(a) + ('é\\')')") = "((a) + ('é\\')'))" := by
  have hbalanced : Balanced "(a) + ('é\\')')".toList := by decide
  obtain ⟨hshape, -, -, hagain⟩ := receiver_balanced.2.2 _ hbalanced
  refine ⟨hbalanced, hshape.resolve_left (by decide), ?_⟩
  rw [hagain]
  decide

/-- A text that is not balanced gets brackets a second time. -/
example : receiver (receiver ")(") = "(()())" := by decide

end RowScript.Script

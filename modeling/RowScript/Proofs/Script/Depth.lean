import Mathlib.Data.List.Infix
import Mathlib.Tactic.SplitIfs
import RowScript.Script.Receiver

/-!
# Depth of texts

Outside of quoted texts, a bracket takes the depth of a text up or down by one. A text
is balanced if it closes its quotes and, from the inside out, its brackets, and it is a
group if one pair of brackets is around all the rest. A text that starts with a bracket
is a group if its first return to depth zero is its end (`isGroup_iff_isFirstReturn`).
-/

namespace RowScript.Script

/-! ## Quoted texts -/

/-- What follows an opening quote, with the closing one. A backslash takes the next
character with it. -/
inductive QuoteRest : List Char → Prop
  | close : QuoteRest ['\'']
  | escape (c : Char) {cs : List Char} (h : QuoteRest cs) : QuoteRest ('\\' :: c :: cs)
  | char {c : Char} {cs : List Char} (hb : c ≠ '\\') (hq : c ≠ '\'') (h : QuoteRest cs) :
      QuoteRest (c :: cs)

/-- A text that closes its quoted texts. What follows it is outside of quotes. -/
inductive Closed : List Char → Prop
  | nil : Closed []
  | char {c : Char} {cs : List Char} (hq : c ≠ '\'') (h : Closed cs) : Closed (c :: cs)
  | quoted {q cs : List Char} (hq : QuoteRest q) (h : Closed cs) : Closed ('\'' :: (q ++ cs))

namespace ScanMode

/-- Where a scan stands after the next character. -/
def next : ScanMode → Char → ScanMode
  | .code, c => if c = '\'' then .quoted else .code
  | .quoted, c => if c = '\\' then .escaped else if c = '\'' then .code else .quoted
  | .escaped, _ => .quoted

def after (mode : ScanMode) (cs : List Char) : ScanMode := cs.foldl next mode

@[simp] theorem after_nil (mode : ScanMode) : mode.after [] = mode := rfl

@[simp] theorem after_cons (mode : ScanMode) (c : Char) (cs : List Char) :
    mode.after (c :: cs) = (mode.next c).after cs := rfl

@[simp] theorem after_append (mode : ScanMode) (cs ds : List Char) :
    mode.after (cs ++ ds) = (mode.after cs).after ds := List.foldl_append

theorem next_code {c : Char} (hq : c ≠ '\'') : code.next c = code := if_neg hq

theorem next_quoted {c : Char} (hb : c ≠ '\\') (hq : c ≠ '\'') : quoted.next c = quoted := by
  rw [next, if_neg hb, if_neg hq]

end ScanMode

theorem QuoteRest.after_eq {q : List Char} (h : QuoteRest q) : ScanMode.quoted.after q = .code := by
  induction h with
  | close => rfl
  | escape c h ih => exact ih
  | char hb hq h ih => rw [ScanMode.after_cons, ScanMode.next_quoted hb hq, ih]

theorem closed_of_after {cs : List Char} :
    (ScanMode.code.after cs = .code → Closed cs) ∧
    (ScanMode.quoted.after cs = .code → ∃ q r, cs = q ++ r ∧ QuoteRest q ∧ Closed r) ∧
    (ScanMode.escaped.after cs = .code → ∃ c q r, cs = c :: (q ++ r) ∧ QuoteRest q ∧ Closed r) := by
  induction cs with
  | nil => exact ⟨fun _ => .nil, nofun, nofun⟩
  | cons c cs ih =>
    obtain ⟨hcode, hquoted, hescaped⟩ := ih
    refine ⟨?_, ?_, ?_⟩
    · intro h
      rw [ScanMode.after_cons, ScanMode.next] at h
      split_ifs at h with hq
      · subst hq
        obtain ⟨q, r, rfl, hrest, hclosed⟩ := hquoted h
        exact .quoted hrest hclosed
      · exact .char hq (hcode h)
    · intro h
      rw [ScanMode.after_cons, ScanMode.next] at h
      split_ifs at h with hb hq
      · subst hb
        obtain ⟨d, q, r, rfl, hrest, hclosed⟩ := hescaped h
        exact ⟨'\\' :: d :: q, r, rfl, .escape d hrest, hclosed⟩
      · subst hq
        exact ⟨['\''], cs, rfl, .close, hcode h⟩
      · obtain ⟨q, r, rfl, hrest, hclosed⟩ := hquoted h
        exact ⟨c :: q, r, rfl, .char hb hq hrest, hclosed⟩
    · intro h
      obtain ⟨q, r, rfl, hrest, hclosed⟩ := hquoted h
      exact ⟨c, q, r, rfl, hrest, hclosed⟩

theorem closed_iff_after {cs : List Char} : Closed cs ↔ ScanMode.code.after cs = .code := by
  refine ⟨fun h => ?_, closed_of_after.1⟩
  induction h with
  | nil => rfl
  | char hq h ih => rw [ScanMode.after_cons, ScanMode.next_code hq, ih]
  | quoted hq h ih =>
    have hnext : ScanMode.code.next '\'' = .quoted := rfl
    rw [ScanMode.after_cons, hnext, ScanMode.after_append, hq.after_eq, ih]

/-! ## Depth -/

/-- How much deeper a text is after the next character. A bracket in quotes does not count. -/
def ScanMode.rise : ScanMode → Char → Int
  | .code, c => if c = '(' then 1 else if c = ')' then -1 else 0
  | _, _ => 0

/-- How much deeper a text is after more of it. -/
def depthFrom : ScanMode → List Char → Int
  | _, [] => 0
  | mode, c :: cs => mode.rise c + depthFrom (mode.next c) cs

/-- The brackets that a text opens outside of quotes, less those that it closes there. -/
def depth (cs : List Char) : Int := depthFrom .code cs

@[simp] theorem depthFrom_nil (mode : ScanMode) : depthFrom mode [] = 0 := by
  cases mode <;> rfl

theorem depthFrom_cons (mode : ScanMode) (c : Char) (cs : List Char) :
    depthFrom mode (c :: cs) = mode.rise c + depthFrom (mode.next c) cs := by
  rw [depthFrom]

theorem depthFrom_append (mode : ScanMode) (cs ds : List Char) :
    depthFrom mode (cs ++ ds) = depthFrom mode cs + depthFrom (mode.after cs) ds := by
  induction cs generalizing mode with
  | nil => simp
  | cons c cs ih =>
    rw [List.cons_append, depthFrom_cons, depthFrom_cons, ih, ScanMode.after_cons, Int.add_assoc]

theorem depth_open (cs : List Char) : depth ('(' :: cs) = 1 + depth cs := by
  rw [depth, depthFrom_cons]
  rfl

theorem depth_close {cs : List Char} (h : Closed cs) : depth (cs ++ [')']) = depth cs - 1 := by
  rw [depth, depthFrom_append, closed_iff_after.mp h]
  rfl

theorem rise_cases {mode : ScanMode} {inner n : Nat} {c : Char}
    (hn : (n : Int) = inner + mode.rise c) :
    (mode = .code ∧ c = '(' ∧ n = inner + 1) ∨ (mode = .code ∧ c = ')' ∧ inner = n + 1) ∨
      (n = inner ∧ (mode = .code → c ≠ '(' ∧ c ≠ ')')) := by
  cases mode with
  | code =>
    rw [ScanMode.rise] at hn
    split_ifs at hn with ho hc
    · exact Or.inl ⟨rfl, ho, by omega⟩
    · exact Or.inr (Or.inl ⟨rfl, hc, by omega⟩)
    · exact Or.inr (Or.inr ⟨by omega, fun _ => ⟨ho, hc⟩⟩)
  | quoted =>
    have hrise : ScanMode.quoted.rise c = 0 := rfl
    exact Or.inr (Or.inr ⟨by omega, nofun⟩)
  | escaped =>
    have hrise : ScanMode.escaped.rise c = 0 := rfl
    exact Or.inr (Or.inr ⟨by omega, nofun⟩)

theorem eq_close_of_rise_neg {mode : ScanMode} {inner : Nat} {c : Char}
    (h : ¬0 ≤ inner + mode.rise c) : mode = .code ∧ inner = 0 ∧ c = ')' := by
  cases mode with
  | code =>
    rw [ScanMode.rise] at h
    split_ifs at h with ho hc
    · omega
    · exact ⟨rfl, by omega, hc⟩
    · omega
  | quoted =>
    have hrise : ScanMode.quoted.rise c = 0 := rfl
    omega
  | escaped =>
    have hrise : ScanMode.escaped.rise c = 0 := rfl
    omega

/-- From a place where `inner` brackets are open, a text closes no more than are open. -/
def NeverBelow (mode : ScanMode) (inner : Nat) (cs : List Char) : Prop :=
  ∀ p, p <+: cs → 0 ≤ inner + depthFrom mode p

theorem NeverBelow.nil (mode : ScanMode) (inner : Nat) : NeverBelow mode inner [] := by
  intro p hp
  rw [List.prefix_nil.mp hp, depthFrom_nil]
  omega

theorem neverBelow_cons_iff {mode : ScanMode} {inner n : Nat} {c : Char}
    (hn : (n : Int) = inner + mode.rise c) (cs : List Char) :
    NeverBelow mode inner (c :: cs) ↔ NeverBelow (mode.next c) n cs := by
  have hcons : ∀ p, (inner : Int) + depthFrom mode (c :: p) = n + depthFrom (mode.next c) p := by
    intro p
    rw [depthFrom_cons, hn, Int.add_assoc]
  constructor
  · intro h p hp
    rw [← hcons]
    exact h (c :: p) (List.cons_prefix_cons.mpr ⟨rfl, hp⟩)
  · intro h p hp
    rcases List.prefix_cons_iff.mp hp with rfl | ⟨q, rfl, hq⟩
    · exact NeverBelow.nil mode inner [] List.nil_prefix
    · rw [hcons]
      exact h q hq

theorem NeverBelow.rise_nonneg {mode : ScanMode} {inner : Nat} {c : Char} {cs : List Char}
    (h : NeverBelow mode inner (c :: cs)) : 0 ≤ inner + mode.rise c := by
  have hone := h [c] (List.prefix_append [c] cs)
  rwa [depthFrom_cons, depthFrom_nil, Int.add_zero] at hone

theorem neverBelow_or_exists_return (mode : ScanMode) (inner : Nat) (cs : List Char) :
    NeverBelow mode inner cs ∨
      ∃ b after, cs = b ++ ')' :: after ∧ mode.after b = .code ∧ inner + depthFrom mode b = 0 ∧
        NeverBelow mode inner b := by
  -- Depth changes by one at a time, so a text that closes more brackets than are open first closes
  -- the last one that is.
  induction cs generalizing mode inner with
  | nil => exact Or.inl (.nil mode inner)
  | cons c cs ih =>
    by_cases hstep : 0 ≤ inner + mode.rise c
    · obtain ⟨n, hn⟩ := Int.eq_ofNat_of_zero_le hstep
      rcases ih (mode.next c) n with hall | ⟨b, after, rfl, hcode, hlevel, hb⟩
      · exact Or.inl ((neverBelow_cons_iff hn.symm cs).mpr hall)
      · refine Or.inr ⟨c :: b, after, rfl, hcode, ?_, (neverBelow_cons_iff hn.symm b).mpr hb⟩
        rw [depthFrom_cons, ← Int.add_assoc, hn]
        exact hlevel
    · obtain ⟨rfl, rfl, rfl⟩ := eq_close_of_rise_neg hstep
      exact Or.inr ⟨[], cs, rfl, rfl, rfl, .nil _ _⟩

/-! ## Balanced texts and groups -/

/-- A text that closes its quotes and its brackets, none of these before it is opened. -/
structure Balanced (cs : List Char) : Prop where
  closed : Closed cs
  level : depth cs = 0
  nonneg : ∀ p, p <+: cs → 0 ≤ depth p

theorem balanced_iff {cs : List Char} :
    (ScanMode.code.after cs = .code ∧ depth cs = 0 ∧ ∀ p ∈ cs.inits, 0 ≤ depth p) ↔
      Balanced cs := by
  simp only [List.mem_inits, ← closed_iff_after]
  exact ⟨fun ⟨hc, hl, hn⟩ => ⟨hc, hl, hn⟩, fun ⟨hc, hl, hn⟩ => ⟨hc, hl, hn⟩⟩

instance (cs : List Char) : Decidable (Balanced cs) := decidable_of_iff _ balanced_iff

theorem neverBelow_code_iff {cs : List Char} :
    NeverBelow .code 0 cs ↔ ∀ p, p <+: cs → 0 ≤ depth p := by
  simp [NeverBelow, depth]

/-- A pair of brackets around all that is between them. -/
def IsGroup (cs : List Char) : Prop := ∃ inner, cs = '(' :: (inner ++ [')']) ∧ Balanced inner

theorem IsGroup.balanced {cs : List Char} (h : IsGroup cs) : Balanced cs := by
  obtain ⟨inner, rfl, hclosed, hlevel, hnonneg⟩ := h
  have hwhole : depth ('(' :: (inner ++ [')'])) = 0 := by
    rw [depth_open, depth_close hclosed, hlevel]
    rfl
  refine ⟨?_, hwhole, fun p hp => ?_⟩
  · rw [closed_iff_after, ScanMode.after_cons, ScanMode.next_code (by decide),
      ScanMode.after_append, closed_iff_after.mp hclosed]
    rfl
  · rcases List.prefix_cons_iff.mp hp with rfl | ⟨q, rfl, hq⟩
    · exact Int.le_refl 0
    · rcases List.prefix_concat_iff.mp hq with rfl | hq
      · exact Int.le_of_eq hwhole.symm
      · have hinner := hnonneg q hq
        rw [depth_open]
        omega

/-! ## Returns to depth zero -/

/-- After `before` stands a bracket outside of quotes that takes the depth of `cs` to zero. -/
structure IsReturn (cs before : List Char) : Prop where
  bracket : before ++ [')'] <+: cs
  outside : Closed before
  level : depth (before ++ [')']) = 0

/-- No return is nearer to the start. -/
structure IsFirstReturn (cs before : List Char) : Prop extends IsReturn cs before where
  first : ∀ b, IsReturn cs b → before.length ≤ b.length

theorem IsGroup.exists_isFirstReturn {cs : List Char} (h : IsGroup cs) :
    ∃ before, IsFirstReturn cs before ∧ cs = before ++ [')'] := by
  obtain ⟨inner, rfl, hinner⟩ := h
  refine ⟨'(' :: inner, ⟨⟨List.prefix_rfl, .char (by decide) hinner.closed, ?_⟩, ?_⟩, rfl⟩
  · exact (IsGroup.balanced ⟨inner, rfl, hinner⟩).level
  · intro b hb
    -- A return before the end would be one bracket deep at least.
    have hprefix : b ++ [')'] <+: ('(' :: inner) ++ [')'] := hb.bracket
    rcases List.prefix_concat_iff.mp hprefix with heq | hshort
    · exact (congrArg List.length (List.append_cancel_right heq)).ge
    · rcases List.prefix_cons_iff.mp hshort with hnil | ⟨q, hq, hprefix⟩
      · simp at hnil
      · have hlevel := hb.level
        rw [hq, depth_open] at hlevel
        have hnonneg := hinner.nonneg q hprefix
        omega

theorem isGroup_of_isFirstReturn {cs before : List Char} (hopen : cs.head? = some '(')
    (h : IsFirstReturn cs before) (hend : cs = before ++ [')']) : IsGroup cs := by
  subst hend
  cases before with
  | nil => simp at hopen
  | cons c inner =>
    obtain rfl : c = '(' := by simpa using hopen
    have hlevel := h.level
    rw [List.cons_append, depth_open] at hlevel
    rcases neverBelow_or_exists_return .code 0 (inner ++ [')']) with
      hall | ⟨b, after, heq, hcode, hzero, hb⟩
    · have hwhole := neverBelow_code_iff.mp hall _ List.prefix_rfl
      omega
    · have hclosed := closed_iff_after.mpr hcode
      have hdepth : depth b = 0 := by simpa [depth] using hzero
      have hreturn : IsReturn ('(' :: inner ++ [')']) ('(' :: b) := by
        refine ⟨?_, .char (by decide) hclosed, ?_⟩
        · rw [List.cons_append, List.cons_append, heq]
          exact ⟨after, by simp⟩
        · rw [List.cons_append, depth_open, depth_close hclosed, hdepth]
          rfl
      have hlength := h.first _ hreturn
      have hsum := congrArg List.length heq
      simp only [List.length_cons, List.length_append, List.length_nil] at hlength hsum
      obtain rfl : after = [] := List.eq_nil_of_length_eq_zero (by omega)
      obtain rfl : inner = b := List.append_cancel_right heq
      exact ⟨inner, rfl, hclosed, hdepth, neverBelow_code_iff.mp hb⟩

theorem isGroup_iff_isFirstReturn {cs : List Char} :
    IsGroup cs ↔ cs.head? = some '(' ∧ ∃ before, IsFirstReturn cs before ∧ cs = before ++ [')'] := by
  constructor
  · intro h
    refine ⟨?_, h.exists_isFirstReturn⟩
    obtain ⟨inner, rfl, -⟩ := h
    rfl
  · rintro ⟨hopen, before, h, hend⟩
    exact isGroup_of_isFirstReturn hopen h hend

end RowScript.Script

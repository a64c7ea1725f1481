import RowScript.Script.Receiver
import RowScript.Proofs.Script.Tree

/-!
# Names of temporaries

Temporaries are numbered, and different numbers give different names. None of
them is a keyword, a global or a column that can be a parameter.
-/

namespace RowScript.Script

theorem toList_temporaryName (n : Nat) :
    (temporaryName n).toList = '_' :: '_' :: 'v' :: Nat.toDigits 10 n := by
  rw [temporaryName, String.toList_append, temporaryMark]
  change _ ++ (Nat.repr n).toList = _
  rw [Nat.toList_repr]
  rfl

theorem temporaryName_injective {m n : Nat} (h : temporaryName m = temporaryName n) : m = n := by
  have hlist := congrArg String.toList h
  rw [toList_temporaryName, toList_temporaryName] at hlist
  simp only [List.cons.injEq, true_and] at hlist
  have hvalue := congrArg (fun digits => Nat.ofDigitChars 10 digits 0) hlist
  simpa [Nat.ofDigitChars_toDigits] using hvalue

theorem temporaryName_inj {m n : Nat} : temporaryName m = temporaryName n ↔ m = n :=
  ⟨temporaryName_injective, congrArg temporaryName⟩

theorem isTemporaryName_temporaryName (n : Nat) : isTemporaryName (temporaryName n) = true := by
  rw [isTemporaryName, toList_temporaryName]
  simp only [Bool.and_eq_true, Bool.not_eq_true', List.isEmpty_eq_false_iff, List.all_eq_true]
  refine ⟨Nat.toDigits_ne_nil, ?_⟩
  intro c hc
  exact Nat.isDigit_of_mem_toDigits (by decide) (by decide) hc

theorem isIdentifier_temporaryName (n : Nat) : isIdentifier (temporaryName n) = true := by
  rw [isIdentifier, toList_temporaryName]
  simp only [Bool.and_eq_true, List.all_eq_true]
  refine ⟨rfl, ?_⟩
  intro c hc
  rcases List.mem_cons.mp hc with rfl | hc
  · rfl
  rcases List.mem_cons.mp hc with rfl | hc
  · rfl
  have hdigit := Nat.isDigit_of_mem_toDigits (by decide) (by decide) hc
  simp [isIdentifierPart, Char.isAlphanum, hdigit]

theorem receiver_temporaryName (n : Nat) : receiver (temporaryName n) = temporaryName n := by
  rw [receiver, if_pos]
  rw [isIdentifier_temporaryName, Bool.true_or]

theorem temporaryName_not_mem {names : List String} (n : Nat)
    (h : names.all (fun name => !isTemporaryName name) = true) : temporaryName n ∉ names := by
  intro hm
  have hname := List.all_eq_true.mp h _ hm
  rw [isTemporaryName_temporaryName] at hname
  contradiction

theorem isBindable_temporaryName (n : Nat) : isBindable (temporaryName n) = true := by
  have hkeyword : temporaryName n ∉ keywords := temporaryName_not_mem n (by decide)
  have hliteral : temporaryName n ∉ literalWords := temporaryName_not_mem n (by decide)
  simp [isBindable, isOperandWord, isIdentifier_temporaryName, hkeyword, hliteral]

theorem not_isUsable_temporaryName (n : Nat) : isUsable (temporaryName n) = false := by
  rw [isUsable, isTemporaryName_temporaryName]
  simp

end RowScript.Script

import RowScript.Proofs.Script.Line

/-!
# Quoted texts

Whatever stands behind a quoted text, a script reads the quoted text up to the closing
quote that was written and takes it for the text that was quoted (`scanString?_quote`).
So no text can leave its quotes: quoted texts differ if their values do, none of them is
the beginning of another, and none has a control character or the end of a line in it.
-/

namespace RowScript.Script

/-- The value of the quoted text that a text starts with, and what follows the closing quote. -/
def scanString? : List Char → Option (String × List Char)
  | '\'' :: cs => (scanQuoted? cs).map fun p => (String.ofList p.1, p.2)
  | _ => none

theorem scanString?_quote_append (v : String) (rest : List Char) :
    scanString? ((quote v).toList ++ rest) = some (v, rest) := by
  have hquote : (quote v).toList ++ rest =
      '\'' :: (v.toList.flatMap escape ++ '\'' :: rest) := by simp
  rw [hquote, scanString?, scanQuoted?_flatMap_escape, Option.map_some, String.ofList_toList]

theorem eq_of_quote_append {v w : String} {rest : List Char}
    (h : (quote v).toList ++ rest = (quote w).toList) : v = w := by
  have hv := scanString?_quote_append v rest
  have hw := scanString?_quote_append w []
  rw [h] at hv
  rw [List.append_nil, hv] at hw
  exact congrArg Prod.fst (Option.some.inj hw)

/-! ## Control characters -/

theorem isControl_hexDigit (n : Nat) : isControl (hexDigit (n % 16)) = false := by
  have hall : ∀ d < 16, isControl (hexDigit d) = false := by decide
  exact hall _ (Nat.mod_lt _ (by decide))

theorem all_escape (c : Char) : (escape c).all (fun d => !isControl d) = true := by
  unfold escape
  split_ifs with _ _ _ _ _ hc
  · rfl
  · rfl
  · rfl
  · rfl
  · rfl
  · rw [hexDigits_four]
    simp only [List.all_cons, isControl_hexDigit]
    rfl
  · simp only [Bool.or_eq_true, not_or, Bool.not_eq_true] at hc
    simp [hc.2]

theorem isControl_of_mem_quote {v : String} {c : Char} (h : c ∈ (quote v).toList) :
    isControl c = false := by
  rw [toList_quote, List.mem_cons, List.mem_append, List.mem_flatMap, List.mem_singleton] at h
  rcases h with rfl | ⟨d, -, hc⟩ | rfl
  · rfl
  · simpa using List.all_eq_true.mp (all_escape d) c hc
  · rfl

/-- **Quoted texts.** A text is read back from its quotes, and what follows them is left alone.
No two texts are quoted alike, and no quoted text goes on as another. It has no control character
in it and no end of a line. -/
theorem scanString?_quote :
    (∀ v s, scanString? ((quote v).toList ++ s) = some (v, s)) ∧
    Function.Injective quote ∧
    (∀ v w, (quote v).toList <+: (quote w).toList → v = w) ∧
    ∀ v, ∀ c ∈ (quote v).toList, isControl c = false ∧ isLineTerminator c = false := by
  refine ⟨scanString?_quote_append, ?_, ?_, ?_⟩
  · intro v w h
    have happend : (quote v).toList ++ [] = (quote w).toList := by rw [h, List.append_nil]
    exact eq_of_quote_append happend
  · rintro v w ⟨rest, h⟩
    exact eq_of_quote_append h
  · intro v c hc
    exact ⟨isControl_of_mem_quote hc, inLine_quote v c hc⟩

/-- A backslash before a quote, digits after an escape, and what only scripts take for the end of
a line. -/
example : quote "\\'\x7f0\u2028\n😀" = "'\\\\\\'\\u007f0\\u2028\\n😀'" := by decide

end RowScript.Script

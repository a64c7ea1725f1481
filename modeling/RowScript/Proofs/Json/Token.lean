import Mathlib.Tactic.SplitIfs
import RowScript.Json.Token

/-!
# Tokens of written JSON texts

A token whose end does not depend on what follows it is read back from its text,
and so is a row of such tokens (`Spells.flatMap_text`). A string is read back
whatever its characters are: escaping and reading it are inverse to each other,
character by character.
-/

namespace RowScript.Json

/-! ## Strings -/

/-- Characters that are escaped in hexadecimal. -/
def isHexEscaped (c : Char) : Bool :=
  c.toNat < 0x20 && !(['\x08', '\x0c', '\n', '\x0d', '\t'].contains c)

/-- What a character is read as. -/
def Piece.ofChar (c : Char) : Piece := if isHexEscaped c then .unit c.toNat else .char c

theorem scanPieces?_hex {c : Char} (h : c.toNat < 0x10000) (rest : List Char) :
    scanPieces? ('\\' :: 'u' :: hexDigits 4 c.toNat ++ rest) =
      (scanPieces? rest).map fun p => (.unit c.toNat :: p.1, p.2) := by
  have hpower : Nat.pow 16 4 = 0x10000 := rfl
  have hnumber : hexNumber? (hexDigits 4 c.toNat) = some c.toNat := by
    rw [hexNumber?_hexDigits, hpower, Nat.mod_eq_of_lt h]
  rw [hexDigits_four] at hnumber ⊢
  simp only [List.cons_append, List.nil_append]
  rw [scanPieces?, hnumber]
  cases scanPieces? rest <;> rfl

theorem scanPieces?_short {c e : Char} (hc : c ≠ 'u') (he : unescape? c = some e)
    (rest : List Char) :
    scanPieces? ('\\' :: c :: rest) = (scanPieces? rest).map fun p => (.char e :: p.1, p.2) := by
  rw [scanPieces?, he]
  · cases scanPieces? rest <;> rfl
  · exact fun _ _ _ _ _ h _ => hc h

theorem scanPieces?_plain {c : Char} (hq : c ≠ '"') (hb : c ≠ '\\') (hc : ¬c.toNat < 0x20)
    (rest : List Char) :
    scanPieces? (c :: rest) = (scanPieces? rest).map fun p => (.char c :: p.1, p.2) := by
  rw [scanPieces?, if_neg (by simp [hc, hb])]
  · cases scanPieces? rest <;> rfl
  · exact fun h => hq h
  · exact fun _ _ _ _ _ h _ => hb h
  · exact fun _ _ h _ => hb h

theorem scanPieces?_escape (c : Char) (rest : List Char) :
    scanPieces? (escape c ++ rest) =
      (scanPieces? rest).map fun p => (Piece.ofChar c :: p.1, p.2) := by
  unfold escape
  split_ifs with h1 h2 h3 h4 h5 h6 h7 h8
  · subst h1; exact scanPieces?_short (by decide) rfl rest
  · subst h2; exact scanPieces?_short (by decide) rfl rest
  · subst h3; exact scanPieces?_short (by decide) rfl rest
  · subst h4; exact scanPieces?_short (by decide) rfl rest
  · subst h5; exact scanPieces?_short (by decide) rfl rest
  · subst h6; exact scanPieces?_short (by decide) rfl rest
  · subst h7; exact scanPieces?_short (by decide) rfl rest
  · have hhex : isHexEscaped c = true := by simp [isHexEscaped, h3, h4, h5, h6, h7, h8]
    rw [Piece.ofChar, if_pos hhex]
    exact scanPieces?_hex (by omega) rest
  · have hhex : isHexEscaped c = false := by simp [isHexEscaped, h8]
    rw [Piece.ofChar, hhex]
    exact scanPieces?_plain h1 h2 h8 rest

theorem scanPieces?_flatMap_escape (cs rest : List Char) :
    scanPieces? (cs.flatMap escape ++ '"' :: rest) = some (cs.map Piece.ofChar, rest) := by
  induction cs with
  | nil => rfl
  | cons c cs ih =>
    rw [List.flatMap_cons, List.append_assoc, scanPieces?_escape, ih]
    rfl

theorem joinPieces?_unit {n : Nat} (h : n < 0xD800) (ps : List Piece) :
    joinPieces? (.unit n :: ps) = (joinPieces? ps).map (Char.ofNat n :: ·) := by
  have hhigh : isHighSurrogate n = false := by simp [isHighSurrogate]; omega
  have hlow : isLowSurrogate n = false := by simp [isLowSurrogate]; omega
  cases ps with
  | nil => simp [joinPieces?, hhigh, hlow]
  | cons p ps => cases p <;> simp [joinPieces?, hhigh, hlow]

theorem joinPieces?_map_ofChar (cs : List Char) : joinPieces? (cs.map Piece.ofChar) = some cs := by
  induction cs with
  | nil => rfl
  | cons c cs ih =>
    rw [List.map_cons, Piece.ofChar]
    split
    · next h =>
      have hlt : c.toNat < 0xD800 := by
        simp only [isHexEscaped, Bool.and_eq_true, decide_eq_true_eq] at h
        omega
      rw [joinPieces?_unit hlt, ih, Char.ofNat_toNat]
      rfl
    · rw [joinPieces?, ih]
      rfl

/-! ## Tokens -/

namespace Token

/-- Whether a token ends where its text ends, whatever follows. -/
def isClosed : Token → Bool
  | number _ | unpaired => false
  | _ => true

theorem scan?_text {t : Token} (h : t.isClosed = true) (rest : List Char) :
    scan? (t.text ++ rest) = some (t, rest) := by
  cases t with
  | number n => contradiction
  | unpaired => contradiction
  | bool b => cases b <;> rfl
  | string s =>
    have hs : (string s).text ++ rest = '"' :: (s.toList.flatMap escape ++ '"' :: rest) := by
      simp [text]
    rw [hs, scan?, scanPieces?_flatMap_escape]
    simp [ofPieces, joinPieces?_map_ofChar]
  | _ => rfl

theorem text_start {t : Token} (h : t.isClosed = true) :
    ∃ c cs, t.text = c :: cs ∧ isBlank c = false := by
  cases t with
  | number n => contradiction
  | unpaired => contradiction
  | bool b => cases b <;> exact ⟨_, _, rfl, rfl⟩
  | _ => exact ⟨_, _, rfl, rfl⟩

end Token

theorem tokens?_cons {c : Char} {r rest : List Char} {t : Token} (hc : isBlank c = false)
    (h : Token.scan? (c :: r) = some (t, rest)) :
    tokens? (c :: r) = (tokens? rest).map (t :: ·) := by
  rw [tokens?]
  simp only [hc, Bool.false_eq_true, if_false]
  split
  · simp_all
  · simp_all

/-! ## Rows of tokens -/

/-- A text is read as the tokens `ts`, whatever follows it. -/
def Spells (cs : List Char) (ts : List Token) : Prop :=
  ∀ rest, tokens? (cs ++ rest) = (tokens? rest).map (ts ++ ·)

namespace Spells

variable {cs ds : List Char} {ts us : List Token}

theorem nil : Spells [] [] := by
  intro rest
  simp

theorem append (h : Spells cs ts) (h' : Spells ds us) : Spells (cs ++ ds) (ts ++ us) := by
  intro rest
  rw [List.append_assoc, h, h', Option.map_map]
  cases tokens? rest <;> simp

theorem token {t : Token} (h : t.isClosed = true) : Spells t.text [t] := by
  intro rest
  have hscan := Token.scan?_text h rest
  obtain ⟨c, cs, htext, hc⟩ := Token.text_start h
  rw [htext, List.cons_append] at hscan ⊢
  exact tokens?_cons hc hscan

theorem blank {c : Char} (h : isBlank c = true) : Spells [c] [] := by
  intro rest
  rw [List.singleton_append, tokens?, if_pos h]
  cases tokens? rest <;> rfl

theorem flatMap_text (h : ∀ t ∈ ts, t.isClosed = true) : Spells (ts.flatMap Token.text) ts := by
  induction ts with
  | nil => exact nil
  | cons t ts ih =>
    exact (token (h t List.mem_cons_self)).append (ih fun u hu => h u (List.mem_cons_of_mem _ hu))

theorem tokens?_eq (h : Spells cs ts) : tokens? cs = some ts := by
  have hall := h []
  rw [List.append_nil, tokens?] at hall
  simpa using hall

end Spells

end RowScript.Json

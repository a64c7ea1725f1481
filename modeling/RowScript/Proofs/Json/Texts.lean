import RowScript.Proofs.Json.Reader

/-!
# Texts of JSON values

The reader loses nothing: the tokens that it has consumed are those of the frames
that it holds open and of the value that it has just finished (`tokens_of_run`). So
a text is read as a value only if it is a text of that value (`parse?_eq_some_iff`).
-/

namespace RowScript.Json

/-- Apart from blanks and escapes, the text writes the value. -/
def IsText (v : Json) (text : String) : Prop := tokens? text.toList = some v.tokens

instance (v : Json) (text : String) : Decidable (v.IsText text) :=
  inferInstanceAs (Decidable (tokens? text.toList = some v.tokens))

/-! ## Tokens that have been consumed -/

/-- The tokens that have opened a frame and made what it holds. -/
def Frame.spent : Frame → List Token
  | .array vs => .leftBracket :: vs.reverse.flatMap fun v => v.tokens ++ [.comma]
  | .object ms key =>
    .leftBrace :: ((ms.reverse.flatMap fun m =>
      .string m.1 :: .colon :: (m.2.tokens ++ [.comma])) ++ [.string key, .colon])

/-- The tokens of the frames, the innermost of which is the first. -/
def spent : List Frame → List Token
  | [] => []
  | f :: fs => spent fs ++ f.spent

theorem elementTokens_concat (vs : List Json) (v : Json) :
    elementTokens (vs ++ [v]) = (vs.flatMap fun v => v.tokens ++ [.comma]) ++ v.tokens := by
  induction vs with
  | nil => rfl
  | cons w vs ih =>
    have hcons : elementTokens (w :: (vs ++ [v])) =
        w.tokens ++ .comma :: elementTokens (vs ++ [v]) := by
      cases vs <;> rfl
    rw [List.cons_append, hcons, ih, List.flatMap_cons]
    simp only [List.append_assoc, List.cons_append, List.nil_append]

theorem memberTokens_concat (ms : List (String × Json)) (key : String) (v : Json) :
    memberTokens (ms ++ [(key, v)]) =
      (ms.flatMap fun m => .string m.1 :: .colon :: (m.2.tokens ++ [.comma])) ++
        .string key :: .colon :: v.tokens := by
  induction ms with
  | nil => rfl
  | cons m ms ih =>
    have hcons : memberTokens (m :: (ms ++ [(key, v)])) =
        .string m.1 :: .colon :: (m.2.tokens ++ .comma :: memberTokens (ms ++ [(key, v)])) := by
      cases ms <;> rfl
    rw [List.cons_append, hcons, ih, List.flatMap_cons]
    simp only [List.append_assoc, List.cons_append, List.nil_append]

theorem tokens_array_reverse (v : Json) (vs : List Json) :
    (array (v :: vs).reverse).tokens = (Frame.array vs).spent ++ v.tokens ++ [.rightBracket] := by
  rw [tokens, List.reverse_cons, elementTokens_concat, Frame.spent]
  rfl

theorem tokens_object_reverse (key : String) (v : Json) (ms : List (String × Json)) :
    (object ((key, v) :: ms).reverse).tokens =
      (Frame.object ms key).spent ++ v.tokens ++ [.rightBrace] := by
  rw [tokens, List.reverse_cons, memberTokens_concat, Frame.spent]
  simp only [List.append_assoc, List.cons_append, List.nil_append]

theorem spent_array_cons (v : Json) (vs : List Json) :
    (Frame.array (v :: vs)).spent = (Frame.array vs).spent ++ v.tokens ++ [.comma] := by
  rw [Frame.spent, Frame.spent, List.reverse_cons, List.flatMap_append, List.flatMap_singleton]
  simp only [List.append_assoc, List.cons_append]

theorem spent_object_cons (key key' : String) (v : Json) (ms : List (String × Json)) :
    (Frame.object ((key, v) :: ms) key').spent =
      (Frame.object ms key).spent ++ v.tokens ++ [.comma, .string key', .colon] := by
  rw [Frame.spent, Frame.spent, List.reverse_cons, List.flatMap_append, List.flatMap_singleton]
  simp only [List.append_assoc, List.cons_append, List.nil_append]

theorem tokens_of_run {room : Nat} {ts : List Token} {fs : List Frame} {done : Option Json}
    {w : Json} (h : run room ts fs done = some w) :
    w.tokens = spent fs ++ done.elim [] tokens ++ ts := by
  fun_induction run room ts fs done with
  | case1 room v =>
    obtain rfl := Option.some.inj h
    exact (List.append_nil _).symm
  | case2 room ts vs fs v ih =>
    rw [ih h, spent, spent, spent_array_cons]
    simp only [Option.elim, List.append_assoc, List.cons_append, List.nil_append]
  | case3 room ts vs fs v ih =>
    rw [ih h, spent, Option.elim, tokens_array_reverse]
    simp only [Option.elim, List.append_assoc, List.cons_append, List.nil_append]
  | case4 room key' ts ms key fs v ih =>
    rw [ih h, spent, spent, spent_object_cons]
    simp only [Option.elim, List.append_assoc, List.cons_append, List.nil_append]
  | case5 room ts ms key fs v ih =>
    rw [ih h, spent, Option.elim, tokens_object_reverse]
    simp only [Option.elim, List.append_assoc, List.cons_append, List.nil_append]
  | case6 room ts fs ih | case7 room b ts fs ih | case8 room n ts fs ih | case9 room s ts fs ih =>
    rw [ih h]
    simp only [Option.elim, tokens, List.append_assoc, List.cons_append, List.nil_append]
  | case10 | case12 | case14 | case16 => contradiction
  | case11 room ts fs hroom ih | case15 room ts fs hroom ih =>
    rw [ih h]
    simp only [Option.elim, tokens, elementTokens, memberTokens, List.append_assoc,
      List.cons_append, List.nil_append]
  | case13 room ts fs hts hroom ih | case17 room key ts fs hroom ih =>
    rw [ih h, spent]
    simp only [Option.elim, Frame.spent, List.reverse_nil, List.flatMap_nil, List.append_assoc,
      List.cons_append, List.nil_append]
  | case18 => contradiction

/-! ## Texts -/

theorem isText_of_parse? {limit : Nat} {text : String} {v : Json}
    (h : parse? limit text = some v) : v.IsText text := by
  obtain ⟨ts, hts, hrun⟩ := Option.bind_eq_some_iff.mp h
  have htokens := tokens_of_run hrun
  rw [IsText, hts, htokens]
  rfl

theorem parse?_eq_some_iff {limit : Nat} {text : String} {v : Json} :
    parse? limit text = some v ↔ v.IsText text ∧ v.depth ≤ limit := by
  constructor
  · exact fun h => ⟨isText_of_parse? h, depth_le_of_parse? h⟩
  · rintro ⟨htext, hdepth⟩
    rw [parse?_of_tokens htext, if_pos hdepth]

theorem IsText.unique {v w : Json} {text : String} (hv : v.IsText text) (hw : w.IsText text) :
    v = w := by
  have hreadV := parse?_eq_some_iff.mpr ⟨hv, Nat.le_max_left v.depth w.depth⟩
  have hreadW := parse?_eq_some_iff.mpr ⟨hw, Nat.le_max_right v.depth w.depth⟩
  rw [hreadV] at hreadW
  exact Option.some.inj hreadW

end RowScript.Json

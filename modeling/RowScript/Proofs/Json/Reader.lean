import Mathlib.Logic.Basic
import RowScript.Json.Number
import RowScript.Json.Parser
import RowScript.Json.Printer
import RowScript.Proofs.Json.Token

/-!
# Written JSON texts are read back

The compact text of a value is read back to that value if the nesting of the
value is within the limit, and refused if it is not (`parse?_compact`). A value
that has been read is within the limit, however its text was written
(`depth_le_of_parse?`). With no limit in the way, different values have
different texts (`compact_injective`).
-/

namespace RowScript.Json

/-- Induction over values, in which elements and the contents of members count as parts. -/
@[induction_eliminator, elab_as_elim]
theorem induction {motive : Json → Prop} (null : motive .null) (bool : ∀ b, motive (.bool b))
    (number : ∀ n, motive (.number n)) (string : ∀ s, motive (.string s))
    (array : ∀ vs, (∀ v ∈ vs, motive v) → motive (.array vs))
    (object : ∀ ms, (∀ m ∈ ms, motive m.2) → motive (.object ms)) (v : Json) : motive v := by
  refine @Json.rec motive (fun vs => ∀ v ∈ vs, motive v) (fun ms => ∀ m ∈ ms, motive m.2)
    (fun m => motive m.2) null bool number string array object ?_ ?_ ?_ ?_ (fun _ _ h => h) v
  · intro v hv
    cases hv
  · intro v vs hv hvs w hw
    rcases List.mem_cons.mp hw with rfl | hw
    · exact hv
    · exact hvs w hw
  · intro m hm
    cases hm
  · intro m ms hm hms k hk
    rcases List.mem_cons.mp hk with rfl | hk
    · exact hm
    · exact hms k hk

/-! ## Nesting -/

mutual

/-- How many arrays and objects stand inside each other, at most. -/
def depth : Json → Nat
  | .array vs => depthOf vs + 1
  | .object ms => depthOfMembers ms + 1
  | _ => 0

def depthOf : List Json → Nat
  | [] => 0
  | v :: vs => max v.depth (depthOf vs)

def depthOfMembers : List (String × Json) → Nat
  | [] => 0
  | (_, v) :: ms => max v.depth (depthOfMembers ms)

end

theorem depthOf_le_iff {vs : List Json} {n : Nat} : depthOf vs ≤ n ↔ ∀ v ∈ vs, v.depth ≤ n := by
  induction vs with
  | nil => simp [depthOf]
  | cons v vs ih => rw [depthOf, Nat.max_le, ih, List.forall_mem_cons]

theorem depthOfMembers_le_iff {ms : List (String × Json)} {n : Nat} :
    depthOfMembers ms ≤ n ↔ ∀ m ∈ ms, m.2.depth ≤ n := by
  induction ms with
  | nil => simp [depthOfMembers]
  | cons m ms ih => rw [depthOfMembers, Nat.max_le, ih, List.forall_mem_cons]

theorem depth_array_le_iff {vs : List Json} {n : Nat} :
    (array vs).depth ≤ n + 1 ↔ ∀ v ∈ vs, v.depth ≤ n := by
  rw [depth, Nat.add_le_add_iff_right, depthOf_le_iff]

theorem depth_object_le_iff {ms : List (String × Json)} {n : Nat} :
    (object ms).depth ≤ n + 1 ↔ ∀ m ∈ ms, m.2.depth ≤ n := by
  rw [depth, Nat.add_le_add_iff_right, depthOfMembers_le_iff]

/-! ## The tokens of a value -/

theorem tokens_start (v : Json) :
    ∃ t ts, v.tokens = t :: ts ∧ t ≠ .rightBracket ∧ t ≠ .rightBrace := by
  cases v <;> exact ⟨_, _, rfl, nofun, nofun⟩

theorem run_leftBracket {ts : List Token} (h : ∀ us, ts ≠ .rightBracket :: us) (room : Nat)
    (fs : List Frame) :
    run room (.leftBracket :: ts) fs none =
      if room = 0 then none else run (room - 1) ts (.array [] :: fs) none := by
  cases ts with
  | nil => rw [run.eq_def]
  | cons t ts =>
    cases t with
    | rightBracket => exact absurd rfl (h ts)
    | _ => rw [run.eq_def]

/-- What the machine does with the tokens of a value. -/
def Runs (v : Json) : Prop :=
  ∀ (room : Nat) (ts : List Token) (fs : List Frame), run room (v.tokens ++ ts) fs none =
    if v.depth ≤ room then run room ts fs (some v) else none

theorem run_elements {vs : List Json} (hvs : ∀ v ∈ vs, Runs v) (hne : vs ≠ []) (room : Nat)
    (before : List Json) (ts : List Token) (fs : List Frame) :
    run room (elementTokens vs ++ .rightBracket :: ts) (.array before :: fs) none =
      if depthOf vs ≤ room then run (room + 1) ts fs (some (.array (before.reverse ++ vs)))
      else none := by
  induction vs generalizing before with
  | nil => contradiction
  | cons v vs ih =>
    have hv := hvs v List.mem_cons_self
    cases vs with
    | nil =>
      have hdepth : depthOf [v] = v.depth := Nat.max_zero _
      rw [elementTokens, hv, hdepth, run, List.reverse_cons]
    | cons w vs =>
      have hrest := ih (fun u hu => hvs u (List.mem_cons_of_mem _ hu)) (List.cons_ne_nil _ _)
        (v :: before)
      have htokens : elementTokens (v :: w :: vs) = v.tokens ++ .comma :: elementTokens (w :: vs) :=
        rfl
      have hdepth : depthOf (v :: w :: vs) ≤ room ↔ v.depth ≤ room ∧ depthOf (w :: vs) ≤ room :=
        Nat.max_le
      rw [htokens, List.append_assoc, hv, List.cons_append, run, hrest, List.reverse_cons,
        List.append_assoc, ← ite_and]
      simp only [hdepth, List.singleton_append]

theorem run_members {ms : List (String × Json)} (key : String) {v : Json} (hv : Runs v)
    (hms : ∀ m ∈ ms, Runs m.2) (room : Nat) (before : List (String × Json)) (ts : List Token)
    (fs : List Frame) :
    run room ((memberTokens ((key, v) :: ms)).drop 2 ++ .rightBrace :: ts)
        (.object before key :: fs) none =
      if depthOfMembers ((key, v) :: ms) ≤ room then
        run (room + 1) ts fs (some (.object (before.reverse ++ (key, v) :: ms)))
      else none := by
  induction ms generalizing key v before with
  | nil =>
    have htokens : (memberTokens [(key, v)]).drop 2 = v.tokens := rfl
    have hdepth : depthOfMembers [(key, v)] = v.depth := Nat.max_zero _
    rw [htokens, hv, hdepth, run, List.reverse_cons]
  | cons m ms ih =>
    obtain ⟨key', w⟩ := m
    have hw : Runs w := hms _ List.mem_cons_self
    have hrest := ih key' hw (fun k hk => hms k (List.mem_cons_of_mem _ hk)) ((key, v) :: before)
    have htokens : (memberTokens ((key, v) :: (key', w) :: ms)).drop 2 =
        v.tokens ++ .comma :: .string key' :: .colon :: (memberTokens ((key', w) :: ms)).drop 2 := by
      cases ms <;> rfl
    have hdepth : depthOfMembers ((key, v) :: (key', w) :: ms) ≤ room ↔
        v.depth ≤ room ∧ depthOfMembers ((key', w) :: ms) ≤ room := Nat.max_le
    rw [htokens, List.append_assoc, hv]
    simp only [List.cons_append]
    rw [run, hrest, List.reverse_cons, List.append_assoc, ← ite_and]
    simp only [hdepth, List.singleton_append]

theorem run_tokens (v : Json) : Runs v := by
  induction v with
  | null | bool | number | string => intro room ts fs; rfl
  | array vs ih =>
    intro room ts fs
    have hdepth : (array vs).depth ≤ room ↔ room ≠ 0 ∧ depthOf vs ≤ room - 1 := by
      rw [depth]
      omega
    cases vs with
    | nil =>
      rw [tokens, elementTokens]
      simp only [hdepth, List.nil_append, List.cons_append, run, depthOf, Nat.zero_le, and_true,
        ite_not]
    | cons v vs =>
      obtain ⟨t, us, ht, hne, -⟩ := v.tokens_start
      have hopen : ∀ us', elementTokens (v :: vs) ++ .rightBracket :: ts ≠ .rightBracket :: us' := by
        intro us' h
        cases vs <;> simp [elementTokens, ht, hne] at h
      rw [tokens, List.cons_append, List.append_assoc, List.singleton_append,
        run_leftBracket hopen, run_elements ih (List.cons_ne_nil _ _)]
      simp only [hdepth]
      by_cases hroom : room = 0
      · simp [hroom]
      · simp [hroom, Nat.sub_add_cancel (Nat.pos_of_ne_zero hroom)]
  | object ms ih =>
    intro room ts fs
    have hdepth : (object ms).depth ≤ room ↔ room ≠ 0 ∧ depthOfMembers ms ≤ room - 1 := by
      rw [depth]
      omega
    cases ms with
    | nil =>
      rw [tokens, memberTokens]
      simp only [hdepth, List.nil_append, List.cons_append, run, depthOfMembers, Nat.zero_le,
        and_true, ite_not]
    | cons m ms =>
      obtain ⟨key, v⟩ := m
      have htokens : memberTokens ((key, v) :: ms) =
          .string key :: .colon :: (memberTokens ((key, v) :: ms)).drop 2 := by
        cases ms <;> rfl
      rw [tokens, List.cons_append, List.append_assoc, List.singleton_append, htokens]
      simp only [List.cons_append]
      rw [run, run_members key (ih _ List.mem_cons_self) fun k hk => ih k (List.mem_cons_of_mem _ hk)]
      simp only [hdepth]
      by_cases hroom : room = 0
      · simp [hroom]
      · simp [hroom, Nat.sub_add_cancel (Nat.pos_of_ne_zero hroom)]

/-! ## Values without numbers -/

/-- Nothing in the value is a number. What remains is written in closed tokens. -/
inductive Plain : Json → Prop
  | null : Plain .null
  | bool (b : Bool) : Plain (.bool b)
  | string (s : String) : Plain (.string s)
  | array {vs : List Json} (h : ∀ v ∈ vs, Plain v) : Plain (.array vs)
  | object {ms : List (String × Json)} (h : ∀ m ∈ ms, Plain m.2) : Plain (.object ms)

theorem mem_elementTokens {vs : List Json} {t : Token} (h : t ∈ elementTokens vs) :
    t = .comma ∨ ∃ v ∈ vs, t ∈ v.tokens := by
  induction vs with
  | nil => simp [elementTokens] at h
  | cons v vs ih => cases vs <;> grind [elementTokens]

theorem mem_memberTokens {ms : List (String × Json)} {t : Token} (h : t ∈ memberTokens ms) :
    t = .comma ∨ t = .colon ∨ (∃ m ∈ ms, t = .string m.1) ∨ ∃ m ∈ ms, t ∈ m.2.tokens := by
  induction ms with
  | nil => simp [memberTokens] at h
  | cons m ms ih => cases ms <;> grind [memberTokens]

theorem Plain.isClosed {v : Json} (h : v.Plain) : ∀ t ∈ v.tokens, t.isClosed = true := by
  induction h with
  | null => decide
  | bool b => simp [tokens, Token.isClosed]
  | string s => simp [tokens, Token.isClosed]
  | array _ ih =>
    intro t ht
    simp only [tokens, List.mem_cons, List.mem_append, List.not_mem_nil, or_false] at ht
    rcases ht with rfl | ht | rfl
    · rfl
    · rcases mem_elementTokens ht with rfl | ⟨v, hv, ht⟩
      · rfl
      · exact ih v hv t ht
    · rfl
  | object _ ih =>
    intro t ht
    simp only [tokens, List.mem_cons, List.mem_append, List.not_mem_nil, or_false] at ht
    rcases ht with rfl | ht | rfl
    · rfl
    · rcases mem_memberTokens ht with rfl | rfl | ⟨m, hm, rfl⟩ | ⟨m, hm, ht⟩
      · rfl
      · rfl
      · rfl
      · exact ih m hm t ht
    · rfl

theorem allFinite_iff {vs : List Json} : allFinite vs = true ↔ ∀ v ∈ vs, v.isFinite = true := by
  induction vs with
  | nil => simp [allFinite]
  | cons v vs ih => simp [allFinite, ih]

theorem membersFinite_iff {ms : List (String × Json)} :
    membersFinite ms = true ↔ ∀ m ∈ ms, m.2.isFinite = true := by
  induction ms with
  | nil => simp [membersFinite]
  | cons m ms ih => simp [membersFinite, ih]

theorem Plain.isFinite {v : Json} (h : v.Plain) : v.isFinite = true := by
  induction h with
  | null | bool | string => rfl
  | array _ ih => exact allFinite_iff.mpr ih
  | object _ ih => exact membersFinite_iff.mpr ih

theorem parse?_of_tokens {v : Json} {text : String} (h : tokens? text.toList = some v.tokens)
    (limit : Nat) : parse? limit text = if v.depth ≤ limit then some v else none := by
  have hrun := run_tokens v limit [] []
  rw [List.append_nil, run] at hrun
  rw [parse?, h]
  exact hrun

/-- **Reading back.** The compact text of a value is read as this value within the limit, and not
at all beyond it. -/
theorem parse?_compact {v : Json} (h : v.Plain) (limit : Nat) :
    parse? limit v.compact = if v.depth ≤ limit then some v else none := by
  refine parse?_of_tokens ?_ limit
  rw [compact, String.toList_ofList, (Spells.flatMap_text h.isClosed).tokens?_eq]

theorem compact_injective {v w : Json} (hv : v.Plain) (hw : w.Plain) (h : v.compact = w.compact) :
    v = w := by
  have hreadV := parse?_compact hv (max v.depth w.depth)
  have hreadW := parse?_compact hw (max v.depth w.depth)
  rw [if_pos (Nat.le_max_left _ _), h] at hreadV
  rw [if_pos (Nat.le_max_right _ _), hreadV] at hreadW
  exact Option.some.inj hreadW

/-! ## Values that have been read -/

/-- What a frame holds so far. -/
def Frame.values : Frame → List Json
  | .array vs => vs
  | .object ms _ => ms.map (·.2)

/-- What the frames hold is nested no deeper than the room beside each of them allows. -/
def Fits (room : Nat) : List Frame → Prop
  | [] => True
  | f :: fs => (∀ v ∈ f.values, v.depth ≤ room) ∧ Fits (room + 1) fs

theorem depth_le_of_run {room : Nat} {ts : List Token} {fs : List Frame} {done : Option Json}
    {w : Json} (hfs : Fits room fs) (hdone : ∀ v ∈ done, v.depth ≤ room)
    (h : run room ts fs done = some w) : w.depth ≤ room + fs.length := by
  fun_induction run room ts fs done with
  | case1 room v =>
    obtain rfl := Option.some.inj h
    exact hdone v rfl
  | case2 room ts vs fs v ih =>
    refine ih ⟨?_, hfs.2⟩ nofun h
    exact List.forall_mem_cons.mpr ⟨hdone v rfl, hfs.1⟩
  | case3 room ts vs fs v ih =>
    have hdepth : (array (v :: vs).reverse).depth ≤ room + 1 := by
      simp only [depth_array_le_iff, List.mem_reverse]
      exact List.forall_mem_cons.mpr ⟨hdone v rfl, hfs.1⟩
    have hw := ih hfs.2 (by simpa using hdepth) h
    rw [List.length_cons]
    omega
  | case4 room key' ts ms key fs v ih =>
    refine ih ⟨?_, hfs.2⟩ nofun h
    exact List.forall_mem_cons.mpr ⟨hdone v rfl, hfs.1⟩
  | case5 room ts ms key fs v ih =>
    have hdepth : (object ((key, v) :: ms).reverse).depth ≤ room + 1 := by
      simp only [depth_object_le_iff, List.mem_reverse]
      exact List.forall_mem_cons.mpr ⟨hdone v rfl, List.forall_mem_map.mp hfs.1⟩
    have hw := ih hfs.2 (by simpa using hdepth) h
    rw [List.length_cons]
    omega
  | case6 room ts fs ih | case7 room b ts fs ih | case8 room n ts fs ih | case9 room s ts fs ih =>
    exact ih hfs (by simp [depth]) h
  | case10 | case12 | case14 | case16 => contradiction
  | case11 room ts fs hroom ih | case15 room ts fs hroom ih =>
    refine ih hfs ?_ h
    simp [depth, depthOf, depthOfMembers]
    omega
  | case13 room ts fs hts hroom ih =>
    have hroom' : room - 1 + 1 = room := by omega
    have hw := ih ⟨nofun, by rw [hroom']; exact hfs⟩ nofun h
    rw [List.length_cons] at hw
    omega
  | case17 room key ts fs hroom ih =>
    have hroom' : room - 1 + 1 = room := by omega
    have hw := ih ⟨nofun, by rw [hroom']; exact hfs⟩ nofun h
    rw [List.length_cons] at hw
    omega
  | case18 => contradiction

theorem depth_le_of_parse? {limit : Nat} {text : String} {v : Json}
    (h : parse? limit text = some v) : v.depth ≤ limit := by
  obtain ⟨ts, -, hrun⟩ := Option.bind_eq_some_iff.mp h
  have hfits : Fits limit [] := trivial
  exact depth_le_of_run hfits (by simp) hrun

end RowScript.Json

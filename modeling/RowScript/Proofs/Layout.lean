import Mathlib.Logic.Relation
import RowScript.Proofs.Canonical
import RowScript.Proofs.Json.Texts

/-!
# Layouts of expression texts

Which members of an object are known depends on its kind, which is a member itself
and may come after those that it governs. Of the known members it does not matter
where they stand, and of the others nothing matters. So a text may be rearranged in
any of its expression objects and is read as before (`Expr.readAs?_of_rearranges`);
but each known member has to be there and may not be repeated
(`Expr.readAs?_of_damages`).
-/

namespace RowScript

/-! ## Values under a name -/

section

variable {α β : Type} {name other : String} {a : α} {ms ns : List (String × α)}

theorem valuesOf_map (name : String) (f : α → β) (ms : List (String × α)) :
    valuesOf name (ms.map fun m => (m.1, f m.2)) = (valuesOf name ms).map f := by
  rw [valuesOf, valuesOf, List.filter_map, List.map_map, List.map_map]
  rfl

theorem valuesOf_perm (h : ms.Perm ns) (name : String) :
    (valuesOf name ms).Perm (valuesOf name ns) := (h.filter _).map _

theorem valuesOf_middle (name : String) (a : α) (ms ns : List (String × α)) :
    valuesOf name (ms ++ (name, a) :: ns) = valuesOf name ms ++ a :: valuesOf name ns := by
  simp [valuesOf]

theorem valuesOf_middle_of_ne (h : name ≠ other) (a : α) (ms ns : List (String × α)) :
    valuesOf other (ms ++ (name, a) :: ns) = valuesOf other (ms ++ ns) := by
  simp [valuesOf, h]

theorem map_valuesOf_middle {f : α → β} {b : α} (h : f a = f b) (name other : String)
    (ms ns : List (String × α)) :
    (valuesOf other (ms ++ (name, a) :: ns)).map f =
      (valuesOf other (ms ++ (name, b) :: ns)).map f := by
  by_cases heq : name = other
  · subst heq
    rw [valuesOf_middle, valuesOf_middle, List.map_append, List.map_append, List.map_cons,
      List.map_cons, h]
  · rw [valuesOf_middle_of_ne heq, valuesOf_middle_of_ne heq]

theorem perm_cases {l l' : List α} (h : l.Perm l') :
    l = l' ∨ (∃ a b r, l = a :: b :: r) ∧ ∃ a b r, l' = a :: b :: r := by
  have hlength := h.length_eq
  rcases l with _ | ⟨a, _ | ⟨b, r⟩⟩
  · exact .inl h.nil_eq
  · exact .inl (List.singleton_perm.mp h)
  · rcases l' with _ | ⟨c, _ | ⟨d, r'⟩⟩
    · simp at hlength
    · simp at hlength
    · exact .inr ⟨⟨a, b, r, rfl⟩, c, d, r', rfl⟩

theorem uniqueValue?_map (f : α → β) (name : String) (ms : List (String × α)) :
    (uniqueValue? name ms).map f = uniqueValue? name (ms.map fun m => (m.1, f m.2)) := by
  rw [uniqueValue?, uniqueValue?, valuesOf_map]
  rcases valuesOf name ms with _ | ⟨a, _ | ⟨b, r⟩⟩ <;> rfl

theorem uniqueValue?_of_repeated {b : α} {r : List α} (h : valuesOf name ms = a :: b :: r) :
    uniqueValue? name ms = none := by
  rw [uniqueValue?, h]

theorem length_valuesOf_middle (name : String) (a : α) (ms ns : List (String × α)) :
    (valuesOf name (ms ++ (name, a) :: ns)).length = (valuesOf name (ms ++ ns)).length + 1 := by
  rw [valuesOf_middle, valuesOf_append, List.length_append, List.length_append, List.length_cons,
    Nat.add_assoc]

theorem uniqueValue?_congr (h : (valuesOf name ms).Perm (valuesOf name ns)) :
    uniqueValue? name ms = uniqueValue? name ns := by
  rcases perm_cases h with heq | ⟨⟨a, b, r, hms⟩, c, d, r', hns⟩
  · rw [uniqueValue?, uniqueValue?, heq]
  · rw [uniqueValue?_of_repeated hms, uniqueValue?_of_repeated hns]

theorem uniqueValue?_eq_some_iff : uniqueValue? name ms = some a ↔ valuesOf name ms = [a] := by
  rw [uniqueValue?]
  constructor
  · intro h
    split at h
    · next v hv => rw [hv, Option.some.inj h]
    · contradiction
  · intro h
    rw [h]

end

namespace Expr

/-! ## Known members -/

namespace Kind

/-- The members that hold an expression. -/
def operandNames : Kind → List String
  | cast | upper | lower | toDate | extract => ["expr"]
  | substring => ["expr", "pos", "len"]
  | dateAdd | dateSub => ["date", "days"]
  | arithmetic => ["left", "right"]
  | column | literal | concat => []

/-- The members that hold expressions in an array. -/
def listNames : Kind → List String
  | concat => ["args"]
  | _ => []

/-- The other members that only some kinds have. -/
def plainNames : Kind → List String
  | column => ["name"]
  | literal => ["value"]
  | extract => ["field"]
  | arithmetic => ["op"]
  | _ => []

/-- The members that an object of the kind is looked at for. -/
def memberNames (kind : Kind) : List String :=
  "kind" :: "type" :: (kind.plainNames ++ kind.operandNames ++ kind.listNames)

theorem mem_memberNames {kind : Kind} {name : String} :
    name ∈ kind.memberNames ↔ name ∈ "kind" :: "type" :: kind.plainNames ∨
      name ∈ kind.operandNames ∨ name ∈ kind.listNames := by
  simp only [memberNames, List.mem_cons, List.mem_append, or_assoc]

theorem ne_of_mem_operandNames (kind : Kind) : ∀ name ∈ kind.operandNames,
    (∀ other ∈ "kind" :: "type" :: kind.plainNames, name ≠ other) ∧
      ∀ other ∈ kind.listNames, name ≠ other := by
  cases kind <;> decide

theorem ne_of_mem_listNames (kind : Kind) : ∀ name ∈ kind.listNames,
    (∀ other ∈ "kind" :: "type" :: kind.plainNames, name ≠ other) ∧
      ∀ other ∈ kind.operandNames, name ≠ other := by
  cases kind <;> decide

end Kind

/-- The kind that an object says it is of. -/
def kindOf? (ms : List (String × Json)) : Option Kind :=
  (uniqueValue? "kind" ms).bind Kind.ofJson?

theorem kindOf?_congr {ms ns : List (String × Json)}
    (h : (valuesOf "kind" ms).Perm (valuesOf "kind" ns)) : kindOf? ms = kindOf? ns := by
  rw [kindOf?, kindOf?, uniqueValue?_congr h]

theorem kindOf?_insert {name : String} (h : name ≠ "kind") (v : Json)
    (ms ns : List (String × Json)) :
    kindOf? (ms ++ (name, v) :: ns) = kindOf? (ms ++ ns) := by
  refine kindOf?_congr ?_
  rw [valuesOf_middle_of_ne h]

theorem kindOf?_middle {name : String} (h : name ≠ "kind") (v w : Json)
    (ms ns : List (String × Json)) :
    kindOf? (ms ++ (name, v) :: ns) = kindOf? (ms ++ (name, w) :: ns) := by
  rw [kindOf?_insert h, kindOf?_insert h]

/-! ## What is looked at -/

theorem read_json (v : Json) : (read v).json = v := by
  cases v <;> rfl

theorem valuesOf_readMembers (name : String) (ms : List (String × Json)) :
    valuesOf name (readMembers ms) = (valuesOf name ms).map read := by
  rw [readMembers_eq_map, valuesOf_map]

theorem uniqueValue?_readMembers (name : String) (ms : List (String × Json)) :
    uniqueValue? name (readMembers ms) = (uniqueValue? name ms).map read := by
  rw [readMembers_eq_map, uniqueValue?_map]

theorem readAs?_object (readType? : Json → Option DataType) (ms : List (String × Json)) :
    readAs? readType? (.object ms) = (kindOf? ms).bind fun kind =>
      ((uniqueValue? "type" ms).bind readType?).bind fun type =>
        ofKind? (readMembers ms) type kind := by
  rw [readAs?, ofMembers?, uniqueValue?_readMembers, uniqueValue?_readMembers, kindOf?]
  cases uniqueValue? "kind" ms with
  | none => rfl
  | some k =>
    cases uniqueValue? "type" ms with
    | none => simp
    | some t => simp [read_json]

/-- Two objects of one kind that are alike in all that is looked at. -/
structure Agree (kind : Kind) (ms ns : List (String × Json)) : Prop where
  plain : ∀ name ∈ "kind" :: "type" :: kind.plainNames,
    (valuesOf name ms).Perm (valuesOf name ns)
  operand : ∀ name ∈ kind.operandNames,
    ((valuesOf name ms).map fun v => (read v).expr?).Perm
      ((valuesOf name ns).map fun v => (read v).expr?)
  list : ∀ name ∈ kind.listNames,
    ((valuesOf name ms).map fun v => (read v).exprs?).Perm
      ((valuesOf name ns).map fun v => (read v).exprs?)

theorem Agree.of_perm {kind : Kind} {ms ns : List (String × Json)}
    (h : ∀ name ∈ kind.memberNames, (valuesOf name ms).Perm (valuesOf name ns)) :
    Agree kind ms ns where
  plain name hname := h name (Kind.mem_memberNames.mpr (.inl hname))
  operand name hname := (h name (Kind.mem_memberNames.mpr (.inr (.inl hname)))).map _
  list name hname := (h name (Kind.mem_memberNames.mpr (.inr (.inr hname)))).map _

theorem literalValue?_of_repeated {ms : List (String × Reading)} {a b : Reading}
    {rest : List Reading} (h : valuesOf "value" ms = a :: b :: rest) : literalValue? ms = none := by
  unfold literalValue?
  rw [h]
  split
  · contradiction
  · next hone => simp at hone
  · next hone => simp at hone
  · rfl

theorem literalValue?_congr {ms ns : List (String × Json)}
    (h : (valuesOf "value" ms).Perm (valuesOf "value" ns)) :
    literalValue? (readMembers ms) = literalValue? (readMembers ns) := by
  have hreadings := h.map read
  rw [← valuesOf_readMembers, ← valuesOf_readMembers] at hreadings
  rcases perm_cases hreadings with heq | ⟨⟨a, b, r, hms⟩, c, d, r', hns⟩
  · rw [literalValue?, literalValue?, heq]
  · rw [literalValue?_of_repeated hms, literalValue?_of_repeated hns]

theorem look_congr {β : Type} {look : Reading → Option β} {name : String}
    {ms ns : List (String × Json)}
    (h : ((valuesOf name ms).map fun v => look (read v)).Perm
      ((valuesOf name ns).map fun v => look (read v))) :
    (uniqueValue? name (readMembers ms)).bind look =
      (uniqueValue? name (readMembers ns)).bind look := by
  have hlook : ∀ ms : List (String × Json), (uniqueValue? name (readMembers ms)).bind look =
      (uniqueValue? name (ms.map fun m => (m.1, look (read m.2)))).bind id := by
    intro ms
    rw [uniqueValue?_readMembers, ← uniqueValue?_map fun v => look (read v)]
    cases uniqueValue? name ms <;> rfl
  rw [hlook, hlook, uniqueValue?_congr]
  rw [valuesOf_map name fun v => look (read v), valuesOf_map name fun v => look (read v)]
  exact h

theorem ofKind?_congr {kind : Kind} {ms ns : List (String × Json)} (h : Agree kind ms ns)
    (type : DataType) :
    ofKind? (readMembers ms) type kind = ofKind? (readMembers ns) type kind := by
  have hplain : ∀ name ∈ kind.plainNames,
      uniqueValue? name (readMembers ms) = uniqueValue? name (readMembers ns) := by
    intro name hname
    rw [uniqueValue?_readMembers, uniqueValue?_readMembers, uniqueValue?_congr (h.plain name ?_)]
    exact List.mem_cons_of_mem _ (List.mem_cons_of_mem _ hname)
  have hoperand : ∀ name ∈ kind.operandNames,
      ((uniqueValue? name (readMembers ms)).bind fun r => r.expr?) =
        (uniqueValue? name (readMembers ns)).bind fun r => r.expr? :=
    fun name hname => look_congr (h.operand name hname)
  have hlist : ∀ name ∈ kind.listNames,
      ((uniqueValue? name (readMembers ms)).bind fun r => r.exprs?) =
        (uniqueValue? name (readMembers ns)).bind fun r => r.exprs? :=
    fun name hname => look_congr (h.list name hname)
  cases kind with
  | column => simp only [ofKind?, hplain "name" (by decide)]
  | literal => simp only [ofKind?, literalValue?_congr (h.plain "value" (by decide))]
  | concat =>
    have hargs := congrArg (Option.bind · fun as => some (concat as type))
      (hlist "args" (by decide))
    simpa only [ofKind?, Option.bind_eq_bind, Option.pure_def, Option.bind_assoc] using hargs
  | cast | upper | lower | toDate =>
    simp only [ofKind?, Option.bind_eq_bind, hoperand "expr" (by decide)]
  | substring =>
    simp only [ofKind?, Option.bind_eq_bind, hoperand "expr" (by decide),
      hoperand "pos" (by decide), hoperand "len" (by decide)]
  | dateAdd | dateSub =>
    simp only [ofKind?, Option.bind_eq_bind, hoperand "date" (by decide),
      hoperand "days" (by decide)]
  | extract =>
    simp only [ofKind?, Option.bind_eq_bind, hplain "field" (by decide),
      hoperand "expr" (by decide)]
  | arithmetic =>
    simp only [ofKind?, Option.bind_eq_bind, hplain "op" (by decide),
      hoperand "left" (by decide), hoperand "right" (by decide)]

/-! ## What has to be there -/

/-- The member is there once, and an expression can be made of it by `look`. -/
def Holds {β : Type} (look : Reading → Option β) (ms : List (String × Json)) (name : String) :
    Prop :=
  ∃ v b, valuesOf name ms = [v] ∧ look (read v) = some b

theorem holds_of_reading {β : Type} {look : Reading → Option β} {ms : List (String × Json)}
    {name : String} {r : Reading} {b : β} (hr : uniqueValue? name (readMembers ms) = some r)
    (hb : look r = some b) : Holds look ms name := by
  rw [uniqueValue?_readMembers] at hr
  obtain ⟨v, hv, rfl⟩ := Option.map_eq_some_iff.mp hr
  exact ⟨v, b, uniqueValue?_eq_some_iff.mp hv, hb⟩

theorem valuesOf_of_literalValue? {ms : List (String × Json)} {value : Option String}
    (h : literalValue? (readMembers ms) = some value) :
    Holds some ms "value" ∨ valuesOf "value" ms = [] := by
  rcases hms : valuesOf "value" ms with _ | ⟨a, _ | ⟨b, r⟩⟩
  · exact .inr rfl
  · exact .inl ⟨a, read a, hms, rfl⟩
  · have hreadings : valuesOf "value" (readMembers ms) = read a :: read b :: r.map read := by
      rw [valuesOf_readMembers, hms]
      rfl
    rw [literalValue?_of_repeated hreadings] at h
    contradiction

/-- Every member that is looked at is there once, and what is to be an expression is one. Only the
value of a literal may be left out. -/
structure Complete (kind : Kind) (ms : List (String × Json)) : Prop where
  plain : ∀ name ∈ "kind" :: "type" :: kind.plainNames,
    Holds some ms name ∨ (kind = .literal ∧ name = "value") ∧ valuesOf name ms = []
  operand : ∀ name ∈ kind.operandNames, Holds Reading.expr? ms name
  list : ∀ name ∈ kind.listNames, Holds Reading.exprs? ms name

theorem complete_of_ofKind? {kind : Kind} {ms : List (String × Json)} {type : DataType} {e : Expr}
    (hkind : Holds some ms "kind") (htype : Holds some ms "type")
    (h : ofKind? (readMembers ms) type kind = some e) : Complete kind ms := by
  cases kind <;>
    simp only [ofKind?, Option.bind_eq_bind, Option.bind_eq_some_iff, Option.pure_def,
      Option.some.injEq] at h
  case column =>
    obtain ⟨r, hr, -⟩ := h
    have hname : Holds some ms "name" := holds_of_reading hr rfl
    exact ⟨by simpa [Kind.plainNames] using ⟨hkind, htype, hname⟩,
      List.forall_mem_nil _, List.forall_mem_nil _⟩
  case literal =>
    obtain ⟨value, hvalue, -⟩ := h
    have hvalue := valuesOf_of_literalValue? hvalue
    exact ⟨by simpa [Kind.plainNames] using ⟨hkind, htype, hvalue⟩,
      List.forall_mem_nil _, List.forall_mem_nil _⟩
  case cast | upper | lower | toDate =>
    obtain ⟨a, ⟨r, hr, ha⟩, -⟩ := h
    have hexpr := holds_of_reading hr ha
    exact ⟨by simpa [Kind.plainNames] using ⟨hkind, htype⟩,
      by simpa [Kind.operandNames] using hexpr, List.forall_mem_nil _⟩
  case concat =>
    obtain ⟨r, hr, as, has, -⟩ := h
    have hargs := holds_of_reading hr has
    exact ⟨by simpa [Kind.plainNames] using ⟨hkind, htype⟩, List.forall_mem_nil _,
      by simpa [Kind.listNames] using hargs⟩
  case substring =>
    obtain ⟨a, ⟨ra, hra, ha⟩, p, ⟨rp, hrp, hp⟩, l, ⟨rl, hrl, hl⟩, -⟩ := h
    have hexpr := holds_of_reading hra ha
    have hposition := holds_of_reading hrp hp
    have hlength := holds_of_reading hrl hl
    exact ⟨by simpa [Kind.plainNames] using ⟨hkind, htype⟩,
      by simpa [Kind.operandNames] using ⟨hexpr, hposition, hlength⟩,
      List.forall_mem_nil _⟩
  case dateAdd | dateSub =>
    obtain ⟨d, ⟨rd, hrd, hd⟩, m, ⟨rm, hrm, hm⟩, -⟩ := h
    have hdate := holds_of_reading hrd hd
    have hdays := holds_of_reading hrm hm
    exact ⟨by simpa [Kind.plainNames] using ⟨hkind, htype⟩,
      by simpa [Kind.operandNames] using ⟨hdate, hdays⟩, List.forall_mem_nil _⟩
  case extract =>
    obtain ⟨rf, hrf, field, -, a, ⟨r, hr, ha⟩, -⟩ := h
    have hfield : Holds some ms "field" := holds_of_reading hrf rfl
    have hexpr := holds_of_reading hr ha
    exact ⟨by simpa [Kind.plainNames] using ⟨hkind, htype, hfield⟩,
      by simpa [Kind.operandNames] using hexpr, List.forall_mem_nil _⟩
  case arithmetic =>
    obtain ⟨ro, hro, op, -, l, ⟨rl, hrl, hl⟩, r, ⟨rr, hrr, hr⟩, -⟩ := h
    have hop : Holds some ms "op" := holds_of_reading hro rfl
    have hleft := holds_of_reading hrl hl
    have hright := holds_of_reading hrr hr
    exact ⟨by simpa [Kind.plainNames] using ⟨hkind, htype, hop⟩,
      by simpa [Kind.operandNames] using ⟨hleft, hright⟩, List.forall_mem_nil _⟩

theorem complete_of_readAs? {readType? : Json → Option DataType} {ms : List (String × Json)}
    {e : Expr} (h : readAs? readType? (.object ms) = some e) :
    ∃ kind, kindOf? ms = some kind ∧ Complete kind ms := by
  rw [readAs?_object] at h
  obtain ⟨kind, hkind, h⟩ := Option.bind_eq_some_iff.mp h
  obtain ⟨type, htype, h⟩ := Option.bind_eq_some_iff.mp h
  obtain ⟨k, hk, -⟩ := Option.bind_eq_some_iff.mp hkind
  obtain ⟨t, ht, -⟩ := Option.bind_eq_some_iff.mp htype
  exact ⟨kind, hkind, complete_of_ofKind? ⟨k, read k, uniqueValue?_eq_some_iff.mp hk, rfl⟩
    ⟨t, read t, uniqueValue?_eq_some_iff.mp ht, rfl⟩ h⟩

namespace Complete

variable {kind : Kind} {ms : List (String × Json)} {name : String}

theorem length_eq (h : Complete kind ms) (hname : name ∈ kind.memberNames) :
    (valuesOf name ms).length = 1 ∨
      (kind = .literal ∧ name = "value") ∧ (valuesOf name ms).length = 0 := by
  rcases Kind.mem_memberNames.mp hname with hname | hname | hname
  · rcases h.plain name hname with ⟨v, -, hv, -⟩ | ⟨hvalue, hnone⟩
    · exact .inl (congrArg List.length hv)
    · exact .inr ⟨hvalue, congrArg List.length hnone⟩
  · obtain ⟨v, -, hv, -⟩ := h.operand name hname
    exact .inl (congrArg List.length hv)
  · obtain ⟨v, -, hv, -⟩ := h.list name hname
    exact .inl (congrArg List.length hv)

end Complete

/-! ## Changes of texts -/

/-- Changes of the members of an object after which the known ones are the same, in any order. -/
inductive Rearranges : List (String × Json) → List (String × Json) → Prop
  | permute {ms ns : List (String × Json)} (h : ms.Perm ns) : Rearranges ms ns
  | insert {ms ns : List (String × Json)} {kind : Kind} {name : String} (v : Json)
      (hkind : kindOf? (ms ++ ns) = some kind) (hname : name ∉ kind.memberNames) :
    Rearranges (ms ++ ns) (ms ++ (name, v) :: ns)
  | delete {ms ns : List (String × Json)} {kind : Kind} {name : String} {v : Json}
      (hkind : kindOf? (ms ++ (name, v) :: ns) = some kind) (hname : name ∉ kind.memberNames) :
    Rearranges (ms ++ (name, v) :: ns) (ms ++ ns)

/-- Changes of the members of an object after which a known one is there twice or not at all. -/
inductive Damages : List (String × Json) → List (String × Json) → Prop
  | duplicate {ms ns : List (String × Json)} {kind : Kind} {name : String} {v : Json} (w : Json)
      (hkind : kindOf? (ms ++ ns) = some kind) (hname : name ∈ kind.memberNames)
      (hmem : (name, v) ∈ ms ++ ns) :
    Damages (ms ++ ns) (ms ++ (name, w) :: ns)
  | remove {ms ns : List (String × Json)} {kind : Kind} {name : String} {v : Json}
      (hkind : kindOf? (ms ++ (name, v) :: ns) = some kind) (hname : name ∈ kind.memberNames)
      (hvalue : ¬(kind = .literal ∧ name = "value")) :
    Damages (ms ++ (name, v) :: ns) (ms ++ ns)

/-- `R` changes the members of one object that is to be an expression, the value itself or a part of
it. All else stays as it is. -/
inductive Within (R : List (String × Json) → List (String × Json) → Prop) : Json → Json → Prop
  | here {ms ns : List (String × Json)} (h : R ms ns) : Within R (.object ms) (.object ns)
  | operand {ms ns : List (String × Json)} {kind : Kind} {name : String} {v w : Json}
      (hkind : kindOf? (ms ++ (name, v) :: ns) = some kind) (hname : name ∈ kind.operandNames)
      (h : Within R v w) :
    Within R (.object (ms ++ (name, v) :: ns)) (.object (ms ++ (name, w) :: ns))
  | element {ms ns : List (String × Json)} {kind : Kind} {name : String} {vs ws : List Json}
      {v w : Json} (hkind : kindOf? (ms ++ (name, .array (vs ++ v :: ws)) :: ns) = some kind)
      (hname : name ∈ kind.listNames) (h : Within R v w) :
    Within R (.object (ms ++ (name, .array (vs ++ v :: ws)) :: ns))
      (.object (ms ++ (name, .array (vs ++ w :: ws)) :: ns))

variable {readType? : Json → Option DataType} {v w : Json} {e : Expr}

/-! ## Rearranged texts -/

theorem readAs?_congr {ms ns : List (String × Json)} {kind : Kind} (hms : kindOf? ms = some kind)
    (hns : kindOf? ns = some kind) (h : Agree kind ms ns) (readType? : Json → Option DataType) :
    readAs? readType? (.object ms) = readAs? readType? (.object ns) := by
  have htype : uniqueValue? "type" ms = uniqueValue? "type" ns :=
    uniqueValue?_congr (h.plain "type" (List.mem_cons_of_mem _ List.mem_cons_self))
  rw [readAs?_object, readAs?_object, hms, hns, htype, Option.bind_some, Option.bind_some]
  simp only [ofKind?_congr h]

theorem readAs?_of_perm {ms ns : List (String × Json)} (h : ms.Perm ns)
    (readType? : Json → Option DataType) :
    readAs? readType? (.object ms) = readAs? readType? (.object ns) := by
  have hkind : kindOf? ms = kindOf? ns := kindOf?_congr (valuesOf_perm h _)
  cases hms : kindOf? ms with
  | none => rw [readAs?_object, readAs?_object, ← hkind, hms, Option.bind_none, Option.bind_none]
  | some kind =>
    exact readAs?_congr hms (hkind.symm.trans hms) (.of_perm fun name _ => valuesOf_perm h name) _

theorem readAs?_middle {ms ns : List (String × Json)} {kind : Kind} {name : String} (v : Json)
    (hkind : kindOf? (ms ++ ns) = some kind) (hname : name ∉ kind.memberNames)
    (readType? : Json → Option DataType) :
    readAs? readType? (.object (ms ++ ns)) =
      readAs? readType? (.object (ms ++ (name, v) :: ns)) := by
  have hsame : ∀ other ∈ kind.memberNames,
      (valuesOf other (ms ++ ns)).Perm (valuesOf other (ms ++ (name, v) :: ns)) := by
    intro other hother
    rw [valuesOf_middle_of_ne (ne_of_mem_of_not_mem hother hname).symm]
  have hkind' := kindOf?_congr (hsame "kind" List.mem_cons_self)
  exact readAs?_congr hkind (hkind'.symm.trans hkind) (.of_perm hsame) readType?

theorem readAs?_of_rearranges {ms ns : List (String × Json)} (h : Rearranges ms ns)
    (readType? : Json → Option DataType) :
    readAs? readType? (.object ms) = readAs? readType? (.object ns) := by
  cases h with
  | permute h => exact readAs?_of_perm h readType?
  | insert v hkind hname => exact readAs?_middle v hkind hname readType?
  | @delete ms ns kind name v hkind hname =>
    have hne : name ≠ "kind" := by
      rintro rfl
      exact hname List.mem_cons_self
    rw [kindOf?_insert hne] at hkind
    exact (readAs?_middle v hkind hname readType?).symm

theorem readAll?_middle (h : (read v).expr? = (read w).expr?) (vs ws : List Json) :
    readAll? (vs ++ v :: ws) = readAll? (vs ++ w :: ws) := by
  induction vs with
  | nil => rw [List.nil_append, List.nil_append, readAll?, readAll?, h]
  | cons u vs ih => rw [List.cons_append, List.cons_append, readAll?, readAll?, ih]

theorem agree_operand {ms ns : List (String × Json)} {kind : Kind} {name : String}
    (hname : name ∈ kind.operandNames) (h : (read v).expr? = (read w).expr?) :
    Agree kind (ms ++ (name, v) :: ns) (ms ++ (name, w) :: ns) := by
  obtain ⟨hplain, hlist⟩ := kind.ne_of_mem_operandNames name hname
  refine ⟨fun other hother => ?_, fun other hother => ?_, fun other hother => ?_⟩
  · rw [valuesOf_middle_of_ne (hplain other hother), valuesOf_middle_of_ne (hplain other hother)]
  · rw [map_valuesOf_middle (f := fun v => (read v).expr?) h]
  · rw [valuesOf_middle_of_ne (hlist other hother), valuesOf_middle_of_ne (hlist other hother)]

theorem agree_list {ms ns : List (String × Json)} {kind : Kind} {name : String}
    (hname : name ∈ kind.listNames) (h : (read v).exprs? = (read w).exprs?) :
    Agree kind (ms ++ (name, v) :: ns) (ms ++ (name, w) :: ns) := by
  obtain ⟨hplain, hoperand⟩ := kind.ne_of_mem_listNames name hname
  refine ⟨fun other hother => ?_, fun other hother => ?_, fun other hother => ?_⟩
  · rw [valuesOf_middle_of_ne (hplain other hother), valuesOf_middle_of_ne (hplain other hother)]
  · rw [valuesOf_middle_of_ne (hoperand other hother),
      valuesOf_middle_of_ne (hoperand other hother)]
  · rw [map_valuesOf_middle (f := fun v => (read v).exprs?) h]

/-- Whichever of its objects is rearranged, a value is read as before. -/
theorem readAs?_of_within (h : Within Rearranges v w) (readType? : Json → Option DataType) :
    readAs? readType? v = readAs? readType? w := by
  induction h generalizing readType? with
  | here h => exact readAs?_of_rearranges h readType?
  | @operand ms ns kind name v w hkind hname h ih =>
    have hexpr : (read v).expr? = (read w).expr? := by rw [expr?_read, expr?_read, ih]
    have hne := (kind.ne_of_mem_operandNames name hname).1 "kind" List.mem_cons_self
    have hkind' := (kindOf?_middle hne w v ms ns).trans hkind
    exact readAs?_congr hkind hkind' (agree_operand hname hexpr) readType?
  | @element ms ns kind name vs ws v w hkind hname h ih =>
    have hexpr : (read v).expr? = (read w).expr? := by rw [expr?_read, expr?_read, ih]
    have hexprs : (read (.array (vs ++ v :: ws))).exprs? = (read (.array (vs ++ w :: ws))).exprs? :=
      readAll?_middle hexpr vs ws
    have hne := (kind.ne_of_mem_listNames name hname).1 "kind" List.mem_cons_self
    have hkind' :=
      (kindOf?_middle hne (.array (vs ++ w :: ws)) (.array (vs ++ v :: ws)) ms ns).trans hkind
    exact readAs?_congr hkind hkind' (agree_list hname hexprs) readType?

theorem readAs?_of_rearrangements (h : Relation.ReflTransGen (Within Rearranges) v w)
    (readType? : Json → Option DataType) : readAs? readType? v = readAs? readType? w := by
  induction h with
  | refl => rfl
  | tail _ hstep ih => rw [ih, readAs?_of_within hstep]

/-! ## Damaged texts -/

theorem mem_memberNames_of_kindOf? {ms ns : List (String × Json)} {kind kind' : Kind}
    {name : String} (hsame : name ≠ "kind" → kindOf? ms = kindOf? ns)
    (hkind : kindOf? ms = some kind) (hkind' : kindOf? ns = some kind')
    (hname : name ∈ kind.memberNames) :
    name ∈ kind'.memberNames ∧ (kind' = .literal ∧ name = "value" → kind = .literal) := by
  by_cases heq : name = "kind"
  · subst heq
    exact ⟨List.mem_cons_self, by simp⟩
  · rw [hsame heq, hkind'] at hkind
    obtain rfl := Option.some.inj hkind
    exact ⟨hname, fun h => h.1⟩

theorem readAs?_of_damages {ms ns : List (String × Json)} (h : Damages ms ns)
    (hms : readAs? readType? (.object ms) = some e) (readType'? : Json → Option DataType) :
    readAs? readType'? (.object ns) = none := by
  obtain ⟨kind, hkind, hcomplete⟩ := complete_of_readAs? hms
  cases hns : readAs? readType'? (.object ns) with
  | none => rfl
  | some e' =>
    exfalso
    obtain ⟨kind', hkind', hcomplete'⟩ := complete_of_readAs? hns
    cases h with
    | @duplicate ms ns kind₀ name v w hkind₀ hname hmem =>
      obtain rfl := Option.some.inj (hkind₀.symm.trans hkind)
      obtain ⟨hname', -⟩ := mem_memberNames_of_kindOf?
        (fun hne => (kindOf?_insert hne w ms ns).symm) hkind hkind' hname
      have hlength := length_valuesOf_middle name w ms ns
      have hpos := List.length_pos_of_mem (mem_valuesOf.mpr hmem)
      have hone := hcomplete'.length_eq hname'
      omega
    | @remove ms ns kind₀ name v hkind₀ hname hvalue =>
      obtain rfl := Option.some.inj (hkind₀.symm.trans hkind)
      obtain ⟨hname', hliteral⟩ := mem_memberNames_of_kindOf?
        (fun hne => kindOf?_insert hne v ms ns) hkind hkind' hname
      have hlength := length_valuesOf_middle name v ms ns
      rcases hcomplete'.length_eq hname' with hone | ⟨hvalue', -⟩
      · rcases hcomplete.length_eq hname with hone' | ⟨-, hnone⟩ <;> omega
      · exact hvalue ⟨hliteral hvalue', hvalue'.2⟩

theorem look_of_readAs? {β : Type} {look : Reading → Option β} {ms ns : List (String × Json)}
    {kind : Kind} {name : String} (hkind : kindOf? (ms ++ (name, v) :: ns) = some kind)
    (hlook : ∀ {ms}, Complete kind ms → Holds look ms name)
    (h : readAs? readType? (.object (ms ++ (name, v) :: ns)) = some e) :
    ∃ b, look (read v) = some b := by
  obtain ⟨kind', hkind', hcomplete⟩ := complete_of_readAs? h
  obtain rfl := Option.some.inj (hkind.symm.trans hkind')
  obtain ⟨u, b, hu, hb⟩ := hlook hcomplete
  have hv : v ∈ valuesOf name (ms ++ (name, v) :: ns) := mem_valuesOf.mpr (by simp)
  rw [hu, List.mem_singleton] at hv
  subst hv
  exact ⟨b, hb⟩

theorem readAll?_eq_none (h : (read v).expr? = none) (vs ws : List Json) :
    readAll? (vs ++ v :: ws) = none := by
  induction vs with
  | nil => rw [List.nil_append, readAll?, h]
  | cons u vs ih =>
    rw [List.cons_append, readAll?, ih]
    cases (read u).expr? <;> rfl

theorem isSome_expr?_of_readAll? {vs ws : List Json} {es : List Expr}
    (h : readAll? (vs ++ v :: ws) = some es) : ∃ a, (read v).expr? = some a := by
  cases hv : (read v).expr? with
  | none =>
    rw [readAll?_eq_none hv] at h
    contradiction
  | some a => exact ⟨a, rfl⟩

theorem readAs?_eq_none {β : Type} {look : Reading → Option β} {ms ns : List (String × Json)}
    {kind : Kind} {name : String} (hkind : kindOf? (ms ++ (name, v) :: ns) = some kind)
    (hlook : ∀ {ms}, Complete kind ms → Holds look ms name) (h : look (read v) = none)
    (readType? : Json → Option DataType) :
    readAs? readType? (.object (ms ++ (name, v) :: ns)) = none := by
  cases hv : readAs? readType? (.object (ms ++ (name, v) :: ns)) with
  | none => rfl
  | some e =>
    obtain ⟨b, hb⟩ := look_of_readAs? hkind hlook hv
    rw [h] at hb
    contradiction

/-- Whichever of its objects is damaged, a value that could be read is none any more. -/
theorem readAs?_of_within_damages (h : Within Damages v w) (hv : readAs? readType? v = some e)
    (readType'? : Json → Option DataType) : readAs? readType'? w = none := by
  induction h generalizing readType? e readType'? with
  | here h => exact readAs?_of_damages h hv readType'?
  | @operand ms ns kind name v w hkind hname h ih =>
    obtain ⟨a, ha⟩ := look_of_readAs? hkind (fun h => h.operand name hname) hv
    have hnone := ih ((expr?_read v).symm.trans ha) DataType.ofOpenJson?
    have hne := (kind.ne_of_mem_operandNames name hname).1 "kind" List.mem_cons_self
    have hkind' := (kindOf?_middle hne w v ms ns).trans hkind
    exact readAs?_eq_none hkind' (fun h => h.operand name hname) ((expr?_read w).trans hnone) _
  | @element ms ns kind name vs ws v w hkind hname h ih =>
    obtain ⟨as, has⟩ := look_of_readAs? hkind (fun h => h.list name hname) hv
    obtain ⟨a, ha⟩ := isSome_expr?_of_readAll? has
    have hnone := ih ((expr?_read v).symm.trans ha) DataType.ofOpenJson?
    have hne := (kind.ne_of_mem_listNames name hname).1 "kind" List.mem_cons_self
    have hkind' := (kindOf?_middle hne (.array (vs ++ w :: ws)) _ ms ns).trans hkind
    have hexprs : (read (.array (vs ++ w :: ws))).exprs? = none :=
      readAll?_eq_none ((expr?_read w).trans hnone) vs ws
    exact readAs?_eq_none hkind' (fun h => h.list name hname) hexprs _

/-! ## Texts -/

theorem parse?_of_isText {text : String} (h : v.IsText text) :
    parse? text = if v.depth ≤ Json.depthLimit ∧ v.isFinite = true then
      readAs? DataType.ofJson? v else none := by
  rw [parse?, Json.parse?_of_tokens h]
  by_cases hdepth : v.depth ≤ Json.depthLimit
  · rw [if_pos hdepth, ← ofJson?_eq_readAs?]
    change (if v.isFinite = true then some () else none).bind (fun _ => ofJson? v) = _
    by_cases hfinite : v.isFinite = true
    · rw [if_pos hfinite, if_pos ⟨hdepth, hfinite⟩, Option.bind_some]
    · rw [if_neg hfinite, if_neg fun h => hfinite h.2, Option.bind_none]
  · rw [if_neg hdepth, if_neg fun h => hdepth h.1]
    rfl

theorem isText_of_parse?_eq_some {text : String} (h : parse? text = some e) :
    ∃ v : Json, v.IsText text ∧ readAs? DataType.ofJson? v = some e := by
  obtain ⟨v, hv, -⟩ := Option.bind_eq_some_iff.mp h
  have htext := Json.isText_of_parse? hv
  rw [parse?_of_isText htext] at h
  split at h
  · exact ⟨v, htext, h⟩
  · contradiction

/-- **Layouts.** A text that is read as an expression is a text of one value. After objects of the
value have been rearranged its texts are read as the same expression, as long as nesting and numbers
are within the limits, and after one of them has been damaged they are not read at all. -/
theorem parse?_layout {text : String} (h : parse? text = some e) :
    (∃ v : Json, v.IsText text) ∧ ∀ v : Json, v.IsText text →
      (∀ w text', Relation.ReflTransGen (Within Rearranges) v w → w.IsText text' →
        parse? text' = if w.depth ≤ Json.depthLimit ∧ w.isFinite = true then some e else none) ∧
      ∀ w text', Within Damages v w → w.IsText text' → parse? text' = none := by
  obtain ⟨v, hv, hread⟩ := isText_of_parse?_eq_some h
  refine ⟨⟨v, hv⟩, fun v' hv' => ?_⟩
  obtain rfl : v = v' := hv.unique hv'
  refine ⟨fun w text' hw htext => ?_, fun w text' hw htext => ?_⟩
  · rw [parse?_of_isText htext, ← readAs?_of_rearrangements hw, hread]
  · rw [parse?_of_isText htext, readAs?_of_within_damages hw hread, ite_self]

/-- In an argument, an unknown member gives way to another one, or the kind is given twice. -/
theorem parse?_layout_argument :
    parse? ("\x7b\"type\":\"String\",\"kind\":\"concat\"," ++
        "\"args\":[\x7b\"kind\":\"literal\",\"unit\":[],\"type\":\"Long\"\x7d]\x7d") =
        some (concat [literal none .long] .string) ∧
      parse? ("\x7b\"args\": [\x7b\"kind\": \"literal\", \"expr\": 0, \"type\": \"Long\"\x7d]," ++
        " \"kind\": \"concat\", \"type\": \"String\"\x7d") =
        some (concat [literal none .long] .string) ∧
      parse? ("\x7b\"type\":\"String\",\"kind\":\"concat\"," ++
        "\"args\":[\x7b\"kind\":\"literal\",\"unit\":[],\"type\":\"Long\",\"kind\":1\x7d]\x7d") =
        none := by
  let type : String × Json := ("type", .string "String")
  let kind : String × Json := ("kind", .string "concat")
  let literalKind : String × Json := ("kind", .string "literal")
  let literalType : String × Json := ("type", .string "Long")
  let unit : String × Json := ("unit", .array [])
  let text (ms : List (String × Json)) : Json := .object [type, kind, ("args", .array [.object ms])]
  let bare := [literalKind, literalType]
  let other := [literalKind, ("expr", .ofNat 0), literalType]
  have hargument : ∀ {R : List (String × Json) → List (String × Json) → Prop} {ms ns},
      R ms ns → Within R (text ms) (text ns) := fun h =>
    @Within.element _ [type, kind] [] .concat "args" [] [] _ _ rfl (by decide) (.here h)
  have hdelete : Rearranges [literalKind, unit, literalType] bare :=
    @Rearranges.delete [literalKind] [literalType] .literal "unit" (.array []) rfl (by decide)
  have hinsert : Rearranges bare other :=
    @Rearranges.insert [literalKind] [literalType] .literal "expr" (.ofNat 0) rfl (by decide)
  have hpermute : Within Rearranges (text other)
      (.object [("args", .array [.object other]), kind, type]) :=
    .here (.permute (List.reverse_perm _).symm)
  have hdamage : Damages [literalKind, unit, literalType]
      [literalKind, unit, literalType, ("kind", .ofNat 1)] :=
    @Damages.duplicate [literalKind, unit, literalType] [] .literal "kind" (.string "literal")
      (.ofNat 1) rfl (by decide) List.mem_cons_self
  have hparse : parse? ("\x7b\"type\":\"String\",\"kind\":\"concat\"," ++
      "\"args\":[\x7b\"kind\":\"literal\",\"unit\":[],\"type\":\"Long\"\x7d]\x7d") =
      some (concat [literal none .long] .string) := by decide +kernel
  obtain ⟨hkept, hlost⟩ := (parse?_layout hparse).2 (text [literalKind, unit, literalType])
    (by decide +kernel)
  refine ⟨hparse, ?_, ?_⟩
  · have hsteps := ((Relation.ReflTransGen.single (hargument hdelete)).tail
      (hargument hinsert)).tail hpermute
    exact (hkept _ _ hsteps (by decide +kernel)).trans (if_pos (by decide +kernel))
  · exact hlost _ _ (hargument hdamage) (by decide +kernel)

end Expr

end RowScript

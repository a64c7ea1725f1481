import RowScript.Compile
import RowScript.Expr.Fingerprint
import RowScript.Proofs.Emission.Code
import RowScript.Proofs.Json.Reader

/-!
# Canonical texts of expressions

An expression is read back from its canonical text if the nesting of this text is
within the limit (`Expr.parse?_text`). An expression that has been read, from
whatever text, has a canonical text within the limit: each object and each array
of it stands for one of the text that was read.

Different expressions have different canonical texts, also beyond the limit, so
two expressions of one fingerprint compile alike, unless their texts are a
collision of the digest (`Expr.fingerprint_determines`).
-/

namespace RowScript

namespace Expr

/-! ## Writing -/

theorem plain_nodeJson {kind : Kind} {own : List (String × Json)} {type : DataType}
    (h : ∀ m ∈ own, m.2.Plain) : (nodeJson kind own type).Plain := by
  refine .object ?_
  intro m hm
  rcases List.mem_cons.mp hm with rfl | hm
  · exact .string _
  · rcases List.mem_append.mp hm with hm | hm
    · exact h m hm
    · rw [List.mem_singleton.mp hm]
      exact .string _

theorem toJsons_eq_map (es : List Expr) : toJsons es = es.map toJson := by
  induction es with
  | nil => rfl
  | cons e es ih => rw [toJsons, ih, List.map_cons]

theorem plain_toJson (e : Expr) : e.toJson.Plain := by
  induction e with
  | column name type => exact plain_nodeJson (by simpa using .string name)
  | literal value type =>
    cases value with
    | none => exact plain_nodeJson (by simp)
    | some text => exact plain_nodeJson (by simpa using .string text)
  | cast e type ih => exact plain_nodeJson (by simpa using ih)
  | concat args type ih =>
    have hargs : (Json.array (toJsons args)).Plain := by
      refine .array ?_
      rw [toJsons_eq_map]
      exact List.forall_mem_map.mpr ih
    exact plain_nodeJson (by simpa using hargs)
  | upper e type ih => exact plain_nodeJson (by simpa using ih)
  | lower e type ih => exact plain_nodeJson (by simpa using ih)
  | substring e position length type ih ihp ihl => exact plain_nodeJson (by simp [ih, ihp, ihl])
  | toDate e type ih => exact plain_nodeJson (by simpa using ih)
  | dateAdd date days type ihd ihn => exact plain_nodeJson (by simp [ihd, ihn])
  | dateSub date days type ihd ihn => exact plain_nodeJson (by simp [ihd, ihn])
  | extract field e type ih =>
    have hfield : field.toJson.Plain := .string _
    exact plain_nodeJson (by simp [ih, hfield])
  | arithmetic op left right type ihl ihr =>
    have hop : op.toJson.Plain := .string _
    exact plain_nodeJson (by simp [ihl, ihr, hop])

/-! ## Reading what has been written -/

/-- Reads an expression whose annotation is read by `readType?`. -/
def readAs? (readType? : Json → Option DataType) : Json → Option Expr
  | .object ms => ofMembers? readType? (readMembers ms)
  | _ => none

theorem expr?_read (v : Json) : (read v).expr? = readAs? DataType.ofOpenJson? v := by
  cases v <;> rfl

theorem ofJson?_eq_readAs? (v : Json) : ofJson? v = readAs? DataType.ofJson? v := by
  cases v <;> rfl

theorem readMembers_eq_map (ms : List (String × Json)) :
    readMembers ms = ms.map fun m => (m.1, read m.2) := by
  induction ms with
  | nil => rfl
  | cons m ms ih => rw [readMembers, ih, List.map_cons]

theorem readAs?_nodeJson {readType? : Json → Option DataType} {kind : Kind} {type : DataType}
    (hread : readType? type.toJson = some type) {own : List (String × Json)}
    (hown : ∀ m ∈ own, m.1 ≠ "kind" ∧ m.1 ≠ "type") :
    readAs? readType? (nodeJson kind own type) =
      ofKind? (readMembers (("kind", .string kind.name) :: (own ++ [("type", type.toJson)])))
        type kind := by
  have hkinds : valuesOf "kind" (readMembers own) = [] := by
    rw [readMembers_eq_map]
    exact valuesOf_eq_nil (List.forall_mem_map.mpr fun m hm => (hown m hm).1)
  have htypes : valuesOf "type" (readMembers own) = [] := by
    rw [readMembers_eq_map]
    exact valuesOf_eq_nil (List.forall_mem_map.mpr fun m hm => (hown m hm).2)
  have hmembers : readMembers (("kind", .string kind.name) :: (own ++ [("type", type.toJson)])) =
      [("kind", read (.string kind.name))] ++ (readMembers own ++ [("type", read type.toJson)]) := by
    simp [readMembers_eq_map]
  have hkind : uniqueValue? "kind" (readMembers (("kind", .string kind.name) ::
      (own ++ [("type", type.toJson)]))) = some (read (.string kind.name)) := by
    rw [uniqueValue?, hmembers, valuesOf_append, valuesOf_append, hkinds]
    rfl
  have htype : uniqueValue? "type" (readMembers (("kind", .string kind.name) ::
      (own ++ [("type", type.toJson)]))) = some (read type.toJson) := by
    rw [uniqueValue?, hmembers, valuesOf_append, valuesOf_append, htypes]
    rfl
  have hname : Kind.ofJson? (read (.string kind.name)).json = some kind := Kind.ofName?_name kind
  have hannotation : readType? (read type.toJson).json = some type := hread
  rw [nodeJson, readAs?, ofMembers?, hkind, htype]
  simp only [Option.bind_eq_bind, Option.bind_some, hname, hannotation]

theorem readAll?_toJsons {es : List Expr} (h : ∀ e ∈ es, (read e.toJson).expr? = some e) :
    readAll? (toJsons es) = some es := by
  induction es with
  | nil => rfl
  | cons e es ih =>
    rw [toJsons, readAll?, h e List.mem_cons_self, ih fun a ha => h a (List.mem_cons_of_mem _ ha)]

theorem readAs?_toJson {readType? : Json → Option DataType}
    (hread : ∀ t : DataType, readType? t.toJson = some t) (e : Expr) :
    readAs? readType? e.toJson = some e := by
  -- However the annotation of the whole is read, those of its operands are read as `ofOpenJson?` does.
  have hpart : ∀ a : Expr, (∀ {readType? : Json → Option DataType},
      (∀ t : DataType, readType? t.toJson = some t) → readAs? readType? a.toJson = some a) →
      (read a.toJson).expr? = some a := fun a ha =>
    (expr?_read _).trans (ha DataType.ofOpenJson?_toJson)
  induction e generalizing readType? with
  | column name type =>
    rw [toJson, readAs?_nodeJson (hread type) (by simp)]
    rfl
  | literal value type =>
    cases value <;> rw [toJson, readAs?_nodeJson (hread type) (by simp)] <;> rfl
  | cast e type ih =>
    rw [toJson, readAs?_nodeJson (hread type) (by simp)]
    change (read e.toJson).expr?.bind (fun a => some (cast a type)) = _
    rw [hpart e ih]
    rfl
  | concat args type ih =>
    rw [toJson, readAs?_nodeJson (hread type) (by simp)]
    change (readAll? (toJsons args)).bind (fun as => some (concat as type)) = _
    rw [readAll?_toJsons fun a ha => hpart a (ih a ha)]
    rfl
  | upper e type ih =>
    rw [toJson, readAs?_nodeJson (hread type) (by simp)]
    change (read e.toJson).expr?.bind (fun a => some (upper a type)) = _
    rw [hpart e ih]
    rfl
  | lower e type ih =>
    rw [toJson, readAs?_nodeJson (hread type) (by simp)]
    change (read e.toJson).expr?.bind (fun a => some (lower a type)) = _
    rw [hpart e ih]
    rfl
  | substring e position length type ih ihp ihl =>
    rw [toJson, readAs?_nodeJson (hread type) (by simp)]
    change (read e.toJson).expr?.bind (fun a => (read position.toJson).expr?.bind fun p =>
      (read length.toJson).expr?.bind fun l => some (substring a p l type)) = _
    rw [hpart e ih, hpart position ihp, hpart length ihl]
    rfl
  | toDate e type ih =>
    rw [toJson, readAs?_nodeJson (hread type) (by simp)]
    change (read e.toJson).expr?.bind (fun a => some (toDate a type)) = _
    rw [hpart e ih]
    rfl
  | dateAdd date days type ihd ihn =>
    rw [toJson, readAs?_nodeJson (hread type) (by simp)]
    change (read date.toJson).expr?.bind (fun d => (read days.toJson).expr?.bind fun n =>
      some (dateAdd d n type)) = _
    rw [hpart date ihd, hpart days ihn]
    rfl
  | dateSub date days type ihd ihn =>
    rw [toJson, readAs?_nodeJson (hread type) (by simp)]
    change (read date.toJson).expr?.bind (fun d => (read days.toJson).expr?.bind fun n =>
      some (dateSub d n type)) = _
    rw [hpart date ihd, hpart days ihn]
    rfl
  | extract field e type ih =>
    rw [toJson, readAs?_nodeJson (hread type) (by simp)]
    change (DateField.ofOpenJson? field.toJson).bind (fun f => (read e.toJson).expr?.bind fun a =>
      some (extract f a type)) = _
    rw [DateField.ofOpenJson?_toJson, hpart e ih]
    rfl
  | arithmetic op left right type ihl ihr =>
    rw [toJson, readAs?_nodeJson (hread type) (by simp)]
    change (ArithOp.ofOpenJson? op.toJson).bind (fun o => (read left.toJson).expr?.bind fun l =>
      (read right.toJson).expr?.bind fun r => some (arithmetic o l r type)) = _
    rw [ArithOp.ofOpenJson?_toJson, hpart left ihl, hpart right ihr]
    rfl

/-! ## Nesting of what has been read -/

theorem depth_nodeJson_le {kind : Kind} {own : List (String × Json)} {type : DataType} {n : Nat}
    (h : ∀ m ∈ own, m.2.depth ≤ n) : (nodeJson kind own type).depth ≤ n + 1 := by
  refine Json.depth_object_le_iff.mpr ?_
  intro m hm
  rcases List.mem_cons.mp hm with rfl | hm
  · exact Nat.zero_le n
  · rcases List.mem_append.mp hm with hm | hm
    · exact h m hm
    · rw [List.mem_singleton.mp hm]
      exact Nat.zero_le n

theorem mem_of_readAll? {vs : List Json} {es : List Expr} (h : readAll? vs = some es) :
    ∀ e ∈ es, ∃ v ∈ vs, (read v).expr? = some e := by
  induction vs generalizing es with
  | nil =>
    obtain rfl := Option.some.inj h
    simp
  | cons v vs ih =>
    rw [readAll?] at h
    split at h
    · next a as ha has =>
      obtain rfl := Option.some.inj h
      intro e he
      rcases List.mem_cons.mp he with rfl | he
      · exact ⟨v, List.mem_cons_self, ha⟩
      · obtain ⟨w, hw, hread⟩ := ih has e he
        exact ⟨w, List.mem_cons_of_mem _ hw, hread⟩
    · contradiction

/-- What is written for what has been read is nested no deeper than what was read. -/
structure WrittenWithin (n : Nat) (r : Reading) : Prop where
  expr : ∀ e, r.expr? = some e → e.toJson.depth ≤ n
  exprs : ∀ es, r.exprs? = some es → (Json.array (toJsons es)).depth ≤ n

theorem WrittenWithin.mono {m n : Nat} {r : Reading} (h : WrittenWithin m r) (hmn : m ≤ n) :
    WrittenWithin n r where
  expr e he := Nat.le_trans (h.expr e he) hmn
  exprs es hes := Nat.le_trans (h.exprs es hes) hmn

theorem depth_toJson_of_ofKind? {ms : List (String × Reading)} {type : DataType} {kind : Kind}
    {e : Expr} {n : Nat} (hms : ∀ m ∈ ms, WrittenWithin n m.2)
    (h : ofKind? ms type kind = some e) : e.toJson.depth ≤ n + 1 := by
  -- The node adds one level to its operands, whichever kind it is.
  have hoperand : ∀ {name : String} {r : Reading} {a : Expr}, uniqueValue? name ms = some r →
      r.expr? = some a → a.toJson.depth ≤ n := fun hr ha => (hms _ (mem_of_uniqueValue? hr)).expr _ ha
  cases kind <;>
    simp only [ofKind?, Option.bind_eq_bind, Option.bind_eq_some_iff, Option.pure_def,
      Option.some.injEq] at h
  case column =>
    obtain ⟨r, -, name, -, rfl⟩ := h
    exact depth_nodeJson_le (by simp [Json.depth])
  case literal =>
    obtain ⟨value, -, rfl⟩ := h
    cases value <;> exact depth_nodeJson_le (by simp [Json.depth])
  case cast | upper | lower | toDate =>
    obtain ⟨a, ⟨r, hr, ha⟩, rfl⟩ := h
    exact depth_nodeJson_le (by simpa using hoperand hr ha)
  case concat =>
    obtain ⟨r, hr, as, has, rfl⟩ := h
    exact depth_nodeJson_le (by simpa using (hms _ (mem_of_uniqueValue? hr)).exprs _ has)
  case substring =>
    obtain ⟨a, ⟨ra, hra, ha⟩, p, ⟨rp, hrp, hp⟩, l, ⟨rl, hrl, hl⟩, rfl⟩ := h
    exact depth_nodeJson_le (by simp [hoperand hra ha, hoperand hrp hp, hoperand hrl hl])
  case dateAdd | dateSub =>
    obtain ⟨d, ⟨rd, hrd, hd⟩, m, ⟨rm, hrm, hm⟩, rfl⟩ := h
    exact depth_nodeJson_le (by simp [hoperand hrd hd, hoperand hrm hm])
  case extract =>
    obtain ⟨rf, -, field, -, a, ⟨r, hr, ha⟩, rfl⟩ := h
    exact depth_nodeJson_le (by simp [DateField.toJson, Json.depth, hoperand hr ha])
  case arithmetic =>
    obtain ⟨ro, -, op, -, l, ⟨rl, hrl, hl⟩, r, ⟨rr, hrr, hr⟩, rfl⟩ := h
    exact depth_nodeJson_le (by simp [ArithOp.toJson, Json.depth, hoperand hrl hl, hoperand hrr hr])

theorem depth_toJson_of_ofMembers? {readType? : Json → Option DataType}
    {ms : List (String × Json)} {e : Expr}
    (hms : ∀ m ∈ ms, WrittenWithin m.2.depth (read m.2))
    (h : ofMembers? readType? (readMembers ms) = some e) :
    e.toJson.depth ≤ (Json.object ms).depth := by
  simp only [ofMembers?, Option.bind_eq_bind, Option.bind_eq_some_iff] at h
  obtain ⟨rk, -, kind, -, rt, -, type, -, hkind⟩ := h
  refine depth_toJson_of_ofKind? (n := Json.depthOfMembers ms) ?_ hkind
  intro m hm
  rw [readMembers_eq_map] at hm
  obtain ⟨k, hk, rfl⟩ := List.mem_map.mp hm
  exact (hms k hk).mono (Json.depthOfMembers_le_iff.mp (Nat.le_refl _) k hk)

theorem writtenWithin_read (v : Json) : WrittenWithin v.depth (read v) := by
  induction v with
  | null | bool | number | string => exact ⟨nofun, nofun⟩
  | array vs ih =>
    refine ⟨nofun, fun es hes => Json.depth_array_le_iff.mpr ?_⟩
    rw [toJsons_eq_map]
    intro w hw
    obtain ⟨e, he, rfl⟩ := List.mem_map.mp hw
    obtain ⟨v, hv, hread⟩ := mem_of_readAll? hes e he
    exact Nat.le_trans ((ih v hv).expr e hread) (Json.depthOf_le_iff.mp (Nat.le_refl _) v hv)
  | object ms ih => exact ⟨fun e he => depth_toJson_of_ofMembers? ih he, nofun⟩

theorem depth_toJson_le_of_ofJson? {v : Json} {e : Expr} (h : ofJson? v = some e) :
    e.toJson.depth ≤ v.depth := by
  cases v with
  | object ms => exact depth_toJson_of_ofMembers? (fun m _ => writtenWithin_read m.2) h
  | _ => contradiction

/-! ## Canonical texts -/

theorem parse?_text (e : Expr) :
    parse? e.text = if e.toJson.depth ≤ Json.depthLimit then some e else none := by
  have hread : ofJson? e.toJson = some e :=
    (ofJson?_eq_readAs? _).trans (readAs?_toJson DataType.ofJson?_toJson e)
  have hfinite : e.toJson.isFinite = true := (plain_toJson e).isFinite
  rw [parse?, text, Json.parse?_compact (plain_toJson e)]
  by_cases hdepth : e.toJson.depth ≤ Json.depthLimit
  · rw [if_pos hdepth, if_pos hdepth]
    change (if e.toJson.isFinite = true then some () else none).bind (fun _ => ofJson? e.toJson) = _
    rw [if_pos hfinite, Option.bind_some, hread]
  · rw [if_neg hdepth, if_neg hdepth]
    rfl

theorem depth_le_of_parse? {text : String} {e : Expr} (h : parse? text = some e) :
    e.toJson.depth ≤ Json.depthLimit := by
  obtain ⟨v, hv, hrest⟩ := Option.bind_eq_some_iff.mp h
  obtain ⟨-, -, he⟩ := Option.bind_eq_some_iff.mp hrest
  exact Nat.le_trans (depth_toJson_le_of_ofJson? he) (Json.depth_le_of_parse? hv)

/-- **Round trip.** The canonical text of an expression is read as this expression within the
limit, and refused beyond it. The canonical text of what has been read, from whatever text, is
within the limit. -/
theorem parse?_canonical (e : Expr) :
    parse? e.text = (if e.toJson.depth ≤ 127 then some e else none) ∧
      ∀ text, parse? text = some e →
        parse? e.text = some e ∧ (parse? e.text).map fingerprint = some e.fingerprint := by
  refine ⟨parse?_text e, fun text h => ?_⟩
  have hread : parse? e.text = some e := by rw [parse?_text, if_pos (depth_le_of_parse? h)]
  exact ⟨hread, by rw [hread, Option.map_some]⟩

/-- A text with its members in another order, the kind by its index, a wrapped type and a member
that the kind does not know. -/
theorem parse?_canonical_reordered :
    parse? "\x7b\"type\":\x7b\"Long\":null\x7d,\"unit\":[1],\"kind\":1\x7d" =
        some (literal none .long) ∧
      parse? (literal none .long).text = some (literal none .long) ∧
      (parse? (literal none .long).text).map fingerprint = some (literal none .long).fingerprint := by
  have hread : parse? "\x7b\"type\":\x7b\"Long\":null\x7d,\"unit\":[1],\"kind\":1\x7d" =
      some (literal none .long) := by decide +kernel
  exact ⟨hread, (parse?_canonical (literal none .long)).2 _ hread⟩

/-! ## Fingerprints -/

theorem toJson_injective {e e' : Expr} (h : e.toJson = e'.toJson) : e = e' := by
  have hread := readAs?_toJson DataType.ofJson?_toJson e
  rw [h, readAs?_toJson DataType.ofJson?_toJson e'] at hread
  exact (Option.some.inj hread).symm

theorem text_injective {e e' : Expr} (h : e.text = e'.text) : e = e' :=
  toJson_injective (Json.compact_injective (plain_toJson e) (plain_toJson e') h)

end Expr

/-- Two messages that have one digest. -/
def Sha256.IsCollision (m m' : ByteArray) : Prop := m ≠ m' ∧ digest m.toList = digest m'.toList

namespace Expr

/-- **Fingerprints.** The bytes of a canonical text determine the expression. So do fingerprints,
and with the expression what it compiles to, short of a collision of the digest. -/
theorem fingerprint_determines (e e' : Expr) :
    (e.text.toUTF8 = e'.text.toUTF8 → e = e') ∧
      (e.fingerprint = e'.fingerprint →
        (∀ scope, tryCompile scope e = tryCompile scope e') ∨
          Sha256.IsCollision e.text.toUTF8 e'.text.toUTF8) := by
  have hbytes : e.text.toUTF8 = e'.text.toUTF8 → e = e' := fun h =>
    text_injective (String.toByteArray_inj.mp h)
  refine ⟨hbytes, fun h => ?_⟩
  by_cases htexts : e.text.toUTF8 = e'.text.toUTF8
  · left
    intro scope
    rw [hbytes htexts]
  · exact .inr ⟨htexts, Sha256.digest_eq_of_hexDigest h⟩

/-- An expression beside the one that is read from a text with its members in another order. -/
theorem fingerprint_determines_nested :
    let e : Expr := concat [upper (column "a" .long) .date,
      concat [literal none .integer, cast (column "b" .double) .string] .boolean] .string
    ∃ e', parse? ("\x7b\"args\":[\x7b\"kind\":4,\"type\":\"Date\",\"expr\":" ++
        "\x7b\"type\":\"Long\",\"name\":\"a\",\"kind\":\"column\"\x7d\x7d," ++
        "\x7b\"kind\":\"concat\",\"type\":\"Boolean\",\"args\":[" ++
        "\x7b\"kind\":\"literal\",\"type\":\"Integer\",\"value\":null\x7d," ++
        "\x7b\"kind\":\"cast\",\"type\":\"String\",\"expr\":" ++
        "\x7b\"kind\":\"column\",\"name\":\"b\",\"type\":\"Double\"\x7d\x7d]\x7d]," ++
        "\"type\":\"String\",\"kind\":\"concat\"\x7d") = some e' ∧
      e = e' ∧ ((∀ scope, tryCompile scope e = tryCompile scope e') ∨
        Sha256.IsCollision e.text.toUTF8 e'.text.toUTF8) := by
  intro e
  refine ⟨e, ?_, (fingerprint_determines _ _).1 rfl, (fingerprint_determines _ _).2 rfl⟩
  decide +kernel

end Expr

end RowScript

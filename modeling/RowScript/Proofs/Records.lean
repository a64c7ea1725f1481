import RowScript.RowFunction
import RowScript.Schema.Json
import RowScript.Proofs.Json.Reader

/-!
# Records are read back

Generated functions and column definitions are written as objects, from which one
member is left out when it says nothing, and may be given as arrays of all their
members. Either form is read back to the record (`records_round_trip`).
-/

namespace RowScript

/-! ## Reading to any depth -/

namespace Json

theorem admitUnpaired_of_closed {ts : List Token} (h : ∀ t ∈ ts, t.isClosed = true)
    (outside depth : Nat) : admitUnpaired outside depth ts = ts := by
  induction ts generalizing depth with
  | nil => rfl
  | cons t ts ih =>
    have ht := h t List.mem_cons_self
    have hrest := fun depth => ih (fun u hu => h u (List.mem_cons_of_mem _ hu)) depth
    cases t with
    | unpaired => contradiction
    | _ => rw [admitUnpaired, hrest] <;> exact nofun

theorem depthOf_le_length {vs : List Json} (h : ∀ v ∈ vs, v.depth ≤ v.tokens.length) :
    depthOf vs ≤ (elementTokens vs).length := by
  induction vs with
  | nil => exact Nat.zero_le _
  | cons v vs ih =>
    have hv := h v List.mem_cons_self
    have hvs := ih fun u hu => h u (List.mem_cons_of_mem _ hu)
    cases vs with
    | nil => exact Nat.max_le.mpr ⟨hv, Nat.zero_le _⟩
    | cons w vs =>
      have htokens : elementTokens (v :: w :: vs) = v.tokens ++ .comma :: elementTokens (w :: vs) :=
        rfl
      rw [depthOf, htokens, List.length_append, List.length_cons]
      omega

theorem depthOfMembers_le_length {ms : List (String × Json)}
    (h : ∀ m ∈ ms, m.2.depth ≤ m.2.tokens.length) :
    depthOfMembers ms ≤ (memberTokens ms).length := by
  induction ms with
  | nil => exact Nat.zero_le _
  | cons m ms ih =>
    obtain ⟨key, v⟩ := m
    have hv : v.depth ≤ v.tokens.length := h _ List.mem_cons_self
    have hms := ih fun k hk => h k (List.mem_cons_of_mem _ hk)
    cases ms with
    | nil =>
      rw [depthOfMembers, depthOfMembers, memberTokens, List.length_cons, List.length_cons]
      omega
    | cons k ms =>
      have htokens : memberTokens ((key, v) :: k :: ms) =
          .string key :: .colon :: (v.tokens ++ .comma :: memberTokens (k :: ms)) := rfl
      rw [depthOfMembers, htokens, List.length_cons, List.length_cons, List.length_append,
        List.length_cons]
      omega

theorem depth_le_length (v : Json) : v.depth ≤ v.tokens.length := by
  induction v with
  | null | bool | number | string => exact Nat.zero_le _
  | array vs ih =>
    have hvs := depthOf_le_length ih
    rw [depth, tokens, List.length_cons, List.length_append]
    omega
  | object ms ih =>
    have hms := depthOfMembers_le_length ih
    rw [depth, tokens, List.length_cons, List.length_append]
    omega

theorem parseOutermost?_compact {v : Json} (h : v.Plain) : parseOutermost? v.compact = some v := by
  have htokens : tokens? v.compact.toList = some v.tokens := by
    rw [compact, String.toList_ofList, (Spells.flatMap_text h.isClosed).tokens?_eq]
  have hrun := run_tokens v v.tokens.length [] []
  rw [List.append_nil, if_pos (depth_le_length v), run] at hrun
  rw [parseOutermost?, htokens, Option.bind_eq_bind, Option.bind_some,
    admitUnpaired_of_closed h.isClosed, hrun]

/-! ## Lists of strings -/

theorem plain_strings (ss : List String) : (strings ss).Plain :=
  .array (List.forall_mem_map.mpr fun s _ => .string s)

theorem strings?_strings (ss : List String) : (strings ss).strings? = some ss := by
  rw [strings, strings?]
  induction ss with
  | nil => rfl
  | cons s ss ih =>
    rw [List.map_cons, List.mapM_cons, ih]
    rfl

end Json

/-! ## Functions -/

namespace RowFunction

theorem ofParts?_parts (f : RowFunction) :
    ofParts? (.strings f.parameters) (.strings f.statements) (.string f.result) = some f := by
  rw [ofParts?, Json.strings?_strings, Json.strings?_strings]
  rfl

theorem ofJson?_toJson (f : RowFunction) : ofJson? f.toJson = some f := by
  obtain ⟨parameters, statements, result⟩ := f
  cases statements with
  | nil => exact ofParts?_parts ⟨parameters, [], result⟩
  | cons s ss => exact ofParts?_parts ⟨parameters, s :: ss, result⟩

theorem ofJson?_toJsonArray (f : RowFunction) : ofJson? f.toJsonArray = some f := ofParts?_parts f

theorem plain_toJson (f : RowFunction) : f.toJson.Plain := by
  refine .object ?_
  have hparameters := Json.plain_strings f.parameters
  have hstatements := Json.plain_strings f.statements
  have hresult := Json.Plain.string f.result
  by_cases hempty : f.statements.isEmpty = true
  · simp [hempty, hparameters, hresult]
  · simp [hempty, hparameters, hstatements, hresult]

theorem plain_toJsonArray (f : RowFunction) : f.toJsonArray.Plain := by
  refine .array ?_
  simp [Json.plain_strings, Json.Plain.string]

theorem parse?_text (f : RowFunction) : parse? f.text = some f := by
  rw [parse?, text, Json.parseOutermost?_compact f.plain_toJson]
  exact f.ofJson?_toJson

theorem parse?_array (f : RowFunction) : parse? f.toJsonArray.compact = some f := by
  rw [parse?, Json.parseOutermost?_compact f.plain_toJsonArray]
  exact f.ofJson?_toJsonArray

end RowFunction

/-! ## Column definitions -/

theorem Role.ofJson?_toJson (r : Role) : ofJson? r.toJson = some r := ofName?_name r

namespace ColumnDef

theorem canonicalName?_getD (canonicalName : Option String) :
    canonicalName? ((canonicalName.map Json.string).getD .null) = some canonicalName := by
  cases canonicalName <;> rfl

theorem ofParts?_parts (d : ColumnDef) :
    ofParts? (.string d.name) ((d.canonicalName.map Json.string).getD .null) d.role.toJson
      d.type.toJson = some d := by
  rw [ofParts?, canonicalName?_getD, Role.ofJson?_toJson, DataType.ofJson?_toJson]
  rfl

theorem ofJson?_toJson (d : ColumnDef) : ofJson? d.toJson = some d := by
  obtain ⟨name, canonicalName, role, type⟩ := d
  cases canonicalName with
  | none => exact ofParts?_parts ⟨name, none, role, type⟩
  | some canonicalName => exact ofParts?_parts ⟨name, some canonicalName, role, type⟩

theorem ofJson?_toJsonArray (d : ColumnDef) : ofJson? d.toJsonArray = some d := ofParts?_parts d

theorem depth_toJson (d : ColumnDef) : d.toJson.depth = 1 := by
  -- Nothing stands inside the members of a definition.
  obtain ⟨name, canonicalName, role, type⟩ := d
  cases canonicalName <;> rfl

theorem depth_toJsonArray (d : ColumnDef) : d.toJsonArray.depth = 1 := by
  obtain ⟨name, canonicalName, role, type⟩ := d
  cases canonicalName <;> rfl

theorem plain_toJson (d : ColumnDef) : d.toJson.Plain := by
  obtain ⟨name, canonicalName, role, type⟩ := d
  have hrole : role.toJson.Plain := .string _
  have htype : type.toJson.Plain := .string _
  refine .object ?_
  cases canonicalName <;> simp [hrole, htype, Json.Plain.string]

theorem plain_toJsonArray (d : ColumnDef) : d.toJsonArray.Plain := by
  obtain ⟨name, canonicalName, role, type⟩ := d
  have hrole : role.toJson.Plain := .string _
  have htype : type.toJson.Plain := .string _
  refine .array ?_
  cases canonicalName <;> simp [hrole, htype, Json.Plain.string, Json.Plain.null]

end ColumnDef

/-! ## Both -/

/-- **Round trip.** Functions and column definitions are read back from the texts of their objects
and of their arrays, and a function that has been read back is the same text again. -/
theorem records_round_trip :
    (∀ f : RowFunction, RowFunction.parse? f.text = some f ∧
      RowFunction.parse? f.toJsonArray.compact = some f ∧
      (RowFunction.parse? f.text).map RowFunction.render = some f.render) ∧
    ∀ (d : ColumnDef) (room : Nat),
      (Json.parse? (room + 1) d.toJson.compact).bind ColumnDef.ofJson? = some d ∧
      (Json.parse? (room + 1) d.toJsonArray.compact).bind ColumnDef.ofJson? = some d := by
  constructor
  · intro f
    refine ⟨f.parse?_text, f.parse?_array, ?_⟩
    rw [f.parse?_text, Option.map_some]
  · intro d room
    constructor
    · rw [Json.parse?_compact d.plain_toJson, if_pos (by rw [d.depth_toJson]; omega),
        Option.bind_some, d.ofJson?_toJson]
    · rw [Json.parse?_compact d.plain_toJsonArray, if_pos (by rw [d.depth_toJsonArray]; omega),
        Option.bind_some, d.ofJson?_toJsonArray]

end RowScript

import Mathlib.Data.Finset.Card
import Mathlib.Data.Finset.Image
import RowScript.Proofs.Acceptance
import RowScript.Proofs.Schema

/-!
# Columns and inputs

A function has one parameter for each column that its expression names, with one
exception. The time dimension goes by its canonical name, and a schema may have
another column of that name: the two are then read from one parameter, whatever
their types (`length_parameters_add_sharesTime`). Where one input is allowed, an expression
over both of them has a function all the same.
-/

namespace RowScript

namespace Expr

/-- The expression names the time dimension, and another column that has its canonical name. -/
def sharesTime (s : Schema) (e : Expr) : Bool :=
  e.columnNames.any fun t => (s.lookup t).any fun c =>
    c.role = .timeDimension && c.canonicalName ≠ t && e.columnNames.contains c.canonicalName

theorem sharesTime_iff {s : Schema} {e : Expr} :
    e.sharesTime s = true ↔ ∃ t ∈ e.columnNames, ∃ c, s.lookup t = some c ∧
      c.role = .timeDimension ∧ c.canonicalName ≠ t ∧ c.canonicalName ∈ e.columnNames := by
  simp [sharesTime, Option.any_eq_true, and_assoc]

end Expr

/-! ## Identifiers -/

variable {s : Schema} {multiple : Bool}

theorem identifierIn_scope {name : String} {c : Column} (h : s.lookup name = some c) :
    Expr.identifierIn (s.scope multiple) name = Emission.identifier name c :=
  Expr.identifierIn_of_lookup h

theorem identifierIn_time {name : String} {c : Column} (h : s.lookup name = some c)
    (hrole : c.role = .timeDimension) :
    Expr.identifierIn (s.scope multiple) name = c.canonicalName := by
  rw [identifierIn_scope h, Emission.identifier, if_pos hrole]

theorem identifierIn_other {name : String} {c : Column} (h : s.lookup name = some c)
    (hrole : c.role ≠ .timeDimension) : Expr.identifierIn (s.scope multiple) name = name := by
  rw [identifierIn_scope h, Emission.identifier, if_neg hrole]

theorem time_of_identifierIn_eq (hs : s.TimeOnRecord) {a b : String} {c d : Column}
    (ha : s.lookup a = some c) (hb : s.lookup b = some d) (hne : a ≠ b)
    (h : Expr.identifierIn (s.scope multiple) a = Expr.identifierIn (s.scope multiple) b) :
    (c.role = .timeDimension ∧ c.canonicalName = b) ∨
      (d.role = .timeDimension ∧ d.canonicalName = a) := by
  by_cases hc : c.role = .timeDimension
  · by_cases hd : d.role = .timeDimension
    · exact absurd (hs.eq_of_timeDimension ha hc hb hd) hne
    · rw [identifierIn_time ha hc, identifierIn_other hb hd] at h
      exact .inl ⟨hc, h⟩
  · by_cases hd : d.role = .timeDimension
    · rw [identifierIn_other ha hc, identifierIn_time hb hd] at h
      exact .inr ⟨hd, h.symm⟩
    · rw [identifierIn_other ha hc, identifierIn_other hb hd] at h
      exact absurd h hne

theorem injOn_identifierIn (hs : s.TimeOnRecord) {names : Finset String}
    (hknown : ∀ name ∈ names, ∃ c, s.lookup name = some c)
    (hcanonical : ∀ t ∈ names, ∀ c, s.lookup t = some c → c.role = .timeDimension →
      c.canonicalName ∈ names → c.canonicalName = t) :
    Set.InjOn (Expr.identifierIn (s.scope multiple)) names := by
  intro a ha b hb hab
  obtain ⟨c, hc⟩ := hknown a ha
  obtain ⟨d, hd⟩ := hknown b hb
  by_contra hne
  rcases time_of_identifierIn_eq hs hc hd hne hab with ⟨hrole, hname⟩ | ⟨hrole, hname⟩
  · exact hne ((hcanonical a ha c hc hrole (hname ▸ hb)).symm.trans hname)
  · exact hne (hname.symm.trans (hcanonical b hb d hd hrole (hname ▸ ha)))

/-! ## Counting -/

variable {e : Expr}

theorem card_columnNames_of_sharesTime (hs : s.TimeOnRecord)
    (hknown : ∀ name ∈ e.columnNames.toFinset, ∃ c, s.lookup name = some c)
    (h : e.sharesTime s = true) :
    (e.columnNames.toFinset.image (Expr.identifierIn (s.scope multiple))).card + 1 =
      e.columnNames.toFinset.card := by
  obtain ⟨t, ht, c, hc, htime, hne, hcanonical⟩ := Expr.sharesTime_iff.mp h
  have ht : t ∈ e.columnNames.toFinset := List.mem_toFinset.mpr ht
  have hcanonical : c.canonicalName ∈ e.columnNames.toFinset.erase t :=
    Finset.mem_erase.mpr ⟨hne, List.mem_toFinset.mpr hcanonical⟩
  -- Without the time dimension no identifier is lost, and no two are the same.
  have himage : e.columnNames.toFinset.image (Expr.identifierIn (s.scope multiple)) =
      (e.columnNames.toFinset.erase t).image (Expr.identifierIn (s.scope multiple)) := by
    obtain ⟨d, hd⟩ := hknown _ (Finset.mem_of_mem_erase hcanonical)
    have hother : d.role ≠ .timeDimension := fun hrole =>
      hne (hs.eq_of_timeDimension hd hrole hc htime)
    conv_lhs => rw [← Finset.insert_erase ht, Finset.image_insert]
    refine Finset.insert_eq_of_mem (Finset.mem_image.mpr ⟨c.canonicalName, hcanonical, ?_⟩)
    rw [identifierIn_other hd hother, identifierIn_time hc htime]
  have hinjective : Set.InjOn (Expr.identifierIn (s.scope multiple))
      (e.columnNames.toFinset.erase t) := by
    refine injOn_identifierIn hs (fun name hn => hknown name (Finset.mem_of_mem_erase hn)) ?_
    intro a ha d hd hrole
    exact absurd (hs.eq_of_timeDimension hd hrole hc htime) (Finset.ne_of_mem_erase ha)
  rw [himage, Finset.card_image_of_injOn hinjective]
  exact Finset.card_erase_add_one ht

theorem card_columnNames (hs : s.TimeOnRecord)
    (hknown : ∀ name ∈ e.columnNames.toFinset, ∃ c, s.lookup name = some c) :
    (e.columnNames.toFinset.image (Expr.identifierIn (s.scope multiple))).card +
      (e.sharesTime s).toNat = e.columnNames.toFinset.card := by
  cases hshares : e.sharesTime s with
  | true => exact card_columnNames_of_sharesTime hs hknown hshares
  | false =>
    refine Finset.card_image_of_injOn (injOn_identifierIn hs hknown ?_)
    intro t ht c hc htime hcanonical
    by_contra hne
    rw [Expr.sharesTime_iff.mpr ⟨t, List.mem_toFinset.mp ht, c, hc, htime, hne,
      List.mem_toFinset.mp hcanonical⟩] at hshares
    contradiction

theorem length_parameters (scope : Scope) (e : Expr) :
    (e.parameters scope).length =
      (e.columnNames.toFinset.image (Expr.identifierIn scope)).card := by
  rw [← List.toFinset_card_of_nodup (Expr.nodup_parameters scope e)]
  congr 1
  ext name
  rw [List.mem_toFinset, Expr.mem_parameters, Expr.identifiers_eq_map]
  simp

/-- **Inputs.** Whatever has been offered to a schema, a function over it has as many parameters as
its expression names columns, or one less if the time dimension shares its canonical name with
another of them. Where only one input is allowed it has one. -/
theorem length_parameters_add_sharesTime (defs : List ColumnDef) (multiple : Bool) (e : Expr)
    (f : RowFunction) (h : tryCompile ((Schema.offerAll {} defs).scope multiple) e = .ok f) :
    f.parameters.length + (e.sharesTime (Schema.offerAll {} defs)).toNat =
        e.columnNames.toFinset.card ∧
      (multiple = false → f.parameters.length = 1) := by
  have hcompiled := compiled_of_tryCompile h
  constructor
  · have hknown : ∀ name ∈ e.columnNames.toFinset,
        ∃ c, (Schema.offerAll {} defs).lookup name = some c := by
      intro name hname
      obtain ⟨type, hnode⟩ := Expr.mem_columnNames.mp (List.mem_toFinset.mp hname)
      obtain ⟨c, hc, -⟩ := (Expr.compiles_iff _ e).mp hcompiled.compiles _ hnode
      exact ⟨c, hc⟩
    rw [hcompiled.parameters, length_parameters]
    exact card_columnNames (Schema.TimeOnRecord.empty.offerAll defs) hknown
  · rintro rfl
    have hle := ((tryCompile_single_ok_iff _ e f).mp h).2
    have hpos := List.length_pos_of_ne_nil hcompiled.parameters_ne_nil
    omega

/-- A text has the name that the time dimension goes by. -/
def homonyms : List ColumnDef :=
  [{ name := "__time", role := .dimension, type := .string },
    .timeDimension "l_shipdate" "__time" .timestamp]

/-- The two are not told apart: the text is read twice, the time never. -/
theorem length_parameters_homonyms :
    ∃ f, tryCompile ((Schema.offerAll {} homonyms).scope false)
        (.concatOf [.column "__time" .string, .column "l_shipdate" .timestamp]) = .ok f ∧
      f.result = "__time.concat(__time.toString())" ∧ f.parameters.length + 1 = 2 := by
  let e : Expr := .concatOf [.column "__time" .string, .column "l_shipdate" .timestamp]
  have h : tryCompile ((Schema.offerAll {} homonyms).scope false) e =
      .ok { parameters := ["__time"], result := "__time.concat(__time.toString())" } := rfl
  have hshares : e.sharesTime (Schema.offerAll {} homonyms) = true := by decide
  have hcard : e.columnNames.toFinset.card = 2 := by decide
  obtain ⟨hcount, -⟩ := length_parameters_add_sharesTime homonyms false e _ h
  rw [hshares, hcard] at hcount
  exact ⟨_, h, rfl, hcount⟩

/-- Distinct columns are not always distinct inputs. -/
theorem exists_length_parameters_ne_card_columnNames :
    ¬ ∀ (defs : List ColumnDef) (multiple : Bool) (e : Expr) (f : RowFunction),
      tryCompile ((Schema.offerAll {} defs).scope multiple) e = .ok f →
        f.parameters.length = e.columnNames.toFinset.card := by
  intro hall
  have h := hall homonyms false
    (.concatOf [.column "__time" .string, .column "l_shipdate" .timestamp])
    { parameters := ["__time"], result := "__time.concat(__time.toString())" } rfl
  revert h
  decide

/-! ## The order of the inputs -/

/-- By which identifier generated text refers to a column, if it may. -/
def RefersTo (scope : Scope) (name identifier : String) : Prop :=
  ∃ c, scope.lookup name = some c ∧
    (c.role = .timeDimension ∧ identifier = c.canonicalName ∨
      c.role = .dimension ∧ identifier = name)

theorem refersTo_identifierIn {scope : Scope} {name : String} {c : Column}
    (hc : scope.lookup name = some c) (hrole : c.role ≠ .measure) :
    RefersTo scope name (Expr.identifierIn scope name) := by
  refine ⟨c, hc, ?_⟩
  rw [Expr.identifierIn_of_lookup hc, Emission.identifier]
  cases hr : c.role with
  | dimension => exact .inr ⟨rfl, if_neg (by decide)⟩
  | timeDimension => exact .inl ⟨rfl, if_pos rfl⟩
  | measure => exact absurd hr hrole

/-- **Order of the inputs.** The parameters of a function are the identifiers of the columns that
its expression names from left to right, each of them where it comes first. -/
theorem exists_refersTo_parameters_eq (scope : Scope) (e : Expr) (f : RowFunction)
    (h : tryCompile scope e = .ok f) :
    ∃ identifiers, List.Forall₂ (RefersTo scope) e.columnNames identifiers ∧
      f.parameters = identifiers.eraseDups := by
  have hcompiled := compiled_of_tryCompile h
  refine ⟨e.columnNames.map (Expr.identifierIn scope), ?_, ?_⟩
  · rw [List.forall₂_map_right_iff, List.forall₂_same]
    intro name hname
    obtain ⟨type, hnode⟩ := Expr.mem_columnNames.mp hname
    obtain ⟨c, hc, hrole, -⟩ := (Expr.compiles_iff scope e).mp hcompiled.compiles _ hnode
    exact refersTo_identifierIn hc hrole
  · rw [hcompiled.parameters, Expr.parameters, Expr.identifiers_eq_map,
      Emission.foldl_addNew_nil]

/-- The time is read three times and under its canonical name, between two other columns that are
read again later. -/
theorem exists_refersTo_parameters_eq_repeated :
    ∃ (s : Schema) (e : Expr) (f : RowFunction) (identifiers : List String),
      tryCompile (s.scope true) e = .ok f ∧
      e.columnNames = ["mode", "shipdate", "shipdate", "mode", "flag", "shipdate"] ∧
      List.Forall₂ (RefersTo (s.scope true)) e.columnNames identifiers ∧
      f.parameters = identifiers.eraseDups ∧ f.parameters = ["mode", "__time", "flag"] := by
  let s : Schema := Schema.offerAll {}
    [.timeDimension "shipdate" "__time" .timestamp,
      { name := "mode", role := .dimension, type := .string },
      { name := "flag", role := .dimension, type := .string }]
  let shipdate : Expr := .column "shipdate" .timestamp
  let e : Expr := .concatOf
    [.upper (.column "mode" .string) .string,
      .arithmetic .sub (.extract .year shipdate .long) (.extract .month shipdate .long) .long,
      .concatOf [.column "mode" .string, .column "flag" .string, shipdate]]
  have hcompiles : ∃ f, tryCompile (s.scope true) e = .ok f ∧
      f.parameters = ["mode", "__time", "flag"] := ⟨_, rfl, rfl⟩
  obtain ⟨f, hf, hparameters⟩ := hcompiles
  obtain ⟨identifiers, hrefers, heq⟩ := exists_refersTo_parameters_eq (s.scope true) e f hf
  exact ⟨s, e, f, identifiers, hf, rfl, hrefers, heq, hparameters⟩

end RowScript

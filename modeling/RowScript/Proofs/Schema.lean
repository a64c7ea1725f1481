import RowScript.Emission

/-!
# What a schema lets in

Columns are offered to a schema one after another, and one that it refuses leaves
it as it was. Whatever has been offered, at most one of its columns is the time
dimension (`TimeOnRecord.eq_of_timeDimension`). Canonical names are not looked at: that of the
time dimension may be the name of another column.
-/

namespace RowScript.Schema

/-- The schema after a column has been offered to it. -/
def offer (s : Schema) (d : ColumnDef) : Schema :=
  match s.add d with
  | .ok s' => s'
  | .error _ => s

def offerAll (s : Schema) (defs : List ColumnDef) : Schema := defs.foldl offer s

def scope (s : Schema) (multipleInputs : Bool) : Scope := { lookup := s.lookup, multipleInputs }

theorem add_ok_iff {s s' : Schema} {d : ColumnDef} :
    s.add d = .ok s' ↔
      s.lookup d.name = none ∧ (d.role = .timeDimension → s.timeColumn = none) ∧
        s' = s.insert d := by
  unfold add
  cases hlookup : s.lookup d.name with
  | some c => simp
  | none => cases hrole : d.role <;> cases htime : s.timeColumn <;> simp [eq_comm]

theorem lookup_insert {s : Schema} {d : ColumnDef} (h : s.lookup d.name = none) (name : String) :
    (s.insert d).lookup name = if name = d.name then some d.toColumn else s.lookup name := by
  unfold lookup at h ⊢
  rw [insert, List.lookup_append]
  by_cases hname : name = d.name
  · rw [if_pos hname, hname, h, List.lookup_cons, beq_self_eq_true]
    rfl
  · rw [if_neg hname, List.lookup_cons, beq_false_of_ne hname]
    simp

theorem lookup_offer {s : Schema} {name : String} {c : Column} (h : s.lookup name = some c)
    (d : ColumnDef) : (s.offer d).lookup name = some c := by
  unfold offer
  split
  · next s' hadd =>
    obtain ⟨hfree, -, rfl⟩ := add_ok_iff.mp hadd
    have hname : name ≠ d.name := by
      rintro rfl
      rw [hfree] at h
      contradiction
    rw [lookup_insert hfree, if_neg hname, h]
  · exact h

theorem lookup_offerAll {s : Schema} {name : String} {c : Column} (h : s.lookup name = some c)
    (defs : List ColumnDef) : (s.offerAll defs).lookup name = some c := by
  unfold offerAll
  induction defs generalizing s with
  | nil => exact h
  | cons d defs ih => exact ih (lookup_offer h d)

/-! ## The time dimension -/

/-- The time dimension is the column that is on record. -/
def TimeOnRecord (s : Schema) : Prop :=
  ∀ name c, s.lookup name = some c → c.role = .timeDimension → s.timeColumn = some name

theorem TimeOnRecord.empty : TimeOnRecord {} := by
  intro name c h
  contradiction

theorem TimeOnRecord.insert {s : Schema} {d : ColumnDef} (h : s.TimeOnRecord)
    (hfree : s.lookup d.name = none) (htime : d.role = .timeDimension → s.timeColumn = none) :
    (s.insert d).TimeOnRecord := by
  intro name c hlookup hrole
  rw [lookup_insert hfree] at hlookup
  change (if d.role = .timeDimension then some d.name else s.timeColumn) = some name
  split at hlookup
  · next hname =>
    obtain rfl := Option.some.inj hlookup
    have hd : d.role = .timeDimension := hrole
    rw [if_pos hd, hname]
  · have hrecord := h name c hlookup hrole
    split
    · -- Nothing was on record when a time dimension was let in.
      next hd =>
      rw [htime hd] at hrecord
      contradiction
    · exact hrecord

theorem TimeOnRecord.offer {s : Schema} (h : s.TimeOnRecord) (d : ColumnDef) :
    (s.offer d).TimeOnRecord := by
  unfold Schema.offer
  split
  · next s' hadd =>
    obtain ⟨hfree, htime, rfl⟩ := add_ok_iff.mp hadd
    exact h.insert hfree htime
  · exact h

theorem TimeOnRecord.offerAll {s : Schema} (h : s.TimeOnRecord) (defs : List ColumnDef) :
    (s.offerAll defs).TimeOnRecord := by
  unfold Schema.offerAll
  induction defs generalizing s with
  | nil => exact h
  | cons d defs ih => exact ih (h.offer d)

theorem TimeOnRecord.eq_of_timeDimension {s : Schema} (h : s.TimeOnRecord) {a b : String}
    {c d : Column} (ha : s.lookup a = some c) (hc : c.role = .timeDimension)
    (hb : s.lookup b = some d) (hd : d.role = .timeDimension) : a = b :=
  Option.some.inj ((h a c ha hc).symm.trans (h b d hb hd))

end RowScript.Schema

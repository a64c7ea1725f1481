/-!
# Members by name

A list of named values may hold a name more than once.
-/

namespace RowScript

/-- The values under one name, in their order. -/
def valuesOf {α : Type} (name : String) (members : List (String × α)) : List α :=
  (members.filter (·.1 == name)).map (·.2)

/-- The value under a name that is held once. -/
def uniqueValue? {α : Type} (name : String) (members : List (String × α)) : Option α :=
  match valuesOf name members with
  | [v] => some v
  | _ => none

theorem mem_valuesOf {α : Type} {name : String} {members : List (String × α)} {a : α} :
    a ∈ valuesOf name members ↔ (name, a) ∈ members := by
  simp [valuesOf]

theorem valuesOf_append {α : Type} (name : String) (ms ns : List (String × α)) :
    valuesOf name (ms ++ ns) = valuesOf name ms ++ valuesOf name ns := by
  simp [valuesOf]

theorem valuesOf_eq_nil {α : Type} {name : String} {members : List (String × α)}
    (h : ∀ m ∈ members, m.1 ≠ name) : valuesOf name members = [] := by
  simpa [valuesOf] using h

theorem mem_of_uniqueValue? {α : Type} {name : String} {members : List (String × α)} {a : α}
    (h : uniqueValue? name members = some a) : (name, a) ∈ members := by
  unfold uniqueValue? at h
  split at h
  · next v hv =>
    rw [← mem_valuesOf, hv, ← Option.some.inj h]
    exact List.mem_singleton_self v
  · contradiction

end RowScript

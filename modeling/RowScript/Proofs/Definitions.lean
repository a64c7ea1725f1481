import Mathlib.Data.List.Induction
import Mathlib.Data.List.Nodup
import RowScript.Config
import RowScript.Proofs.Schema

/-!
# Definitions that a schema accepts

A schema is made by calls that may be refused. Whatever has been refused on the way, it
is what the accepted definitions make of it (`Holds`), and these also decide what becomes
of the next call (`callEach_records`). A list of definitions is accepted as a whole if it
would be in any other order (`ofDefs_iff_consistent`).
-/

namespace RowScript

namespace ColumnDef

/-- Definitions that can stand in one schema. -/
structure Consistent (defs : List ColumnDef) : Prop where
  names : (defs.map name).Nodup
  time : defs.countP (·.role = .timeDimension) ≤ 1

/-- Why a definition cannot come after others. A name that is taken goes before a second time
dimension. -/
inductive Clash (before : List ColumnDef) (d : ColumnDef) : SchemaError → Prop
  | name (hname : ∃ a ∈ before, a.name = d.name) : Clash before d (.duplicateColumn d.name)
  | time (hname : ∀ a ∈ before, a.name ≠ d.name) (hrole : d.role = .timeDimension) {t : ColumnDef}
      (ht : before.find? (·.role = .timeDimension) = some t) :
      Clash before d (.multipleTimeDimensions t.name d.name)

/-- Why the first definition that clashes with those before it does so. -/
def FirstClash (defs : List ColumnDef) (e : SchemaError) : Prop :=
  ∃ before d after, defs = before ++ d :: after ∧ Clash before d e ∧
    ∀ before' d' after' e', before = before' ++ d' :: after' → ¬Clash before' d' e'

variable {before after defs : List ColumnDef} {d : ColumnDef} {e : SchemaError}

theorem countP_time_eq_zero_iff :
    defs.countP (·.role = .timeDimension) = 0 ↔ defs.find? (·.role = .timeDimension) = none := by
  rw [List.countP_eq_zero, List.find?_eq_none]

theorem Consistent.nil : Consistent [] := ⟨List.nodup_nil, Nat.zero_le 1⟩

theorem Consistent.of_append (h : Consistent (before ++ after)) : Consistent before := by
  obtain ⟨hnames, htime⟩ := h
  rw [List.map_append] at hnames
  rw [List.countP_append] at htime
  exact ⟨(List.nodup_append.mp hnames).1, by omega⟩

theorem Consistent.perm (h : Consistent defs) {other : List ColumnDef} (hperm : other.Perm defs) :
    Consistent other :=
  ⟨(hperm.map name).nodup_iff.mpr h.names, hperm.countP_eq _ ▸ h.time⟩

theorem consistent_concat_iff :
    Consistent (before ++ [d]) ↔ Consistent before ∧ (∀ a ∈ before, a.name ≠ d.name) ∧
      (d.role = .timeDimension → before.find? (·.role = .timeDimension) = none) := by
  have hnames : ((before ++ [d]).map name).Nodup ↔
      (before.map name).Nodup ∧ ∀ a ∈ before, a.name ≠ d.name := by
    simp [List.nodup_append]
  have htime : (before ++ [d]).countP (·.role = .timeDimension) ≤ 1 ↔
      before.countP (·.role = .timeDimension) ≤ 1 ∧
        (d.role = .timeDimension → before.find? (·.role = .timeDimension) = none) := by
    rw [← countP_time_eq_zero_iff, List.countP_append, List.countP_singleton]
    by_cases hrole : d.role = .timeDimension
    · simp only [hrole, decide_true, if_true, true_imp_iff]
      omega
    · simp [hrole]
  constructor
  · rintro ⟨hn, ht⟩
    exact ⟨⟨(hnames.mp hn).1, (htime.mp ht).1⟩, (hnames.mp hn).2, (htime.mp ht).2⟩
  · rintro ⟨h, hn, ht⟩
    exact ⟨hnames.mpr ⟨h.names, hn⟩, htime.mpr ⟨h.time, ht⟩⟩

theorem Clash.not_consistent (h : Clash before d e) : ¬Consistent (before ++ d :: after) := by
  intro hall
  rw [List.append_cons] at hall
  obtain ⟨-, hnew, htime⟩ := consistent_concat_iff.mp hall.of_append
  cases h with
  | name hname =>
    obtain ⟨a, ha, hname⟩ := hname
    exact hnew a ha hname
  | time hname hrole ht =>
    rw [htime hrole] at ht
    contradiction

theorem consistent_iff_not_clash :
    Consistent defs ↔
      ∀ before d after e, defs = before ++ d :: after → ¬Clash before d e := by
  constructor
  · rintro h before d after e rfl hclash
    exact hclash.not_consistent h
  · intro h
    induction defs using List.reverseRecOn with
    | nil => exact .nil
    | append_singleton before d ih =>
      have hd : ∀ e, ¬Clash before d e := fun e => h before d [] e rfl
      have hnew : ∀ a ∈ before, a.name ≠ d.name := fun a ha hname => hd _ (.name ⟨a, ha, hname⟩)
      refine consistent_concat_iff.mpr ⟨ih ?_, hnew, ?_⟩
      · rintro b x a e rfl
        exact h b x (a ++ [d]) e (by simp)
      · intro hrole
        cases htime : before.find? (·.role = .timeDimension) with
        | none => rfl
        | some t => exact absurd (.time hnew hrole htime) (hd _)

end ColumnDef

open ColumnDef (Consistent Clash FirstClash)

namespace Schema

/-! ## What a schema holds -/

/-- A schema in which definitions have been accepted, the first one first. -/
structure Holds (s : Schema) (accepted : List ColumnDef) : Prop where
  columns : s.columns = accepted.map fun d => (d.name, d.toColumn)
  timeColumn : s.timeColumn = (accepted.find? (·.role = .timeDimension)).map ColumnDef.name
  consistent : Consistent accepted
  timeOnRecord : s.TimeOnRecord

variable {s s' : Schema} {accepted defs : List ColumnDef} {d : ColumnDef} {e : SchemaError}

theorem Holds.empty : Holds {} [] := ⟨rfl, rfl, .nil, .empty⟩

theorem Holds.lookup_eq (h : s.Holds accepted) (name : String) :
    s.lookup name = (accepted.find? (·.name = name)).map ColumnDef.toColumn := by
  rw [lookup, h.columns]
  clear h
  induction accepted with
  | nil => rfl
  | cons d accepted ih =>
    rw [List.map_cons, List.lookup_cons, List.find?_cons]
    by_cases hname : d.name = name
    · simp [hname]
    · rw [beq_false_of_ne (Ne.symm hname), decide_eq_false hname]
      exact ih

theorem Holds.lookup_eq_none_iff (h : s.Holds accepted) {name : String} :
    s.lookup name = none ↔ ∀ a ∈ accepted, a.name ≠ name := by
  rw [h.lookup_eq, Option.map_eq_none_iff, List.find?_eq_none]
  simp

theorem Holds.lookup_eq_some_iff (h : s.Holds accepted) {name : String} {c : Column} :
    s.lookup name = some c ↔ ∃ a ∈ accepted, a.name = name ∧ a.toColumn = c := by
  -- No two definitions have one name, so each is found by its own.
  rw [h.lookup_eq, Option.map_eq_some_iff]
  constructor
  · rintro ⟨a, ha, hc⟩
    exact ⟨a, List.mem_of_find?_eq_some ha, by simpa using List.find?_some ha, hc⟩
  · rintro ⟨a, ha, rfl, hc⟩
    refine ⟨a, ?_, hc⟩
    cases hfind : accepted.find? (·.name = a.name) with
    | none => exact absurd (decide_eq_true rfl) (List.find?_eq_none.mp hfind a ha)
    | some b =>
      have hname : b.name = a.name := by simpa using List.find?_some hfind
      have hb := List.mem_of_find?_eq_some hfind
      rw [List.inj_on_of_nodup_map h.consistent.names hb ha hname]

theorem Holds.timeColumn_eq_some_iff (h : s.Holds accepted) {name : String} :
    s.timeColumn = some name ↔ ∃ c, s.lookup name = some c ∧ c.role = .timeDimension := by
  constructor
  · intro htime
    rw [h.timeColumn, Option.map_eq_some_iff] at htime
    obtain ⟨t, ht, rfl⟩ := htime
    have hrole : t.role = .timeDimension := by simpa using List.find?_some ht
    exact ⟨t.toColumn, h.lookup_eq_some_iff.mpr ⟨t, List.mem_of_find?_eq_some ht, rfl, rfl⟩, hrole⟩
  · rintro ⟨c, hc, hrole⟩
    exact h.timeOnRecord name c hc hrole

/-! ## One definition more -/

theorem add_error_iff :
    s.add d = .error e ↔
      (∃ c, s.lookup d.name = some c) ∧ e = .duplicateColumn d.name ∨
        s.lookup d.name = none ∧ d.role = .timeDimension ∧
          ∃ t, s.timeColumn = some t ∧ e = .multipleTimeDimensions t d.name := by
  unfold add
  cases hlookup : s.lookup d.name with
  | some c => simp [eq_comm]
  | none => cases hrole : d.role <;> cases htime : s.timeColumn <;> simp [eq_comm]

theorem Holds.add_ok (h : s.Holds accepted) (hadd : s.add d = .ok s') :
    s'.Holds (accepted ++ [d]) := by
  obtain ⟨hfree, htime, rfl⟩ := add_ok_iff.mp hadd
  have hnone : d.role = .timeDimension → accepted.find? (·.role = .timeDimension) = none := by
    intro hrole
    have hrecord := htime hrole
    rwa [h.timeColumn, Option.map_eq_none_iff] at hrecord
  refine ⟨?_, ?_, ?_, h.timeOnRecord.insert hfree htime⟩
  · rw [insert, h.columns, List.map_append, List.map_singleton]
  · rw [insert, h.timeColumn, List.find?_append]
    by_cases hrole : d.role = .timeDimension
    · simp [hrole, hnone hrole]
    · simp [hrole]
  · exact ColumnDef.consistent_concat_iff.mpr
      ⟨h.consistent, h.lookup_eq_none_iff.mp hfree, hnone⟩

theorem Holds.add_error_iff (h : s.Holds accepted) :
    s.add d = .error e ↔ Clash accepted d e := by
  rw [Schema.add_error_iff, h.timeColumn]
  constructor
  · rintro (⟨⟨c, hc⟩, rfl⟩ | ⟨hfree, hrole, t, ht, rfl⟩)
    · obtain ⟨a, ha, hname, -⟩ := h.lookup_eq_some_iff.mp hc
      exact .name ⟨a, ha, hname⟩
    · obtain ⟨a, ha, rfl⟩ := Option.map_eq_some_iff.mp ht
      exact .time (h.lookup_eq_none_iff.mp hfree) hrole ha
  · intro hclash
    cases hclash with
    | name hname =>
      obtain ⟨a, ha, hname⟩ := hname
      exact .inl ⟨⟨_, h.lookup_eq_some_iff.mpr ⟨a, ha, hname, rfl⟩⟩, rfl⟩
    | time hname hrole ht =>
      exact .inr ⟨h.lookup_eq_none_iff.mpr hname, hrole, _, by rw [ht, Option.map_some], rfl⟩

/-! ## Calls that may be refused -/

/-- Adding to a schema that is changed in place. What has been changed before a refusal stays
changed. -/
def addInPlace (d : ColumnDef) : ExceptT SchemaError (StateM Schema) Unit := do
  if ((← get).lookup d.name).isSome then
    throw (.duplicateColumn d.name)
  if d.role = .timeDimension then
    if let some existing := (← get).timeColumn then
      throw (.multipleTimeDimensions existing d.name)
    modify fun s => { s with timeColumn := some d.name }
  modify fun s => { s with columns := s.columns ++ [(d.name, d.toColumn)] }

/-- What a call answers, and the schema that it leaves. -/
def call (s : Schema) (d : ColumnDef) : Except SchemaError Unit × Schema := (addInPlace d).run.run s

/-- The definitions that calls one after another accept, and the schema that they leave. -/
def callEach (s : Schema) : List ColumnDef → List ColumnDef × Schema
  | [] => ([], s)
  | d :: defs =>
    let (answer, next) := s.call d
    let (accepted, last) := next.callEach defs
    (if answer.isOk then d :: accepted else accepted, last)

theorem run_get_bind {α : Type} (f : Schema → ExceptT SchemaError (StateM Schema) α) (s : Schema) :
    (get >>= f).run.run s = (f s).run.run s := rfl

/-- Nothing has been changed by the time a call is refused. -/
theorem call_eq (s : Schema) (d : ColumnDef) :
    s.call d =
      match s.add d with
      | .ok s' => (.ok (), s')
      | .error e => (.error e, s) := by
  unfold call add addInPlace
  rw [run_get_bind]
  cases hlookup : s.lookup d.name with
  | some c => rfl
  | none =>
    by_cases hrole : d.role = .timeDimension
    · simp only [Option.isSome_none, Bool.false_eq_true, if_false, if_pos hrole]
      rw [run_get_bind, hrole]
      cases htime : s.timeColumn with
      | some t => rfl
      | none =>
        rw [insert, if_pos hrole]
        rfl
    · have hinsert : s.insert d = { s with columns := s.columns ++ [(d.name, d.toColumn)] } := by
        rw [insert, if_neg hrole]
      simp only [Option.isSome_none, Bool.false_eq_true, if_false, if_neg hrole, hinsert]
      cases hother : d.role with
      | timeDimension => exact absurd hother hrole
      | dimension => rfl
      | measure => rfl

theorem call_ok_iff : s.call d = (.ok (), s') ↔ s.add d = .ok s' := by
  rw [call_eq]
  cases s.add d <;> simp

theorem call_error_iff : s.call d = (.error e, s') ↔ s' = s ∧ s.add d = .error e := by
  rw [call_eq]
  cases s.add d with
  | ok next => simp
  | error reason => simp [eq_comm, and_comm]

theorem fst_call_error_iff : (s.call d).1 = .error e ↔ s.add d = .error e := by
  rw [call_eq]
  cases s.add d <;> simp

theorem Holds.callEach (h : s.Holds accepted) (defs : List ColumnDef) :
    (s.callEach defs).2.Holds (accepted ++ (s.callEach defs).1) := by
  induction defs generalizing s accepted with
  | nil => rwa [Schema.callEach, List.append_nil]
  | cons d defs ih =>
    rw [Schema.callEach, call_eq]
    cases hadd : s.add d with
    | error reason => exact ih h
    | ok next =>
      have hrest := ih (h.add_ok hadd)
      rwa [List.append_assoc] at hrest

/-- What a schema knows after definitions have been accepted. -/
structure Records (s : Schema) (accepted : List ColumnDef) : Prop where
  size : s.size = accepted.length
  lookup : ∀ name, s.lookup name = (accepted.find? (·.name = name)).map ColumnDef.toColumn
  timeColumn : ∀ name,
    s.timeColumn = some name ↔ ∃ c, s.lookup name = some c ∧ c.role = .timeDimension
  oneTime : ∀ a b c d, s.lookup a = some c → c.role = .timeDimension →
    s.lookup b = some d → d.role = .timeDimension → a = b

/-- What a schema makes of a call after definitions have been accepted. -/
structure Answers (s : Schema) (accepted : List ColumnDef) (d : ColumnDef) : Prop where
  refused : ∀ e s', s.call d = (.error e, s') → s' = s
  added : ∀ s', s.call d = (.ok (), s') → s.lookup d.name = none ∧
    s'.lookup d.name = some ⟨d.canonicalName.getD d.name, d.role, d.type⟩ ∧
    ∀ name, name ≠ d.name → s'.lookup name = s.lookup name
  duplicate : ∀ n, (s.call d).1 = .error (.duplicateColumn n) ↔
    n = d.name ∧ ∃ a ∈ accepted, a.name = n
  secondTime : ∀ t n, (s.call d).1 = .error (.multipleTimeDimensions t n) ↔
    n = d.name ∧ (∀ a ∈ accepted, a.name ≠ n) ∧ d.role = .timeDimension ∧
      ∃ a ∈ accepted, a.role = .timeDimension ∧ a.name = t

theorem Holds.records (h : s.Holds accepted) : s.Records accepted where
  size := by rw [Schema.size, h.columns, List.length_map]
  lookup := h.lookup_eq
  timeColumn _ := h.timeColumn_eq_some_iff
  oneTime _ _ _ _ := h.timeOnRecord.eq_of_timeDimension

theorem Holds.exists_time_iff (h : s.Holds accepted) {name : String} :
    (∃ a ∈ accepted, a.role = .timeDimension ∧ a.name = name) ↔ s.timeColumn = some name := by
  -- At most one accepted definition is a time dimension, so any such is the one on record.
  rw [h.timeColumn_eq_some_iff]
  simp only [h.lookup_eq_some_iff]
  constructor
  · rintro ⟨a, ha, hrole, hname⟩
    exact ⟨a.toColumn, ⟨a, ha, hname, rfl⟩, hrole⟩
  · rintro ⟨c, ⟨a, ha, hname, rfl⟩, hrole⟩
    exact ⟨a, ha, hrole, hname⟩

theorem Holds.answers (h : s.Holds accepted) (d : ColumnDef) : s.Answers accepted d where
  refused e s' hcall := (call_error_iff.mp hcall).1
  added s' hcall := by
    obtain ⟨hfree, -, rfl⟩ := add_ok_iff.mp (call_ok_iff.mp hcall)
    refine ⟨hfree, ?_, fun name hname => ?_⟩
    · rw [lookup_insert hfree, if_pos rfl]
      rfl
    · rw [lookup_insert hfree, if_neg hname]
  duplicate n := by
    rw [fst_call_error_iff, h.add_error_iff]
    constructor
    · rintro (⟨hname⟩ | _)
      exact ⟨rfl, hname⟩
    · rintro ⟨rfl, hname⟩
      exact .name hname
  secondTime t n := by
    rw [fst_call_error_iff, Schema.add_error_iff, h.exists_time_iff]
    constructor
    · rintro (⟨-, he⟩ | ⟨hfree, hrole, existing, htime, he⟩)
      · contradiction
      · obtain ⟨rfl, rfl⟩ := SchemaError.multipleTimeDimensions.inj he
        exact ⟨rfl, h.lookup_eq_none_iff.mp hfree, hrole, htime⟩
    · rintro ⟨rfl, hnew, hrole, htime⟩
      exact .inr ⟨h.lookup_eq_none_iff.mpr hnew, hrole, t, htime, rfl⟩

/-- **Calls.** After any calls, some of them refused, a schema knows what has been accepted and
nothing else, and it refuses the next call if and only if an accepted definition is in its way. -/
theorem callEach_records (defs : List ColumnDef) :
    let run := callEach {} defs
    run.2.Records run.1 ∧ ∀ d, run.2.Answers run.1 d := by
  intro run
  have h : run.2.Holds run.1 := Holds.empty.callEach defs
  exact ⟨h.records, h.answers⟩

/-- A text, the same again, a time, a second time, and the name of the text for a third. -/
def refusals : List ColumnDef :=
  [⟨"mode", none, .dimension, .string⟩, ⟨"mode", none, .measure, .long⟩,
    .timeDimension "shipdate" "__time" .timestamp, .timeDimension "commitdate" "__time" .timestamp,
    ⟨"mode", none, .timeDimension, .date⟩]

/-- What has been refused leaves no trace: its names are still free, and the time is the first. -/
theorem callEach_records_refusals :
    let s := (callEach {} refusals).2
    s.size = 2 ∧ s.lookup "mode" = some ⟨"mode", .dimension, .string⟩ ∧
      s.timeColumn = some "shipdate" ∧
      (s.call ⟨"mode", none, .measure, .long⟩).1 = .error (.duplicateColumn "mode") ∧
      (s.call ⟨"commitdate", none, .timeDimension, .date⟩).1 =
        .error (.multipleTimeDimensions "shipdate" "commitdate") ∧
      (s.call ⟨"commitdate", none, .dimension, .date⟩).2.lookup "commitdate" =
        some ⟨"commitdate", .dimension, .date⟩ := by
  intro s
  have haccepted : (callEach {} refusals).1 =
      [⟨"mode", none, .dimension, .string⟩, .timeDimension "shipdate" "__time" .timestamp] := by
    decide
  obtain ⟨hrecords, hanswers⟩ := callEach_records refusals
  rw [haccepted] at hrecords hanswers
  refine ⟨hrecords.size, hrecords.lookup "mode", ?_, ?_, ?_, ?_⟩
  · exact (hrecords.timeColumn "shipdate").mpr ⟨_, hrecords.lookup "shipdate", rfl⟩
  · exact ((hanswers _).duplicate "mode").mpr ⟨rfl, _, List.mem_cons_self, rfl⟩
  · refine ((hanswers _).secondTime "shipdate" "commitdate").mpr ⟨rfl, ?_, rfl, ?_⟩
    · decide
    · decide
  · obtain ⟨-, hadded, -⟩ := (hanswers ⟨"commitdate", none, .dimension, .date⟩).added _
      (call_ok_iff.mpr rfl)
    exact hadded

/-! ## Lists of definitions -/

theorem Holds.foldlM_ok (h : s.Holds accepted) (hdefs : defs.foldlM add s = .ok s') :
    s'.Holds (accepted ++ defs) := by
  induction defs generalizing s accepted with
  | nil =>
    obtain rfl : s = s' := Except.ok.inj hdefs
    rwa [List.append_nil]
  | cons d defs ih =>
    rw [List.foldlM_cons] at hdefs
    cases hadd : s.add d with
    | error reason =>
      rw [hadd] at hdefs
      contradiction
    | ok next =>
      rw [hadd] at hdefs
      have hrest := ih (h.add_ok hadd) hdefs
      rwa [List.append_assoc] at hrest

theorem exists_split_cons_iff {P : List ColumnDef → ColumnDef → Prop} :
    (∃ before x after, d :: defs = before ++ x :: after ∧ P before x) ↔
      P [] d ∨ ∃ before x after, defs = before ++ x :: after ∧ P (d :: before) x := by
  constructor
  · rintro ⟨_ | ⟨b, before⟩, x, after, hsplit, hx⟩
    · obtain ⟨rfl, rfl⟩ := List.cons.inj hsplit
      exact .inl hx
    · obtain ⟨rfl, rfl⟩ := List.cons.inj hsplit
      exact .inr ⟨before, x, after, rfl, hx⟩
  · rintro (hd | ⟨before, x, after, rfl, hx⟩)
    · exact ⟨[], d, defs, rfl, hd⟩
    · exact ⟨d :: before, x, after, rfl, hx⟩

theorem Holds.foldlM_error_iff (h : s.Holds accepted) :
    defs.foldlM add s = .error e ↔
      ∃ before d after, defs = before ++ d :: after ∧ Consistent (accepted ++ before) ∧
        Clash (accepted ++ before) d e := by
  induction defs generalizing s accepted with
  | nil => simp [pure, Except.pure]
  | cons d defs ih =>
    rw [List.foldlM_cons, exists_split_cons_iff, List.append_nil]
    cases hadd : s.add d with
    | error reason =>
      have hrest : ¬∃ before x after, defs = before ++ x :: after ∧
          Consistent (accepted ++ d :: before) ∧ Clash (accepted ++ d :: before) x e := by
        rintro ⟨before, x, after, -, hconsistent, -⟩
        exact (h.add_error_iff.mp hadd).not_consistent hconsistent
      rw [or_iff_left hrest, ← h.add_error_iff, hadd]
      exact ⟨fun he => ⟨h.consistent, he⟩, And.right⟩
    | ok next =>
      have hhead : ¬(Consistent accepted ∧ Clash accepted d e) := by
        rintro ⟨-, hclash⟩
        rw [h.add_error_iff.mpr hclash] at hadd
        contradiction
      rw [or_iff_right hhead]
      refine (ih (h.add_ok hadd)).trans ?_
      simp only [List.append_assoc, List.singleton_append]

theorem holds_of_ofDefs (h : ofDefs defs = .ok s) : s.Holds defs := Holds.empty.foldlM_ok h

theorem ofDefs_error_iff :
    ofDefs defs = .error e ↔
      ∃ before d after, defs = before ++ d :: after ∧ Consistent before ∧ Clash before d e :=
  Holds.empty.foldlM_error_iff

theorem exists_ofDefs_iff : (∃ s, ofDefs defs = .ok s) ↔ Consistent defs := by
  constructor
  · rintro ⟨s, hs⟩
    exact (holds_of_ofDefs hs).consistent
  · intro h
    cases hdefs : ofDefs defs with
    | ok s => exact ⟨s, rfl⟩
    | error reason =>
      obtain ⟨before, d, after, rfl, -, hclash⟩ := ofDefs_error_iff.mp hdefs
      exact absurd h hclash.not_consistent

theorem Holds.lookup_perm {other : List ColumnDef} (h : s.Holds accepted) (h' : s'.Holds other)
    (hperm : other.Perm accepted) (name : String) : s'.lookup name = s.lookup name := by
  ext c
  rw [h.lookup_eq_some_iff, h'.lookup_eq_some_iff]
  simp only [hperm.mem_iff]

/-- **Definitions.** Definitions are accepted together if and only if no two have one name and at
most one is a time dimension, and then also in any other order, with the same answers. Otherwise
the error is that of the first which clashes with those before it. -/
theorem ofDefs_iff_consistent (defs : List ColumnDef) :
    ((∃ s, ofDefs defs = .ok s) ↔ Consistent defs) ∧
    (∀ s, ofDefs defs = .ok s → s.size = defs.length ∧
      (∀ d ∈ defs, s.lookup d.name = some ⟨d.canonicalName.getD d.name, d.role, d.type⟩) ∧
      ∀ other, other.Perm defs →
        ∃ s', ofDefs other = .ok s' ∧ ∀ name, s'.lookup name = s.lookup name) ∧
    (∀ e, ofDefs defs = .error e ↔ FirstClash defs e) ∧
    ∀ config : Config, config.columns = defs →
      config.schema = (ofDefs defs).mapError ConfigError.schema := by
  refine ⟨exists_ofDefs_iff, fun s hs => ?_, fun e => ?_, ?_⟩
  · have h := holds_of_ofDefs hs
    refine ⟨h.records.size, fun d hd => h.lookup_eq_some_iff.mpr ⟨d, hd, rfl, rfl⟩, ?_⟩
    intro other hperm
    obtain ⟨s', hs'⟩ := exists_ofDefs_iff.mpr (h.consistent.perm hperm)
    exact ⟨s', hs', h.lookup_perm (holds_of_ofDefs hs') hperm⟩
  · rw [ofDefs_error_iff]
    simp only [ColumnDef.consistent_iff_not_clash]
    constructor
    · rintro ⟨before, d, after, hsplit, hfirst, hclash⟩
      exact ⟨before, d, after, hsplit, hclash, hfirst⟩
    · rintro ⟨before, d, after, hsplit, hclash, hfirst⟩
      exact ⟨before, d, after, hsplit, hfirst, hclash⟩
  · rintro config rfl
    unfold Config.schema
    cases ofDefs config.columns <;> rfl

/-- A time and a text in either order, and what is refused if both are repeated. -/
theorem ofDefs_iff_consistent_reordered :
    let time := ColumnDef.timeDimension "shipdate" "__time" .timestamp
    let mode : ColumnDef := ⟨"mode", none, .dimension, .string⟩
    (∃ s, ofDefs [time, mode] = .ok s ∧ s.size = 2 ∧
      s.lookup "shipdate" = some ⟨"__time", .timeDimension, .timestamp⟩ ∧
      ∃ s', ofDefs [mode, time] = .ok s' ∧ ∀ name, s'.lookup name = s.lookup name) ∧
    FirstClash [time, mode, ⟨"mode", none, .timeDimension, .date⟩, time]
      (.duplicateColumn "mode") ∧
    FirstClash [time, mode, ⟨"commitdate", none, .timeDimension, .date⟩, time]
      (.multipleTimeDimensions "shipdate" "commitdate") := by
  intro time mode
  obtain ⟨haccepted, hok, -, -⟩ := ofDefs_iff_consistent [time, mode]
  obtain ⟨s, hs⟩ := haccepted.mpr ⟨by decide, by decide⟩
  obtain ⟨hsize, hlookup, hother⟩ := hok s hs
  refine ⟨⟨s, hs, hsize, hlookup time (by decide), hother _ (.swap ..)⟩, ?_, ?_⟩
  · exact ((ofDefs_iff_consistent _).2.2.1 _).mp rfl
  · exact ((ofDefs_iff_consistent _).2.2.1 _).mp rfl

end Schema

end RowScript

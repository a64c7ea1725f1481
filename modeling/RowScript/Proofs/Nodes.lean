import RowScript.Proofs.Emission.Code

/-!
# The nodes of an expression

All that an expression is made of, in one list. A condition that each node has to
meet is said of its members, whatever their order.
-/

namespace RowScript.Expr

mutual

/-- The expression itself and all that it is made of, each node before its operands. -/
def nodes : Expr → List Expr
  | column name type => [column name type]
  | literal value type => [literal value type]
  | cast e type => cast e type :: e.nodes
  | concat args type => concat args type :: nodesOf args
  | upper e type => upper e type :: e.nodes
  | lower e type => lower e type :: e.nodes
  | substring e position length type =>
    substring e position length type :: (e.nodes ++ position.nodes ++ length.nodes)
  | toDate e type => toDate e type :: e.nodes
  | dateAdd date days type => dateAdd date days type :: (date.nodes ++ days.nodes)
  | dateSub date days type => dateSub date days type :: (date.nodes ++ days.nodes)
  | extract field e type => extract field e type :: e.nodes
  | arithmetic op left right type => arithmetic op left right type :: (left.nodes ++ right.nodes)

def nodesOf : List Expr → List Expr
  | [] => []
  | e :: es => e.nodes ++ nodesOf es

end

theorem nodesOf_eq_flatMap (es : List Expr) : nodesOf es = es.flatMap nodes := by
  induction es with
  | nil => rfl
  | cons e es ih => rw [nodesOf, ih, List.flatMap_cons]

theorem forall_nodesOf {motive : Expr → Prop} {es : List Expr} :
    (∀ n ∈ nodesOf es, motive n) ↔ ∀ e ∈ es, ∀ n ∈ e.nodes, motive n := by
  simp only [nodesOf_eq_flatMap, List.mem_flatMap, forall_exists_index, and_imp]
  exact forall_comm.trans (forall_congr' fun _ => forall_comm)

theorem nodes_subset_nodesOf {e : Expr} {es : List Expr} (h : e ∈ es) :
    e.nodes ⊆ nodesOf es := by
  rw [nodesOf_eq_flatMap]
  exact fun n hn => List.mem_flatMap_of_mem h hn

/-! ## Nodes that make dates -/

mutual

/-- The nodes of an expression from left to right, each node after its operands. -/
def postorder : Expr → List Expr
  | column name type => [column name type]
  | literal value type => [literal value type]
  | cast e type => e.postorder ++ [cast e type]
  | concat args type => postorderOf args ++ [concat args type]
  | upper e type => e.postorder ++ [upper e type]
  | lower e type => e.postorder ++ [lower e type]
  | substring e position length type =>
    e.postorder ++ position.postorder ++ length.postorder ++ [substring e position length type]
  | toDate e type => e.postorder ++ [toDate e type]
  | dateAdd date days type => date.postorder ++ days.postorder ++ [dateAdd date days type]
  | dateSub date days type => date.postorder ++ days.postorder ++ [dateSub date days type]
  | extract field e type => e.postorder ++ [extract field e type]
  | arithmetic op left right type =>
    left.postorder ++ right.postorder ++ [arithmetic op left right type]

def postorderOf : List Expr → List Expr
  | [] => []
  | e :: es => e.postorder ++ postorderOf es

end

/-- Whether a node makes a new date. -/
def makesDate : Expr → Bool
  | toDate _ _ | dateAdd _ _ _ | dateSub _ _ _ => true
  | _ => false

/-- The nodes that make new dates, from left to right and each one after its operands. -/
def dateNodes (e : Expr) : List Expr := e.postorder.filter makesDate

theorem dateNodes_eq {node : Expr} {before : List Expr} (h : node.postorder = before ++ [node]) :
    node.dateNodes = before.filter makesDate ++ if node.makesDate then [node] else [] := by
  rw [dateNodes, h, List.filter_append, List.filter_cons, List.filter_nil]

theorem dateNodes_concat (args : List Expr) (type : DataType) :
    (concat args type).dateNodes = args.flatMap dateNodes := by
  have hargs : (postorderOf args).filter makesDate = args.flatMap dateNodes := by
    induction args with
    | nil => rfl
    | cons e es ih => rw [postorderOf, List.filter_append, ih, List.flatMap_cons, dateNodes]
  rw [dateNodes_eq rfl, hargs]
  exact List.append_nil _

theorem dateNodes_substring (e position length : Expr) (type : DataType) :
    (substring e position length type).dateNodes =
      e.dateNodes ++ position.dateNodes ++ length.dateNodes := by
  rw [dateNodes_eq rfl, List.filter_append, List.filter_append]
  exact List.append_nil _

theorem dateNodes_toDate (e : Expr) (type : DataType) :
    (toDate e type).dateNodes = e.dateNodes ++ [toDate e type] := dateNodes_eq rfl

theorem dateNodes_dateAdd (date days : Expr) (type : DataType) :
    (dateAdd date days type).dateNodes =
      date.dateNodes ++ days.dateNodes ++ [dateAdd date days type] := by
  rw [dateNodes_eq rfl, List.filter_append]
  rfl

theorem dateNodes_dateSub (date days : Expr) (type : DataType) :
    (dateSub date days type).dateNodes =
      date.dateNodes ++ days.dateNodes ++ [dateSub date days type] := by
  rw [dateNodes_eq rfl, List.filter_append]
  rfl

theorem dateNodes_arithmetic (op : ArithOp) (left right : Expr) (type : DataType) :
    (arithmetic op left right type).dateNodes = left.dateNodes ++ right.dateNodes := by
  rw [dateNodes_eq rfl, List.filter_append]
  exact List.append_nil _

theorem dateNodes_operand {node e : Expr} (h : node.postorder = e.postorder ++ [node])
    (hnode : node.makesDate = false) : node.dateNodes = e.dateNodes := by
  rw [dateNodes_eq h, hnode]
  exact List.append_nil _

theorem length_dateNodes (e : Expr) : e.dateNodes.length = e.temporaries := by
  induction e with
  | column name type => rfl
  | literal value type => rfl
  | cast e type ih => rw [dateNodes_operand rfl rfl, ih, temporaries]
  | concat args type ih =>
    rw [dateNodes_concat, temporaries]
    clear type
    induction args with
    | nil => rfl
    | cons e es ihs =>
      rw [List.flatMap_cons, List.length_append, ih e List.mem_cons_self,
        ihs fun a ha => ih a (List.mem_cons_of_mem _ ha), temporariesOf]
  | upper e type ih => rw [dateNodes_operand rfl rfl, ih, temporaries]
  | lower e type ih => rw [dateNodes_operand rfl rfl, ih, temporaries]
  | substring e position length type ih ihp ihl =>
    rw [dateNodes_substring, List.length_append, List.length_append, ih, ihp, ihl, temporaries]
  | toDate e type ih => rw [dateNodes_toDate, List.length_append, ih]; rfl
  | dateAdd date days type ihd ihn =>
    rw [dateNodes_dateAdd, List.length_append, List.length_append, ihd, ihn]
    rfl
  | dateSub date days type ihd ihn =>
    rw [dateNodes_dateSub, List.length_append, List.length_append, ihd, ihn]
    rfl
  | extract field e type ih => rw [dateNodes_operand rfl rfl, ih, temporaries]
  | arithmetic op left right type ihl ihr =>
    rw [dateNodes_arithmetic, List.length_append, ihl, ihr, temporaries]

/-! ## Columns -/

def columnName? : Expr → Option String
  | column name _ => some name
  | _ => none

/-- The names of the columns, from left to right and as often as they occur. -/
def columnNames (e : Expr) : List String := e.nodes.filterMap columnName?

theorem mem_columnNames {e : Expr} {name : String} :
    name ∈ e.columnNames ↔ ∃ type, column name type ∈ e.nodes := by
  rw [columnNames, List.mem_filterMap]
  constructor
  · rintro ⟨n, hn, hname⟩
    cases n with
    | column other type =>
      obtain rfl : other = name := Option.some.inj hname
      exact ⟨type, hn⟩
    | _ => simp [columnName?] at hname
  · rintro ⟨type, hn⟩
    exact ⟨_, hn, rfl⟩

theorem columnNames_concat (args : List Expr) (type : DataType) :
    (concat args type).columnNames = args.flatMap columnNames := by
  change (nodesOf args).filterMap columnName? = _
  rw [nodesOf_eq_flatMap, List.filterMap_flatMap]
  rfl

theorem columnNames_substring (e position length : Expr) (type : DataType) :
    (substring e position length type).columnNames =
      e.columnNames ++ position.columnNames ++ length.columnNames := by
  change (e.nodes ++ position.nodes ++ length.nodes).filterMap columnName? = _
  rw [List.filterMap_append, List.filterMap_append]
  rfl

theorem columnNames_dateAdd (date days : Expr) (type : DataType) :
    (dateAdd date days type).columnNames = date.columnNames ++ days.columnNames :=
  List.filterMap_append

theorem columnNames_dateSub (date days : Expr) (type : DataType) :
    (dateSub date days type).columnNames = date.columnNames ++ days.columnNames :=
  List.filterMap_append

theorem columnNames_arithmetic (op : ArithOp) (left right : Expr) (type : DataType) :
    (arithmetic op left right type).columnNames = left.columnNames ++ right.columnNames :=
  List.filterMap_append

theorem identifiers_eq_map (scope : Scope) (e : Expr) :
    e.identifiers scope = e.columnNames.map (identifierIn scope) := by
  induction e with
  | column name type => rfl
  | literal value type => rfl
  | cast e type ih => exact ih
  | concat args type ih =>
    rw [columnNames_concat, identifiers]
    clear type
    induction args with
    | nil => rfl
    | cons e es ihs =>
      rw [identifiersOf, List.flatMap_cons, List.map_append, ih e List.mem_cons_self,
        ihs fun a ha => ih a (List.mem_cons_of_mem _ ha)]
  | upper e type ih => exact ih
  | lower e type ih => exact ih
  | substring e position length type ih ihp ihl =>
    rw [columnNames_substring, identifiers, ih, ihp, ihl, List.map_append, List.map_append]
  | toDate e type ih => exact ih
  | dateAdd date days type ihd ihn =>
    rw [columnNames_dateAdd, identifiers, ihd, ihn, List.map_append]
  | dateSub date days type ihd ihn =>
    rw [columnNames_dateSub, identifiers, ihd, ihn, List.map_append]
  | extract field e type ih => exact ih
  | arithmetic op left right type ihl ihr =>
    rw [columnNames_arithmetic, identifiers, ihl, ihr, List.map_append]

end RowScript.Expr

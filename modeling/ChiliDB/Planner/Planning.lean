import ChiliDB.Planner.ModifyTable

/-!
# Planning

`crates/planner/src/planning.rs`: bound statements become relational plans.  A query is planned in phases —
source, WHERE, grouping, HAVING, windows, ordering, projection — each of which lowers its expressions
against the columns that the phase before it leaves.

* `checkDepth` — no path of an expression has more than 256 nodes.
* `Lower.expr` — an expression over a schema, where aggregates, windows and grouping keys are columns.
* `collect` — the aggregates, or the windows, of an expression, without repetitions.
* `select`, `plan` — queries and statements.
-/

namespace ChiliDB.Planner

open Sql (UnaryOp BinaryOp)
open ChiliDB.Bound (ColumnBinding Table)
open DataFusion (Column Field DFSchema LogicalPlan ScalarValue Engine SortExpr)

variable {Err : Type}

/-- `invalid`. -/
def invalid {α : Type} (message : String) : PlanResult Err α := .error (.invalidBound message)

/-- `if condition { return invalid(message) }`. -/
def reject (condition : Prop) [Decidable condition] (message : String) : PlanResult Err Unit :=
  if condition then invalid message else .ok ()

/-! ## Depth -/

/-- The operands of an expression. -/
def children (e : Bound.Expr) : List Bound.Expr := e.operands

/-- The loop over the stack, whose top is the head of the list. -/
def checkStack : List (Bound.Expr × Nat) → PlanResult Err Unit
  | [] => .ok ()
  | (e, n) :: stack =>
    if n > 256 then .error .expressionTooDeep
    else checkStack ((children e).reverse.map (fun c => (c, n + 1)) ++ stack)
termination_by stack => (stack.map fun p => sizeOf p.1).sum
decreasing_by
  have h : (e.operands.map fun c => sizeOf c).sum < sizeOf e := e.sum_sizeOf_operands
  simp only [children, List.map_append, List.map_map, List.sum_append, List.map_reverse, List.sum_reverse,
    List.map_cons, List.sum_cons, Function.comp_def]
  omega

def checkDepth (e : Bound.Expr) : PlanResult Err Unit := checkStack [(e, 1)]

/-! ## Expressions -/

def cast (e : DataFusion.Expr) (t : LogicalType) : DataFusion.Expr := .cast e (arrowType t)

variable (engine : Engine Err)

def scalarValue (s : Scalar) (t : LogicalType) : Except Err ScalarValue :=
  match s with
  | .null => engine.scalarOfType (arrowType t)
  | .boolean v => .ok (.boolean (some v))
  | .int32 v => .ok (.int32 (some v))
  | .int64 v => .ok (.int64 (some v))
  | .uint32 v => .ok (.uint32 (some v))
  | .float32 v => .ok (.float32 (some v))
  | .float64 v => .ok (.float64 (some v))
  | .string v => .ok (.utf8 (some v))

def literal (s : Scalar) (t : LogicalType) : PlanResult Err DataFusion.Expr := do
  return .literal (← lift (scalarValue engine s t))

/-- Expressions and what stands for them. -/
abbrev Mapped := List (Bound.Expr × DataFusion.Expr)

structure Lower where
  schema : DFSchema
  grouped : Bool
  mapped : Mapped

def lowerUnary (op : UnaryOp) (e : DataFusion.Expr) : DataFusion.Expr :=
  match op with
  | .not => .not e
  | .plus => e
  | .minus => .negative e

def operator : BinaryOp → DataFusion.Operator
  | .or => .or
  | .and => .and
  | .eq => .eq
  | .notEq => .notEq
  | .less => .lt
  | .lessEq => .ltEq
  | .greater => .gt
  | .greaterEq => .gtEq
  | .add => .plus
  | .subtract => .minus
  | .multiply => .multiply
  | .divide => .divide
  | .modulo => .modulo

namespace Lower

def raw (schema : DFSchema) : Lower := ⟨schema, false, []⟩

/-- A column of the input. -/
def column (lower : Lower) (b : ColumnBinding) (t : LogicalType) : PlanResult Err DataFusion.Expr :=
  if lower.grouped then
    .error (.unknownColumn b)
  else
    match engine.fieldFromColumn lower.schema (Planner.column b) with
    | .error _ => .error (.unknownColumn b)
    | .ok f =>
      if f.dataType ≠ arrowType t then invalid "column type differs from input"
      else .ok (.column (Planner.column b))

/-- An expression, with the nodes that are left on the path: at `n` there are `257 - n`. -/
def expr (lower : Lower) : Nat → Bound.Expr → PlanResult Err DataFusion.Expr
  | 0, _ => .error .expressionTooDeep
  | levels + 1, e =>
    match lower.mapped.find? fun m => m.1.eq e with
    | some m => .ok m.2
    | none =>
      match e.kind with
      | .literal s => literal engine s e.dataType
      | .column b => lower.column engine b e.dataType
      | .unary op c => do return lowerUnary op (← lower.expr levels c)
      | .binary op l r => do return .binary (← lower.expr levels l) (operator op) (← lower.expr levels r)
      | .cast c => do return cast (← lower.expr levels c) e.dataType
      | .isNull c negated => do
        let c ← lower.expr levels c
        return if negated then .isNotNull c else .isNull c
      | .aggregate _ | .window _ => invalid "aggregate or window is unavailable in this phase"

def expressions (lower : Lower) (es : List Bound.Expr) : PlanResult Err (List DataFusion.Expr) :=
  es.mapM (lower.expr engine 256)

def predicate (lower : Lower) (e : Bound.Expr) : PlanResult Err DataFusion.Expr :=
  if e.dataType ≠ .boolean then invalid "filter predicate is not Boolean" else lower.expr engine 256 e

def order (lower : Lower) (os : List (Bound.OrderByExpr Bound.Expr)) :
    PlanResult Err (List (SortExpr DataFusion.Expr)) :=
  os.mapM fun o => do return ⟨← lower.expr engine 256 o.expr, o.direction = .ascending, o.nulls = .first⟩

end Lower

/-! ## Aggregates and windows -/

/-- What `collect` looks for. -/
def selected (windows : Bool) (e : Bound.Expr) : Bool :=
  match e.kind with
  | .window _ => windows
  | .aggregate _ => !windows
  | _ => false

/-- The levels are those of `Lower.expr`. -/
def collect (windows : Bool) :
    Nat → Bound.Expr → List Bound.Expr → PlanResult Err (List Bound.Expr)
  | 0, _, _ => .error .expressionTooDeep
  | levels + 1, e, found =>
    if selected windows e then
      .ok (if found.any fun f => f.eq e then found else found ++ [e])
    else
      (children e).foldlM (fun found c => collect windows levels c found) found

def collectAll (windows : Bool) (es : List Bound.Expr) : PlanResult Err (List Bound.Expr) :=
  es.foldlM (fun found e => collect windows 256 e found) []

def aggregateUdf : Bound.AggregateFunction → DataFusion.AggregateUdf
  | .count => .count
  | .sum => .sum
  | .avg => .avg
  | .min => .min
  | .max => .max

/-- The constant that `COUNT(*)` counts. -/
def one : DataFusion.Expr := .literal (.int64 (some 1))

def arguments (lower : Lower) (f : Bound.AggregateFunction) (args : List Bound.Expr) :
    PlanResult Err (List DataFusion.Expr) :=
  if f = .count ∧ args.isEmpty then .ok [one] else lower.expressions engine args

/-- The computation of an aggregate. -/
def aggregateValue (lower : Lower) (e : Bound.Expr) : PlanResult Err DataFusion.Expr :=
  match e.kind with
  | .aggregate a => do
    let args ← arguments engine lower a.function a.args
    let filter ← a.filter.mapM (lower.predicate engine)
    return .aggregateFunction (aggregateUdf a.function) args a.distinct filter
  | _ => invalid "expected aggregate"

def endpoint : Bound.FrameBound → DataFusion.WindowFrameBound
  | .unboundedPreceding => .preceding (.uint64 none)
  | .preceding n => .preceding (.uint64 (some n))
  | .currentRow => .currentRow
  | .following n => .following (.uint64 (some n))
  | .unboundedFollowing => .following (.uint64 none)

def windowDefinition : Bound.WindowFunction → DataFusion.WindowFunctionDefinition
  | .aggregate f => .aggregateUdf (aggregateUdf f)
  | .rowNumber => .rowNumber
  | .rank => .rank
  | .denseRank => .denseRank

def windowArguments (lower : Lower) (f : Bound.WindowFunction) (args : List Bound.Expr) :
    PlanResult Err (List DataFusion.Expr) :=
  match f with
  | .aggregate f => arguments engine lower f args
  | _ => lower.expressions engine args

/-- The computation of a window. -/
def windowValue (lower : Lower) (e : Bound.Expr) : PlanResult Err DataFusion.Expr :=
  match e.kind with
  | .window w => do
    let args ← windowArguments engine lower w.function w.args
    let partitionBy ← lower.expressions engine w.partitionBy
    let orderBy ← lower.order engine w.orderBy
    let filter ← w.filter.mapM (lower.predicate engine)
    return .windowFunction (windowDefinition w.function) args partitionBy orderBy
      ⟨w.frame.units, endpoint w.frame.start, endpoint w.frame.stop⟩ filter w.distinct
  | _ => invalid "expected window"

/-! ## Phases -/

/-- The column that holds a computed value, in the type of the expression. -/
def resultColumn (schema : DFSchema) (e : Bound.Expr) (value : DataFusion.Expr) (name : String) :
    PlanResult Err DataFusion.Expr := do
  let c := DataFusion.Expr.column (Column.fromName name)
  return if (← lift (engine.getType value schema)) ≠ arrowType e.dataType then cast c e.dataType else c

def filterBy (predicate : DataFusion.Expr) (input : LogicalPlan) : PlanResult Err LogicalPlan := do
  let schema ← lift (engine.filter predicate input)
  return .filter predicate input schema

def whereFilter (input : LogicalPlan) : Option Bound.Expr → PlanResult Err LogicalPlan
  | some p => do
    checkDepth p
    filterBy engine (← (Lower.raw input.schema).predicate engine p) input
  | none => .ok input

def groupName (n : Nat) : String := "__group" ++ toString n

def aggregateName (n : Nat) : String := "__agg" ++ toString n

def windowName (n : Nat) : String := "__window" ++ toString n

def outputName (n : Nat) : String := "__output" ++ toString n

/-- The computation of a grouping key. -/
def groupValue (lower : Lower) (p : Bound.Expr × Nat) : PlanResult Err DataFusion.Expr := do
  return .alias (← lower.expr engine 256 p.1) (groupName p.2)

def groupColumn (p : Bound.Expr × Nat) : Bound.Expr × DataFusion.Expr :=
  (p.1, .column (Column.fromName (groupName p.2)))

/-- An aggregate and its column. -/
def aggregateColumn (lower : Lower) (p : Bound.Expr × Nat) :
    PlanResult Err (DataFusion.Expr × (Bound.Expr × DataFusion.Expr)) := do
  let value ← aggregateValue engine lower p.1
  let c ← resultColumn engine lower.schema p.1 value (aggregateName p.2)
  return (.alias value (aggregateName p.2), (p.1, c))

def dummyCount : DataFusion.Expr := .alias (.aggregateFunction .count [one] false none) "__dummy_count"

/-- The grouping of a query; it computes at least one column. -/
def groupPhase (groupBy aggregates : List Bound.Expr) (input : LogicalPlan) :
    PlanResult Err (LogicalPlan × Mapped) := do
  let lower := Lower.raw input.schema
  let groups ← groupBy.zipIdx.mapM (groupValue engine lower)
  let computed ← aggregates.zipIdx.mapM (aggregateColumn engine lower)
  let aggs := computed.map Prod.fst
  let aggs := if groups.isEmpty && aggs.isEmpty then [dummyCount] else aggs
  let schema ← lift (engine.aggregate input groups aggs)
  return (.aggregate input groups aggs schema, groupBy.zipIdx.map groupColumn ++ computed.map Prod.snd)

/-- The columns that stand for grouping keys and aggregates in the later phases. -/
def groupingPhase (grouped : Bool) (groupBy aggregates : List Bound.Expr) (input : LogicalPlan) :
    PlanResult Err (LogicalPlan × Mapped) :=
  if grouped then groupPhase engine groupBy aggregates input else .ok (input, [])

def havingPhase (grouped : Bool) (mapped : Mapped) (input : LogicalPlan) :
    Option Bound.Expr → PlanResult Err LogicalPlan
  | some having => do
    filterBy engine (← Lower.predicate engine ⟨input.schema, grouped, mapped⟩ having) input
  | none => .ok input

/-- The windows, each on top of the one before it; all of them read the columns of `lower`. -/
def windowPhase (lower : Lower) : List (Bound.Expr × Nat) →
    LogicalPlan × Mapped →
    PlanResult Err (LogicalPlan × Mapped)
  | [], r => .ok r
  | (e, n) :: windows, (input, mapped) => do
    let value ← windowValue engine lower e
    let c ← resultColumn engine input.schema e value (windowName n)
    let value := DataFusion.Expr.alias value (windowName n)
    let schema ← lift (engine.window [value] input)
    windowPhase lower windows (.window [value] input schema, mapped ++ [(e, c)])

def orderPhase (lower : Lower) (orderBy : List (Bound.OrderByExpr Bound.Expr)) (input : LogicalPlan) :
    PlanResult Err LogicalPlan :=
  if orderBy.isEmpty then .ok input else do
    let exprs ← lower.order engine orderBy
    return .sort exprs input (engine.sort exprs input)

structure OutputField where
  name : String
  dataType : LogicalType
  nullable : Bool
  origin : Option ColumnBinding

def outputField (p : Bound.NamedExpr) : OutputField :=
  ⟨p.name, p.expr.dataType, p.expr.nullable, match p.expr.kind with
    | .column b => some b
    | _ => none⟩

/-- An output column. -/
def outputValue (lower : Lower) (p : Bound.NamedExpr × Nat) : PlanResult Err DataFusion.Expr := do
  return .alias (← lower.expr engine 256 p.1.expr) (outputName p.2)

inductive Command where
  | createTable (d : CreateTable)
  | begin
  | commit
  | rollback

inductive PlannedStatement where
  | query (plan : LogicalPlan) (output : List OutputField)
  | modifyTable (plan : LogicalPlan)
  | command (c : Command)

def projectPhase (lower : Lower) (projection : List Bound.NamedExpr) (input : LogicalPlan) :
    PlanResult Err PlannedStatement := do
  let exprs ← projection.zipIdx.mapM (outputValue engine lower)
  let schema ← lift (engine.project exprs input)
  let plan := LogicalPlan.projection exprs input schema
  lift (engine.invariants plan)
  return .query plan (projection.map outputField)

/-! ## Statements -/

/-- The expressions that may contain windows. -/
def outputExprs (q : Bound.Select) : List Bound.Expr :=
  q.projection.map Bound.NamedExpr.expr ++ q.orderBy.map Bound.OrderByExpr.expr

/-- The expressions that may contain aggregates. -/
def groupedExprs (q : Bound.Select) : List Bound.Expr :=
  q.projection.map Bound.NamedExpr.expr ++ q.having.toList ++ q.orderBy.map Bound.OrderByExpr.expr

def selectExprs (q : Bound.Select) : List Bound.Expr :=
  q.projection.map Bound.NamedExpr.expr ++ q.filter.toList ++ q.groupBy ++ q.having.toList ++
    q.orderBy.map Bound.OrderByExpr.expr

def sourcePlan : Option Table → PlanResult Err LogicalPlan
  | some table => lift (scan engine table false)
  | none => .ok (.emptyRelation true)

def select (q : Bound.Select) : PlanResult Err PlannedStatement := do
  (selectExprs q).forM checkDepth
  let input ← sourcePlan engine q.source
  let input ← whereFilter engine input q.filter
  let aggregates ← collectAll false (groupedExprs q)
  let grouped := !q.groupBy.isEmpty || q.having.isSome || !aggregates.isEmpty
  reject (grouped ≠ q.isAggregate) "inconsistent is_aggregate flag"
  let (input, mapped) ← groupingPhase engine grouped q.groupBy aggregates input
  let input ← havingPhase engine grouped mapped input q.having
  let windows ← collectAll true (outputExprs q)
  let (input, mapped) ← windowPhase engine ⟨input.schema, grouped, mapped⟩ windows.zipIdx (input, mapped)
  let input ← orderPhase engine ⟨input.schema, grouped, mapped⟩ q.orderBy input
  projectPhase engine ⟨input.schema, grouped, mapped⟩ q.projection input

/-- A value of an `INSERT`. -/
def insertValue (lower : Lower) (p : Bound.Expr × ColumnSchema) : PlanResult Err DataFusion.Expr := do
  checkDepth p.1
  reject (p.1.dataType ≠ p.2.dataType) "INSERT value type differs from target"
  lower.expr engine 256 p.1

def insertRow (columns : List ColumnSchema) (row : List Bound.Expr) :
    PlanResult Err (List DataFusion.Expr) := do
  reject (row.length ≠ columns.length) "INSERT row width differs from target"
  (row.zip columns).mapM (insertValue engine (Lower.raw .empty))

/-- Which columns have a nullable value in one of the rows. -/
def insertNullable (width : Nat) (rows : List (List Bound.Expr)) : List Bool :=
  rows.foldl (fun nullable row => List.zipWith (fun n e => n || e.nullable) nullable row)
    (List.replicate width false)

def insertName (n : Nat) : String := "__insert" ++ toString n

def planInsert (i : Bound.Insert) : PlanResult Err PlannedStatement := do
  let columns := i.table.source.schema.columns
  let rows ← i.rows.mapM (insertRow engine columns)
  let nullable := insertNullable columns.length i.rows
  let schema ← lift (engine.schema ((columns.zip nullable).zipIdx.map fun p =>
    ⟨insertName p.2, arrowType p.1.1.dataType, p.1.2⟩))
  match ← lift (engine.values rows schema) with
  | .values rows _ =>
    let values := (List.range columns.length).map fun n => Column.fromName (insertName n)
    return .modifyTable (← lift (tryNew engine i.table (.values rows schema) (.insert values)))
  | _ => invalid "expected VALUES input"

def assignmentName (n : Nat) : String := "__new" ++ toString n

/-- An assignment of an `UPDATE`, as a column of the projection. -/
def updateValue (lower : Lower) (columns : List ColumnSchema) (p : Bound.Assignment × Nat) :
    PlanResult Err DataFusion.Expr := do
  checkDepth p.1.value
  match columns[p.1.columnIndex]? with
  | none => invalid "UPDATE target index is out of bounds"
  | some c =>
    reject (c.dataType ≠ p.1.value.dataType) "UPDATE value type differs from target"
    return .alias (← lower.expr engine 256 p.1.value) (assignmentName p.2)

def updateAssignment (p : Bound.Assignment × Nat) : DataFusion.UpdateAssignment :=
  ⟨p.1.columnIndex, Column.fromName (assignmentName p.2)⟩

def planUpdate (u : Bound.Update) : PlanResult Err PlannedStatement := do
  let input ← whereFilter engine (← lift (scan engine u.table true)) u.filter
  let values ← u.assignments.zipIdx.mapM (updateValue engine (Lower.raw input.schema) u.table.source.schema.columns)
  let exprs := .alias (.column (ctid u.table)) "__ctid" :: values
  let schema ← lift (engine.project exprs input)
  return .modifyTable (← lift (tryNew engine u.table (.projection exprs input schema)
    (.update (Column.fromName "__ctid") (u.assignments.zipIdx.map updateAssignment))))

def planDelete (d : Bound.Delete) : PlanResult Err PlannedStatement := do
  let input ← whereFilter engine (← lift (scan engine d.table true)) d.filter
  let exprs := [.column (ctid d.table)]
  let schema ← lift (engine.project exprs input)
  return .modifyTable (← lift (tryNew engine d.table (.projection exprs input schema) (.delete (ctid d.table))))

def plan : Bound.Statement → PlanResult Err PlannedStatement
  | .select q => select engine q
  | .createTable d => .ok (.command (.createTable d))
  | .begin => .ok (.command .begin)
  | .commit => .ok (.command .commit)
  | .rollback => .ok (.command .rollback)
  | .insert i => planInsert engine i
  | .update u => planUpdate engine u
  | .delete d => planDelete engine d

end ChiliDB.Planner

import ChiliDB.Binder.Ast

/-!
# DataFusion plans

The part of DataFusion that the planner builds: expressions, schemas and relational nodes, and the extension
node of modifications.

* `LogicalPlan` — the nodes, each with the schema that DataFusion gave it.
* `Engine` — what DataFusion computes, which is a parameter: lookups in schemas, checks, and schemas of nodes.
* `Engine.standard` — an engine that resolves columns by name and computes types.
-/

namespace ChiliDB.DataFusion

/-- Arrow types. -/
inductive DataType where
  | null
  | boolean
  | int32
  | int64
  | uint32
  | uint64
  | float32
  | float64
  | utf8
  | fixedSizeBinary (size : Nat)
  deriving DecidableEq

inductive ScalarValue where
  | null
  | boolean (v : Option Bool)
  | int32 (v : Option Int32)
  | int64 (v : Option Int64)
  | uint32 (v : Option UInt32)
  | uint64 (v : Option UInt64)
  | float32 (v : Option Binary32)
  | float64 (v : Option Binary64)
  | utf8 (v : Option String)
  | fixedSizeBinary (size : Nat) (v : Option (List UInt8))
  deriving DecidableEq

structure Column where
  relation : Option String
  name : String
  deriving DecidableEq

def Column.fromName (name : String) : Column := ⟨none, name⟩

structure Field where
  name : String
  dataType : DataType
  nullable : Bool
  deriving DecidableEq

/-- Fields with their qualifiers. -/
structure DFSchema where
  fields : List (Option String × Field)
  deriving DecidableEq

def DFSchema.empty : DFSchema := ⟨[]⟩

/-- An unqualified name is looked for among all fields. -/
def Column.names (c : Column) (f : Option String × Field) : Bool :=
  f.2.name = c.name && match c.relation with
    | none => true
    | some relation => f.1 = some relation

inductive Operator where
  | or
  | and
  | eq
  | notEq
  | lt
  | ltEq
  | gt
  | gtEq
  | plus
  | minus
  | multiply
  | divide
  | modulo
  deriving DecidableEq

inductive AggregateUdf where
  | count
  | sum
  | avg
  | min
  | max
  deriving DecidableEq

inductive WindowFunctionDefinition where
  | aggregateUdf (f : AggregateUdf)
  | rowNumber
  | rank
  | denseRank
  deriving DecidableEq

inductive WindowFrameBound where
  | preceding (v : ScalarValue)
  | currentRow
  | following (v : ScalarValue)
  deriving DecidableEq

structure WindowFrame where
  units : Sql.FrameUnits
  start : WindowFrameBound
  stop : WindowFrameBound
  deriving DecidableEq

structure SortExpr (E : Type) where
  expr : E
  asc : Bool
  nullsFirst : Bool

inductive Expr where
  | literal (v : ScalarValue)
  | column (c : Column)
  | not (e : Expr)
  | negative (e : Expr)
  | binary (left : Expr) (op : Operator) (right : Expr)
  | cast (e : Expr) (dataType : DataType)
  | isNull (e : Expr)
  | isNotNull (e : Expr)
  | alias (e : Expr) (name : String)
  | aggregateFunction (f : AggregateUdf) (args : List Expr) (distinct : Bool) (filter : Option Expr)
  | windowFunction (f : WindowFunctionDefinition) (args partitionBy : List Expr) (orderBy : List (SortExpr Expr))
      (frame : WindowFrame) (filter : Option Expr) (distinct : Bool)

/-! ## Nodes -/

structure UpdateAssignment where
  targetColumnIndex : Nat
  value : Column
  deriving DecidableEq

/-- What a `ModifyTable` node does with its input. -/
inductive Modification where
  | insert (values : List Column)
  | update (ctid : Column) (assignments : List UpdateAssignment)
  | delete (ctid : Column)
  deriving DecidableEq

/-- The kinds of nodes that the planner does not build. -/
inductive NodeKind where
  | dml
  | ddl
  | statement
  | copy
  /-- A join, a union, a limit, …. -/
  | relational
  deriving DecidableEq

inductive LogicalPlan where
  | emptyRelation (produceOneRow : Bool)
  | tableScan (name : String) (table : Bound.Table) (withCtid : Bool) (schema : DFSchema)
  | filter (predicate : Expr) (input : LogicalPlan) (schema : DFSchema)
  | aggregate (input : LogicalPlan) (groups aggregates : List Expr) (schema : DFSchema)
  | window (exprs : List Expr) (input : LogicalPlan) (schema : DFSchema)
  | sort (exprs : List (SortExpr Expr)) (input : LogicalPlan) (schema : DFSchema)
  | projection (exprs : List Expr) (input : LogicalPlan) (schema : DFSchema)
  | values (rows : List (List Expr)) (schema : DFSchema)
  | modifyTable (target : Bound.Table) (input : LogicalPlan) (operation : Modification) (schema : DFSchema)
  /-- Any other node, or one whose expressions have subqueries. -/
  | other (kind : NodeKind) (inputs subqueries : List LogicalPlan) (schema : DFSchema)

def LogicalPlan.schema : LogicalPlan → DFSchema
  | .emptyRelation _ => .empty
  | .tableScan _ _ _ schema => schema
  | .filter _ _ schema => schema
  | .aggregate _ _ _ schema => schema
  | .window _ _ schema => schema
  | .sort _ _ schema => schema
  | .projection _ _ schema => schema
  | .values _ schema => schema
  | .modifyTable _ _ _ schema => schema
  | .other _ _ _ schema => schema

/-- What DataFusion decides: which field a column is, whether a node is well formed, and the schema it has. -/
structure Engine (Err : Type) where
  /-- `DataFusionError::Plan`. -/
  plan : String → Err
  /-- `DFSchema::index_of_column`. -/
  indexOfColumn : (schema : DFSchema) → Column → Except Err (Fin schema.fields.length)
  /-- `DFSchema::field_from_column`. -/
  fieldFromColumn : DFSchema → Column → Except Err Field
  /-- `ScalarValue::try_from`, of a type. -/
  scalarOfType : DataType → Except Err ScalarValue
  /-- `DFSchema::try_from`. -/
  schema : List Field → Except Err DFSchema
  /-- `LogicalPlanBuilder::scan`, of a table with these fields. -/
  scan : String → List Field → Except Err DFSchema
  /-- `ExprSchemable::get_type`. -/
  getType : Expr → DFSchema → Except Err DataType
  /-- `Filter::try_new`. -/
  filter : Expr → LogicalPlan → Except Err DFSchema
  /-- `Aggregate::try_new`. -/
  aggregate : LogicalPlan → List Expr → List Expr → Except Err DFSchema
  /-- `Window::try_new`. -/
  window : List Expr → LogicalPlan → Except Err DFSchema
  /-- `LogicalPlan::schema`, of a `Sort`. -/
  sort : List (SortExpr Expr) → LogicalPlan → DFSchema
  /-- `Projection::try_new`, and `LogicalPlanBuilder::project` of resolved columns. -/
  project : List Expr → LogicalPlan → Except Err DFSchema
  /-- `LogicalPlanBuilder::values_with_schema`. -/
  values : List (List Expr) → DFSchema → Except Err LogicalPlan
  /-- `LogicalPlan::check_invariants`. -/
  invariants : LogicalPlan → Except Err Unit

/-! ## An engine

The answers that DataFusion gives to this planner. -/

namespace Standard

def indexOfColumn (schema : DFSchema) (c : Column) : Except String (Fin schema.fields.length) :=
  match (List.finRange schema.fields.length).find? fun i => c.names (schema.fields.get i) with
  | some i => .ok i
  | none => .error ("No field named " ++ c.name)

def fieldFromColumn (schema : DFSchema) (c : Column) : Except String Field :=
  match schema.fields.find? c.names with
  | some f => .ok f.2
  | none => .error ("No field named " ++ c.name)

/-- The null of a type. -/
def nullOf : DataType → ScalarValue
  | .null => .null
  | .boolean => .boolean none
  | .int32 => .int32 none
  | .int64 => .int64 none
  | .uint32 => .uint32 none
  | .uint64 => .uint64 none
  | .float32 => .float32 none
  | .float64 => .float64 none
  | .utf8 => .utf8 none
  | .fixedSizeBinary size => .fixedSizeBinary size none

/-- The type of a literal, and whether it is null. -/
def scalarType : ScalarValue → DataType × Bool
  | .null => (.null, true)
  | .boolean v => (.boolean, v.isNone)
  | .int32 v => (.int32, v.isNone)
  | .int64 v => (.int64, v.isNone)
  | .uint32 v => (.uint32, v.isNone)
  | .uint64 v => (.uint64, v.isNone)
  | .float32 v => (.float32, v.isNone)
  | .float64 v => (.float64, v.isNone)
  | .utf8 v => (.utf8, v.isNone)
  | .fixedSizeBinary size v => (.fixedSizeBinary size, v.isNone)

/-- The type of an aggregate of values of a type; all but counts may be null. -/
def aggregateType : AggregateUdf → DataType → DataType × Bool
  | .count, _ => (.int64, false)
  | .sum, .uint32 => (.uint64, true)
  | .sum, .float32 | .sum, .float64 | .avg, _ => (.float64, true)
  | .sum, _ => (.int64, true)
  | .min, t | .max, t => (t, true)

def windowType : WindowFunctionDefinition → DataType → DataType × Bool
  | .aggregateUdf f, t => aggregateType f t
  | .rowNumber, _ | .rank, _ | .denseRank, _ => (.uint64, false)

def isArithmetic : Operator → Bool
  | .plus | .minus | .multiply | .divide | .modulo => true
  | _ => false

mutual

/-- The type of an expression, and whether it may be null. -/
def typeOf (schema : DFSchema) : Expr → Except String (DataType × Bool)
  | .literal v => .ok (scalarType v)
  | .column c => do
    let f ← fieldFromColumn schema c
    return (f.dataType, f.nullable)
  | .not e | .negative e | .alias e _ => typeOf schema e
  | .isNull _ | .isNotNull _ => .ok (.boolean, false)
  | .cast e t => do
    let (_, nullable) ← typeOf schema e
    return (t, nullable)
  | .binary l op r => do
    let (t, nullable) ← typeOf schema l
    let (_, nullable') ← typeOf schema r
    return (if isArithmetic op then t else .boolean, nullable || nullable')
  | .aggregateFunction f args _ _ => do return aggregateType f (← firstType schema args)
  | .windowFunction f args _ _ _ _ _ => do return windowType f (← firstType schema args)

def firstType (schema : DFSchema) : List Expr → Except String DataType
  | [] => .ok .null
  | e :: _ => do
    let (t, _) ← typeOf schema e
    return t

end

/-- The fields of computed columns, under their aliases; the planner computes no others. -/
def fieldsOf (schema : DFSchema) (exprs : List Expr) : Except String (List (Option String × Field)) :=
  exprs.mapM fun e => do
    let (t, nullable) ← typeOf schema e
    return match e with
      | .alias _ name => (none, ⟨name, t, nullable⟩)
      | .column c => (c.relation, ⟨c.name, t, nullable⟩)
      | _ => (none, ⟨"", t, nullable⟩)

end Standard

open Standard in
def Engine.standard : Engine String where
  plan := id
  indexOfColumn := Standard.indexOfColumn
  fieldFromColumn := Standard.fieldFromColumn
  scalarOfType t := .ok (nullOf t)
  schema fields := .ok ⟨fields.map fun f => (none, f)⟩
  scan name fields := .ok ⟨fields.map fun f => (some name, f)⟩
  getType e schema := (typeOf schema e).map Prod.fst
  filter _ input := .ok input.schema
  aggregate input groups aggregates := do return ⟨← fieldsOf input.schema (groups ++ aggregates)⟩
  window exprs input := do return ⟨input.schema.fields ++ (← fieldsOf input.schema exprs)⟩
  sort _ input := input.schema
  project exprs input := do return ⟨← fieldsOf input.schema exprs⟩
  values rows schema := .ok (.values rows schema)
  invariants _ := .ok ()

end ChiliDB.DataFusion

import ChiliDB.Planner.DataFusion

/-!
# Modification nodes and table scans

`crates/planner/src/modify_table.rs` and `table_source.rs`: the columns of scans have generated names, and a
modification node checks the columns of its input.

* `arrowType`, `column`, `ctid`, `scan` — types, generated columns, and the scan that has them.
* `validate`, `tryNew` — the checks of a `ModifyTable` node.
-/

namespace ChiliDB.Planner

open ChiliDB.Bound (ColumnBinding RelationId Table)
open DataFusion (Column Field DFSchema LogicalPlan Modification Engine)

inductive PlanError (Err : Type) where
  | invalidBound (message : String)
  | unknownColumn (b : ColumnBinding)
  | expressionTooDeep
  | dataFusion (e : Err)

abbrev PlanResult (Err : Type) := Except (PlanError Err)

variable {Err : Type}

/-- `?` on a result of DataFusion. -/
def lift {α : Type} : Except Err α → PlanResult Err α
  | .ok a => .ok a
  | .error e => .error (.dataFusion e)

/-! ## Table sources -/

/-- `FixedSizeBinary` of the six bytes of a `Ctid`. -/
def ctidType : DataFusion.DataType := .fixedSizeBinary 6

def arrowType : LogicalType → DataFusion.DataType
  | .null => .null
  | .boolean => .boolean
  | .int32 => .int32
  | .int64 => .int64
  | .uint32 => .uint32
  | .float32 => .float32
  | .float64 => .float64
  | .text | .varchar _ => .utf8

def qualifier (relation : RelationId) : String := "__r" ++ toString relation.id.toNat

def column (b : ColumnBinding) : Column := ⟨some (qualifier b.relation), "__c" ++ toString b.columnIndex⟩

def ctid (table : Table) : Column := ⟨some (qualifier table.relation), "__ctid"⟩

/-- The fields of a `TableAdapter`. -/
def adapterFields (table : Table) (withCtid : Bool) : List Field :=
  (table.source.schema.columns.zipIdx.map fun p =>
    ⟨"__c" ++ toString p.2, arrowType p.1.dataType, p.1.nullable⟩) ++
  if withCtid then [⟨"__ctid", ctidType, false⟩] else []

def scan (engine : Engine Err) (table : Table) (withCtid : Bool) : Except Err LogicalPlan := do
  let schema ← engine.scan (qualifier table.relation) (adapterFields table withCtid)
  return .tableScan (qualifier table.relation) table withCtid schema

/-! ## Modifications -/

/-- `Dml`, `Ddl`, `Statement` and `Copy`. -/
def isCommand (kind : DataFusion.NodeKind) : Bool := kind ≠ .relational

mutual

/-- `apply_with_subqueries` with the test for a modification or a command: of a node, of one below it, or in a
subquery. -/
def hasModification : LogicalPlan → Bool
  | .modifyTable _ _ _ _ => true
  | .other kind inputs subqueries _ => isCommand kind || anyModification inputs || anyModification subqueries
  | .filter _ input _ | .aggregate input _ _ _ | .window _ input _ | .sort _ input _ | .projection _ input _ =>
    hasModification input
  | .emptyRelation _ | .tableScan _ _ _ _ | .values _ _ => false

def anyModification : List LogicalPlan → Bool
  | [] => false
  | p :: ps => hasModification p || anyModification ps

end

variable (engine : Engine Err)

/-- The one schema of every modification. -/
def completionSchema : Except Err DFSchema := engine.schema [⟨"affected_rows", .int64, false⟩]

def ensureRelationalInput (input : LogicalPlan) : Except Err Unit :=
  if hasModification input then
    .error (engine.plan "relational input contains a modification or command")
  else
    .ok ()

/-- `{value}` of a column. -/
def flatName (c : Column) : String :=
  match c.relation with
  | some relation => relation ++ "." ++ c.name
  | none => c.name

/-- The field of a column of the input. -/
def inputField (input : LogicalPlan) (c : Column) : Except Err Field := do
  let i ← engine.indexOfColumn input.schema c
  return (input.schema.fields.get i).2

def validateValue (target : Table) (input : LogicalPlan) (index : Nat) (value : Column) : Except Err Unit :=
  match target.source.schema.columns[index]? with
  | none => .error (engine.plan "modification target column index is out of range")
  | some c => do
    let f ← inputField engine input value
    if f.dataType ≠ arrowType c.dataType then
      .error (engine.plan ("modification value " ++ flatName value ++ " has incompatible type"))

def validateCtid (input : LogicalPlan) (c : Column) : Except Err Unit := do
  let f ← inputField engine input c
  if f.dataType ≠ ctidType ∨ f.nullable then
    .error (engine.plan "modification ctid must be non-nullable FixedSizeBinary(6)")

def validateAssignments (target : Table) (input : LogicalPlan) :
    List DataFusion.UpdateAssignment → List Nat → Except Err Unit
  | [], _ => .ok ()
  | a :: assignments, seen => do
    if a.targetColumnIndex ∈ seen then .error (engine.plan "duplicate update target column")
    validateValue engine target input a.targetColumnIndex a.value
    validateAssignments target input assignments (a.targetColumnIndex :: seen)

def validate (target : Table) (input : LogicalPlan) (operation : Modification) : Except Err Unit := do
  ensureRelationalInput engine input
  match operation with
  | .insert values =>
    if values.length ≠ target.source.schema.columns.length then
      .error (engine.plan "insert must map every target column")
    values.zipIdx.forM fun p => validateValue engine target input p.2 p.1
  | .update ctid assignments =>
    validateCtid engine input ctid
    if assignments.isEmpty then .error (engine.plan "update requires at least one assignment")
    validateAssignments engine target input assignments []
  | .delete ctid => validateCtid engine input ctid

def tryNew (target : Table) (input : LogicalPlan) (operation : Modification) : Except Err LogicalPlan := do
  let schema ← completionSchema engine
  validate engine target input operation
  return .modifyTable target input operation schema

end ChiliDB.Planner

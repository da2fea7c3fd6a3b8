import ChiliDB.Binder.Expression

/-!
# Binding statements

`crates/binder/src/binding.rs`, `dml.rs` and `ddl.rs`: statements against a catalog, whose tables are looked
up once for each statement.

* `bindSelect` — the clauses of a query in their order, and whether it is grouped.
* `bindInsert`, `bindUpdate`, `bindDelete` — rows and assignments in the types of their target.
* `bindCreateTable` — declarations.
* `bind` — a statement.
-/

namespace ChiliDB.Binder

open Effect
open ChiliDB.Bound (Expr NamedExpr OrderByExpr Table)

variable {E : Type} (catalog : Catalog E)

def getTable (name : String) : BindResult E (Option TableSource) :=
  match catalog.getTable name with
  | .ok source => .ok source
  | .error e => .fail (.catalog e)

def lookupTable (name : String) : BindResult E Table := do
  match ← getTable catalog name with
  | some source => return ⟨⟨0⟩, source⟩
  | none => .fail (.unknownTable name)

/-! ## Queries -/

/-- The one scope of a query. -/
def queryContext : Option (String × Table) → BindContext
  | some (name, table) => ⟨[⟨[⟨name, table⟩]⟩]⟩
  | none => ⟨[⟨[]⟩]⟩

def expandWildcard (table : Table) : List NamedExpr :=
  table.source.schema.columns.zipIdx.map fun p => ⟨p.1.name, columnExpr table.relation p.2 p.1⟩

/-- The name of an output column without an alias. -/
def outputName : Sql.Expr → String
  | .identifier name => name
  | .qualifiedIdentifier _ column => column
  | _ => "?column?"

/-- An alias counts as a level. -/
def bindOutput (context : BindContext) : Sql.Expr → BindResult E NamedExpr
  | .alias expr name => do return ⟨name, ← bindExprInner context 255 true true expr⟩
  | expr => do return ⟨outputName expr, ← bindExprInner context 256 true true expr⟩

def bindProjection (context : BindContext) (source : Option Table) (projection : List Sql.Expr) :
    BindResult E (List NamedExpr) :=
  if isStar projection then
    match source with
    | some table => .ok (expandWildcard table)
    | none => .fail .invalidWildcard
  else
    projection.mapM (bindOutput context)

def bindPredicate (context : BindContext) (clause : String) (aggregates : Bool) (filter : Option Sql.Expr) :
    BindResult E (Option Expr) :=
  filter.mapM fun expr => do boolean (← bindExprInner context 256 aggregates false expr) clause

/-- The output column at a one-based ordinal. -/
def ordinal (projection : List NamedExpr) (n : String) : BindResult E Expr :=
  let outOfRange := BindError.invalidStatement "ORDER BY ordinal out of range"
  match parseUInt64 n with
  | none => .fail outOfRange
  | some i =>
    if i = 0 then .fail outOfRange
    else
      match projection[i.toNat - 1]? with
      | some p => .ok p.expr
      | none => .fail outOfRange

/-- A key: an output column by its name or its ordinal, or an expression. -/
def orderKey (context : BindContext) (projection : List NamedExpr) (expr : Sql.Expr) : BindResult E Expr :=
  match expr with
  | .identifier name =>
    match projection.filter fun p => p.name = name with
    | [p] => .ok p.expr
    | [] => bindExprInner context 256 true true expr
    | _ => .fail (.ambiguousColumn none name)
  | .literal (.number n) =>
    if isDigits n then ordinal projection n else bindExprInner context 256 true true expr
  | _ => bindExprInner context 256 true true expr

def bindOrderBy (context : BindContext) (projection : List NamedExpr)
    (orderBy : List (Sql.OrderByExpr Sql.Expr)) : BindResult E (List (OrderByExpr Expr)) :=
  orderBy.mapM fun o => do return order (← orderKey context projection o.expr) o

def bindSelect (projection : List Sql.Expr) (source : Option String) (filter : Option Sql.Expr)
    (groupBy : List Sql.Expr) (having : Option Sql.Expr) (orderBy : List (Sql.OrderByExpr Sql.Expr)) :
    BindResult E Bound.Select := do
  if projection.isEmpty then .fail .emptyProjection
  let relation ← source.mapM fun name => do return (name, ← lookupTable catalog name)
  let context := queryContext relation
  let projection ← bindProjection context (relation.map Prod.snd) projection
  let filter ← bindPredicate context "WHERE" false filter
  let groupBy ← groupBy.mapM (bindExpr context)
  let having ← bindPredicate context "HAVING" true having
  let orderBy ← bindOrderBy context projection orderBy
  let isAggregate := !groupBy.isEmpty || having.isSome ||
    projection.any (fun p => containsAggregate p.expr) || orderBy.any fun o => containsAggregate o.expr
  if isAggregate then
    (projection.map NamedExpr.expr ++ having.toList ++ orderBy.map OrderByExpr.expr).forM
      (validateGrouped groupBy)
  return ⟨groupBy, having, orderBy, isAggregate, relation.map Prod.snd, projection, filter⟩

/-! ## Modifications -/

/-- The column of a target that has this name. -/
def target (schema : TableSchema) (name : String) : BindResult E Nat :=
  match schema.columns.zipIdx.filter fun p => p.1.name = name with
  | [] => .fail (.unknownColumn none name)
  | [p] => .ok p.2
  | _ => .fail (.ambiguousColumn none name)

/-- The targets of a list of columns, which are different. -/
def targets (schema : TableSchema) : List String → List Nat → BindResult E (List Nat)
  | [], _ => .ok []
  | name :: names, seen => do
    let index ← target schema name
    if index ∈ seen then .fail (.duplicateColumn name)
    return index :: (← targets schema names (index :: seen))

/-- The targets of an `INSERT`: all columns if it lists none. -/
def insertTargets (schema : TableSchema) (columns : List String) : BindResult E (List Nat) :=
  if columns.isEmpty then .ok (List.range schema.columns.length) else targets schema columns []

/-- The rows have the width of the targets. -/
def checkRows (width : Nat) : List (List Sql.Expr × Nat) → BindResult E Unit
  | [] => .ok ()
  | (row, index) :: rows =>
    if row.length ≠ width then .fail (.rowWidth (index + 1) width row.length)
    else if row.isEmpty then .fail (.invalidStatement "INSERT requires nonempty rows")
    else checkRows width rows

/-- The values of a row, each at its target. -/
def placeValues (columns : List ColumnSchema) :
    List (Sql.Expr × Nat) → List (Option Expr) → BindResult E (List (Option Expr))
  | [], normalized => .ok normalized
  | (expr, index) :: values, normalized => do
    let e ← bindExpr ⟨[]⟩ expr
    let column ← Result.index columns index
    let e ← assignment e column.dataType
    placeValues columns values (← Result.setIndex normalized index (some e))

/-- A value, or `NULL` in the type of the column. -/
def columnValue : Option Expr × ColumnSchema → BindResult E Expr
  | (some e, _) => .ok e
  | (none, column) => assignment ⟨.null, true, .literal .null⟩ column.dataType

def bindRow (columns : List ColumnSchema) (indices : List Nat) (row : List Sql.Expr) :
    BindResult E (List Expr) := do
  let normalized ← placeValues columns (row.zip indices) (List.replicate columns.length none)
  (normalized.zip columns).mapM columnValue

def bindInsert (tableName : String) (columns : List String) (rows : List (List Sql.Expr)) :
    BindResult E Bound.Insert := do
  let table ← lookupTable catalog tableName
  let schema := table.source.schema
  let indices ← insertTargets schema columns
  if rows.isEmpty then .fail (.invalidStatement "INSERT requires at least one row")
  checkRows indices.length rows.zipIdx
  let rows ← rows.mapM (bindRow schema.columns indices)
  return ⟨table, rows⟩

/-- The assignments, to different columns. -/
def bindAssignments (context : BindContext) (schema : TableSchema) :
    List Sql.Assignment → List Nat → BindResult E (List Bound.Assignment)
  | [], _ => .ok []
  | a :: assignments, seen => do
    let index ← target schema a.column
    if index ∈ seen then .fail (.duplicateColumn a.column)
    let e ← bindExpr context a.value
    let column ← Result.index schema.columns index
    let e ← assignment e column.dataType
    return ⟨index, e⟩ :: (← bindAssignments context schema assignments (index :: seen))

def bindUpdate (tableName : String) (assignments : List Sql.Assignment) (filter : Option Sql.Expr) :
    BindResult E Bound.Update := do
  let table ← lookupTable catalog tableName
  if assignments.isEmpty then .fail (.invalidStatement "UPDATE requires at least one assignment")
  let context := queryContext (some (tableName, table))
  let assignments ← bindAssignments context table.source.schema assignments []
  let filter ← bindPredicate context "WHERE" false filter
  return ⟨table, assignments, filter⟩

def bindDelete (tableName : String) (filter : Option Sql.Expr) : BindResult E Bound.Delete := do
  let table ← lookupTable catalog tableName
  let filter ← bindPredicate (queryContext (some (tableName, table))) "WHERE" false filter
  return ⟨table, filter⟩

/-! ## Declarations -/

/-- The length of a `VARCHAR`, a positive `u32`. -/
def varcharLimit (length : String) : BindResult E NonZeroU32 :=
  match if isDigits length && digits length.toList < 2 ^ 32 then NonZeroU32.new (.ofNat (digits length.toList))
    else none with
  | some limit => .ok limit
  | none => .fail (.invalidType ("VARCHAR(" ++ length ++ ")"))

def bindType : Sql.DataType → BindResult E LogicalType
  | .integer => .ok .int32
  | .bigInt => .ok .int64
  | .real => .ok .float32
  | .double => .ok .float64
  | .boolean => .ok .boolean
  | .text => .ok .text
  | .varchar none => .ok (.varchar none)
  | .varchar (some length) => do return .varchar (some (← varcharLimit length))

/-- `{:?}`. -/
def constraintName : Sql.ColumnConstraint → String
  | .notNull => "NotNull"
  | .primaryKey => "PrimaryKey"
  | .unique => "Unique"

/-- The state of the loops over columns and constraints. -/
structure Declared where
  primaryKey : Bool
  constraints : List TableConstraint
  nullable : Bool

/-- The constraints of the column `column` at `index`, of which it has `seen` some. -/
def bindConstraints (column : String) (index : Nat) :
    List Sql.ColumnConstraint → List Sql.ColumnConstraint → Declared → BindResult E Declared
  | [], _, d => .ok d
  | c :: cs, seen, d =>
    if c ∈ seen then
      .fail (.invalidConstraint ("duplicate " ++ constraintName c ++ " on " ++ column))
    else
      match c with
      | .notNull => bindConstraints column index cs (c :: seen) { d with nullable := false }
      | .primaryKey =>
        if d.primaryKey then .fail (.invalidConstraint "multiple PRIMARY KEY declarations")
        else bindConstraints column index cs (c :: seen)
          ⟨true, d.constraints ++ [.primaryKey [index]], false⟩
      | .unique =>
        bindConstraints column index cs (c :: seen) { d with constraints := d.constraints ++ [.unique [index]] }

def bindColumns : List (Sql.ColumnDef × Nat) → List String → Bool → CreateTable →
    BindResult E CreateTable
  | [], _, _, result => .ok result
  | (column, index) :: columns, names, primaryKey, result => do
    if column.name ∈ names then .fail (.duplicateColumn column.name)
    let dataType ← bindType column.dataType
    let d ← bindConstraints column.name index column.constraints [] ⟨primaryKey, result.constraints, true⟩
    bindColumns columns (column.name :: names) d.primaryKey
      { result with
        columns := result.columns ++ [⟨column.name, dataType, d.nullable⟩], constraints := d.constraints }

def bindCreateTable (name : String) (columns : List Sql.ColumnDef) : BindResult E CreateTable := do
  if name.isEmpty || columns.isEmpty || columns.any (fun c => c.name.isEmpty) then
    .fail (.invalidStatement "CREATE TABLE requires a table name and named columns")
  if (← getTable catalog name).isSome then .fail (.tableAlreadyExists name)
  bindColumns columns.zipIdx [] false ⟨name, [], []⟩

/-! ## Statements -/

def bind : Sql.Statement → BindResult E Bound.Statement
  | .select projection source filter groupBy having orderBy => do
    return .select (← bindSelect catalog projection source filter groupBy having orderBy)
  | .createTable name columns => do return .createTable (← bindCreateTable catalog name columns)
  | .insert table columns rows => do return .insert (← bindInsert catalog table columns rows)
  | .update table assignments filter => do return .update (← bindUpdate catalog table assignments filter)
  | .delete table filter => do return .delete (← bindDelete catalog table filter)
  | .begin => .ok .begin
  | .commit => .ok .commit
  | .rollback => .ok .rollback

end ChiliDB.Binder

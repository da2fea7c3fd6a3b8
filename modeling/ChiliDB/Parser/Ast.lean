import Mathlib.Data.List.Basic

/-!
# SQL syntax trees

`crates/parser/src/ast.rs`: statements and expressions before names are resolved.  Borrowed and owned text
are both `String`; numbers keep their spelling.
-/

namespace ChiliDB.Sql

inductive UnaryOp where
  | not
  | plus
  | minus
  deriving DecidableEq

inductive BinaryOp where
  | or
  | and
  | eq
  | notEq
  | less
  | lessEq
  | greater
  | greaterEq
  | add
  | subtract
  | multiply
  | divide
  | modulo
  deriving DecidableEq

inductive Literal where
  | number (s : String)
  | string (s : String)
  | null
  | boolean (b : Bool)
  deriving DecidableEq

inductive SortDirection where
  | ascending
  | descending
  deriving DecidableEq

inductive NullOrder where
  | first
  | last
  deriving DecidableEq

structure OrderByExpr (E : Type) where
  expr : E
  direction : SortDirection
  nulls : Option NullOrder

inductive FrameUnits where
  | rows
  | range
  deriving DecidableEq

inductive FrameBound where
  | unboundedPreceding
  | preceding (n : String)
  | currentRow
  | following (n : String)
  | unboundedFollowing
  deriving DecidableEq

structure WindowFrame where
  units : FrameUnits
  start : FrameBound
  stop : FrameBound
  deriving DecidableEq

structure WindowSpec (E : Type) where
  partitionBy : List E
  orderBy : List (OrderByExpr E)
  frame : Option WindowFrame

inductive Expr where
  | identifier (name : String)
  | qualifiedIdentifier (table column : String)
  | alias (expr : Expr) (name : String)
  | functionCall (name : String) (args : List Expr) (distinct : Bool) (filter : Option Expr)
      (over_ : Option (WindowSpec Expr))
  | wildcard
  | literal (l : Literal)
  | unary (op : UnaryOp) (expr : Expr)
  | binary (left : Expr) (op : BinaryOp) (right : Expr)
  | isNull (expr : Expr) (negated : Bool)

inductive DataType where
  | integer
  | bigInt
  | text
  | boolean
  | real
  | double
  | varchar (length : Option String)
  deriving DecidableEq

inductive ColumnConstraint where
  | notNull
  | primaryKey
  | unique
  deriving DecidableEq

structure ColumnDef where
  name : String
  dataType : DataType
  constraints : List ColumnConstraint
  deriving DecidableEq

structure Assignment where
  column : String
  value : Expr

inductive Statement where
  | select (projection : List Expr) (source : Option String) (filter : Option Expr) (groupBy : List Expr)
      (having : Option Expr) (orderBy : List (OrderByExpr Expr))
  | createTable (name : String) (columns : List ColumnDef)
  | insert (table : String) (columns : List String) (rows : List (List Expr))
  | update (table : String) (assignments : List Assignment) (filter : Option Expr)
  | delete (table : String) (filter : Option Expr)
  | begin
  | commit
  | rollback

end ChiliDB.Sql

import Mathlib.Data.List.Basic

/-!
# Logical types, table schemas and declarations

`crates/binder/src/lib.rs`, `catalog.rs` and the declarations of `ast.rs`.  Names are compared as given;
a `usize` index is a `Nat`.
-/

namespace ChiliDB

/-- `NonZeroU32`. -/
structure NonZeroU32 where
  get : UInt32
  ne_zero : get ≠ 0
  deriving DecidableEq

/-- `NonZeroU32::new`. -/
def NonZeroU32.new (n : UInt32) : Option NonZeroU32 :=
  if h : n = 0 then none else some ⟨n, h⟩

theorem NonZeroU32.new_eq_some {n : UInt32} {k : NonZeroU32} : NonZeroU32.new n = some k ↔ k.get = n := by
  obtain ⟨k, hk⟩ := k
  unfold NonZeroU32.new
  split
  · rename_i h
    subst h
    simp [hk]
  · simp [eq_comm]

inductive LogicalType where
  | null
  | boolean
  | int32
  | int64
  | uint32
  | float32
  | float64
  | text
  | varchar (limit : Option NonZeroU32)
  deriving DecidableEq

structure ColumnSchema where
  name : String
  dataType : LogicalType
  nullable : Bool
  deriving DecidableEq

structure TableSchema where
  name : String
  columns : List ColumnSchema
  deriving DecidableEq

/-- Key columns as indices into the schema, in key order. -/
inductive TableConstraint where
  | primaryKey (indices : List Nat)
  | unique (indices : List Nat)
  deriving DecidableEq

structure CreateColumn where
  name : String
  dataType : LogicalType
  nullable : Bool
  deriving DecidableEq

/-- A table declaration that the binder has checked. -/
structure CreateTable where
  name : String
  columns : List CreateColumn
  constraints : List TableConstraint
  deriving DecidableEq

end ChiliDB

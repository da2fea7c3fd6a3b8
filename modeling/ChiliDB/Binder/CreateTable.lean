import ChiliDB.Binder.Binding
import ChiliDB.Lib.Fallible

/-!
# What a bound declaration says

`bindCreateTable` goes through the columns and, for each of them, through its constraints.

* `declaredKey`, `mayBeNull` — the key of a constraint, and what the constraints of a column say of `NULL`.
* `Declares E name columns d` — `d` is the declaration of these columns.

Principal result: `bindCreateTable_ok`.
-/

namespace ChiliDB.Binder

open Effect List

variable {E : Type}

/-! ## One column -/

/-- The key that a constraint of the column at `index` declares. -/
def declaredKey (index : Nat) : Sql.ColumnConstraint → Option TableConstraint
  | .notNull => none
  | .primaryKey => some (.primaryKey [index])
  | .unique => some (.unique [index])

/-- A column may be `NULL` unless a constraint forbids it, wherever it stands in the list. -/
def mayBeNull (constraints : List Sql.ColumnConstraint) : Bool :=
  constraints.all fun c => c = .unique

theorem bindConstraints_ok {column : String} {index : Nat} : ∀ {cs seen : List Sql.ColumnConstraint}
    {d d' : Declared}, (bindConstraints column index cs seen d : BindResult E Declared) = .ok d' →
      d'.constraints = d.constraints ++ cs.filterMap (declaredKey index) ∧
      d'.primaryKey.toNat = d.primaryKey.toNat + cs.count .primaryKey ∧
      d'.nullable = (d.nullable && mayBeNull cs)
  | [], seen, d, d', h => by
    cases h
    simp [mayBeNull]
  | c :: cs, seen, d, d', h => by
    unfold bindConstraints at h
    split at h
    · cases h
    cases c with
    | notNull =>
      obtain ⟨hkeys, hprimary, hnull⟩ := bindConstraints_ok h
      simp [hkeys, hprimary, hnull, declaredKey, mayBeNull, filterMap_cons]
    | primaryKey =>
      simp only at h
      split at h
      · cases h
      rename_i hfirst
      obtain ⟨hkeys, hprimary, hnull⟩ := bindConstraints_ok h
      simp [hkeys, hprimary, hnull, declaredKey, mayBeNull, hfirst]
      omega
    | unique =>
      obtain ⟨hkeys, hprimary, hnull⟩ := bindConstraints_ok h
      simp [hkeys, hprimary, hnull, declaredKey, mayBeNull]

/-- The length of a `VARCHAR` is a positive `u32`. -/
def LegalLength (length : String) : Prop :=
  isDigits length = true ∧ 1 ≤ digits length.toList ∧ digits length.toList ≤ 2 ^ 32 - 1

theorem varcharLimit_ok {length : String} {limit : NonZeroU32}
    (h : (varcharLimit length : BindResult E NonZeroU32) = .ok limit) : LegalLength length := by
  unfold varcharLimit at h
  by_cases hdigits : (isDigits length && decide (digits length.toList < 2 ^ 32)) = true
  · rw [if_pos hdigits] at h
    rw [Bool.and_eq_true, decide_eq_true_iff] at hdigits
    refine ⟨hdigits.1, Nat.pos_of_ne_zero fun hzero => ?_, by omega⟩
    rw [hzero] at h
    cases h
  · rw [if_neg hdigits] at h
    cases h

theorem bindType_ok {t : Sql.DataType} {type : LogicalType}
    (h : (bindType t : BindResult E LogicalType) = .ok type) :
    type ≠ .null ∧ ∀ length, t = .varchar (some length) → LegalLength length := by
  cases t with
  | varchar limit =>
    cases limit with
    | none =>
      cases h
      simp
    | some length =>
      obtain ⟨limit, hlimit, h⟩ := except_bind_ok.1 h
      cases h
      refine ⟨by simp, fun length' he => ?_⟩
      cases he
      exact varcharLimit_ok hlimit
  | _ =>
    cases h
    simp

/-! ## All columns -/

/-- A column and its declaration. -/
structure BoundColumn (E : Type) (column : Sql.ColumnDef) (bound : CreateColumn) : Prop where
  name : bound.name = column.name
  dataType : (bindType column.dataType : BindResult E LogicalType) = .ok bound.dataType
  nullable : bound.nullable = mayBeNull column.constraints

/-- The keys of the columns from number `index` on, in their order. -/
def declaredKeys (columns : List Sql.ColumnDef) (index : Nat) : List TableConstraint :=
  (columns.zipIdx index).flatMap fun p => p.1.constraints.filterMap (declaredKey p.2)

theorem bindColumns_ok : ∀ {columns : List Sql.ColumnDef} {index : Nat} {names : List String}
    {primaryKey : Bool} {result d : CreateTable},
    (bindColumns (columns.zipIdx index) names primaryKey result : BindResult E CreateTable) = .ok d →
      d.name = result.name ∧
      (∃ bound, d.columns = result.columns ++ bound ∧ Forall₂ (BoundColumn E) columns bound) ∧
      d.constraints = result.constraints ++ declaredKeys columns index ∧
      ((∀ c ∈ columns, c.name ∉ names) ∧ (columns.map Sql.ColumnDef.name).Nodup) ∧
      primaryKey.toNat + (columns.flatMap Sql.ColumnDef.constraints).count .primaryKey ≤ 1
  | [], index, names, primaryKey, result, d, h => by
    cases h
    refine ⟨rfl, ⟨[], by simp, .nil⟩, by simp [declaredKeys], by simp, ?_⟩
    simpa using Bool.toNat_le primaryKey
  | column :: columns, index, names, primaryKey, result, d, h => by
    rw [zipIdx_cons] at h
    unfold bindColumns at h
    split at h
    · cases h
    rename_i hname
    obtain ⟨type, htype, h⟩ := except_bind_ok.1 h
    obtain ⟨declared, hdeclared, h⟩ := except_bind_ok.1 h
    obtain ⟨hkeys, hprimary, hnull⟩ := bindConstraints_ok hdeclared
    obtain ⟨hd, ⟨bound, hbound, hcolumns⟩, hconstraints, ⟨hnew, hnodup⟩, hcount⟩ := bindColumns_ok h
    refine ⟨hd, ⟨⟨column.name, type, declared.nullable⟩ :: bound, ?_, .cons ⟨rfl, htype, hnull⟩ hcolumns⟩, ?_,
      ?_, ?_⟩
    · rw [hbound]
      simp
    · rw [hconstraints]
      simp [hkeys, declaredKeys, zipIdx_cons]
    · refine ⟨?_, ?_⟩
      · rw [forall_mem_cons]
        exact ⟨hname, fun c hc hm => hnew c hc (mem_cons_of_mem _ hm)⟩
      · rw [map_cons, nodup_cons]
        refine ⟨fun hm => ?_, hnodup⟩
        obtain ⟨c, hc, hsame⟩ := mem_map.1 hm
        exact hnew c hc (by rw [hsame]; exact mem_cons_self)
    · rw [flatMap_cons, count_append, ← Nat.add_assoc, ← show declared.primaryKey.toNat = _ from hprimary]
      exact hcount

/-! ## A declaration -/

/-- `d` is the declaration of these columns, whose names are distinct and which have at most one primary
key. -/
structure Declares (E : Type) (name : String) (columns : List Sql.ColumnDef) (d : CreateTable) : Prop where
  named : name ≠ "" ∧ columns ≠ [] ∧ ∀ c ∈ columns, c.name ≠ ""
  distinct : (columns.map Sql.ColumnDef.name).Nodup
  table : d.name = name
  bound : List.Forall₂ (BoundColumn E) columns d.columns
  constraints : d.constraints = declaredKeys columns 0
  primary : (columns.flatMap Sql.ColumnDef.constraints).count .primaryKey ≤ 1

/-- **What `bindCreateTable` accepts, and the declaration it returns.** -/
theorem bindCreateTable_ok {catalog : Catalog E} {name : String} {columns : List Sql.ColumnDef}
    {d : CreateTable} (h : bindCreateTable catalog name columns = .ok d) : Declares E name columns d := by
  unfold bindCreateTable at h
  split at h
  · cases h
  rename_i hnamed
  obtain ⟨source, _, h⟩ := except_bind_ok.1 h
  split at h
  · cases h
  obtain ⟨hd, ⟨bound, hbound, hcolumns⟩, hconstraints, ⟨_, hnodup⟩, hcount⟩ := bindColumns_ok h
  refine ⟨?_, hnodup, hd, ?_, hconstraints, ?_⟩
  · simpa [and_assoc] using hnamed
  · rw [hbound]
    exact hcolumns
  · simpa using hcount

end ChiliDB.Binder

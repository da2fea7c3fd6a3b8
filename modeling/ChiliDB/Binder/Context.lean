import ChiliDB.Binder.Ast
import ChiliDB.Lib.Effect

/-!
# Name resolution

`crates/binder/src/context.rs`, and the errors and the catalog interface of the binder.

* `resolveColumn` — a column in the nearest scope that has it.
* `resolveColumn_ok` — what it resolves to is a column of a visible relation, with its type and nullability.
-/

namespace ChiliDB.Binder

open Effect
open ChiliDB.Bound (Expr Table RelationId)

/-- `E` is the error of the catalog. -/
inductive BindError (E : Type) where
  | unknownFunction (name : String)
  | invalidFunction (message : String)
  | ungroupedColumn
  | invalidWindowFrame (message : String)
  | catalog (e : E)
  | tableAlreadyExists (name : String)
  | duplicateColumn (name : String)
  | invalidConstraint (message : String)
  | invalidType (message : String)
  | invalidStatement (message : String)
  | rowWidth (row expected actual : Nat)
  | unknownTable (name : String)
  | unknownColumn (qualifier : Option String) (name : String)
  | ambiguousColumn (qualifier : Option String) (name : String)
  | typeMismatch (context expected : String) (actual : LogicalType)
  | incompatibleTypes (context : String) (left right : LogicalType)
  | invalidNumber (s : String)
  | invalidWildcard
  | emptyProjection
  | expressionTooDeep

abbrev BindResult (E : Type) := Result (BindError E)

/-- A read-only view of the tables. -/
structure Catalog (E : Type) where
  getTable : String → Except E (Option TableSource)

structure RelationBinding where
  name : String
  table : Table

structure Scope where
  relations : List RelationBinding

/-- Scopes from the outermost to the innermost. -/
structure BindContext where
  scopes : List Scope

/-- A column as an expression. -/
def columnExpr (relation : RelationId) (index : Nat) (column : ColumnSchema) : Expr :=
  ⟨column.dataType, column.nullable, .column ⟨relation, index⟩⟩

section

variable {E : Type} (qualifier : Option String) (name : String)

/-- The loop over the columns of a relation. -/
def findColumn (relation : RelationId) :
    List (ColumnSchema × Nat) → Option Expr → BindResult E (Option Expr)
  | [], found => .ok found
  | (column, index) :: columns, found =>
    if column.name = name then
      match found with
      | some _ => .fail (.ambiguousColumn qualifier name)
      | none => findColumn relation columns (some (columnExpr relation index column))
    else
      findColumn relation columns found

/-- The loop over the relations of a scope, which counts those that the qualifier names. -/
def findRelation : List RelationBinding → Option Expr → Nat → BindResult E (Option Expr × Nat)
  | [], found, qualified => .ok (found, qualified)
  | r :: relations, found, qualified =>
    match qualifier with
    | some q =>
      if r.name ≠ q then
        findRelation relations found qualified
      else if qualified + 1 > 1 then
        .fail (.ambiguousColumn qualifier name)
      else do
        let found ← findColumn qualifier name r.table.relation r.table.source.schema.columns.zipIdx found
        findRelation relations found (qualified + 1)
    | none => do
      let found ← findColumn qualifier name r.table.relation r.table.source.schema.columns.zipIdx found
      findRelation relations found qualified

/-- The loop over the scopes, from the innermost. -/
def resolveIn : List Scope → BindResult E Expr
  | [] => .fail (.unknownColumn qualifier name)
  | scope :: scopes => do
    match ← findRelation qualifier name scope.relations none 0 with
    | (some e, _) => pure e
    | (none, qualified) =>
      if qualified > 0 then .fail (.unknownColumn qualifier name) else resolveIn scopes

def BindContext.resolveColumn (context : BindContext) : BindResult E Expr :=
  resolveIn qualifier name context.scopes.reverse

end

/-! ## What a name resolves to -/

/-- A column of a visible relation. -/
def BindContext.Visible (context : BindContext) (e : Expr) : Prop :=
  ∃ scope ∈ context.scopes, ∃ r ∈ scope.relations, ∃ index column,
    r.table.source.schema.columns[index]? = some column ∧ e = columnExpr r.table.relation index column

variable {E : Type} {qualifier : Option String} {name : String}

theorem findColumn_ok {relation : RelationId} {P : Expr → Prop} :
    ∀ {columns : List (ColumnSchema × Nat)} {found found' : Option Expr},
      (∀ p ∈ columns, P (columnExpr relation p.2 p.1)) → (∀ e, found = some e → P e) →
      (findColumn qualifier name relation columns found : BindResult E _) = .ok found' →
      ∀ e, found' = some e → P e
  | [], found, found', _, hfound, h => by
    cases h
    exact hfound
  | (column, index) :: columns, found, found', hcolumns, hfound, h => by
    simp only [findColumn] at h
    have hrest (p) (hp : p ∈ columns) := hcolumns p (List.mem_cons_of_mem _ hp)
    split at h
    · split at h
      · cases h
      · refine findColumn_ok hrest ?_ h
        intro e he
        cases he
        exact hcolumns _ List.mem_cons_self
    · exact findColumn_ok hrest hfound h

theorem findRelation_ok {P : Expr → Prop} {relations : List RelationBinding} {found : Option Expr}
    {qualified : Nat} {out : Option Expr × Nat}
    (hrelations : ∀ r ∈ relations, ∀ p ∈ r.table.source.schema.columns.zipIdx,
      P (columnExpr r.table.relation p.2 p.1)) (hfound : ∀ e, found = some e → P e)
    (h : (findRelation qualifier name relations found qualified : BindResult E _) = .ok out) :
    ∀ e, out.1 = some e → P e := by
  induction relations generalizing found qualified with
  | nil =>
    cases h
    exact hfound
  | cons r relations ih =>
    have hr := hrelations r List.mem_cons_self
    have hrest (r') (hr' : r' ∈ relations) := hrelations r' (List.mem_cons_of_mem _ hr')
    unfold findRelation at h
    split at h
    · split at h
      · exact ih hrest hfound h
      · split at h
        · cases h
        · obtain ⟨found', hcolumn, h⟩ := except_bind_ok.1 h
          exact ih hrest (findColumn_ok hr hfound hcolumn) h
    · obtain ⟨found', hcolumn, h⟩ := except_bind_ok.1 h
      exact ih hrest (findColumn_ok hr hfound hcolumn) h

theorem resolveIn_ok {P : Expr → Prop} : ∀ {scopes : List Scope} {e : Expr},
    (∀ scope ∈ scopes, ∀ r ∈ scope.relations, ∀ p ∈ r.table.source.schema.columns.zipIdx,
      P (columnExpr r.table.relation p.2 p.1)) →
    (resolveIn qualifier name scopes : BindResult E _) = .ok e → P e
  | [], e, _, h => by cases h
  | scope :: scopes, e, hscopes, h => by
    unfold resolveIn at h
    obtain ⟨out, hout, h⟩ := except_bind_ok.1 h
    have hfound := findRelation_ok (hscopes scope List.mem_cons_self) (by simp) hout
    split at h
    · cases h
      exact hfound _ rfl
    · split at h
      · cases h
      · exact resolveIn_ok (fun scope hscope => hscopes scope (List.mem_cons_of_mem _ hscope)) h

/-- A name resolves to a column of a visible relation, with its type and its nullability. -/
theorem resolveColumn_ok {context : BindContext} {e : Expr}
    (h : (context.resolveColumn qualifier name : BindResult E _) = .ok e) : context.Visible e := by
  refine resolveIn_ok ?_ h
  intro scope hscope r hr p hp
  rw [List.mem_reverse] at hscope
  refine ⟨scope, hscope, r, hr, p.2, p.1, ?_, rfl⟩
  exact List.mem_zipIdx_iff_getElem?.1 hp

end ChiliDB.Binder

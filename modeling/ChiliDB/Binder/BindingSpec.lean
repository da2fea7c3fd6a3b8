import ChiliDB.Binder.Binding
import ChiliDB.Binder.ExpressionSpec

/-!
# What binding a statement returns

* `Origin` — an expression of a bound statement comes from one of its syntax tree, or from a star.
* `bindSelect_ok`, `bindInsert_ok`, `bindUpdate_ok`, `bindDelete_ok` — the clauses of a bound statement.
-/

namespace ChiliDB.Binder

open Effect List
open ChiliDB.Bound (Expr NamedExpr OrderByExpr Table)

variable {E : Type} {catalog : Catalog E} {context : BindContext} {a w : Bool} {e e' : Expr}

/-- An expression that is bound from one of `xs` and coerced, or a column of a star. -/
inductive Origin (E : Type) (context : BindContext) (a w : Bool) (xs : List Sql.Expr) (e : Expr) : Prop where
  | star : context.Visible e → Origin E context a w xs e
  | bound {x : Sql.Expr} {levels : Nat} {e' : Expr} : x ∈ xs →
      (bindExprInner context levels a w x : BindResult E _) = .ok e' → Coerced e' e →
      Origin E context a w xs e

theorem inPhase_of_visible (h : context.Visible e) : InPhase context a w e := by
  obtain ⟨_, _, r, _, index, column, _, rfl⟩ := id h
  exact .column rfl h

theorem Origin.inPhase {xs : List Sql.Expr} (h : Origin E context a w xs e) : InPhase context a w e := by
  cases h with
  | star hvisible => exact inPhase_of_visible hvisible
  | bound _ hbound hcoerced => exact hcoerced.inPhase (bindExprInner_inPhase hbound)

theorem Origin.mono {xs ys : List Sql.Expr} (h : Origin E context a w xs e) (hsub : xs ⊆ ys) :
    Origin E context a w ys e := by
  cases h with
  | star hvisible => exact .star hvisible
  | bound hx hbound hcoerced => exact .bound (hsub hx) hbound hcoerced

/-! ## Queries -/

/-- The expression under an alias. -/
def unaliased : Sql.Expr → Sql.Expr
  | .alias expr _ => expr
  | expr => expr

variable {x : Sql.Expr} {name : String} {ps : List NamedExpr} {filter : Option Sql.Expr}

theorem bindOutput_ok {p : NamedExpr} (h : (bindOutput context x : BindResult E _) = .ok p) :
    Origin E context true true [unaliased x] p.expr := by
  cases x <;>
  · obtain ⟨e, he, h⟩ := except_bind_ok.1 h
    cases h
    exact .bound (mem_singleton_self _) he .refl

/-- The columns of the relation of a query are visible. -/
theorem visible_query {table : Table} {index : Nat} {column : ColumnSchema}
    (h : table.source.schema.columns[index]? = some column) :
    (queryContext (some (name, table))).Visible (columnExpr table.relation index column) :=
  ⟨_, mem_singleton_self _, _, mem_singleton_self _, index, column, h, rfl⟩

theorem bindProjection_ok {relation : Option (String × Table)} {xs : List Sql.Expr}
    (h : (bindProjection (queryContext relation) (relation.map Prod.snd) xs : BindResult E _) = .ok ps) :
    ∀ p ∈ ps, Origin E (queryContext relation) true true (xs.map unaliased) p.expr := by
  unfold bindProjection at h
  split at h
  · cases relation with
    | none => cases h
    | some r =>
      cases h
      intro p hp
      obtain ⟨c, hc, rfl⟩ := mem_map.1 hp
      exact .star (visible_query (mem_zipIdx_iff_getElem?.1 hc))
  · intro p hp
    obtain ⟨x, hx, hp⟩ := exists_of_forall₂ (mapM_ok.1 h) p hp
    exact (bindOutput_ok hp).mono (by simpa using ⟨x, hx, rfl⟩)

/-- A predicate is Boolean. -/
theorem bindPredicate_ok {clause : String} {x : Option Sql.Expr} {p : Option Expr}
    (h : (bindPredicate context clause a x : BindResult E _) = .ok p) :
    ∀ e ∈ p.toList, e.dataType = .boolean ∧ Origin E context a false x.toList e := by
  rcases option_mapM_ok.1 h with ⟨rfl, rfl⟩ | ⟨x, e, rfl, rfl, hx⟩
  · simp
  · obtain ⟨e', he', hboolean⟩ := except_bind_ok.1 hx
    obtain ⟨hcoerced, htype⟩ := boolean_ok hboolean
    simp only [Option.toList_some, mem_singleton, forall_eq]
    exact ⟨htype, .bound (mem_singleton_self x) he' hcoerced⟩

theorem orderKey_ok (h : (orderKey context ps x : BindResult E _) = .ok e) :
    (∃ p ∈ ps, p.expr = e) ∨ Origin E context true true [x] e := by
  have hbound (h : (bindExprInner context 256 true true x : BindResult E _) = .ok e) :
      Origin E context true true [x] e := .bound (mem_singleton_self x) h .refl
  unfold orderKey at h
  split at h
  · split at h
    · rename_i p hp
      cases h
      have hmem := mem_singleton_self p
      rw [← hp] at hmem
      exact .inl ⟨p, (mem_filter.1 hmem).1, rfl⟩
    · exact .inr (hbound h)
    · cases h
  · split at h
    · unfold ordinal at h
      split at h
      · cases h
      · split at h
        · cases h
        · split at h
          · rename_i p hp
            cases h
            exact .inl ⟨p, mem_of_getElem? hp, rfl⟩
          · cases h
    · exact .inr (hbound h)
  · exact .inr (hbound h)

theorem bindOrderBy_ok {xs : List Sql.Expr} {os : List (Sql.OrderByExpr Sql.Expr)}
    {os' : List (OrderByExpr Expr)} (hps : ∀ p ∈ ps, Origin E context true true xs p.expr)
    (h : (bindOrderBy context ps os : BindResult E _) = .ok os') :
    ∀ o ∈ os', Origin E context true true (xs ++ os.map fun o => o.expr) o.expr := by
  intro o ho
  obtain ⟨x, hx, ho⟩ := exists_of_forall₂ (mapM_ok.1 h) o ho
  obtain ⟨e, he, ho⟩ := except_bind_ok.1 ho
  cases ho
  rcases orderKey_ok he with ⟨p, hp, rfl⟩ | horigin
  · exact (hps p hp).mono (subset_append_left _ _)
  · refine horigin.mono ?_
    simpa using .inr ⟨x, hx, rfl⟩

/-- The expressions of a query behind its grouping. -/
def groupedClauses (q : Bound.Select) : List Expr :=
  q.projection.map NamedExpr.expr ++ q.having.toList ++ q.orderBy.map OrderByExpr.expr

/-- The clauses of a bound query. -/
structure SelectBound (E : Type) (context : BindContext) (outputs : List Sql.Expr) (condition : Option Sql.Expr)
    (keys : List Sql.Expr) (restriction : Option Sql.Expr) (orders : List (Sql.OrderByExpr Sql.Expr))
    (q : Bound.Select) : Prop where
  projection : ∀ p ∈ q.projection, Origin E context true true (outputs.map unaliased) p.expr
  filter : ∀ e ∈ q.filter.toList, e.dataType = .boolean ∧ Origin E context false false condition.toList e
  groupBy : ∀ e ∈ q.groupBy, Origin E context false false keys e
  having : ∀ e ∈ q.having.toList, e.dataType = .boolean ∧ Origin E context true false restriction.toList e
  orderBy : ∀ o ∈ q.orderBy, Origin E context true true
    (outputs.map unaliased ++ orders.map fun o => o.expr) o.expr
  isAggregate : q.isAggregate = (!q.groupBy.isEmpty || q.having.isSome ||
    q.projection.any (fun p => containsAggregate p.expr) || q.orderBy.any fun o => containsAggregate o.expr)
  grouped : q.isAggregate = true → ∀ e ∈ groupedClauses q,
    (validateGrouped q.groupBy e : BindResult E _) = .ok ()

theorem bindSelect_ok {projection : List Sql.Expr} {source : Option String} {groupBy : List Sql.Expr}
    {having : Option Sql.Expr} {orderBy : List (Sql.OrderByExpr Sql.Expr)} {q : Bound.Select}
    (h : bindSelect catalog projection source filter groupBy having orderBy = .ok q) :
    ∃ relation : Option (String × Table), q.source = relation.map Prod.snd ∧
      SelectBound E (queryContext relation) projection filter groupBy having orderBy q := by
  unfold bindSelect at h
  split at h
  · cases h
  · obtain ⟨relation, _, h⟩ := except_bind_ok.1 h
    obtain ⟨ps, hps, h⟩ := except_bind_ok.1 h
    obtain ⟨p, hp, h⟩ := except_bind_ok.1 h
    obtain ⟨gs, hgs, h⟩ := except_bind_ok.1 h
    obtain ⟨r, hr, h⟩ := except_bind_ok.1 h
    obtain ⟨os, hos, h⟩ := except_bind_ok.1 h
    have hkeys : ∀ e ∈ gs, Origin E (queryContext relation) false false groupBy e := by
      intro e he
      obtain ⟨x, hx, he⟩ := exists_of_forall₂ (mapM_ok.1 hgs) e he
      exact .bound hx he .refl
    have houtputs := bindProjection_ok hps
    refine ⟨relation, ?_⟩
    simp only at h
    split at h
    · obtain ⟨_, hgrouped, h⟩ := except_bind_ok.1 h
      cases h
      exact ⟨rfl, houtputs, bindPredicate_ok hp, hkeys, bindPredicate_ok hr, bindOrderBy_ok houtputs hos, rfl,
        fun _ => forM_ok.1 hgrouped⟩
    · rename_i hflat
      cases h
      exact ⟨rfl, houtputs, bindPredicate_ok hp, hkeys, bindPredicate_ok hr, bindOrderBy_ok houtputs hos, rfl,
        fun h => absurd h hflat⟩

/-! ## Modifications -/

theorem assignment_ok {t : LogicalType} (h : (assignment e t : BindResult E _) = .ok e') :
    (e.dataType = t ∨ castable e.dataType t = true) ∧ e' = cast e t := by
  unfold assignment at h
  split at h
  · rename_i ht
    cases h
    simp only [Bool.or_eq_true, decide_eq_true_eq] at ht
    simp only [castable, Bool.or_eq_true, decide_eq_true_eq]
    exact ⟨by tauto, trivial⟩
  · cases h

/-- A value of a modification: an expression, or `NULL` for a column without one, in the type of its target. -/
inductive Assigned (E : Type) (context : BindContext) (xs : List Sql.Expr) (t : LogicalType) : Expr → Prop where
  | expr {e : Expr} : Origin E context false false xs e → e.dataType = t ∨ castable e.dataType t = true →
      Assigned E context xs t (cast e t)
  | null : Assigned E context xs t (cast (value .null .null) t)

variable {xs : List Sql.Expr} {t : LogicalType}

theorem Assigned.dataType (h : Assigned E context xs t e) : e.dataType = t := by cases h <;> exact dataType_cast _ t

theorem inPhase_cast (h : InPhase context a w e) : InPhase context a w (cast e t) := by
  unfold cast
  split
  · exact h
  · refine .operator rfl ?_
    simpa [Expr.operands] using h

theorem Assigned.inPhase (h : Assigned E context xs t e) : InPhase context false false e := by
  cases h with
  | expr horigin _ => exact inPhase_cast horigin.inPhase
  | null => exact inPhase_cast (inPhase_value rfl)

theorem Assigned.mono {ys : List Sql.Expr} (h : Assigned E context xs t e) (hsub : xs ⊆ ys) :
    Assigned E context ys t e := by
  cases h with
  | expr horigin hcast => exact .expr (horigin.mono hsub) hcast
  | null => exact .null

theorem bindExpr_ok (h : (bindExpr context x : BindResult E _) = .ok e) :
    Origin E context false false [x] e :=
  .bound (mem_singleton_self x) h .refl

/-- The values that are placed have the types of their columns. -/
def Placed (E : Type) (columns : List ColumnSchema) (xs : List Sql.Expr) (values : List (Option Expr)) : Prop :=
  values.length = columns.length ∧ ∀ (i : Nat) (e : Expr) (c : ColumnSchema), values[i]? = some (some e) →
    columns[i]? = some c → Assigned E ⟨[]⟩ xs c.dataType e

theorem placeValues_ok {columns : List ColumnSchema} : ∀ {row : List (Sql.Expr × Nat)}
    {values values' : List (Option Expr)}, (∀ p ∈ row, p.1 ∈ xs) → Placed E columns xs values →
    (placeValues columns row values : BindResult E _) = .ok values' → Placed E columns xs values'
  | [], values, values', _, hvalues, h => by
    cases h
    exact hvalues
  | (x, index) :: row, values, values', hrow, hvalues, h => by
    obtain ⟨e, he, h⟩ := except_bind_ok.1 h
    obtain ⟨c, hc, h⟩ := except_bind_ok.1 h
    obtain ⟨e', he', h⟩ := except_bind_ok.1 h
    obtain ⟨values1, hset, h⟩ := except_bind_ok.1 h
    rw [Result.index_eq_ok] at hc
    rw [Result.setIndex_eq_ok] at hset
    obtain ⟨_, rfl⟩ := hset
    obtain ⟨hcast, rfl⟩ := assignment_ok he'
    refine placeValues_ok (fun p hp => hrow p (mem_cons_of_mem _ hp)) ⟨?_, ?_⟩ h
    · rw [length_set, hvalues.1]
    · intro i e1 c1 hi hc1
      rw [getElem?_set] at hi
      split at hi
      · rename_i hindex
        subst hindex
        cases hi
        rw [hc] at hc1
        cases hc1
        exact .expr ((bindExpr_ok he).mono (by simpa using hrow (x, index) mem_cons_self)) hcast
      · exact hvalues.2 i e1 c1 hi hc1

theorem columnValue_ok {o : Option Expr} {c : ColumnSchema}
    (ho : ∀ e, o = some e → Assigned E ⟨[]⟩ xs c.dataType e)
    (h : (columnValue (o, c) : BindResult E _) = .ok e) : Assigned E ⟨[]⟩ xs c.dataType e := by
  cases o with
  | some e' =>
    cases h
    exact ho _ rfl
  | none =>
    obtain ⟨_, rfl⟩ := assignment_ok h
    exact .null

/-- A row has a value for every column of the table. -/
theorem bindRow_ok {columns : List ColumnSchema} {indices : List Nat} {row : List Sql.Expr} {es : List Expr}
    (h : (bindRow columns indices row : BindResult E _) = .ok es) :
    Forall₂ (fun e c => Assigned E ⟨[]⟩ row c.dataType e) es columns := by
  obtain ⟨values, hplace, hes⟩ := except_bind_ok.1 h
  have hplaced : Placed E columns row values := by
    refine placeValues_ok (fun p hp => (of_mem_zip hp).1) ⟨length_replicate, ?_⟩ hplace
    intro i e c hi _
    simp [getElem?_replicate] at hi
  have hvalues : Forall₂ (fun o c => ∀ e, o = some e → Assigned E ⟨[]⟩ row c.dataType e) values columns := by
    refine forall₂_iff_get.2 ⟨hplaced.1, fun i hi hc e he => hplaced.2 i e _ ?_ (getElem?_eq_getElem hc)⟩
    rw [getElem?_eq_getElem hi]
    exact congrArg some he
  replace hes := mapM_ok.1 hes
  clear h hplace hplaced
  induction hvalues generalizing es with
  | nil =>
    cases hes
    exact .nil
  | cons ho _ ih =>
    rw [zip_cons_cons] at hes
    cases hes with
    | cons he hes => exact .cons (columnValue_ok ho he) (ih hes)

theorem bindInsert_ok {columns : List String} {rows : List (List Sql.Expr)} {i : Bound.Insert}
    (h : bindInsert catalog name columns rows = .ok i) :
    ∀ row ∈ i.rows, Forall₂ (fun e c => Assigned E ⟨[]⟩ rows.flatten c.dataType e) row
      i.table.source.schema.columns := by
  unfold bindInsert at h
  obtain ⟨table, _, h⟩ := except_bind_ok.1 h
  obtain ⟨indices, _, h⟩ := except_bind_ok.1 h
  split at h
  · cases h
  · obtain ⟨_, _, h⟩ := except_bind_ok.1 h
    obtain ⟨rows', hrows, h⟩ := except_bind_ok.1 h
    cases h
    intro row hrow
    obtain ⟨xs, hxs, hrow⟩ := exists_of_forall₂ (mapM_ok.1 hrows) row hrow
    exact (bindRow_ok hrow).imp fun e c he => he.mono (fun x hx => mem_flatten_of_mem hxs hx)

theorem bindAssignments_ok {schema : TableSchema} : ∀ {assignments : List Sql.Assignment} {seen : List Nat}
    {bound : List Bound.Assignment},
    (bindAssignments context schema assignments seen : BindResult E _) = .ok bound →
    ∀ b ∈ bound, ∃ c, schema.columns[b.columnIndex]? = some c ∧
      Assigned E context (assignments.map Sql.Assignment.value) c.dataType b.value
  | [], _, bound, h => by
    cases h
    simp
  | a :: assignments, seen, bound, h => by
    obtain ⟨index, _, h⟩ := except_bind_ok.1 h
    split at h
    · cases h
    · obtain ⟨e, he, h⟩ := except_bind_ok.1 h
      obtain ⟨c, hc, h⟩ := except_bind_ok.1 h
      obtain ⟨e', he', h⟩ := except_bind_ok.1 h
      obtain ⟨bs, hbs, h⟩ := except_bind_ok.1 h
      cases h
      obtain ⟨hcast, rfl⟩ := assignment_ok he'
      intro b hb
      rcases mem_cons.1 hb with rfl | hb
      · exact ⟨c, Result.index_eq_ok.1 hc, .expr ((bindExpr_ok he).mono (by simp)) hcast⟩
      · obtain ⟨c, hc, hb⟩ := bindAssignments_ok hbs b hb
        exact ⟨c, hc, hb.mono (by simp)⟩

theorem bindUpdate_ok {assignments : List Sql.Assignment} {u : Bound.Update}
    (h : bindUpdate catalog name assignments filter = .ok u) :
    (∀ b ∈ u.assignments, ∃ c, u.table.source.schema.columns[b.columnIndex]? = some c ∧
      Assigned E (queryContext (some (name, u.table))) (assignments.map Sql.Assignment.value) c.dataType b.value) ∧
    ∀ e ∈ u.filter.toList, e.dataType = .boolean ∧
      Origin E (queryContext (some (name, u.table))) false false filter.toList e := by
  unfold bindUpdate at h
  obtain ⟨table, _, h⟩ := except_bind_ok.1 h
  split at h
  · cases h
  · obtain ⟨bs, hbs, h⟩ := except_bind_ok.1 h
    obtain ⟨p, hp, h⟩ := except_bind_ok.1 h
    cases h
    exact ⟨bindAssignments_ok hbs, bindPredicate_ok hp⟩

theorem bindDelete_ok {d : Bound.Delete} (h : bindDelete catalog name filter = .ok d) :
    ∀ e ∈ d.filter.toList, e.dataType = .boolean ∧
      Origin E (queryContext (some (name, d.table))) false false filter.toList e := by
  unfold bindDelete at h
  obtain ⟨table, _, h⟩ := except_bind_ok.1 h
  obtain ⟨p, hp, h⟩ := except_bind_ok.1 h
  cases h
  exact bindPredicate_ok hp

end ChiliDB.Binder

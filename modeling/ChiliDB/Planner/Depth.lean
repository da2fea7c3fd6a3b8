import ChiliDB.Binder.BindingSpec
import ChiliDB.Planner.PlanningSpec

/-!
# Depth limits

The binder accepts expressions of 256 levels and the planner bound expressions with 256 nodes on a path.  The
binder inserts casts, so the limits differ.

* `within` — the levels of a syntax tree, as the binder counts them.
* `castRank`, `budget` — the casts on a path lead to types of higher rank, except where a filter or an aggregate
  starts anew.
* `bindExprInner_fits` — binding adds at most seven nodes to a path.

Principal result: `plan_not_tooDeep_of_within`.
-/

namespace ChiliDB.Planner

open Effect List
open Binder (bindExprInner BindResult BindContext Catalog Origin Assigned Coerced CallBound castRank callOperands)
open ChiliDB.Bound (Expr)
open DataFusion (LogicalPlan Engine)

variable {E Err : Type} {context : BindContext} {a w : Bool} {e e' : Expr} {n m : Nat} {x : Sql.Expr}

/-! ## Levels of syntax trees -/

/-- The expressions one level below: a signed number is one literal, and the star of `COUNT(*)` is not bound. -/
def parts : Sql.Expr → List Sql.Expr
  | .alias x _ => [x]
  | .functionCall _ args _ filter over_ => callOperands args filter over_
  | .unary .minus (.literal (.number _)) => []
  | .unary _ x | .isNull x _ => [x]
  | .binary l _ r => [l, r]
  | .identifier _ | .qualifiedIdentifier _ _ | .wildcard | .literal _ => []

/-- An expression has at most `n` levels. -/
def within : Nat → Sql.Expr → Bool
  | 0, _ => false
  | n + 1, x => (parts x).all fun y => within n y

theorem within_succ : within (n + 1) x = true ↔ ∀ y ∈ parts x, within n y = true := by simp [within]

theorem within_pos (h : within n x = true) : ∃ m, n = m + 1 ∧ ∀ y ∈ parts x, within m y = true := by
  cases n with
  | zero => cases h
  | succ m => exact ⟨m, rfl, within_succ.1 h⟩

theorem within_mono : ∀ {n m : Nat} {x : Sql.Expr}, n ≤ m → within n x = true → within m x = true
  | 0, _, _, _, h => by cases h
  | n + 1, 0, _, hle, _ => by omega
  | n + 1, m + 1, x, hle, h => by
    rw [within_succ] at h ⊢
    exact fun y hy => within_mono (by omega) (h y hy)

theorem within_unaliased (h : within n x = true) : within n (Binder.unaliased x) = true := by
  unfold Binder.unaliased
  split
  · obtain ⟨m, rfl, hparts⟩ := within_pos h
    exact within_mono (Nat.le_succ m) (hparts _ (mem_singleton_self _))
  · exact h

theorem parts_unary {op : Sql.UnaryOp} (h : ∀ s, op = .minus → x ≠ .literal (.number s)) :
    parts (.unary op x) = [x] := by
  unfold parts
  split <;> simp_all

/-! ## Casts -/

/-- How many nodes binding can add to a path to an expression of this type. -/
def budget (aggregates windows : Bool) (t : LogicalType) : Nat :=
  (if windows then 4 else if aggregates then 2 else 0) + castRank t

theorem fits_of_operands (h : ∀ c ∈ e.operands, fits n c = true) (hle : n + 1 ≤ m) : fits m e = true :=
  fits_mono hle (fits_succ.2 h)

theorem coerced_fits (h : Coerced e e') (he : fits (n + budget a w e.dataType) e = true) :
    fits (n + budget a w e'.dataType) e' = true := by
  induction h with
  | refl => exact he
  | step _ hrank _ ih =>
    refine fits_of_operands (n := n + budget a w _) ?_ (Nat.add_lt_add_left (Nat.add_lt_add_left hrank _) n)
    simpa [Expr.operands] using ih

theorem operands_of_visible (h : context.Visible e) : e.operands = [] := by
  obtain ⟨_, _, _, _, _, _, _, rfl⟩ := h
  rfl

theorem fits_leaf (h : e.operands = []) (hx : within n x = true) : fits (n + m) e = true := by
  obtain ⟨k, rfl, _⟩ := within_pos hx
  exact fits_of_operands (n := 0) (by simp [h]) (by omega)

variable {filter : Option Sql.Expr}

/-- The operands of a call are in a phase with a smaller budget. -/
theorem call_budget_le {P : Bool → Sql.Expr → Expr → Prop} {name : String} {args : List Sql.Expr}
    {distinct : Bool} {over_ : Option (Sql.WindowSpec Sql.Expr)}
    (h : CallBound E P name args distinct filter a w over_ e) (t : LogicalType) :
    budget over_.isSome false t ≤ budget a w e.dataType := by
  have ht := Binder.castRank_le t
  cases h with
  | aggregate _ _ _ _ hsignature =>
    have hpos := (Binder.signature_ok hsignature).1
    simp only [budget, Option.isSome_none, Bool.false_eq_true, if_false, if_true]
    split <;> omega
  | window _ _ _ _ _ hsignature _ _ =>
    have hpos := (Binder.signature_ok hsignature).1
    simp only [budget, Option.isSome_some, Bool.false_eq_true, if_false, if_true]
    omega

/-- **Binding adds at most `budget` nodes to a path.** -/
theorem bindExprInner_fits {levels : Nat} :
    (bindExprInner context levels a w x : BindResult E _) = .ok e →
    ∀ n, within n x = true → fits (n + budget a w e.dataType) e = true := by
  apply Binder.bindExprInner_induct
    (P := fun _ a w x e => ∀ n, within n x = true → fits (n + budget a w e.dataType) e = true)
  case name =>
    intro _ a w x e _ hvisible n hx
    exact fits_leaf (operands_of_visible hvisible) hx
  case literal =>
    intro _ a w l e h n hx
    obtain ⟨v, rfl, _⟩ := Binder.bindLiteral_ok h
    exact fits_leaf rfl hx
  case signed =>
    intro _ a w s e h n hx
    obtain ⟨v, rfl, _⟩ := Binder.number_ok h
    exact fits_leaf rfl hx
  case unary =>
    intro _ a w op x e e' hsigned he h n hx
    obtain ⟨m, rfl, hparts⟩ := within_pos hx
    rw [parts_unary hsigned] at hparts
    obtain ⟨c, hc, _, rfl⟩ := Binder.bindUnary_ok h
    refine fits_of_operands ?_ (Nat.le_of_eq (Nat.add_right_comm m _ 1))
    simpa [Expr.operands] using coerced_fits hc (he m (hparts x (mem_singleton_self x)))
  case binary =>
    intro _ a w l op r e e' e'' hl hr h n hx
    obtain ⟨m, rfl, hparts⟩ := within_pos hx
    obtain ⟨l', r', t, hop, rfl⟩ := Binder.bindBinary_ok h
    have hleft := coerced_fits hop.left (hl m (hparts l (by simp [parts])))
    have hright := coerced_fits hop.right (hr m (hparts r (by simp [parts])))
    refine fits_of_operands ?_ (Nat.le_of_eq (Nat.add_right_comm m _ 1))
    have hle {s : LogicalType} (hs : castRank s ≤ castRank t) : m + budget a w s ≤ m + budget a w t :=
      Nat.add_le_add_left (Nat.add_le_add_left hs _) m
    simpa [Expr.operands] using ⟨fits_mono (hle hop.left_le) hleft, fits_mono (hle hop.right_le) hright⟩
  case isNull =>
    intro _ a w x e negated he n hx
    obtain ⟨m, rfl, hparts⟩ := within_pos hx
    refine fits_of_operands ?_ (Nat.le_of_eq (Nat.add_right_comm m _ 1))
    have hle : m + budget a w e.dataType ≤ m + budget a w .boolean :=
      Nat.add_le_add_left (Nat.add_le_add_left (Binder.castRank_le _) _) m
    simpa [Expr.operands] using fits_mono hle (he m (hparts x (mem_singleton_self x)))
  case call =>
    intro _ a w name args distinct filter over_ e h n hx
    obtain ⟨m, rfl, hparts⟩ := within_pos hx
    refine fits_of_operands (fun c hc => ?_) (Nat.le_of_eq (Nat.add_right_comm m _ 1))
    obtain ⟨y, hy, c', hc', hcoerced⟩ := h.operands c hc
    exact fits_mono (Nat.add_le_add_left (call_budget_le h _) m) (coerced_fits hcoerced (hc' m (hparts y hy)))

/-! ## Bound statements -/

theorem budget_le (a w : Bool) (t : LogicalType) : budget a w t ≤ 7 := by
  have ht := Binder.castRank_le t
  unfold budget
  split
  · omega
  · split <;> omega

variable {xs : List Sql.Expr}

theorem origin_fits (h : Origin E context a w xs e) (hxs : ∀ x ∈ xs, within (n + 1) x = true) :
    fits (n + 1 + budget a w e.dataType) e = true := by
  cases h with
  | star hvisible => exact fits_of_operands (n := 0) (by simp [operands_of_visible hvisible]) (by omega)
  | bound hx hbound hcoerced => exact coerced_fits hcoerced (bindExprInner_fits hbound _ (hxs _ hx))

variable {t : LogicalType}

theorem fits_cast (h : fits n e = true) : fits (n + 1) (Binder.cast e t) = true := by
  unfold Binder.cast
  split
  · exact fits_mono (Nat.le_succ n) h
  · refine fits_of_operands ?_ (Nat.le_refl _)
    simpa [Expr.operands] using h

theorem assigned_fits (h : Assigned E context xs t e) (hxs : ∀ x ∈ xs, within (n + 1) x = true) :
    fits (n + 1 + 4) e = true := by
  cases h with
  | @expr e horigin _ =>
    have hle : n + 1 + budget false false e.dataType ≤ n + 1 + 3 := by
      have ht := Binder.castRank_le e.dataType
      simp only [budget, Bool.false_eq_true, if_false]
      omega
    exact fits_cast (fits_mono hle (origin_fits horigin hxs))
  | null => exact fits_cast (fits_of_operands (n := 0) (by simp [Binder.value, Expr.operands]) (by omega))

/-! ## The planner -/

variable {engine : Engine Err}

/-- Any error but that of the depth. -/
def NotTooDeep (error : PlanError Err) : Prop := error ≠ .expressionTooDeep

theorem checked_notTooDeep (p : Prop) : Checked (NotTooDeep : PlanError Err → Prop) p :=
  .inr fun _ h => nomatch h

theorem dataFusion_notTooDeep (error : Err) : NotTooDeep (.dataFusion error) := nofun

theorem invalid_failsOnly {α : Type} (message : String) :
    FailsOnly (NotTooDeep : PlanError Err → Prop) (invalid message : Except _ α) :=
  .error nofun

theorem checkDepth_notTooDeep (h : fits 256 e = true) :
    FailsOnly (NotTooDeep : PlanError Err → Prop) (checkDepth e) := by
  rw [checkDepth_eq, if_pos h]
  exact .ok ()

theorem column_notTooDeep (lower : Lower) (b : Bound.ColumnBinding) (t : LogicalType) :
    FailsOnly NotTooDeep (lower.column engine b t) := by
  unfold Lower.column
  split
  · exact .error nofun
  · split
    · exact .error nofun
    · split
      · exact invalid_failsOnly _
      · exact .ok _

theorem expr_notTooDeep {lower : Lower} : ∀ {levels : Nat} {e : Expr}, fits levels e = true →
    FailsOnly NotTooDeep (lower.expr engine levels e)
  | 0, _, h => by cases h
  | levels + 1, e, h => by
    rw [fits_succ] at h
    unfold Lower.expr
    split
    · exact .ok _
    · simp only [Expr.operands] at h
      split <;> rename_i hkind <;> simp only [hkind, mem_cons, not_mem_nil, or_false, forall_eq,
        forall_eq_or_imp] at h
      · exact literal_failsOnly dataFusion_notTooDeep _ _
      · exact column_notTooDeep _ _ _
      · exact .bind (expr_notTooDeep h) fun _ _ => .ok _
      · exact .bind (expr_notTooDeep h.1) fun _ _ => .bind (expr_notTooDeep h.2) fun _ _ => .ok _
      · exact .bind (expr_notTooDeep h) fun _ _ => .ok _
      · exact .bind (expr_notTooDeep h) fun _ _ => .ok _
      · exact invalid_failsOnly _
      · exact invalid_failsOnly _

theorem collect_notTooDeep {windows : Bool} :
    ∀ {levels : Nat} {e : Expr} {found : List Expr}, fits levels e = true →
    FailsOnly (NotTooDeep : PlanError Err → Prop) (collect windows levels e found)
  | 0, _, _, h => by cases h
  | levels + 1, e, found, h => by
    rw [fits_succ] at h
    unfold collect
    split
    · exact .ok _
    · exact .foldlM fun found c hc => collect_notTooDeep (h c hc)

/-- What is collected from expressions that fit also fits. -/
theorem collected_fits {windows : Bool} {es found : List Expr} (hes : ∀ e ∈ es, fits n e = true)
    (h : (collectAll windows es : PlanResult Err _) = .ok found) :
    ∀ x ∈ found, selected windows x = true ∧ fits n x = true := by
  intro x hx
  rcases (collectAll_ok h).sound x hx with hx | ⟨e, he, hreached, hselected⟩
  · cases hx
  · exact ⟨hselected, hreached.fits (hes e he)⟩

variable {q : Bound.Select} {s : Bound.Statement}

theorem select_notTooDeep (h : ∀ e ∈ selectExprs q, fits 256 e = true) :
    FailsOnly NotTooDeep (select engine q) := by
  have hgrouped : ∀ e ∈ groupedExprs q, fits 256 e = true := by
    intro e he
    apply h
    simp only [groupedExprs, selectExprs, mem_append] at he ⊢
    tauto
  have houtput : ∀ e ∈ outputExprs q, fits 256 e = true := by
    intro e he
    apply h
    simp only [outputExprs, selectExprs, mem_append] at he ⊢
    tauto
  apply FailsOnly.bind (.forM fun e he => checkDepth_notTooDeep (h e he))
  intro _ _
  simp only [selectExprs, mem_append] at h
  apply FailsOnly.bind (sourcePlan_failsOnly dataFusion_notTooDeep _)
  intro source _
  apply FailsOnly.bind
  · refine whereFilter_failsOnly dataFusion_notTooDeep fun e he => ?_
    have he := h e (by simp [he])
    exact ⟨checkDepth_notTooDeep he, checked_notTooDeep _, expr_notTooDeep he⟩
  intro input _
  apply FailsOnly.bind (collectAll_failsOnly fun e he found => collect_notTooDeep (hgrouped e he))
  intro aggregates haggregates
  apply FailsOnly.bind (reject_failsOnly (checked_notTooDeep _))
  intro _ _
  apply FailsOnly.bind
  · refine groupingPhase_failsOnly dataFusion_notTooDeep (fun g hg => expr_notTooDeep (h g (by simp [hg])))
      fun x hx => ?_
    obtain ⟨hselected, hx⟩ := collected_fits hgrouped haggregates x hx
    obtain ⟨a, ha⟩ := aggregate_of_selected hselected
    exact aggregateValue_failsOnly ha (fun c hc => expr_notTooDeep (fits_operand hx hc))
      fun _ _ => checked_notTooDeep _
  intro grouping _
  apply FailsOnly.bind
  · refine havingPhase_failsOnly dataFusion_notTooDeep fun e he => ?_
    exact ⟨checked_notTooDeep _, expr_notTooDeep (h e (by simp [he]))⟩
  intro having _
  apply FailsOnly.bind (collectAll_failsOnly fun e he found => collect_notTooDeep (houtput e he))
  intro windows hwindows
  apply FailsOnly.bind
  · refine windowPhase_failsOnly dataFusion_notTooDeep fun p hp => ?_
    obtain ⟨hselected, hx⟩ := collected_fits houtput hwindows p.1 (fst_mem_of_mem_zipIdx hp)
    obtain ⟨w, hw⟩ := window_of_selected hselected
    exact windowValue_failsOnly hw (fun c hc => expr_notTooDeep (fits_operand hx hc))
      fun _ _ => checked_notTooDeep _
  intro window _
  apply FailsOnly.bind
  · refine orderPhase_failsOnly fun o ho => expr_notTooDeep (h _ ?_)
    simpa using .inr ⟨o, ho, rfl⟩
  intro ordered _
  refine projectPhase_failsOnly dataFusion_notTooDeep fun p hp => expr_notTooDeep (h _ ?_)
  simpa using .inl (.inl (.inl (.inl ⟨p, hp, rfl⟩)))

theorem whereFilter_notTooDeep {input : LogicalPlan} {filter : Option Expr}
    (h : ∀ e ∈ filter.toList, fits 256 e = true) : FailsOnly NotTooDeep (whereFilter engine input filter) :=
  whereFilter_failsOnly dataFusion_notTooDeep fun e he =>
    ⟨checkDepth_notTooDeep (h e he), checked_notTooDeep _, expr_notTooDeep (h e he)⟩

/-- The expressions of a bound statement. -/
def boundExprs : Bound.Statement → List Expr
  | .select q => selectExprs q
  | .insert i => i.rows.flatten
  | .update u => u.assignments.map Bound.Assignment.value ++ u.filter.toList
  | .delete d => d.filter.toList
  | .createTable _ | .begin | .commit | .rollback => []

theorem plan_notTooDeep (h : ∀ e ∈ boundExprs s, fits 256 e = true) : FailsOnly NotTooDeep (plan engine s) := by
  cases s with
  | select q => exact select_notTooDeep h
  | insert i =>
    refine planInsert_failsOnly dataFusion_notTooDeep (fun row hrow => ?_) (checked_notTooDeep _)
    refine insertRow_failsOnly (checked_notTooDeep _) fun p hp => ?_
    have hp := h p.1 (mem_flatten_of_mem hrow (of_mem_zip hp).1)
    exact ⟨checkDepth_notTooDeep hp, checked_notTooDeep _, expr_notTooDeep hp⟩
  | update u =>
    simp only [boundExprs, mem_append, mem_map] at h
    refine planUpdate_failsOnly dataFusion_notTooDeep
      (fun input _ => whereFilter_notTooDeep fun e he => h e (.inr he)) fun input input' _ _ a ha => ?_
    have ha := h a.value (.inl ⟨a, ha, rfl⟩)
    exact ⟨checkDepth_notTooDeep ha, checked_notTooDeep _, expr_notTooDeep ha⟩
  | delete d => exact planDelete_failsOnly dataFusion_notTooDeep fun input _ => whereFilter_notTooDeep h
  | _ => exact .ok _

/-! ## Statements -/

/-- The expressions of a statement. -/
def statementExprs : Sql.Statement → List Sql.Expr
  | .select projection _ filter groupBy having orderBy =>
    projection ++ filter.toList ++ groupBy ++ having.toList ++ orderBy.map fun o => o.expr
  | .insert _ _ rows => rows.flatten
  | .update _ assignments filter => assignments.map Sql.Assignment.value ++ filter.toList
  | .delete _ filter => filter.toList
  | .createTable _ _ | .begin | .commit | .rollback => []

variable {catalog : Catalog E}

theorem origin_fits_seven (h : Origin E context a w xs e) (hxs : ∀ x ∈ xs, within (n + 1) x = true) :
    fits (n + 1 + 7) e = true :=
  fits_mono (Nat.add_le_add_left (budget_le a w _) _) (origin_fits h hxs)

theorem select_fits {relation : Option (String × Bound.Table)} {projection groupBy : List Sql.Expr}
    {having : Option Sql.Expr} {orderBy : List (Sql.OrderByExpr Sql.Expr)} {source : Option String}
    (h : Binder.SelectBound E (Binder.queryContext relation) projection filter groupBy having orderBy q)
    (hwithin : ∀ x ∈ statementExprs (.select projection source filter groupBy having orderBy),
      within (n + 1) x = true) : ∀ e ∈ selectExprs q, fits (n + 1 + 7) e = true := by
  simp only [statementExprs, mem_append] at hwithin
  have hprojection : ∀ x ∈ projection.map Binder.unaliased, within (n + 1) x = true := by
    intro x hx
    obtain ⟨y, hy, rfl⟩ := mem_map.1 hx
    exact within_unaliased (hwithin y (by simp [hy]))
  intro e he
  simp only [selectExprs, mem_append, mem_map] at he
  rcases he with (((⟨p, hp, rfl⟩ | he) | he) | he) | ⟨o, ho, rfl⟩
  · exact origin_fits_seven (h.projection p hp) hprojection
  · exact origin_fits_seven (h.filter e he).2 fun x hx => hwithin x (by simp [hx])
  · exact origin_fits_seven (h.groupBy e he) fun x hx => hwithin x (by simp [hx])
  · exact origin_fits_seven (h.having e he).2 fun x hx => hwithin x (by simp [hx])
  · refine origin_fits_seven (h.orderBy o ho) fun x hx => ?_
    rcases mem_append.1 hx with hx | hx
    · exact hprojection x hx
    · exact hwithin x (.inr hx)

variable {statement : Sql.Statement}

theorem bind_fits (h : Binder.bind catalog statement = .ok s)
    (hwithin : ∀ x ∈ statementExprs statement, within (n + 1) x = true) :
    ∀ e ∈ boundExprs s, fits (n + 1 + 7) e = true := by
  have hassigned {context : BindContext} {xs : List Sql.Expr} {t : LogicalType} {e : Expr}
      (h : Assigned E context xs t e) (hxs : ∀ x ∈ xs, within (n + 1) x = true) : fits (n + 1 + 7) e = true :=
    fits_mono (by omega) (assigned_fits h hxs)
  cases statement with
  | select projection source filter groupBy having orderBy =>
    obtain ⟨q, hq, h⟩ := except_bind_ok.1 h
    cases h
    obtain ⟨relation, _, hq⟩ := Binder.bindSelect_ok hq
    exact select_fits hq hwithin
  | insert table columns rows =>
    obtain ⟨i, hi, h⟩ := except_bind_ok.1 h
    cases h
    intro e he
    obtain ⟨row, hrow, he⟩ := mem_flatten.1 he
    obtain ⟨c, _, he⟩ := exists_of_forall₂ (Binder.bindInsert_ok hi row hrow).flip e he
    exact hassigned he hwithin
  | update table assignments filter =>
    obtain ⟨u, hu, h⟩ := except_bind_ok.1 h
    cases h
    obtain ⟨hvalues, hfilter⟩ := Binder.bindUpdate_ok hu
    simp only [statementExprs, mem_append] at hwithin
    intro e he
    simp only [boundExprs, mem_append, mem_map] at he
    rcases he with ⟨b, hb, rfl⟩ | he
    · obtain ⟨c, _, hb⟩ := hvalues b hb
      exact hassigned hb fun x hx => hwithin x (.inl hx)
    · exact origin_fits_seven (hfilter e he).2 fun x hx => hwithin x (.inr hx)
  | delete table filter =>
    obtain ⟨d, hd, h⟩ := except_bind_ok.1 h
    cases h
    exact fun e he => origin_fits_seven (Binder.bindDelete_ok hd e he).2 hwithin
  | createTable name columns =>
    obtain ⟨d, _, h⟩ := except_bind_ok.1 h
    cases h
    simp [boundExprs]
  | begin | commit | rollback =>
    cases h
    simp [boundExprs]

/-- **Depth limits.**  A statement that the binder accepts and whose expressions have at most 249 levels does
not exceed the depth limit of the planner. -/
theorem plan_not_tooDeep_of_within (engine : Engine Err) (catalog : Catalog E) (statement : Sql.Statement)
    (s : Bound.Statement) (hbind : Binder.bind catalog statement = .ok s)
    (hwithin : ∀ x ∈ statementExprs statement, within 249 x = true) :
    plan engine s ≠ .error .expressionTooDeep := by
  intro h
  exact plan_notTooDeep (bind_fits hbind hwithin) _ h rfl

/-- `base + 1 + … + 1`. -/
def plusOnes (base : Sql.Expr) : Nat → Sql.Expr
  | 0 => base
  | n + 1 => .binary (plusOnes base n) .add (.literal (.number "1"))

/-- `SELECT 1 + 1 + … + 1 + 1.5` with `n + 1` operators: the sum of the integers is the operand of a cast. -/
def castedSum (n : Nat) : Sql.Statement :=
  .select [.binary (plusOnes (.literal (.number "1")) n) .add (.literal (.number "1.5"))] none none [] none []

theorem plan_castedSum : ∃ s, Binder.bind (⟨fun _ => .ok none⟩ : Catalog Empty) (castedSum 247) = .ok s ∧
    plan .standard s ≠ .error .expressionTooDeep := by
  obtain ⟨s, hs⟩ := exists_of_toBool (x := Binder.bind (⟨fun _ => .ok none⟩ : Catalog Empty) (castedSum 247))
    (by decide +kernel)
  exact ⟨s, hs, plan_not_tooDeep_of_within .standard ⟨fun _ => .ok none⟩ (castedSum 247) s hs (by decide +kernel)⟩

/-! ## The limits differ -/

/-- A query with a path that is too long is rejected. -/
theorem select_tooDeep (h : ∃ e ∈ selectExprs q, fits 256 e = false) :
    select engine q = .error .expressionTooDeep := by
  have hforM : ∀ {es : List Expr}, (∃ e ∈ es, fits 256 e = false) →
      es.forM checkDepth = (.error .expressionTooDeep : PlanResult Err Unit) := by
    intro es
    induction es with
    | nil => simp
    | cons e es ih =>
      rintro ⟨x, hx, hfits⟩
      rw [forM_cons, checkDepth_eq]
      split
      · rename_i he
        rcases mem_cons.1 hx with rfl | hx
        · rw [he] at hfits
          cases hfits
        · exact ih ⟨x, hx, hfits⟩
      · rfl
  unfold select
  rw [hforM h]
  rfl

/-- A statement is accepted by the binder, and is too deep for the planner. -/
def rejected (statement : Sql.Statement) : Bool :=
  match (Binder.bind ⟨fun _ => .ok none⟩ statement : BindResult Empty _) with
  | .ok (.select q) => (selectExprs q).any fun e => !fits 256 e
  | _ => false

theorem rejected_spec (h : rejected statement = true) :
    ∃ s, Binder.bind (⟨fun _ => .ok none⟩ : Catalog Empty) statement = .ok s ∧
      plan .standard s = .error .expressionTooDeep := by
  unfold rejected at h
  split at h
  · rename_i q hq
    refine ⟨_, hq, select_tooDeep ?_⟩
    simpa using h
  · cases h

theorem binder_accepts_tooDeep : ∃ s, Binder.bind (⟨fun _ => .ok none⟩ : Catalog Empty) (castedSum 254) = .ok s ∧
    plan .standard s = .error .expressionTooDeep :=
  rejected_spec (by decide +kernel)

/-- A number that is no `Int32`, and one that is no integer: each in turn casts what it is added to. -/
def castTwice (x : Sql.Expr) : Sql.Expr :=
  .binary (.binary x .add (.literal (.number "2147483648"))) .add (.literal (.number "1.5"))

/-- `MIN(1) FILTER (WHERE x > 0)`. -/
def minWhere (x : Sql.Expr) (over_ : Option (Sql.WindowSpec Sql.Expr)) : Sql.Expr :=
  .functionCall "min" [.literal (.number "1")] false (some (.binary x .greater (.literal (.number "0")))) over_

/-- Three casts below an aggregate, two around it and two around a window. -/
def sevenCasts (n : Nat) : Sql.Statement :=
  .select [castTwice (minWhere (castTwice (minWhere (castTwice (plusOnes (.literal .null) n)) none))
    (some ⟨[], [], none⟩))] none none [] none []

/-- The bound of `plan_not_tooDeep_of_within` is sharp. -/
theorem within_sharp : (∀ x ∈ statementExprs (sevenCasts 239), within 250 x = true) ∧
    ∃ s, Binder.bind (⟨fun _ => .ok none⟩ : Catalog Empty) (sevenCasts 239) = .ok s ∧
      plan .standard s = .error .expressionTooDeep :=
  ⟨by decide +kernel, rejected_spec (by decide +kernel)⟩

end ChiliDB.Planner

import ChiliDB.Binder.Phases
import ChiliDB.Planner.PlanningSpec

/-!
# Bound statements can be planned

The binder and the planner each have rules of their own for where columns, aggregates and windows may stand.

* `Lawful` — what is assumed of DataFusion: its lookups find the columns of the nodes that it builds.
* `Covered`, `covered_failsOnly` — an expression whose columns, aggregates and windows are available to a `Lower`.
* `covered_of_inPhase` — a bound expression is covered in its phase.

Principal result: `bound_statement_plannable`.
-/

namespace ChiliDB.Planner

open Effect List
open Binder (BindResult BindContext Catalog Origin Assigned InPhase isOperator validateGrouped containsAggregate
  queryContext oneTable rankedCounts)
open ChiliDB.Bound (Expr)
open DataFusion (LogicalPlan Engine DFSchema Field)

variable {E Err : Type} {context : BindContext} {a w : Bool} {e x c : Expr} {engine : Engine Err}

/-- The qualified columns of one schema are columns of the other. -/
def Keeps (engine : Engine Err) (schema schema' : DFSchema) : Prop :=
  ∀ relation name f, engine.fieldFromColumn schema ⟨some relation, name⟩ = .ok f →
    engine.fieldFromColumn schema' ⟨some relation, name⟩ = .ok f

/-- **What the planner relies on.**  Lookups find the columns that a node has: a scan has the fields of its table,
filters, windows and sorts keep the columns of their input.  A list of rows becomes a `Values` node. -/
structure Lawful (engine : Engine Err) : Prop where
  scan {relation : String} {fields : List Field} {schema : DFSchema} : engine.scan relation fields = .ok schema →
    ∀ name f, fields.find? (fun f => f.name = name) = some f →
      engine.fieldFromColumn schema ⟨some relation, name⟩ = .ok f
  filter {p : DataFusion.Expr} {input : LogicalPlan} {schema : DFSchema} :
    engine.filter p input = .ok schema → Keeps engine input.schema schema
  window {exprs : List DataFusion.Expr} {input : LogicalPlan} {schema : DFSchema} :
    engine.window exprs input = .ok schema → Keeps engine input.schema schema
  sort (exprs : List (DataFusion.SortExpr DataFusion.Expr)) (input : LogicalPlan) :
    Keeps engine input.schema (engine.sort exprs input)
  values {rows : List (List DataFusion.Expr)} {schema : DFSchema} {p : LogicalPlan} :
    engine.values rows schema = .ok p → ∃ rows' schema', p = .values rows' schema'

theorem Keeps.refl (schema : DFSchema) : Keeps engine schema schema := fun _ _ _ => id

theorem Keeps.trans {s s' s'' : DFSchema} (h : Keeps engine s s') (h' : Keeps engine s' s'') : Keeps engine s s'' :=
  fun relation name f hf => h' relation name f (h relation name f hf)

/-- Neither an invalid bound statement nor an unknown column. -/
def Admissible : PlanError Err → Prop
  | .invalidBound _ | .unknownColumn _ => False
  | .expressionTooDeep | .dataFusion _ => True

theorem dataFusion_admissible (error : Err) : Admissible (.dataFusion error) := trivial

theorem checkDepth_admissible (e : Expr) : FailsOnly (Admissible : PlanError Err → Prop) (checkDepth e) := by
  rw [checkDepth_eq]
  split
  · exact .ok ()
  · exact .error trivial

theorem collect_admissible {windows : Bool} : ∀ {levels : Nat} {e : Expr} {found : List Expr},
    FailsOnly (Admissible : PlanError Err → Prop) (collect windows levels e found)
  | 0, _, _ => .error trivial
  | levels + 1, e, found => by
    unfold collect
    split
    · exact .ok _
    · exact .foldlM fun _ _ _ => collect_admissible

/-! ## Coverage -/

/-- The schema has the column, in the type of the expression. -/
def HasColumn (engine : Engine Err) (schema : DFSchema) (e : Expr) : Prop :=
  ∃ b f, e.kind = .column b ∧ engine.fieldFromColumn schema (column b) = .ok f ∧ f.dataType = arrowType e.dataType

/-- What an expression needs is available to `lower`. -/
inductive Covered (engine : Engine Err) (lower : Lower) : Expr → Prop where
  | mapped {e : Expr} : (∃ m ∈ lower.mapped, m.1.eq e = true) → Covered engine lower e
  | literal {e : Expr} {s : Scalar} : e.kind = .literal s → Covered engine lower e
  | column {e : Expr} : lower.grouped = false → HasColumn engine lower.schema e → Covered engine lower e
  | operator {e : Expr} : isOperator e = true → (∀ c ∈ e.operands, Covered engine lower c) → Covered engine lower e

variable {lower : Lower}

theorem covered_failsOnly (h : Covered engine lower e) :
    ∀ levels : Nat, FailsOnly Admissible (lower.expr engine levels e) := by
  induction h with
  | mapped hmapped =>
    rintro (_ | levels)
    · exact .error trivial
    · unfold Lower.expr
      split
      · exact .ok _
      · rename_i hnone
        obtain ⟨m, hm, heq⟩ := hmapped
        exact absurd heq (find?_eq_none.1 hnone m hm)
  | literal hkind =>
    rintro (_ | levels)
    · exact .error trivial
    · simp only [Lower.expr, hkind]
      split
      · exact .ok _
      · exact literal_failsOnly dataFusion_admissible _ _
  | column hgrouped hcolumn =>
    obtain ⟨b, f, hkind, hfield, htype⟩ := hcolumn
    rintro (_ | levels)
    · exact .error trivial
    · simp only [Lower.expr, hkind, Lower.column, hgrouped, hfield, htype, ne_eq, not_true_eq_false, if_false,
        Bool.false_eq_true]
      split <;> exact .ok _
  | @operator e hop _ ih =>
    rintro (_ | levels)
    · exact .error trivial
    · unfold Lower.expr
      split
      · exact .ok _
      · simp only [Expr.operands] at ih
        split <;> rename_i hkind <;> simp only [hkind, mem_cons, not_mem_nil, or_false, forall_eq,
          forall_eq_or_imp] at ih
        · exact literal_failsOnly dataFusion_admissible _ _
        · simp [isOperator, hkind] at hop
        · exact .bind (ih levels) fun _ _ => .ok _
        · exact .bind (ih.1 levels) fun _ _ => .bind (ih.2 levels) fun _ _ => .ok _
        · exact .bind (ih levels) fun _ _ => .ok _
        · exact .bind (ih levels) fun _ _ => .ok _
        · simp [isOperator, hkind] at hop
        · simp [isOperator, hkind] at hop

/-! ## Aggregates and windows in a phase -/

theorem isOperator_selected (h : isOperator e = true) (windows : Bool) : selected windows e = false := by
  unfold isOperator at h
  unfold selected
  split at h <;> simp_all

theorem inPhase_of_reached {windows : Bool} (h : InPhase context a w e) (hx : Reached windows e x) :
    ∃ a' w', InPhase context a' w' x := by
  induction hx generalizing a w with
  | self => exact ⟨a, w, h⟩
  | operand _ hc _ ih =>
    obtain ⟨a', w', hc⟩ := h.operands _ hc
    exact ih hc

/-- There is no window where none is allowed. -/
theorem no_window (h : InPhase context a false e) (hx : Reached true e x) : selected true x = false := by
  induction hx generalizing a with
  | self e =>
    cases h with
    | literal hkind | column hkind | aggregate hkind => simp [selected, hkind]
    | operator hop => exact isOperator_selected hop true
  | operand _ hc _ ih =>
    cases h with
    | literal hkind | column hkind => simp [Expr.operands, hkind] at hc
    | operator _ hoperands | aggregate _ hoperands => exact ih (hoperands _ hc)

/-- There is no aggregate where neither aggregates nor windows are allowed. -/
theorem no_aggregate (h : InPhase context false false e) (hx : Reached false e x) : selected false x = false := by
  induction hx with
  | self e =>
    cases h with
    | literal hkind | column hkind => simp [selected, hkind]
    | operator hop => exact isOperator_selected hop false
  | operand _ hc _ ih =>
    cases h with
    | literal hkind | column hkind => simp [Expr.operands, hkind] at hc
    | operator _ hoperands => exact ih (hoperands _ hc)

theorem selected_canon (windows : Bool) (e : Expr) : selected windows e.canon = selected windows e := by
  obtain ⟨t, n, k⟩ := e
  cases k <;> simp [Expr.canon, Bound.kindCanon, selected]

/-- What `collect` looks for below an expression, it finds below an equal one. -/
theorem reached_of_canon_eq {windows : Bool} {g : Expr} (hg : g.canon = e.canon) (hx : Reached windows e x) :
    ∃ y, Reached windows g y ∧ y.canon = x.canon := by
  induction hx generalizing g with
  | self e => exact ⟨g, .self g, hg⟩
  | @operand e c x hnot hc _ ih =>
    have hmem : c.canon ∈ g.operands.map Expr.canon := by
      rw [← Expr.operands_canon, hg, Expr.operands_canon]
      exact mem_map_of_mem hc
    obtain ⟨d, hd, hdc⟩ := mem_map.1 hmem
    obtain ⟨y, hy, hyx⟩ := ih hdc
    exact ⟨y, .operand (by rw [← selected_canon, hg, selected_canon, hnot]) hd hy, hyx⟩

theorem no_window_of_eq {g : Expr} (hg : InPhase context a false g) (heq : g.eq e = true) (hx : Reached true e x) :
    selected true x = false := by
  obtain ⟨y, hy, hyx⟩ := reached_of_canon_eq ((g.eq_iff e).1 heq).1 hx
  rw [← selected_canon, ← hyx, selected_canon]
  exact no_window hg hy

theorem aggregate_operands {g : Bound.AggregateExpr Expr} (h : InPhase context a w e) (hg : e.kind = .aggregate g) :
    (∀ c ∈ e.operands, InPhase context false false c) ∧ ∀ c ∈ g.filter.toList, c.dataType = .boolean := by
  cases h with
  | aggregate hkind hoperands hfilter =>
    rw [hg] at hkind
    cases hkind
    exact ⟨hoperands, hfilter⟩
  | operator hop => simp [isOperator, hg] at hop
  | literal h | column h | window h => simp [hg] at h

theorem window_filter {g : Bound.WindowExpr Expr} (h : InPhase context a w e) (hg : e.kind = .window g) :
    ∀ c ∈ g.filter.toList, c.dataType = .boolean := by
  cases h with
  | window hkind _ hfilter =>
    rw [hg] at hkind
    cases hkind
    exact hfilter
  | operator hop => simp [isOperator, hg] at hop
  | literal h | column h | aggregate h => simp [hg] at h

/-! ## Grouping -/

theorem isAggregate_iff : Binder.isAggregate e = selected false e := by
  cases h : e.kind <;> simp [Binder.isAggregate, selected, h]

theorem children_eq (h : selected false e = false) : Binder.children e = e.operands := by
  unfold Binder.children Expr.operands
  unfold selected at h
  split <;> simp_all

variable {groups : List Expr}

/-- The expression passes the check of the binder. -/
abbrev Passes (E : Type) (groups : List Expr) (e : Expr) : Prop :=
  (validateGrouped groups e : BindResult E _) = .ok ()

/-- The three ways in which an expression passes. -/
theorem validateGrouped_ok (h : Passes E groups e) :
    (∃ g ∈ groups, g.eq e = true) ∨ selected false e = true ∨
      (Binder.isColumn e = false ∧ ∀ c ∈ e.operands, Passes E groups c) := by
  rw [Passes, validateGrouped, isAggregate_iff] at h
  split at h
  · rename_i hpass
    simp only [Bool.or_eq_true, any_eq_true] at hpass
    exact hpass.imp_right .inl
  · rename_i hpass
    split at h
    · cases h
    · rename_i hcolumn
      have haggregate : selected false e = false := by
        simp only [Bool.or_eq_true, not_or, Bool.not_eq_true] at hpass
        exact hpass.2
      refine .inr (.inr ⟨by simpa using hcolumn, ?_⟩)
      rw [← children_eq haggregate]
      intro c hc
      exact forM_ok.1 h ⟨c, hc⟩ (mem_attach _ _)

/-- **A bound expression is covered in its phase**, if every aggregate and window in it has a column, and if,
behind a grouping, it passed the check of the binder. -/
theorem covered_of_inPhase (h : InPhase context a w e)
    (hcolumns : lower.grouped = false → ∀ e, context.Visible e → HasColumn engine lower.schema e)
    (hgroups : ∀ g ∈ groups, ∃ m ∈ lower.mapped, m.1 = g)
    (hgrouped : lower.grouped = true → Passes E groups e)
    (hselected : ∀ windows x, Reached windows e x → selected windows x = true → ∃ m ∈ lower.mapped, m.1.eq x = true) :
    Covered engine lower e := by
  have hgroup {e : Expr} (h : ∃ g ∈ groups, g.eq e = true) : Covered engine lower e := by
    obtain ⟨g, hg, heq⟩ := h
    obtain ⟨m, hm, rfl⟩ := hgroups g hg
    exact .mapped ⟨m, hm, heq⟩
  induction h with
  | literal hkind => exact .literal hkind
  | @column _ _ e b hkind hvisible =>
    cases hflag : lower.grouped with
    | false => exact .column hflag (hcolumns hflag e hvisible)
    | true =>
      rcases validateGrouped_ok (hgrouped hflag) with hpass | haggregate | ⟨hcolumn, _⟩
      · exact hgroup hpass
      · simp [selected, hkind] at haggregate
      · simp [Binder.isColumn, hkind] at hcolumn
  | @operator _ _ e hop hoperands ih =>
    have hoperands (hpass : lower.grouped = true → ∀ c ∈ e.operands, Passes E groups c) : Covered engine lower e := by
      refine .operator hop fun c hc => ih c hc (fun hflag => hpass hflag c hc) fun windows x hx => ?_
      exact hselected windows x (.operand (isOperator_selected hop windows) hc hx)
    cases hflag : lower.grouped with
    | false => exact hoperands fun h => by simp [hflag] at h
    | true =>
      rcases validateGrouped_ok (hgrouped hflag) with hpass | haggregate | ⟨_, hpass⟩
      · exact hgroup hpass
      · simp [isOperator_selected hop] at haggregate
      · exact hoperands fun _ => hpass
  | @aggregate _ e g hkind _ _ _ => exact .mapped (hselected false e (.self e) (by simp [selected, hkind]))
  | @window _ e g hkind _ _ _ => exact .mapped (hselected true e (.self e) (by simp [selected, hkind]))

/-- The operands of a window, and that the binder checked them. -/
theorem window_operands (h : InPhase context a w e) (hgroups : ∀ g ∈ groups, InPhase context false false g)
    (hx : Reached true e x) (hwindow : selected true x = true) :
    Reached false e x ∧ (∀ c ∈ x.operands, InPhase context true false c) ∧
      (Passes E groups e → ∀ c ∈ x.operands, Passes E groups c) := by
  induction hx generalizing a w with
  | self e =>
    obtain ⟨g, hkind⟩ := window_of_selected hwindow
    refine ⟨.self e, ?_, fun hpass => ?_⟩
    · cases h with
      | window _ hoperands => exact hoperands
      | operator hop => simp [isOperator, hkind] at hop
      | literal h | column h | aggregate h => simp [hkind] at h
    · rcases validateGrouped_ok hpass with ⟨g, hg, heq⟩ | haggregate | ⟨_, hpass⟩
      · simp [no_window_of_eq (hgroups g hg) heq (.self e)] at hwindow
      · simp [selected, hkind] at haggregate
      · exact hpass
  | @operand e c x hnot hc hx ih =>
    cases h with
    | literal hkind | column hkind => simp [Expr.operands, hkind] at hc
    | aggregate _ hoperands => simp [no_window (hoperands c hc) hx] at hwindow
    | window hkind => simp [selected, hkind] at hnot
    | operator hop hoperands =>
      obtain ⟨hreached, hphase, hchecked⟩ := ih (hoperands c hc) hwindow
      refine ⟨.operand (isOperator_selected hop false) hc hreached, hphase, fun hpass => ?_⟩
      rcases validateGrouped_ok hpass with ⟨g, hg, heq⟩ | haggregate | ⟨_, hpass⟩
      · simp [no_window_of_eq (hgroups g hg) heq (.operand hnot hc hx)] at hwindow
      · simp [isOperator_selected hop] at haggregate
      · exact hchecked (hpass c hc)

theorem containsAggregate_iff : containsAggregate e = true ↔ ∃ x, Reached false e x ∧ selected false x = true := by
  induction e using Expr.inductOn with
  | step e ih =>
    rw [containsAggregate, isAggregate_iff]
    split
    · rename_i hselected
      simp only [true_iff]
      exact ⟨e, .self e, hselected⟩
    · rename_i hselected
      have hnot : selected false e = false := by simpa using hselected
      simp only [any_eq_true, mem_attach, true_and, Subtype.exists, exists_prop, children_eq hnot]
      constructor
      · rintro ⟨c, hc, haggregate⟩
        obtain ⟨x, hx, hselected⟩ := (ih c hc).1 haggregate
        exact ⟨x, .operand hnot hc hx, hselected⟩
      · rintro ⟨x, hx, hselected⟩
        cases hx with
        | self => simp [hnot] at hselected
        | operand _ hc hx => exact ⟨_, hc, (ih _ hc).2 ⟨x, hx, hselected⟩⟩

/-! ## Schemas -/

variable {schema : DFSchema} {input input' : LogicalPlan}

theorem HasColumn.mono {schema' : DFSchema} (h : HasColumn engine schema e) (hkeeps : Keeps engine schema schema') :
    HasColumn engine schema' e := by
  obtain ⟨b, f, hkind, hfield, htype⟩ := h
  exact ⟨b, f, hkind, hkeeps _ _ f hfield, htype⟩

theorem Filtered.keeps (h : Filtered engine input input') (hlawful : Lawful engine) :
    Keeps engine input.schema input'.schema := by
  rcases h with rfl | ⟨p, schema, hschema, rfl⟩
  · exact .refl _
  · exact hlawful.filter hschema

/-- The field of a column in a `TableAdapter`. -/
def columnField (p : ColumnSchema × Nat) : Field := ⟨"__c" ++ toString p.2, arrowType p.1.dataType, p.1.nullable⟩

/-- The name of a column is that of no column before it. -/
theorem find?_adapterFields {table : Bound.Table} {withCtid : Bool} {index : Nat} {c : ColumnSchema}
    (hc : table.source.schema.columns[index]? = some c) :
    (adapterFields table withCtid).find? (fun f => f.name = "__c" ++ toString index) = some (columnField (c, index)) := by
  have hmem : columnField (c, index) ∈ table.source.schema.columns.zipIdx.map columnField :=
    mem_map_of_mem (mem_zipIdx_iff_getElem?.2 hc)
  obtain ⟨f, hfind⟩ : ∃ f, (table.source.schema.columns.zipIdx.map columnField).find?
      (fun f => f.name = "__c" ++ toString index) = some f :=
    Option.isSome_iff_exists.1 (find?_isSome.2 ⟨_, hmem, decide_eq_true rfl⟩)
  have hname : f.name = "__c" ++ toString index := by simpa using find?_some hfind
  obtain ⟨⟨c', index'⟩, hp, rfl⟩ := mem_map.1 (mem_of_find?_eq_some hfind)
  have hdigits : Nat.toDigits 10 index' = Nat.toDigits 10 index := by
    rw [← Nat.toList_repr, ← Nat.toList_repr]
    exact congrArg String.toList ((String.append_right_inj "__c").1 hname)
  obtain rfl : index' = index := by
    have hread := congrArg (Nat.ofDigitChars 10 · 0) hdigits
    simpa [Nat.ofDigitChars_toDigits] using hread
  rw [mem_zipIdx_iff_getElem?.1 hp] at hc
  cases hc
  rw [adapterFields, find?_append]
  exact (congrArg (Option.or · _) hfind)

/-- The columns of the one visible table are found in its scan. -/
theorem hasColumn_of_visible {name : String} {table : Bound.Table} {withCtid : Bool}
    (hlawful : Lawful engine) (h : scan engine table withCtid = .ok input)
    (hvisible : (queryContext (some (name, table))).Visible e) : HasColumn engine input.schema e := by
  obtain ⟨scope, hscope, r, hr, index, c, hc, rfl⟩ := hvisible
  obtain rfl := mem_singleton.1 hscope
  obtain rfl := mem_singleton.1 hr
  obtain ⟨schema, hschema, hinput⟩ := except_bind_ok.1 h
  cases hinput
  exact ⟨⟨table.relation, index⟩, _, rfl, hlawful.scan hschema _ _ (find?_adapterFields hc), rfl⟩

theorem hasColumn_source {relation : Option (String × Bound.Table)}
    (hlawful : Lawful engine) (h : sourcePlan engine (relation.map Prod.snd) = .ok input)
    (hvisible : (queryContext relation).Visible e) : HasColumn engine input.schema e := by
  cases relation with
  | none =>
    obtain ⟨scope, hscope, r, hr, _⟩ := hvisible
    obtain rfl := mem_singleton.1 hscope
    cases hr
  | some p => exact hasColumn_of_visible hlawful (lift_eq_ok.1 h) hvisible

/-! ## Queries -/

theorem raw_covered (h : InPhase context false false e)
    (hcolumns : ∀ e, context.Visible e → HasColumn engine schema e) : Covered engine (Lower.raw schema) e := by
  have hgroups : ∀ g ∈ ([] : List Expr), ∃ m ∈ (Lower.raw schema).mapped, m.1 = g := by simp
  refine covered_of_inPhase (E := Empty) h (fun _ => hcolumns) hgroups (by simp [Lower.raw]) ?_
  intro windows x hx hselected
  cases windows with
  | false => simp [no_aggregate h hx] at hselected
  | true => simp [no_window h hx] at hselected

theorem raw_admissible (h : InPhase context false false e)
    (hcolumns : ∀ e, context.Visible e → HasColumn engine schema e) (levels : Nat) :
    FailsOnly Admissible ((Lower.raw schema).expr engine levels e) :=
  covered_failsOnly (raw_covered h hcolumns) levels

theorem whereFilter_admissible {filter : Option Expr} {x : Option Sql.Expr}
    (hcolumns : ∀ e, context.Visible e → HasColumn engine input.schema e)
    (hfilter : ∀ e ∈ filter.toList, e.dataType = .boolean ∧ Origin E context false false x.toList e) :
    FailsOnly Admissible (whereFilter engine input filter) := by
  refine whereFilter_failsOnly dataFusion_admissible fun e he => ?_
  obtain ⟨hboolean, horigin⟩ := hfilter e he
  exact ⟨checkDepth_admissible e, .inl hboolean, raw_admissible horigin.inPhase hcolumns _⟩

/-- What a `Lower` behind the grouping has. -/
structure Grouping (engine : Engine Err) (context : BindContext) (groupBy aggregates : List Expr) (lower : Lower) : Prop where
  columns : lower.grouped = false → ∀ e, context.Visible e → HasColumn engine lower.schema e
  groups : ∀ g ∈ groupBy, ∃ m ∈ lower.mapped, m.1 = g
  aggregates : ∀ f ∈ aggregates, ∃ m ∈ lower.mapped, m.1 = f

variable {groupBy aggregates : List Expr}

theorem grouping_of_ok {grouped : Bool} {mapped : Mapped}
    (hcolumns : ∀ e, context.Visible e → HasColumn engine input.schema e)
    (hflat : grouped = false → groupBy = [] ∧ aggregates = [])
    (h : groupingPhase engine grouped groupBy aggregates input = .ok (input', mapped)) :
    Grouping engine context groupBy aggregates ⟨input'.schema, grouped, mapped⟩ := by
  unfold groupingPhase at h
  split at h
  · rename_i hgrouped
    obtain ⟨_, computed, rfl, hcomputed⟩ := groupPhase_ok h
    constructor
    · intro hflag
      simp [hgrouped] at hflag
    · intro g hg
      obtain ⟨n, hn⟩ := mem_iff_getElem?.1 hg
      have hmem : (g, n) ∈ groupBy.zipIdx := mem_zipIdx_iff_getElem?.2 hn
      exact ⟨groupColumn (g, n), mem_append_left _ (mem_map_of_mem hmem), rfl⟩
    · intro f hf
      obtain ⟨n, hn⟩ := mem_iff_getElem?.1 hf
      have hmem : (f, n) ∈ aggregates.zipIdx := mem_zipIdx_iff_getElem?.2 hn
      obtain ⟨m, hm, heq⟩ := exists_of_forall₂ hcomputed.flip (f, n) hmem
      exact ⟨m, mem_append_right _ hm, heq.1⟩
  · rename_i hgrouped
    cases h
    obtain ⟨rfl, rfl⟩ := hflat (by simpa using hgrouped)
    exact ⟨fun _ => hcolumns, by simp, by simp⟩

theorem Grouping.mono {lower' : Lower} (h : Grouping engine context groupBy aggregates lower)
    (hflag : lower'.grouped = lower.grouped) (hschema : Keeps engine lower.schema lower'.schema)
    (hmapped : lower.mapped ⊆ lower'.mapped) : Grouping engine context groupBy aggregates lower' := by
  constructor
  · exact fun hflat e he => (h.columns (by rw [← hflag, hflat]) e he).mono hschema
  · intro g hg
    obtain ⟨m, hm, heq⟩ := h.groups g hg
    exact ⟨m, hmapped hm, heq⟩
  · intro f hf
    obtain ⟨m, hm, heq⟩ := h.aggregates f hf
    exact ⟨m, hmapped hm, heq⟩

/-- An expression behind the grouping is covered, if its windows are. -/
theorem Grouping.covered {es : List Expr} (h : Grouping engine context groupBy aggregates lower)
    (hcollected : Collected false es [] aggregates) (hphase : InPhase context a w c)
    (hroot : ∃ e ∈ es, Reached false e c)
    (hgrouped : lower.grouped = true → Passes E groupBy c)
    (hwindows : ∀ x, Reached true c x → selected true x = true → ∃ m ∈ lower.mapped, m.1.eq x = true) :
    Covered engine lower c := by
  refine covered_of_inPhase hphase h.columns h.groups hgrouped fun windows x hx hselected => ?_
  cases windows with
  | true => exact hwindows x hx hselected
  | false =>
    obtain ⟨e, he, hc⟩ := hroot
    obtain ⟨_, _, hxphase⟩ := inPhase_of_reached hphase hx
    obtain ⟨f, hf, heq⟩ := hcollected.complete e he x (hc.trans hx) hselected (Expr.eq_refl hxphase.ordered)
    obtain ⟨m, hm, rfl⟩ := h.aggregates f hf
    exact ⟨m, hm, heq⟩

section

variable {relation : Option (String × Bound.Table)} {outputs keys : List Sql.Expr}
  {condition restriction : Option Sql.Expr} {orders : List (Sql.OrderByExpr Sql.Expr)} {q : Bound.Select}

/-- The clauses behind the grouping, with the phases they are in. -/
theorem groupedExprs_inPhase (hq : Binder.SelectBound E context outputs condition keys restriction orders q) :
    ∀ e ∈ groupedExprs q, ∃ w, InPhase context true w e := by
  intro e he
  simp only [groupedExprs, mem_append, mem_map] at he
  rcases he with (⟨p, hp, rfl⟩ | he) | ⟨o, ho, rfl⟩
  · exact ⟨true, (hq.projection p hp).inPhase⟩
  · exact ⟨false, (hq.having e he).2.inPhase⟩
  · exact ⟨true, (hq.orderBy o ho).inPhase⟩

/-- The planner groups a query if the binder does. -/
theorem flag_agrees (hq : Binder.SelectBound E context outputs condition keys restriction orders q)
    (hcollected : Collected false (groupedExprs q) [] aggregates) :
    (!q.groupBy.isEmpty || q.having.isSome || !aggregates.isEmpty) = q.isAggregate := by
  have hcontains : aggregates ≠ [] ↔ ∃ e ∈ groupedExprs q, containsAggregate e = true := by
    constructor
    · intro hne
      obtain ⟨x, hx⟩ := exists_mem_of_ne_nil aggregates hne
      rcases hcollected.sound x hx with hx | ⟨e, he, hreached, hselected⟩
      · cases hx
      · exact ⟨e, he, containsAggregate_iff.2 ⟨x, hreached, hselected⟩⟩
    · rintro ⟨e, he, hcontains⟩
      obtain ⟨x, hx, hselected⟩ := containsAggregate_iff.1 hcontains
      obtain ⟨w, hphase⟩ := groupedExprs_inPhase hq e he
      obtain ⟨_, _, hxphase⟩ := inPhase_of_reached hphase hx
      obtain ⟨f, hf, _⟩ := hcollected.complete e he x hx hselected (Expr.eq_refl hxphase.ordered)
      exact ne_nil_of_mem hf
  have haggregates : (!aggregates.isEmpty) = true ↔ ∃ e ∈ groupedExprs q, containsAggregate e = true := by
    rw [← hcontains]
    simp
  rw [hq.isAggregate, Bool.eq_iff_iff]
  simp only [Bool.or_eq_true, haggregates, groupedExprs, mem_append, mem_map, any_eq_true]
  cases q.having with
  | some p => simp
  | none =>
    simp only [Option.toList_none, not_mem_nil, or_false, Option.isSome_none, Bool.false_eq_true]
    constructor
    · rintro (h | ⟨e, ⟨p, hp, rfl⟩ | ⟨o, ho, rfl⟩, hcontains⟩)
      · exact .inl (.inl h)
      · exact .inl (.inr ⟨p, hp, hcontains⟩)
      · exact .inr ⟨o, ho, hcontains⟩
    · rintro ((h | ⟨p, hp, hcontains⟩) | ⟨o, ho, hcontains⟩)
      · exact .inl h
      · exact .inr ⟨p.expr, .inl ⟨p, hp, rfl⟩, hcontains⟩
      · exact .inr ⟨o.expr, .inr ⟨o, ho, rfl⟩, hcontains⟩

/-- The windows are computed on columns that are there. -/
theorem window_admissible {windows : List Expr}
    (hq : Binder.SelectBound E context outputs condition keys restriction orders q)
    (hflag : lower.grouped = q.isAggregate) (hgrouping : Grouping engine context q.groupBy aggregates lower)
    (hcollected : Collected false (groupedExprs q) [] aggregates)
    (hwindows : Collected true (outputExprs q) [] windows) :
    ∀ x ∈ windows, FailsOnly Admissible (windowValue engine lower x) := by
  intro x hx
  rcases hwindows.sound x hx with hx | ⟨e, he, hreached, hselected⟩
  · cases hx
  · have he : e ∈ groupedExprs q := by
      simp only [outputExprs, groupedExprs, mem_append] at he ⊢
      tauto
    obtain ⟨w, hphase⟩ := groupedExprs_inPhase hq e he
    obtain ⟨hreached', hoperands, hchecked⟩ :=
      window_operands (E := E) hphase (fun g hg => (hq.groupBy g hg).inPhase) hreached hselected
    obtain ⟨_, _, hxphase⟩ := inPhase_of_reached hphase hreached
    obtain ⟨g, hg⟩ := window_of_selected hselected
    refine windowValue_failsOnly hg (fun c hc => ?_) fun c hc => .inl (window_filter hxphase hg c hc)
    have hroot : Reached false e c := hreached'.trans (.operand (by simp [selected, hg]) hc (.self c))
    refine covered_failsOnly (hgrouping.covered (E := E) hcollected (hoperands c hc) ⟨e, he, hroot⟩ ?_ ?_) _
    · exact fun h => hchecked (hq.grouped (by rw [← hflag, h]) e he) c hc
    · intro x hx hselected
      simp [no_window (hoperands c hc) hx] at hselected

theorem windowPhase_keeps (hlawful : Lawful engine) {lower : Lower} {mapped' : Mapped} :
    ∀ {ws : List (Expr × Nat)} {input : LogicalPlan} {mapped : Mapped},
    windowPhase engine lower ws (input, mapped) = .ok (input', mapped') → Keeps engine input.schema input'.schema
  | [], _, _, h => by
    cases h
    exact .refl _
  | (e, n) :: ws, input, mapped, h => by
    obtain ⟨value, c, schema, _, hschema, h⟩ := windowPhase_cons h
    exact (hlawful.window hschema).trans (windowPhase_keeps hlawful h)

/-- **A bound query can be planned.** -/
theorem select_admissible (hlawful : Lawful engine) (hsource : q.source = relation.map Prod.snd)
    (hq : Binder.SelectBound E (queryContext relation) outputs condition keys restriction orders q) :
    FailsOnly Admissible (select engine q) := by
  apply FailsOnly.bind (.forM fun e _ => checkDepth_admissible e)
  intro _ _
  apply FailsOnly.bind (sourcePlan_failsOnly dataFusion_admissible _)
  intro source hplan
  rw [hsource] at hplan
  have hcolumns (e : Expr) (he : (queryContext relation).Visible e) : HasColumn engine source.schema e :=
    hasColumn_source hlawful hplan he
  apply FailsOnly.bind (whereFilter_admissible hcolumns hq.filter)
  intro input hinput
  replace hcolumns (e : Expr) (he : (queryContext relation).Visible e) : HasColumn engine input.schema e :=
    (hcolumns e he).mono ((whereFilter_ok hinput).keeps hlawful)
  apply FailsOnly.bind (collectAll_failsOnly fun e _ found => collect_admissible)
  intro aggregates haggregates
  have hcollected := collectAll_ok haggregates
  have hflag := flag_agrees hq hcollected
  simp only [hflag]
  apply FailsOnly.bind (reject_failsOnly (E := Admissible) (.inl (by simp)))
  intro _ _
  apply FailsOnly.bind
  · refine groupingPhase_failsOnly dataFusion_admissible
      (fun g hg => raw_admissible (hq.groupBy g hg).inPhase hcolumns _) fun x hx => ?_
    rcases hcollected.sound x hx with hx | ⟨e, he, hreached, hselected⟩
    · cases hx
    · obtain ⟨w, hphase⟩ := groupedExprs_inPhase hq e he
      obtain ⟨_, _, hxphase⟩ := inPhase_of_reached hphase hreached
      obtain ⟨g, hg⟩ := aggregate_of_selected hselected
      obtain ⟨hoperands, hfilter⟩ := aggregate_operands hxphase hg
      exact aggregateValue_failsOnly hg
        (fun c hc => raw_admissible (hoperands c hc) hcolumns _) fun c hc => .inl (hfilter c hc)
  rintro ⟨grouping, mapped⟩ hgrouping
  have hflat (h : q.isAggregate = false) : q.groupBy = [] ∧ aggregates = [] := by
    rw [← hflag] at h
    simp only [Bool.or_eq_false_iff, Bool.not_eq_false', List.isEmpty_iff] at h
    exact ⟨h.1.1, h.2⟩
  replace hgrouping := grouping_of_ok hcolumns hflat hgrouping
  have hmem {e : Expr} (he : e ∈ groupedExprs q) : ∃ e' ∈ groupedExprs q, Reached false e' e := ⟨e, he, .self e⟩
  apply FailsOnly.bind
  · refine havingPhase_failsOnly dataFusion_admissible fun e he => ?_
    obtain ⟨hboolean, horigin⟩ := hq.having e he
    have he : e ∈ groupedExprs q := by simp [groupedExprs, Option.mem_toList.1 he]
    refine ⟨.inl hboolean, covered_failsOnly (hgrouping.covered (E := E) hcollected horigin.inPhase (hmem he)
      (fun h => hq.grouped h e he) fun x hx hselected => ?_) _⟩
    simp [no_window horigin.inPhase hx] at hselected
  intro having hhaving
  replace hgrouping : Grouping engine (queryContext relation) q.groupBy aggregates
      ⟨having.schema, q.isAggregate, mapped⟩ :=
    hgrouping.mono rfl ((havingPhase_ok hhaving).keeps hlawful) (List.Subset.refl _)
  apply FailsOnly.bind (collectAll_failsOnly fun e _ found => collect_admissible)
  intro windows hwindows
  replace hwindows := collectAll_ok hwindows
  apply FailsOnly.bind
  · exact windowPhase_failsOnly dataFusion_admissible fun p hp =>
      window_admissible hq rfl hgrouping hcollected hwindows p.1 (fst_mem_of_mem_zipIdx hp)
  rintro ⟨window, mapped'⟩ hwindow
  have hkeeps := windowPhase_keeps hlawful hwindow
  obtain ⟨computed, rfl, hcomputed⟩ := windowPhase_mapped hwindow
  replace hgrouping : Grouping engine (queryContext relation) q.groupBy aggregates
      ⟨window.schema, q.isAggregate, mapped ++ computed⟩ :=
    hgrouping.mono rfl hkeeps (subset_append_left _ _)
  -- every window of an output has a column by now
  have houtput {schema : DFSchema} (hkeeps : Keeps engine window.schema schema) {e : Expr}
      (he : e ∈ outputExprs q) (hphase : InPhase (queryContext relation) true true e) :
      Covered engine ⟨schema, q.isAggregate, mapped ++ computed⟩ e := by
    replace hgrouping : Grouping engine (queryContext relation) q.groupBy aggregates
        ⟨schema, q.isAggregate, mapped ++ computed⟩ :=
      hgrouping.mono rfl hkeeps (List.Subset.refl _)
    have hegrouped : e ∈ groupedExprs q := by
      simp only [outputExprs, groupedExprs, mem_append] at he ⊢
      tauto
    refine hgrouping.covered (E := E) hcollected hphase (hmem hegrouped) (fun h => hq.grouped h e hegrouped) ?_
    intro x hx hselected
    obtain ⟨_, _, hxphase⟩ := inPhase_of_reached hphase hx
    obtain ⟨f, hf, heq⟩ := hwindows.complete e he x hx hselected (Expr.eq_refl hxphase.ordered)
    have hf : f ∈ computed.map Prod.fst := by
      rw [hcomputed, zipIdx_map_fst]
      exact hf
    obtain ⟨m, hm, rfl⟩ := mem_map.1 hf
    exact ⟨m, mem_append_right _ hm, heq⟩
  apply FailsOnly.bind
  · refine orderPhase_failsOnly fun o ho => covered_failsOnly (houtput (.refl _) ?_ (hq.orderBy o ho).inPhase) _
    simpa [outputExprs] using .inr ⟨o, ho, rfl⟩
  intro ordered hordered
  have hsorted : Keeps engine window.schema ordered.schema := by
    rcases orderPhase_ok hordered with rfl | ⟨exprs, rfl⟩
    · exact .refl _
    · exact hlawful.sort exprs window
  refine projectPhase_failsOnly dataFusion_admissible fun p hp =>
    covered_failsOnly (houtput hsorted ?_ (hq.projection p hp).inPhase) _
  simpa [outputExprs] using .inl ⟨p, hp, rfl⟩

end

/-! ## Statements -/

theorem planInsert_admissible (hlawful : Lawful engine) {xs : List Sql.Expr} {i : Bound.Insert}
    (h : ∀ row ∈ i.rows, Forall₂ (fun e c => Assigned E ⟨[]⟩ xs c.dataType e) row
      i.table.source.schema.columns) : FailsOnly Admissible (planInsert engine i) := by
  refine planInsert_failsOnly dataFusion_admissible (fun row hrow => ?_) (.inl fun _ _ _ => hlawful.values)
  refine insertRow_failsOnly (.inl (h row hrow).length_eq) fun p hp => ?_
  have hassigned : Assigned E ⟨[]⟩ xs p.2.dataType p.1 := List.forall₂_zip (h row hrow) hp
  refine ⟨checkDepth_admissible _, .inl hassigned.dataType, raw_admissible hassigned.inPhase ?_ _⟩
  rintro e ⟨scope, hscope, _⟩
  cases hscope

/-- **Bound statements can be planned.**  The planner rejects a statement of the binder for its depth or with an
error of DataFusion, and for no other reason. -/
theorem bound_statement_plannable (engine : Engine Err) (hlawful : Lawful engine) (catalog : Catalog E)
    (statement : Sql.Statement) (s : Bound.Statement) (hbind : Binder.bind catalog statement = .ok s) :
    (∀ message, plan engine s ≠ .error (.invalidBound message)) ∧
      ∀ b, plan engine s ≠ .error (.unknownColumn b) := by
  have hadmissible : FailsOnly Admissible (plan engine s) := by
    cases statement with
    | select projection source filter groupBy having orderBy =>
      obtain ⟨q, hq, h⟩ := except_bind_ok.1 hbind
      cases h
      obtain ⟨relation, hsource, hq⟩ := Binder.bindSelect_ok hq
      exact select_admissible hlawful hsource hq
    | insert table columns rows =>
      obtain ⟨i, hi, h⟩ := except_bind_ok.1 hbind
      cases h
      exact planInsert_admissible hlawful (Binder.bindInsert_ok hi)
    | update table assignments filter =>
      obtain ⟨u, hu, h⟩ := except_bind_ok.1 hbind
      cases h
      obtain ⟨hvalues, hfilter⟩ := Binder.bindUpdate_ok hu
      refine planUpdate_failsOnly dataFusion_admissible
        (fun input hscan => whereFilter_admissible (fun e => hasColumn_of_visible hlawful hscan) hfilter) ?_
      intro input input' hscan hwhere a ha
      obtain ⟨c, hc, hassigned⟩ := hvalues a ha
      refine ⟨checkDepth_admissible _, .inl ⟨c, hc, hassigned.dataType.symm⟩,
        raw_admissible hassigned.inPhase (fun e he => ?_) _⟩
      exact (hasColumn_of_visible hlawful hscan he).mono ((whereFilter_ok hwhere).keeps hlawful)
    | delete table filter =>
      obtain ⟨d, hd, h⟩ := except_bind_ok.1 hbind
      cases h
      exact planDelete_failsOnly dataFusion_admissible fun input hscan =>
        whereFilter_admissible (fun e => hasColumn_of_visible hlawful hscan) (Binder.bindDelete_ok hd)
    | createTable name columns =>
      obtain ⟨d, _, h⟩ := except_bind_ok.1 hbind
      cases h
      exact .ok _
    | begin | commit | rollback =>
      cases hbind
      exact .ok _
  exact ⟨fun message h => hadmissible _ h, fun b h => hadmissible _ h⟩

theorem fieldFromColumn_ok {c : DataFusion.Column} {f : Field} :
    Engine.standard.fieldFromColumn schema c = .ok f ↔ ∃ q, schema.fields.find? c.names = some (q, f) := by
  show DataFusion.Standard.fieldFromColumn schema c = .ok f ↔ _
  unfold DataFusion.Standard.fieldFromColumn
  split
  · rename_i p hp
    simp [hp, Prod.ext_iff]
  · rename_i hnone
    simp [hnone]

theorem standard_lawful : Lawful Engine.standard where
  scan {relation fields schema} h name f hf := by
    cases h
    refine fieldFromColumn_ok.2 ⟨some relation, ?_⟩
    have hnames : (DataFusion.Column.names ⟨some relation, name⟩ ∘ fun f => (some relation, f)) =
        fun f : Field => decide (f.name = name) := by
      funext f
      simp [DataFusion.Column.names]
    rw [find?_map, hnames, hf]
    rfl
  filter h := by
    cases h
    exact .refl _
  window h := by
    obtain ⟨fields, _, h⟩ := except_bind_ok.1 h
    cases h
    intro relation name f hf
    obtain ⟨q, hq⟩ := fieldFromColumn_ok.1 hf
    exact fieldFromColumn_ok.2 ⟨q, by rw [find?_append, hq]; rfl⟩
  sort exprs input := .refl _
  values h := by
    cases h
    exact ⟨_, _, rfl⟩

theorem rankedCounts_plannable : ∃ s planned, Binder.bind oneTable rankedCounts = .ok s ∧
    plan .standard s = .ok planned ∧ (∀ message, plan .standard s ≠ .error (.invalidBound message)) ∧
      ∀ b, plan .standard s ≠ .error (.unknownColumn b) := by
  obtain ⟨s, hs, hplan⟩ := exists_of_any (x := Binder.bind oneTable rankedCounts)
    (p := fun s => (plan .standard s).toBool) (by decide +kernel)
  obtain ⟨planned, hplanned⟩ := exists_of_toBool hplan
  exact ⟨s, planned, hs, hplanned, bound_statement_plannable .standard standard_lawful oneTable rankedCounts s hs⟩

end ChiliDB.Planner

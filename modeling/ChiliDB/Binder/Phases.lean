import ChiliDB.Binder.Nodes

/-!
# Where aggregates and windows stand in bound statements

* `PhaseNode` — what the operands of an aggregate and of a window may contain, and their arguments.
* `rowClauses`, `havingClauses`, `outputClauses` — the expressions of a bound statement by what they are
  evaluated on: rows, groups before windows, and the rest.

Principal result: `bound_statement_phases`.
-/

namespace ChiliDB.Binder

open Effect
open ChiliDB.Bound (Expr)

variable {E : Type} {context : BindContext} {a w : Bool} {e x : Expr}

def isWindow (e : Expr) : Bool :=
  match e.kind with
  | .window _ => true
  | _ => false

/-- The rules for one node. -/
def PhaseNode (x : Expr) : Prop :=
  match x.kind with
  | .aggregate g => (∀ c ∈ x.operands, ∀ y, Occurs c y → isAggregate y = false ∧ isWindow y = false) ∧
    (g.args.length = 1 ∨ (g.function = .count ∧ g.args = []))
  | .window g => (∀ c ∈ x.operands, ∀ y, Occurs c y → isWindow y = false) ∧
    (isRanking g.function = true → g.args = [] ∧ g.filter = none)
  | _ => True

theorem InPhase.occurs (h : InPhase context a w e) (hx : Occurs e x) : ∃ a' w', InPhase context a' w' x := by
  induction hx generalizing a w with
  | self => exact ⟨a, w, h⟩
  | operand hc _ ih =>
    obtain ⟨a', w', hc⟩ := h.operands _ hc
    exact ih hc

theorem InPhase.noWindow (h : InPhase context a false e) (hx : Occurs e x) : isWindow x = false := by
  induction hx generalizing a with
  | self e =>
    cases h with
    | literal hkind | column hkind | aggregate hkind => simp [isWindow, hkind]
    | operator hop => cases hkind : e.kind <;> simp [isOperator, hkind] at hop <;> simp [isWindow, hkind]
  | operand hc _ ih =>
    cases h with
    | literal hkind | column hkind => simp [Expr.operands, hkind] at hc
    | operator _ hoperands | aggregate _ hoperands => exact ih (hoperands _ hc)

theorem InPhase.noAggregate (h : InPhase context false false e) (hx : Occurs e x) : isAggregate x = false := by
  induction hx with
  | self e =>
    cases h with
    | literal hkind | column hkind => simp [isAggregate, hkind]
    | operator hop => cases hkind : e.kind <;> simp [isOperator, hkind] at hop <;> simp [isAggregate, hkind]
  | operand hc _ ih =>
    cases h with
    | literal hkind | column hkind => simp [Expr.operands, hkind] at hc
    | operator _ hoperands => exact ih (hoperands _ hc)

/-- An expression in a phase that the binder built obeys the rules. -/
theorem phaseNode_of_inPhase (h : InPhase context a w x) (hnode : Node context x) : PhaseNode x := by
  unfold PhaseNode
  split
  · rename_i g hg
    cases h with
    | aggregate _ hoperands =>
      refine ⟨fun c hc y hy => ⟨(hoperands c hc).noAggregate hy, (hoperands c hc).noWindow hy⟩, ?_⟩
      cases hnode with
      | aggregate hcall =>
        cases hg
        exact hcall.single _ rfl
      | column hvisible =>
        obtain ⟨_, _, _, _, _, _, _, rfl⟩ := hvisible
        cases hg
      | _ => cases hg
    | operator hop => simp [isOperator, hg] at hop
    | literal h | column h | window h => simp [hg] at h
  · rename_i g hg
    cases h with
    | window _ hoperands =>
      refine ⟨fun c hc y hy => (hoperands c hc).noWindow hy, ?_⟩
      cases hnode with
      | window hcall =>
        cases hg
        exact hcall.ranking
      | column hvisible =>
        obtain ⟨_, _, _, _, _, _, _, rfl⟩ := hvisible
        cases hg
      | _ => cases hg
    | operator hop => simp [isOperator, hg] at hop
    | literal h | column h | aggregate h => simp [hg] at h
  · trivial

/-! ## Statements -/

/-- What is evaluated on rows: WHERE, GROUP BY, the values and the predicates of modifications. -/
def rowClauses : Bound.Statement → List Expr
  | .select q => q.filter.toList ++ q.groupBy
  | .insert i => i.rows.flatten
  | .update u => u.assignments.map Bound.Assignment.value ++ u.filter.toList
  | .delete d => d.filter.toList
  | .createTable _ | .begin | .commit | .rollback => []

def havingClauses : Bound.Statement → List Expr
  | .select q => q.having.toList
  | _ => []

/-- The output columns and the keys of ORDER BY. -/
def outputClauses : Bound.Statement → List Expr
  | .select q => q.projection.map Bound.NamedExpr.expr ++ q.orderBy.map Bound.OrderByExpr.expr
  | _ => []

/-- The phases of the expressions of a bound statement. -/
structure StatementPhases (s : Bound.Statement) : Prop where
  row : ∀ e ∈ rowClauses s, ∃ context, InPhase context false false e ∧ Nodes context e
  having : ∀ e ∈ havingClauses s, ∃ context, InPhase context true false e ∧ Nodes context e
  output : ∀ e ∈ outputClauses s, ∃ context, InPhase context true true e ∧ Nodes context e

variable {xs : List Sql.Expr}

theorem Origin.phases (h : Origin E context a w xs e) : ∃ context, InPhase context a w e ∧ Nodes context e :=
  ⟨context, h.inPhase, h.nodes⟩

theorem Assigned.phases {t : LogicalType} (h : Assigned E context xs t e) :
    ∃ context, InPhase context false false e ∧ Nodes context e :=
  ⟨context, h.inPhase, h.nodes⟩

theorem bind_phases {catalog : Catalog E} {statement : Sql.Statement} {s : Bound.Statement}
    (h : bind catalog statement = .ok s) : StatementPhases s := by
  cases statement with
  | select projection source filter groupBy having orderBy =>
    obtain ⟨q, hq, h⟩ := except_bind_ok.1 h
    cases h
    obtain ⟨relation, _, hq⟩ := bindSelect_ok hq
    constructor
    · intro e he
      rcases List.mem_append.1 he with he | he
      · exact (hq.filter e he).2.phases
      · exact (hq.groupBy e he).phases
    · exact fun e he => (hq.having e he).2.phases
    · intro e he
      simp only [outputClauses, List.mem_append, List.mem_map] at he
      rcases he with ⟨p, hp, rfl⟩ | ⟨o, ho, rfl⟩
      · exact (hq.projection p hp).phases
      · exact (hq.orderBy o ho).phases
  | insert table columns rows =>
    obtain ⟨i, hi, h⟩ := except_bind_ok.1 h
    cases h
    refine ⟨fun e he => ?_, by simp [havingClauses], by simp [outputClauses]⟩
    obtain ⟨row, hrow, he⟩ := List.mem_flatten.1 he
    obtain ⟨c, _, he⟩ := exists_of_forall₂ (bindInsert_ok hi row hrow).flip e he
    exact he.phases
  | update table assignments filter =>
    obtain ⟨u, hu, h⟩ := except_bind_ok.1 h
    cases h
    obtain ⟨hvalues, hfilter⟩ := bindUpdate_ok hu
    refine ⟨fun e he => ?_, by simp [havingClauses], by simp [outputClauses]⟩
    simp only [rowClauses, List.mem_append, List.mem_map] at he
    rcases he with ⟨b, hb, rfl⟩ | he
    · obtain ⟨c, _, hb⟩ := hvalues b hb
      exact hb.phases
    · exact (hfilter e he).2.phases
  | delete table filter =>
    obtain ⟨d, hd, h⟩ := except_bind_ok.1 h
    cases h
    exact ⟨fun e he => (bindDelete_ok hd e he).2.phases, by simp [havingClauses], by simp [outputClauses]⟩
  | createTable name columns =>
    obtain ⟨d, _, h⟩ := except_bind_ok.1 h
    cases h
    exact ⟨by simp [rowClauses], by simp [havingClauses], by simp [outputClauses]⟩
  | begin | commit | rollback =>
    cases h
    exact ⟨by simp [rowClauses], by simp [havingClauses], by simp [outputClauses]⟩

/-- **Phases.**  In a bound statement aggregates and windows stand only where they may. -/
theorem bound_statement_phases (E : Type) (catalog : Catalog E) (statement : Sql.Statement) (s : Bound.Statement)
    (hbind : bind catalog statement = .ok s) :
    (∀ e ∈ rowClauses s ++ havingClauses s ++ outputClauses s, ∀ x, Occurs e x → PhaseNode x) ∧
    (∀ e ∈ rowClauses s, ∀ x, Occurs e x → isAggregate x = false ∧ isWindow x = false) ∧
    ∀ e ∈ havingClauses s, ∀ x, Occurs e x → isWindow x = false := by
  have h := bind_phases hbind
  refine ⟨?_, ?_, ?_⟩
  · intro e he x hx
    have hphase : ∃ context a w, InPhase context a w e ∧ Nodes context e := by
      simp only [List.mem_append] at he
      rcases he with (he | he) | he
      · obtain ⟨context, he⟩ := h.row e he
        exact ⟨context, false, false, he⟩
      · obtain ⟨context, he⟩ := h.having e he
        exact ⟨context, true, false, he⟩
      · obtain ⟨context, he⟩ := h.output e he
        exact ⟨context, true, true, he⟩
    obtain ⟨context, a, w, hphase, hnodes⟩ := hphase
    obtain ⟨_, _, hxphase⟩ := hphase.occurs hx
    exact phaseNode_of_inPhase hxphase (hnodes x hx)
  · intro e he x hx
    obtain ⟨context, hphase, _⟩ := h.row e he
    exact ⟨hphase.noAggregate hx, hphase.noWindow hx⟩
  · intro e he x hx
    obtain ⟨context, hphase, _⟩ := h.having e he
    exact hphase.noWindow hx

/-- One table, `t (a INTEGER, b TEXT)`. -/
def oneTable : Catalog Empty where
  getTable name := .ok (if name = "t" then
    some ⟨0, ⟨"t", [⟨"a", .int32, true⟩, ⟨"b", .text, true⟩]⟩⟩ else none)

/-- `SELECT a, COUNT(*), RANK() OVER (ORDER BY COUNT(*)) FROM t WHERE b = 'x' GROUP BY a HAVING COUNT(*) > 1
ORDER BY 2`. -/
def rankedCounts : Sql.Statement :=
  let count := .functionCall "count" [.wildcard] false none none
  .select [.identifier "a", count,
      .functionCall "rank" [] false none (some ⟨[], [⟨count, .ascending, none⟩], none⟩)] (some "t")
    (some (.binary (.identifier "b") .eq (.literal (.string "x")))) [.identifier "a"]
    (some (.binary count .greater (.literal (.number "1")))) [⟨.literal (.number "2"), .ascending, none⟩]

theorem rankedCounts_phases : ∃ s, bind oneTable rankedCounts = .ok s ∧
    (∀ e ∈ rowClauses s ++ havingClauses s ++ outputClauses s, ∀ x, Occurs e x → PhaseNode x) ∧
    (∀ e ∈ rowClauses s, ∀ x, Occurs e x → isAggregate x = false ∧ isWindow x = false) ∧
    ∀ e ∈ havingClauses s, ∀ x, Occurs e x → isWindow x = false := by
  obtain ⟨s, hs⟩ := exists_of_toBool (x := bind oneTable rankedCounts) (by decide +kernel)
  exact ⟨s, hs, bound_statement_phases Empty oneTable rankedCounts s hs⟩

end ChiliDB.Binder

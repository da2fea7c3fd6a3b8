import ChiliDB.Planner.PlanningSpec

/-!
# What grouped expressions mean

Behind an aggregation the planner reads grouping keys and aggregates from columns.  Under every interpretation of
the operators, casts and aggregates these have the values of the bound expressions on a group of rows.

* `Meaning` — an interpretation of the operators, types and literals of SQL; `scalarOf`, `operatorOf`, `typeOf` — what
  those of DataFusion are in SQL.
* `eval` — a lowered expression on a row; `value` — a bound expression on a group, its columns read from one row
  and its aggregates computed over all.
* `Phases` — the two ways in which an aggregate query lowers expressions: to its windows, and behind them.
* `expr_value` — lowering keeps the value if the columns that it reads have the values they stand for.

Principal result: `grouped_lowering_preserves_meaning`.
-/

namespace ChiliDB.Planner

open Effect List
open ChiliDB.Bound (Expr ColumnBinding)
open DataFusion (Column LogicalPlan Engine)

/-! ## Interpretations -/

/-- Operators, casts and aggregates on the values `V`. -/
structure Meaning (V : Type) where
  literal : Scalar → V
  not : V → V
  negative : V → V
  binary : Sql.BinaryOp → V → V → V
  cast : LogicalType → V → V
  isNull : V → V
  isNotNull : V → V
  /-- Of the arguments and the filter on every row. -/
  aggregate : Bound.AggregateFunction → Bool → List (List V × Option V) → V
  /-- A window, which no column of the group stands for. -/
  window : V

/-- The nulls of all types are one. -/
def scalarOf : DataFusion.ScalarValue → Option Scalar
  | .boolean (some v) => some (.boolean v)
  | .int32 (some v) => some (.int32 v)
  | .int64 (some v) => some (.int64 v)
  | .uint32 (some v) => some (.uint32 v)
  | .float32 (some v) => some (.float32 v)
  | .float64 (some v) => some (.float64 v)
  | .utf8 (some v) => some (.string v)
  | .uint64 (some _) | .fixedSizeBinary _ (some _) => none
  | _ => some .null

def operatorOf : DataFusion.Operator → Sql.BinaryOp
  | .or => .or
  | .and => .and
  | .eq => .eq
  | .notEq => .notEq
  | .lt => .less
  | .ltEq => .lessEq
  | .gt => .greater
  | .gtEq => .greaterEq
  | .plus => .add
  | .minus => .subtract
  | .multiply => .multiply
  | .divide => .divide
  | .modulo => .modulo

def typeOf : DataFusion.DataType → Option LogicalType
  | .null => some .null
  | .boolean => some .boolean
  | .int32 => some .int32
  | .int64 => some .int64
  | .uint32 => some .uint32
  | .float32 => some .float32
  | .float64 => some .float64
  | .utf8 => some .text
  | .uint64 | .fixedSizeBinary _ => none

/-- The limit of a `VARCHAR` is none of the type that values are cast to. -/
def unlimited : LogicalType → LogicalType
  | .varchar _ => .text
  | t => t

variable {V : Type} (M : Meaning V)

/-- A lowered expression on a row of columns; an aggregate or a window has no value of its own. -/
def eval (row : Column → V) : DataFusion.Expr → Option V
  | .literal v => (scalarOf v).map M.literal
  | .column c => some (row c)
  | .not e => (eval row e).map M.not
  | .negative e => (eval row e).map M.negative
  | .binary l op r => do return M.binary (operatorOf op) (← eval row l) (← eval row r)
  | .cast e t => do return M.cast (← typeOf t) (← eval row e)
  | .isNull e => (eval row e).map M.isNull
  | .isNotNull e => (eval row e).map M.isNotNull
  | .alias e _ => eval row e
  | .aggregateFunction .. | .windowFunction .. => none

/-- A unary plus is the identity. -/
def Meaning.unary : Sql.UnaryOp → V → V
  | .not => M.not
  | .plus => id
  | .minus => M.negative

variable (rows : List (ColumnBinding → V))

mutual

/-- A bound expression on a group, with its columns read from `r`. -/
def value : Expr → (ColumnBinding → V) → V
  | ⟨t, _, k⟩, r => kindValue t k r

def kindValue (t : LogicalType) : Bound.ExprKind Expr → (ColumnBinding → V) → V
  | .aggregate ⟨f, args, distinct, filter⟩, _ =>
    M.aggregate f distinct (rows.map fun r => (vecValue args r, optionValue filter r))
  | .window _, _ => M.window
  | .literal s, _ => M.literal s
  | .column b, r => r b
  | .unary op c, r => M.unary op (value c r)
  | .binary op l c, r => M.binary op (value l r) (value c r)
  | .cast c, r => M.cast (unlimited t) (value c r)
  | .isNull c negated, r => if negated then M.isNotNull (value c r) else M.isNull (value c r)

def vecValue : List Expr → (ColumnBinding → V) → List V
  | [], _ => []
  | c :: cs, r => value c r :: vecValue cs r

def optionValue : Option Expr → (ColumnBinding → V) → Option V
  | none, _ => none
  | some c, r => some (value c r)

end

/-! ## Literals and windows -/

/-- No literal is a negative zero. -/
def Signless (e : Expr) : Prop := e.canon = e

def isFloat : Scalar → Bool
  | .float32 _ | .float64 _ => true
  | _ => false

/-- The expression contains no window. -/
def Windowless (e : Expr) : Prop := ∀ x, Reached true e x → selected true x = false

variable (row : Column → V) (r : ColumnBinding → V)

/-- A group of rows and the row that the aggregation makes of it.  Only the group of all rows may be empty. -/
structure Group (groupBy aggregates : List Expr) : Prop where
  nonempty : rows = [] → groupBy = []
  key : ∀ {i g}, groupBy[i]? = some g → ∀ r ∈ rows, row (.fromName (groupName i)) = value M rows g r
  aggregate : ∀ {j a}, aggregates[j]? = some a → ∀ r, row (.fromName (aggregateName j)) = value M rows a r
  /-- The cast that adjusts the type of an aggregate keeps its value. -/
  adjusted : ∀ a ∈ aggregates, ∀ r, M.cast (unlimited a.dataType) (value M rows a r) = value M rows a r

/-- The columns that `lower` reads have the values they stand for. -/
structure Faithful (lower : Lower) : Prop where
  grouped : lower.grouped = true
  signless : ∀ m ∈ lower.mapped, Signless m.1
  value : ∀ m ∈ lower.mapped, Windowless m.1 → eval M row m.2 = some (value M rows m.1 r)

variable {M rows row r} {e c x : Expr}

/-- It is enough that no literal is a floating-point number. -/
theorem signless_of_no_float (h : ∀ s ∈ e.scalars, isFloat s = false) : Signless e := by
  apply e.canon_eq_self
  intro s hs
  have hs := h s hs
  cases s <;> simp_all [isFloat, Scalar.canon]

theorem Signless.operand (h : Signless e) (hc : c ∈ e.operands) : Signless c := by
  have hmap : e.operands.map Expr.canon = e.operands.map id := by rw [← Expr.operands_canon, h, map_id]
  exact map_inj_left.1 hmap c hc

theorem Signless.reached {windows : Bool} (hx : Reached windows e x) (h : Signless e) : Signless x := by
  induction hx with
  | self => exact h
  | operand _ hc _ ih => exact ih (h.operand hc)

theorem Signless.eq (he : Signless e) (hc : Signless c) (h : e.eq c = true) : e = c := by
  rw [← he, ((e.eq_iff c).1 h).1, hc]

theorem Windowless.operand (h : Windowless e) (hc : c ∈ e.operands) : Windowless c :=
  fun x hx => h x (.operand (h e (.self e)) hc hx)

/-! ## Lowering -/

variable {Err : Type} {engine : Engine Err} {lower : Lower}

/-- What `ScalarValue::try_from` gives for a type is a null. -/
def NullOfType (engine : Engine Err) : Prop := ∀ t v, engine.scalarOfType t = .ok v → scalarOf v = some .null

theorem scalarOf_scalarValue (hnull : NullOfType engine) {s : Scalar} {t : LogicalType} {v : DataFusion.ScalarValue}
    (h : scalarValue engine s t = .ok v) : scalarOf v = some s := by
  cases s with
  | null => exact hnull _ _ h
  | _ =>
    cases h
    rfl

theorem operatorOf_operator (op : Sql.BinaryOp) : operatorOf (operator op) = op := by
  cases op <;> rfl

theorem typeOf_arrowType (t : LogicalType) : typeOf (arrowType t) = some (unlimited t) := by
  cases t <;> rfl

/-- **Lowering keeps the value.** -/
theorem expr_value (hnull : NullOfType engine) (hfaithful : Faithful M rows row r lower) :
    ∀ {n : Nat} {e : Expr} {d : DataFusion.Expr}, Windowless e → Signless e →
      lower.expr engine n e = .ok d → eval M row d = some (value M rows e r)
  | 0, _, _, _, _, h => by cases h
  | n + 1, e, d, hw, hs, h => by
    unfold Lower.expr at h
    split at h
    · rename_i m hm
      cases h
      have hmem := mem_of_find?_eq_some hm
      have heq : m.1 = e := (hfaithful.signless m hmem).eq hs (by simpa using find?_some hm)
      rw [hfaithful.value m hmem (heq ▸ hw), heq]
    · have hoperand {c : Expr} {d : DataFusion.Expr} (hc : c ∈ e.operands)
          (h : lower.expr engine n c = .ok d) : eval M row d = some (value M rows c r) :=
        expr_value hnull hfaithful (hw.operand hc) (hs.operand hc) h
      obtain ⟨t, b, k⟩ := e
      cases k with
      | aggregate | window => cases h
      | literal s =>
        obtain ⟨v, hv, h⟩ := except_bind_ok.1 h
        cases h
        simp [eval, value, kindValue, scalarOf_scalarValue hnull (lift_eq_ok.1 hv)]
      | column b => simp [Lower.column, hfaithful.grouped] at h
      | unary op c =>
        obtain ⟨d, hd, h⟩ := except_bind_ok.1 h
        cases h
        have hc := hoperand (by simp [Expr.operands]) hd
        cases op <;> simp [lowerUnary, eval, value, kindValue, Meaning.unary, hc]
      | binary op l c =>
        obtain ⟨d, hd, h⟩ := except_bind_ok.1 h
        obtain ⟨d', hd', h⟩ := except_bind_ok.1 h
        cases h
        simp [eval, value, kindValue, hoperand (by simp [Expr.operands]) hd, hoperand (by simp [Expr.operands]) hd',
          operatorOf_operator]
      | cast c =>
        obtain ⟨d, hd, h⟩ := except_bind_ok.1 h
        cases h
        simp [cast, eval, value, kindValue, hoperand (by simp [Expr.operands]) hd, typeOf_arrowType]
      | isNull c negated =>
        obtain ⟨d, hd, h⟩ := except_bind_ok.1 h
        cases h
        have hc := hoperand (by simp [Expr.operands]) hd
        cases negated <;> simp [eval, value, kindValue, hc]

/-! ## Queries -/

variable {q : Bound.Select} {aggregates windows : List Expr} {input input' : LogicalPlan}
  {mapped mapped' : Mapped} {planned : PlannedStatement}

/-- The phases of an aggregate query behind its aggregation: `HAVING` and the operands of windows are lowered with
`mapped`, `ORDER BY` and the projection with `mapped'`. -/
structure Phases (engine : Engine Err) (q : Bound.Select) (planned : PlannedStatement) (aggregates : List Expr)
    (mapped mapped' : Mapped) : Prop where
  collected : (collectAll false (groupedExprs q) : PlanResult Err _) = .ok aggregates
  run : ∃ windows input grouped filtered windowed sorted,
    (collectAll true (outputExprs q) : PlanResult Err _) = .ok windows ∧
    groupPhase engine q.groupBy aggregates input = .ok (grouped, mapped) ∧
    havingPhase engine true mapped grouped q.having = .ok filtered ∧
    windowPhase engine ⟨filtered.schema, true, mapped⟩ windows.zipIdx (filtered, mapped) = .ok (windowed, mapped') ∧
    orderPhase engine ⟨windowed.schema, true, mapped'⟩ q.orderBy windowed = .ok sorted ∧
    projectPhase engine ⟨sorted.schema, true, mapped'⟩ q.projection sorted = .ok planned

theorem select_phases (h : select engine q = .ok planned) (haggregate : q.isAggregate = true) :
    ∃ aggregates mapped mapped', Phases engine q planned aggregates mapped mapped' := by
  obtain ⟨_, _, h⟩ := except_bind_ok.1 h
  obtain ⟨source, _, h⟩ := except_bind_ok.1 h
  obtain ⟨input, _, h⟩ := except_bind_ok.1 h
  obtain ⟨aggregates, haggregates, h⟩ := except_bind_ok.1 h
  obtain ⟨_, hreject, h⟩ := except_bind_ok.1 h
  have hflag : (!q.groupBy.isEmpty || q.having.isSome || !aggregates.isEmpty) = true := by
    by_contra hflag
    rw [haggregate, reject, if_pos hflag] at hreject
    cases hreject
  rw [hflag] at h
  obtain ⟨⟨grouped, mapped⟩, hgroup, h⟩ := except_bind_ok.1 h
  obtain ⟨filtered, hfilter, h⟩ := except_bind_ok.1 h
  obtain ⟨windows, hwindows, h⟩ := except_bind_ok.1 h
  obtain ⟨⟨windowed, mapped'⟩, hwindow, h⟩ := except_bind_ok.1 h
  obtain ⟨sorted, hsort, h⟩ := except_bind_ok.1 h
  exact ⟨aggregates, mapped, mapped', haggregates, windows, input, grouped, filtered, windowed, sorted,
    hwindows, hgroup, hfilter, hwindow, hsort, h⟩

/-- What is collected has no negative zero if nothing else has one. -/
theorem signless_of_collected {w : Bool} {es found : List Expr}
    (h : (collectAll w es : PlanResult Err _) = .ok found) (hes : ∀ e ∈ es, Signless e) :
    ∀ x ∈ found, Signless x ∧ selected w x = true := by
  intro x hx
  obtain hx | ⟨e, he, hreached, hselected⟩ := (collectAll_ok h).sound x hx
  · cases hx
  · exact ⟨(hes e he).reached hreached, hselected⟩

/-- Grouping keys and aggregates have their values. -/
theorem group_value (hgroup : Group M rows row q.groupBy aggregates) (hr : rows = [] ∨ r ∈ rows)
    (h : groupPhase engine q.groupBy aggregates input = .ok (input', mapped)) :
    ∀ m ∈ mapped, m.1 ∈ q.groupBy ++ aggregates ∧ eval M row m.2 = some (value M rows m.1 r) := by
  obtain ⟨_, computed, rfl, hcomputed⟩ := groupPhase_ok h
  intro m hm
  rcases mem_append.1 hm with hm | hm
  · obtain ⟨⟨g, i⟩, hg, rfl⟩ := mem_map.1 hm
    have hi := mem_zipIdx_iff_getElem?.1 hg
    have hmem : g ∈ q.groupBy := mem_of_getElem? hi
    refine ⟨mem_append_left _ hmem, ?_⟩
    rcases hr with hr | hr
    · rw [hgroup.nonempty hr] at hmem
      cases hmem
    · exact congrArg some (hgroup.key hi r hr)
  · obtain ⟨⟨a, j⟩, ha, hfirst, hcolumn⟩ := exists_of_forall₂ hcomputed m hm
    have hj := mem_zipIdx_iff_getElem?.1 ha
    have hmem : a ∈ aggregates := mem_of_getElem? hj
    rw [hfirst]
    refine ⟨mem_append_right _ hmem, ?_⟩
    rcases hcolumn with hcolumn | hcolumn
    · rw [hcolumn]
      exact congrArg some (hgroup.aggregate hj r)
    · rw [hcolumn, cast, eval, eval, typeOf_arrowType, hgroup.aggregate hj r]
      exact congrArg some (hgroup.adjusted a hmem r)

theorem Phases.faithful (h : Phases engine q planned aggregates mapped mapped')
    (hsignless : ∀ e ∈ q.groupBy ++ groupedExprs q, Signless e) (hgroup : Group M rows row q.groupBy aggregates)
    (hr : rows = [] ∨ r ∈ rows) (hlower : lower.grouped = true ∧ (lower.mapped = mapped ∨ lower.mapped = mapped')) :
    Faithful M rows row r lower := by
  obtain ⟨windows, input, grouped, filtered, windowed, sorted, hwindows, hmapped, _, hwindowed, _⟩ := h.run
  have hvalue := group_value hgroup hr hmapped
  have hkeys : ∀ m ∈ mapped, Signless m.1 := by
    intro m hm
    rcases mem_append.1 (hvalue m hm).1 with hm | hm
    · exact hsignless _ (mem_append_left _ hm)
    · exact (signless_of_collected h.collected (fun e he => hsignless e (mem_append_right _ he)) _ hm).1
  -- an expression that a column of a window stands for is a window
  obtain ⟨computed, rfl, hcomputed⟩ := windowPhase_mapped hwindowed
  have hwindow : ∀ m ∈ computed, Signless m.1 ∧ selected true m.1 = true := by
    intro m hm
    refine signless_of_collected hwindows (fun e he => hsignless e (mem_append_right _ ?_)) _ ?_
    · simp only [outputExprs, groupedExprs, mem_append] at he ⊢
      tauto
    · rw [← zipIdx_map_fst 0 windows, ← hcomputed]
      exact mem_map_of_mem hm
  obtain ⟨hgrouped, hlower⟩ := hlower
  have hmem : ∀ m ∈ lower.mapped, m ∈ mapped ∨ m ∈ computed := by
    rcases hlower with hlower | hlower <;> rw [hlower]
    · exact fun m => .inl
    · exact fun m => mem_append.1
  refine ⟨hgrouped, fun m hm => ?_, fun m hm hw => ?_⟩
  · exact (hmem m hm).elim (hkeys m) fun hm => (hwindow m hm).1
  · refine (hmem m hm).elim (fun hm => (hvalue m hm).2) fun hm => ?_
    have hselected := (hwindow m hm).2
    rw [hw m.1 (.self _)] at hselected
    cases hselected

/-- **Grouped lowering preserves meaning.** -/
theorem grouped_lowering_preserves_meaning (hnull : NullOfType engine) (hselect : select engine q = .ok planned)
    (haggregate : q.isAggregate = true) (hsignless : ∀ e ∈ q.groupBy ++ groupedExprs q, Signless e) :
    ∃ aggregates mapped mapped', Phases engine q planned aggregates mapped mapped' ∧
      ∀ {V : Type} (M : Meaning V) (rows : List (ColumnBinding → V)) (row : Column → V) (r : ColumnBinding → V)
        (lower : Lower) (n : Nat) (e : Expr) (d : DataFusion.Expr), Group M rows row q.groupBy aggregates →
        rows = [] ∨ r ∈ rows → lower.grouped = true ∧ (lower.mapped = mapped ∨ lower.mapped = mapped') →
        Windowless e → Signless e → lower.expr engine n e = .ok d →
        eval M row d = some (value M rows e r) := by
  obtain ⟨aggregates, mapped, mapped', hphases⟩ := select_phases hselect haggregate
  refine ⟨aggregates, mapped, mapped', hphases, fun M rows row r lower n e d hgroup hr hlower hw hs h => ?_⟩
  exact expr_value hnull (hphases.faithful hsignless hgroup hr hlower) hw hs h

def keyColumn : Expr := ⟨.int64, true, .column ⟨⟨0⟩, 0⟩⟩

def countStar : Expr := ⟨.int64, false, .aggregate ⟨.count, [], false, none⟩⟩

/-- `k + COUNT(*)`. -/
def total : Expr := ⟨.int64, true, .binary .add keyColumn countStar⟩

/-- `SELECT k + COUNT(*) FROM t GROUP BY k`, of a table with two columns. -/
def totals : Bound.Select :=
  ⟨[keyColumn], none, [], true, some ⟨⟨0⟩, ⟨0, ⟨"t", [⟨"k", .int64, true⟩, ⟨"v", .int64, true⟩]⟩⟩⟩,
    [⟨"total", total⟩], none⟩

/-- The one operator adds, and every aggregate counts the rows of the group. -/
def adding : Meaning Nat :=
  ⟨fun _ => 0, id, id, fun _ => (· + ·), fun _ => id, id, id, fun _ _ rows => rows.length, 0⟩

theorem standard_nullOfType : NullOfType .standard := by
  intro t v h
  cases h
  cases t <;> rfl

theorem total_signless : Signless total ∧ Signless keyColumn := by
  constructor <;> apply signless_of_no_float <;>
    simp [Expr.scalars_eq, total, keyColumn, countStar, Expr.operands, Bound.ExprKind.literals]

/-- On a group of two rows with the key 5 the value is 7. -/
theorem totals_preserve_meaning : ∃ planned aggregates mapped mapped' schema d,
    select .standard totals = .ok planned ∧ Phases .standard totals planned aggregates mapped mapped' ∧
      Lower.expr .standard ⟨schema, true, mapped'⟩ 256 total = .ok d ∧
        eval adding (fun c => if c = .fromName (groupName 0) then 5 else 2) d = some 7 := by
  obtain ⟨planned, hselect⟩ := exists_of_toBool (x := select .standard totals) (by decide +kernel)
  obtain ⟨aggregates, mapped, mapped', hphases, hmeaning⟩ :=
    grouped_lowering_preserves_meaning standard_nullOfType hselect rfl (by
      simpa [totals, groupedExprs] using total_signless.symm)
  obtain rfl : [countStar] = aggregates := Except.ok.inj (Eq.trans (by rfl) hphases.collected)
  obtain ⟨windows, input, grouped, filtered, windowed, sorted, _, _, _, _, _, hproject⟩ := hphases.run
  obtain ⟨exprs, hexprs, _⟩ := except_bind_ok.1 hproject
  obtain ⟨_, houtput, _⟩ := except_bind_ok.1 hexprs
  obtain ⟨d, hd, _⟩ := except_bind_ok.1 houtput
  refine ⟨planned, _, mapped, mapped', sorted.schema, d, hselect, hphases, hd, ?_⟩
  refine hmeaning adding [fun b => if b.columnIndex = 0 then 5 else 1, fun b => if b.columnIndex = 0 then 5 else 2]
    _ _ _ 256 total d ?_ (.inr mem_cons_self) ⟨rfl, .inr rfl⟩ ?_ total_signless.1 hd
  · refine ⟨nofun, fun {i g} hg r hr => ?_, fun {j a} ha r => ?_, fun _ _ _ => rfl⟩
    · obtain ⟨rfl, rfl⟩ : i = 0 ∧ g = keyColumn := by
        obtain _ | i := i
        · exact ⟨rfl, (Option.some.inj hg).symm⟩
        · cases hg
      simp only [mem_cons, not_mem_nil, or_false] at hr
      rcases hr with rfl | rfl <;> rfl
    · obtain ⟨rfl, rfl⟩ : j = 0 ∧ a = countStar := by
        obtain _ | j := j
        · exact ⟨rfl, (Option.some.inj ha).symm⟩
        · cases ha
      exact if_neg (by decide +kernel)
  · rintro x (_ | ⟨_, hc, hx⟩)
    · rfl
    · simp only [total, Expr.operands, mem_cons, not_mem_nil, or_false] at hc
      rcases hc with rfl | rfl <;> cases hx with
      | self => rfl
      | operand _ hc => cases hc

end ChiliDB.Planner

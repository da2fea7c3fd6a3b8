import ChiliDB.Lib.Fallible
import ChiliDB.Planner.Planning

/-!
# What the parts of the planner return

* `fits` — no path of an expression has more than so many nodes, and `checkDepth_eq` — that is what
  `checkDepth` checks.
* `Reached`, `collect_ok` — what `collect` returns.
* `predicate_failsOnly` and the rules below it — the errors of a phase are those of the expressions it lowers, and
  those of DataFusion.
-/

namespace ChiliDB.Planner

open Effect List
open ChiliDB.Bound (Expr)
open DataFusion (LogicalPlan Engine DFSchema)

variable {Err : Type} {e c x : Expr} {windows : Bool} {n : Nat}

theorem lift_eq_ok {α : Type} {r : Except Err α} {a : α} : lift r = .ok a ↔ r = .ok a := by cases r <;> simp [lift]

/-! ## Depth -/

/-- No path from the root has more than `n` nodes. -/
def fits : Nat → Expr → Bool
  | 0, _ => false
  | n + 1, e => e.operands.all fun c => fits n c

theorem fits_succ : fits (n + 1) e = true ↔ ∀ c ∈ e.operands, fits n c = true := by simp [fits]

theorem fits_mono : ∀ {n m : Nat} {e : Expr}, n ≤ m → fits n e = true → fits m e = true
  | 0, _, _, _, h => by cases h
  | n + 1, 0, _, hle, _ => by omega
  | n + 1, m + 1, e, hle, h => by
    rw [fits_succ] at h ⊢
    exact fun c hc => fits_mono (by omega) (h c hc)

theorem fits_operand (h : fits n e = true) (hc : c ∈ e.operands) : fits n c = true := by
  cases n with
  | zero => cases h
  | succ n => exact fits_mono (Nat.le_succ n) (fits_succ.1 h c hc)

theorem checkStack_eq (stack : List (Expr × Nat)) :
    (checkStack stack : PlanResult Err Unit) =
      if stack.all fun p => fits (257 - p.2) p.1 then .ok () else .error .expressionTooDeep := by
  induction stack using checkStack.induct with
  | case1 => simp [checkStack]
  | case2 e n stack hn =>
    have h0 : 257 - n = 0 := by omega
    simp [checkStack, hn, h0, fits]
  | case3 e n stack hn ih =>
    have hn' : 257 - n = (257 - (n + 1)) + 1 := by omega
    have hoperands : ((children e).reverse.map fun c => (c, n + 1)).all (fun p => fits (257 - p.2) p.1) =
        fits (257 - n) e := by
      rw [hn']
      simp [fits, children, Function.comp_def]
    rw [checkStack, if_neg hn, ih, all_append, hoperands, all_cons]

/-- The limit is 256 nodes on a path. -/
theorem checkDepth_eq (e : Expr) :
    (checkDepth e : PlanResult Err Unit) = if fits 256 e then .ok () else .error .expressionTooDeep := by
  simp [checkDepth, checkStack_eq]

/-! ## Collections -/

/-- `x` is met in `e`, below nothing that is collected. -/
inductive Reached (windows : Bool) : Expr → Expr → Prop where
  | self (e : Expr) : Reached windows e e
  | operand {e c x : Expr} : selected windows e = false → c ∈ e.operands → Reached windows c x →
      Reached windows e x

theorem Reached.fits (h : Reached windows e x) (he : fits n e = true) : fits n x = true := by
  induction h with
  | self => exact he
  | operand _ hc _ ih => exact ih (fits_operand he hc)

theorem Reached.trans (h : Reached windows e c) (hx : Reached windows c x) : Reached windows e x := by
  induction h with
  | self => exact hx
  | operand hnot hc _ ih => exact .operand hnot hc (ih hx)

theorem aggregate_of_selected (h : selected false e = true) : ∃ a, e.kind = .aggregate a := by
  unfold selected at h
  split at h
  · cases h
  · exact ⟨_, ‹_›⟩
  · cases h

theorem window_of_selected (h : selected true e = true) : ∃ w, e.kind = .window w := by
  unfold selected at h
  split at h
  · exact ⟨_, ‹_›⟩
  · cases h
  · cases h

/-- What `collect` adds to `found`: what is selected and met in one of `es`, once. -/
structure Collected (windows : Bool) (es found found' : List Expr) : Prop where
  kept : found ⊆ found'
  sound : ∀ x ∈ found', x ∈ found ∨ ∃ e ∈ es, Reached windows e x ∧ selected windows x = true
  complete : ∀ e ∈ es, ∀ x, Reached windows e x → selected windows x = true → x.eq x = true →
    ∃ f ∈ found', f.eq x = true

theorem Collected.nil (found : List Expr) : Collected windows [] found found :=
  ⟨.refl _, fun _ hx => .inl hx, by simp⟩

variable {es found : List Expr}

theorem Collected.cons {found1 found2 : List Expr} (h1 : Collected windows [e] found found1)
    (h2 : Collected windows es found1 found2) : Collected windows (e :: es) found found2 := by
  constructor
  · exact fun x hx => h2.kept (h1.kept hx)
  · intro x hx
    rcases h2.sound x hx with hx | ⟨e', he', hx⟩
    · rcases h1.sound x hx with hx | ⟨e', he', hx⟩
      · exact .inl hx
      · exact .inr ⟨e', by simpa using .inl (by simpa using he'), hx⟩
    · exact .inr ⟨e', mem_cons_of_mem _ he', hx⟩
  · intro e' he' x hx hselected hself
    rcases mem_cons.1 he' with rfl | he'
    · obtain ⟨f, hf, hfx⟩ := h1.complete e' mem_cons_self x hx hselected hself
      exact ⟨f, h2.kept hf, hfx⟩
    · exact h2.complete e' he' x hx hselected hself

theorem foldlM_collected {f : List Expr → Expr → PlanResult Err (List Expr)} :
    ∀ {es found found' : List Expr},
      (∀ e ∈ es, ∀ {found found'}, f found e = .ok found' → Collected windows [e] found found') →
      es.foldlM f found = .ok found' → Collected windows es found found'
  | [], found, found', _, h => by
    cases h
    exact .nil found
  | e :: es, found, found', hf, h => by
    rw [foldlM_cons] at h
    obtain ⟨found1, h1, h⟩ := except_bind_ok.1 h
    exact (hf e mem_cons_self h1).cons (foldlM_collected (fun e' he' => hf e' (mem_cons_of_mem _ he')) h)

theorem collect_ok : ∀ {levels : Nat} {e : Expr} {found found' : List Expr},
    (collect windows levels e found : PlanResult Err _) = .ok found' →
    Collected windows [e] found found'
  | 0, _, _, _, h => by cases h
  | levels + 1, e, found, found', h => by
    unfold collect at h
    split at h
    · rename_i hselected
      have hreached {x : Expr} (hx : Reached windows e x) : x = e := by
        cases hx with
        | self => rfl
        | operand hnot => simp [hselected] at hnot
      cases h
      split
      · rename_i hfound
        refine ⟨.refl _, fun _ hx => .inl hx, ?_⟩
        simp only [mem_singleton, forall_eq]
        intro x hx _ _
        rw [hreached hx]
        simpa using hfound
      · refine ⟨subset_append_left _ _, ?_, ?_⟩
        · intro x hx
          rcases mem_append.1 hx with hx | hx
          · exact .inl hx
          · rw [mem_singleton.1 hx]
            exact .inr ⟨e, mem_singleton_self e, .self e, hselected⟩
        · simp only [mem_singleton, forall_eq]
          intro x hx _ hself
          rw [hreached hx] at hself ⊢
          exact ⟨e, by simp, hself⟩
    · rename_i hselected
      have hoperands := foldlM_collected (fun c _ => collect_ok) h
      refine ⟨hoperands.kept, ?_, ?_⟩
      · intro x hx
        rcases hoperands.sound x hx with hx | ⟨c, hc, hx, hx'⟩
        · exact .inl hx
        · exact .inr ⟨e, mem_singleton_self e, .operand (by simpa using hselected) hc hx, hx'⟩
      · simp only [mem_singleton, forall_eq]
        intro x hx hx' hself
        cases hx with
        | self => exact absurd hx' hselected
        | operand _ hc hx => exact hoperands.complete _ hc x hx hx' hself

theorem collectAll_ok (h : (collectAll windows es : PlanResult Err _) = .ok found) :
    Collected windows es [] found :=
  foldlM_collected (fun _ _ => collect_ok) h

/-! ## Phases -/

section

variable {engine : Engine Err} {lower : Lower} {input input' : LogicalPlan}
  {mapped mapped' : Mapped}

/-- The input itself, or a filter of it. -/
def Filtered (engine : Engine Err) (input input' : LogicalPlan) : Prop :=
  input' = input ∨ ∃ p schema, engine.filter p input = .ok schema ∧ input' = .filter p input schema

theorem filterBy_ok {p : DataFusion.Expr} (h : filterBy engine p input = .ok input') :
    Filtered engine input input' := by
  obtain ⟨schema, hschema, h⟩ := except_bind_ok.1 h
  cases h
  exact .inr ⟨p, schema, lift_eq_ok.1 hschema, rfl⟩

theorem whereFilter_ok {filter : Option Expr} (h : whereFilter engine input filter = .ok input') :
    Filtered engine input input' := by
  cases filter with
  | none =>
    cases h
    exact .inl rfl
  | some p =>
    obtain ⟨_, _, h⟩ := except_bind_ok.1 h
    obtain ⟨p, _, h⟩ := except_bind_ok.1 h
    exact filterBy_ok h

/-- A computed value is read from its column, in the type of the expression. -/
theorem resultColumn_ok {schema : DFSchema} {value c : DataFusion.Expr} {name : String}
    (h : resultColumn engine schema e value name = .ok c) :
    c = .column (.fromName name) ∨ c = cast (.column (.fromName name)) e.dataType := by
  obtain ⟨t, _, h⟩ := except_bind_ok.1 h
  cases h
  split
  · exact .inr rfl
  · exact .inl rfl

/-- The column that stands for an aggregate. -/
def AggregateColumn (p : Expr × Nat) (m : Expr × DataFusion.Expr) : Prop :=
  m.1 = p.1 ∧ (m.2 = .column (.fromName (aggregateName p.2)) ∨
    m.2 = cast (.column (.fromName (aggregateName p.2))) p.1.dataType)

theorem groupPhase_ok {groupBy aggregates : List Expr}
    (h : groupPhase engine groupBy aggregates input = .ok (input', mapped)) :
    (∃ groups aggs schema, input' = .aggregate input groups aggs schema) ∧
      ∃ computed, mapped = groupBy.zipIdx.map groupColumn ++ computed ∧
        Forall₂ AggregateColumn aggregates.zipIdx computed := by
  obtain ⟨groups, _, h⟩ := except_bind_ok.1 h
  obtain ⟨computed, hcomputed, h⟩ := except_bind_ok.1 h
  obtain ⟨schema, _, h⟩ := except_bind_ok.1 h
  cases h
  refine ⟨⟨_, _, _, rfl⟩, _, rfl, ?_⟩
  rw [forall₂_map_right_iff]
  refine (mapM_ok.1 hcomputed).imp fun p r hr => ?_
  obtain ⟨value, _, hr⟩ := except_bind_ok.1 hr
  obtain ⟨c, hc, hr⟩ := except_bind_ok.1 hr
  cases hr
  exact ⟨rfl, resultColumn_ok hc⟩

theorem havingPhase_ok {grouped : Bool} {having : Option Expr}
    (h : havingPhase engine grouped mapped input having = .ok input') : Filtered engine input input' := by
  cases having with
  | none =>
    cases h
    exact .inl rfl
  | some p =>
    obtain ⟨p, _, h⟩ := except_bind_ok.1 h
    exact filterBy_ok h

theorem windowPhase_cons {ws : List (Expr × Nat)} {r : LogicalPlan × Mapped}
    (h : windowPhase engine lower ((e, n) :: ws) (input, mapped) = .ok r) :
    ∃ value c schema, windowValue engine lower e = .ok value ∧
      engine.window [.alias value (windowName n)] input = .ok schema ∧
      windowPhase engine lower ws (.window [.alias value (windowName n)] input schema, mapped ++ [(e, c)]) = .ok r := by
  obtain ⟨value, hvalue, h⟩ := except_bind_ok.1 h
  obtain ⟨c, _, h⟩ := except_bind_ok.1 h
  obtain ⟨schema, hschema, h⟩ := except_bind_ok.1 h
  exact ⟨value, c, schema, hvalue, lift_eq_ok.1 hschema, h⟩

/-- Every window has a column. -/
theorem windowPhase_mapped : ∀ {ws : List (Expr × Nat)} {input : LogicalPlan} {mapped : Mapped},
    windowPhase engine lower ws (input, mapped) = .ok (input', mapped') →
    ∃ computed, mapped' = mapped ++ computed ∧ computed.map Prod.fst = ws.map Prod.fst
  | [], _, mapped, h => by
    cases h
    exact ⟨[], by simp, rfl⟩
  | (e, n) :: ws, input, mapped, h => by
    obtain ⟨value, c, schema, _, _, h⟩ := windowPhase_cons h
    obtain ⟨computed, rfl, hcomputed⟩ := windowPhase_mapped h
    refine ⟨(e, c) :: computed, by simp, ?_⟩
    rw [map_cons, map_cons, hcomputed]

theorem orderPhase_ok {os : List (Bound.OrderByExpr Expr)} (h : orderPhase engine lower os input = .ok input') :
    input' = input ∨ ∃ exprs, input' = .sort exprs input (engine.sort exprs input) := by
  unfold orderPhase at h
  split at h
  · cases h
    exact .inl rfl
  · obtain ⟨exprs, _, h⟩ := except_bind_ok.1 h
    cases h
    exact .inr ⟨exprs, rfl⟩

end

/-! ## Errors -/

section

variable {E : PlanError Err → Prop} {engine : Engine Err} {lower : Lower} {es : List Expr} {input : LogicalPlan}

/-- A condition holds, or the error of the check for it is allowed. -/
def Checked (E : PlanError Err → Prop) (p : Prop) : Prop := p ∨ ∀ message, E (.invalidBound message)

theorem reject_failsOnly {p : Prop} [Decidable p] {message : String} (h : Checked E (¬ p)) :
    FailsOnly E (reject p message) := by
  unfold reject
  split
  · rename_i hp
    exact .error ((h.resolve_left (not_not_intro hp)) message)
  · exact .ok ()

theorem collectAll_failsOnly (h : ∀ e ∈ es, ∀ found, FailsOnly E (collect windows 256 e found)) :
    FailsOnly E (collectAll windows es) :=
  .foldlM fun found e he => h e he found

theorem expressions_failsOnly (h : ∀ e ∈ es, FailsOnly E (lower.expr engine 256 e)) : FailsOnly E (lower.expressions engine es) :=
  .mapM h

theorem predicate_failsOnly (hboolean : Checked E (e.dataType = .boolean)) (h : FailsOnly E (lower.expr engine 256 e)) :
    FailsOnly E (lower.predicate engine e) := by
  unfold Lower.predicate
  split
  · rename_i hne
    exact .error ((hboolean.resolve_left hne) _)
  · exact h

variable {os : List (Bound.OrderByExpr Expr)} {groupBy aggregates : List Expr} {grouped : Bool}

theorem order_failsOnly (h : ∀ o ∈ os, FailsOnly E (lower.expr engine 256 o.expr)) : FailsOnly E (lower.order engine os) :=
  .mapM fun o ho => .bind (h o ho) fun _ _ => .ok _

theorem arguments_failsOnly {f : Bound.AggregateFunction} (h : ∀ e ∈ es, FailsOnly E (lower.expr engine 256 e)) :
    FailsOnly E (arguments engine lower f es) := by
  unfold arguments
  split
  · exact .ok _
  · exact expressions_failsOnly h

theorem aggregateValue_failsOnly {a : Bound.AggregateExpr Expr} (ha : e.kind = .aggregate a)
    (h : ∀ c ∈ e.operands, FailsOnly E (lower.expr engine 256 c))
    (hfilter : ∀ c ∈ a.filter.toList, Checked E (c.dataType = .boolean)) :
    FailsOnly E (aggregateValue engine lower e) := by
  simp only [Expr.operands, ha, mem_append] at h
  simp only [aggregateValue, ha]
  apply FailsOnly.bind (arguments_failsOnly fun c hc => h c (.inl hc))
  intro args _
  apply FailsOnly.bind (.option_mapM fun c hc => predicate_failsOnly (hfilter c hc) (h c (.inr hc)))
  exact fun _ _ => .ok _

theorem windowValue_failsOnly {w : Bound.WindowExpr Expr} (hw : e.kind = .window w)
    (h : ∀ c ∈ e.operands, FailsOnly E (lower.expr engine 256 c))
    (hfilter : ∀ c ∈ w.filter.toList, Checked E (c.dataType = .boolean)) : FailsOnly E (windowValue engine lower e) := by
  simp only [Expr.operands, hw, mem_append, mem_map] at h
  simp only [windowValue, hw]
  have hargs : FailsOnly E (windowArguments engine lower w.function w.args) := by
    unfold windowArguments
    split
    · exact arguments_failsOnly fun c hc => h c (.inl (.inl (.inl hc)))
    · exact expressions_failsOnly fun c hc => h c (.inl (.inl (.inl hc)))
  apply FailsOnly.bind hargs
  intro args _
  apply FailsOnly.bind (expressions_failsOnly fun c hc => h c (.inl (.inr hc)))
  intro partitionBy _
  apply FailsOnly.bind (order_failsOnly fun o ho => h o.expr (.inr ⟨o, ho, rfl⟩))
  intro orderBy _
  apply FailsOnly.bind (.option_mapM fun c hc => predicate_failsOnly (hfilter c hc) (h c (.inl (.inl (.inr hc)))))
  exact fun _ _ => .ok _

variable (hE : ∀ error, E (.dataFusion error))
include hE

theorem lift_failsOnly {α : Type} (x : Except Err α) : FailsOnly E (lift x) := by
  cases x with
  | error error => exact .error (hE error)
  | ok a => exact .ok a

theorem literal_failsOnly (s : Scalar) (t : LogicalType) : FailsOnly E (literal engine s t) :=
  .bind (lift_failsOnly hE _) fun _ _ => .ok _

theorem filterBy_failsOnly (p : DataFusion.Expr) : FailsOnly E (filterBy engine p input) :=
  .bind (lift_failsOnly hE _) fun _ _ => .ok _

theorem resultColumn_failsOnly {schema : DFSchema} {value : DataFusion.Expr} {name : String} :
    FailsOnly E (resultColumn engine schema e value name) :=
  .bind (lift_failsOnly hE _) fun _ _ => .ok _

theorem whereFilter_failsOnly {filter : Option Expr} (h : ∀ e ∈ filter.toList, FailsOnly E (checkDepth e) ∧
    Checked E (e.dataType = .boolean) ∧ FailsOnly E ((Lower.raw input.schema).expr engine 256 e)) :
    FailsOnly E (whereFilter engine input filter) := by
  cases filter with
  | none => exact .ok _
  | some p =>
    obtain ⟨hdepth, hboolean, hexpr⟩ := h p (by simp)
    apply FailsOnly.bind hdepth
    intro _ _
    apply FailsOnly.bind (predicate_failsOnly hboolean hexpr)
    exact fun p _ => filterBy_failsOnly hE p

theorem groupPhase_failsOnly (hgroups : ∀ g ∈ groupBy, FailsOnly E ((Lower.raw input.schema).expr engine 256 g))
    (haggregates : ∀ a ∈ aggregates, FailsOnly E (aggregateValue engine (Lower.raw input.schema) a)) :
    FailsOnly E (groupPhase engine groupBy aggregates input) := by
  apply FailsOnly.bind
  · refine .mapM fun p hp => ?_
    exact .bind (hgroups p.1 (fst_mem_of_mem_zipIdx hp)) fun _ _ => .ok _
  · intro groups _
    apply FailsOnly.bind
    · refine .mapM fun p hp => ?_
      apply FailsOnly.bind (haggregates p.1 (fst_mem_of_mem_zipIdx hp))
      intro value _
      exact .bind (resultColumn_failsOnly hE) fun _ _ => .ok _
    · intro computed _
      exact .bind (lift_failsOnly hE _) fun _ _ => .ok _

theorem groupingPhase_failsOnly (hgroups : ∀ g ∈ groupBy, FailsOnly E ((Lower.raw input.schema).expr engine 256 g))
    (haggregates : ∀ a ∈ aggregates, FailsOnly E (aggregateValue engine (Lower.raw input.schema) a)) :
    FailsOnly E (groupingPhase engine grouped groupBy aggregates input) := by
  unfold groupingPhase
  split
  · exact groupPhase_failsOnly hE hgroups haggregates
  · exact .ok _

theorem havingPhase_failsOnly {mapped : Mapped} {having : Option Expr}
    (h : ∀ e ∈ having.toList, Checked E (e.dataType = .boolean) ∧
      FailsOnly E (Lower.expr engine ⟨input.schema, grouped, mapped⟩ 256 e)) :
    FailsOnly E (havingPhase engine grouped mapped input having) := by
  cases having with
  | none => exact .ok _
  | some p =>
    obtain ⟨hboolean, hexpr⟩ := h p (by simp)
    apply FailsOnly.bind (predicate_failsOnly hboolean hexpr)
    exact fun p _ => filterBy_failsOnly hE p

theorem windowPhase_failsOnly : ∀ {ws : List (Expr × Nat)} {r : LogicalPlan × Mapped},
    (∀ p ∈ ws, FailsOnly E (windowValue engine lower p.1)) → FailsOnly E (windowPhase engine lower ws r)
  | [], _, _ => .ok _
  | (e, n) :: ws, (input, mapped), h => by
    apply FailsOnly.bind (h (e, n) mem_cons_self)
    intro value _
    apply FailsOnly.bind (resultColumn_failsOnly hE)
    intro c _
    apply FailsOnly.bind (lift_failsOnly hE _)
    exact fun _ _ => windowPhase_failsOnly fun p hp => h p (mem_cons_of_mem _ hp)

omit hE in
theorem orderPhase_failsOnly (h : ∀ o ∈ os, FailsOnly E (lower.expr engine 256 o.expr)) :
    FailsOnly E (orderPhase engine lower os input) := by
  unfold orderPhase
  split
  · exact .ok _
  · exact .bind (order_failsOnly h) fun _ _ => .ok _

theorem projectPhase_failsOnly {ps : List Bound.NamedExpr} (h : ∀ p ∈ ps, FailsOnly E (lower.expr engine 256 p.expr)) :
    FailsOnly E (projectPhase engine lower ps input) := by
  apply FailsOnly.bind
  · refine .mapM fun p hp => ?_
    exact .bind (h p.1 (fst_mem_of_mem_zipIdx hp)) fun _ _ => .ok _
  · intro exprs _
    apply FailsOnly.bind (lift_failsOnly hE _)
    intro schema _
    apply FailsOnly.bind (lift_failsOnly hE _)
    exact fun _ _ => .ok _

theorem sourcePlan_failsOnly (source : Option Bound.Table) : FailsOnly E (sourcePlan engine source) := by
  cases source with
  | none => exact .ok _
  | some table => exact lift_failsOnly hE _

omit hE in
theorem insertRow_failsOnly {columns : List ColumnSchema} (hwidth : Checked E (es.length = columns.length))
    (h : ∀ p ∈ es.zip columns, FailsOnly E (checkDepth p.1) ∧ Checked E (p.1.dataType = p.2.dataType) ∧
      FailsOnly E ((Lower.raw .empty).expr engine 256 p.1)) : FailsOnly E (insertRow engine columns es) := by
  apply FailsOnly.bind (reject_failsOnly (hwidth.imp_left not_not_intro))
  intro _ _
  refine .mapM fun p hp => ?_
  obtain ⟨hdepth, htype, hexpr⟩ := h p hp
  apply FailsOnly.bind hdepth
  intro _ _
  apply FailsOnly.bind (reject_failsOnly (htype.imp_left not_not_intro))
  exact fun _ _ => hexpr

theorem planInsert_failsOnly {i : Bound.Insert}
    (hrows : ∀ row ∈ i.rows, FailsOnly E (insertRow engine i.table.source.schema.columns row))
    (hvalues : Checked E (∀ rows schema p, engine.values rows schema = .ok p →
      ∃ rows' schema', p = .values rows' schema')) :
    FailsOnly E (planInsert engine i) := by
  apply FailsOnly.bind (.mapM hrows)
  intro rows _
  apply FailsOnly.bind (lift_failsOnly hE _)
  intro schema _
  apply FailsOnly.bind (lift_failsOnly hE _)
  intro p hp
  split
  · exact .bind (lift_failsOnly hE _) fun _ _ => .ok _
  · rename_i hother
    refine .error (hvalues.resolve_left (fun hvalues => ?_) _)
    obtain ⟨rows', schema', rfl⟩ := hvalues rows schema p (lift_eq_ok.1 hp)
    exact hother rows' schema' rfl

theorem planUpdate_failsOnly {u : Bound.Update}
    (hfilter : ∀ input, scan engine u.table true = .ok input → FailsOnly E (whereFilter engine input u.filter))
    (h : ∀ input input', scan engine u.table true = .ok input → whereFilter engine input u.filter = .ok input' →
      ∀ a ∈ u.assignments, FailsOnly E (checkDepth a.value) ∧
        Checked E (∃ c, u.table.source.schema.columns[a.columnIndex]? = some c ∧ c.dataType = a.value.dataType) ∧
        FailsOnly E ((Lower.raw input'.schema).expr engine 256 a.value)) :
    FailsOnly E (planUpdate engine u) := by
  apply FailsOnly.bind (lift_failsOnly hE _)
  intro input hinput
  replace hinput := lift_eq_ok.1 hinput
  apply FailsOnly.bind (hfilter input hinput)
  intro input' hinput'
  apply FailsOnly.bind
  · refine .mapM fun p hp => ?_
    obtain ⟨hdepth, htype, hexpr⟩ := h input input' hinput hinput' p.1 (fst_mem_of_mem_zipIdx hp)
    apply FailsOnly.bind hdepth
    intro _ _
    split
    · rename_i hnone
      exact .error (htype.resolve_left (by simp [hnone]) _)
    · rename_i c hc
      apply FailsOnly.bind (reject_failsOnly (htype.imp_left (by simp [hc])))
      intro _ _
      exact .bind hexpr fun _ _ => .ok _
  · intro values _
    apply FailsOnly.bind (lift_failsOnly hE _)
    intro schema _
    exact .bind (lift_failsOnly hE _) fun _ _ => .ok _

theorem planDelete_failsOnly {d : Bound.Delete}
    (hfilter : ∀ input, scan engine d.table true = .ok input → FailsOnly E (whereFilter engine input d.filter)) :
    FailsOnly E (planDelete engine d) := by
  apply FailsOnly.bind (lift_failsOnly hE _)
  intro input hinput
  apply FailsOnly.bind (hfilter input (lift_eq_ok.1 hinput))
  intro input' _
  apply FailsOnly.bind (lift_failsOnly hE _)
  intro schema _
  exact .bind (lift_failsOnly hE _) fun _ _ => .ok _

end

end ChiliDB.Planner

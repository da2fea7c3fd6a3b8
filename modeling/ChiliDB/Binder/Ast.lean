import ChiliDB.Binder.Schema
import ChiliDB.Lib.Ieee
import ChiliDB.Parser.Ast
import Mathlib.Algebra.Order.BigOperators.Group.List
import Mathlib.Algebra.Order.Group.Nat

/-!
# Bound statements

`crates/binder/src/ast.rs` and the scalars of `lib.rs`: statements with resolved columns, typed expressions
and explicit casts.

* `Expr.eq` — the derived `PartialEq`; floats in it compare with `==`.
* `Expr.canon` — an expression with its zeros unsigned, and `eq_iff` — that is what `Expr.eq` compares.
* `Expr.inductOn` — induction over the operands of an expression.

A table source is a shared handle whose schema does not change.
-/

namespace ChiliDB

open List

inductive Scalar where
  | null
  | boolean (v : Bool)
  | int32 (v : Int32)
  | int64 (v : Int64)
  | uint32 (v : UInt32)
  | float32 (v : Binary32)
  | float64 (v : Binary64)
  | string (v : String)
  deriving DecidableEq

/-- `Arc<dyn TableSource>`: where it is allocated, and its schema. -/
structure TableSource where
  address : Nat
  schema : TableSchema
  deriving DecidableEq

namespace Bound

open Sql (UnaryOp BinaryOp SortDirection NullOrder FrameUnits)

structure RelationId where
  id : UInt32
  deriving DecidableEq

structure ColumnBinding where
  relation : RelationId
  columnIndex : Nat
  deriving DecidableEq

structure Table where
  relation : RelationId
  source : TableSource
  deriving DecidableEq

inductive AggregateFunction where
  | count
  | sum
  | avg
  | min
  | max
  deriving DecidableEq

inductive WindowFunction where
  | aggregate (f : AggregateFunction)
  | rowNumber
  | rank
  | denseRank
  deriving DecidableEq

inductive FrameBound where
  | unboundedPreceding
  | preceding (n : UInt64)
  | currentRow
  | following (n : UInt64)
  | unboundedFollowing
  deriving DecidableEq

structure WindowFrame where
  units : FrameUnits
  start : FrameBound
  stop : FrameBound
  deriving DecidableEq

structure OrderByExpr (E : Type) where
  expr : E
  direction : SortDirection
  nulls : NullOrder

/-- A group aggregate; no argument is `COUNT(*)`. -/
structure AggregateExpr (E : Type) where
  function : AggregateFunction
  args : List E
  distinct : Bool
  filter : Option E

structure WindowExpr (E : Type) where
  function : WindowFunction
  args : List E
  distinct : Bool
  filter : Option E
  partitionBy : List E
  orderBy : List (OrderByExpr E)
  frame : WindowFrame

inductive ExprKind (E : Type) where
  | aggregate (a : AggregateExpr E)
  | window (w : WindowExpr E)
  | literal (s : Scalar)
  | column (b : ColumnBinding)
  | unary (op : UnaryOp) (expr : E)
  | binary (op : BinaryOp) (left right : E)
  /-- To the type of the expression. -/
  | cast (expr : E)
  | isNull (expr : E) (negated : Bool)

structure Expr where
  dataType : LogicalType
  nullable : Bool
  kind : ExprKind Expr

structure NamedExpr where
  name : String
  expr : Expr

structure Select where
  groupBy : List Expr
  having : Option Expr
  orderBy : List (OrderByExpr Expr)
  isAggregate : Bool
  source : Option Table
  projection : List NamedExpr
  filter : Option Expr

/-- Rows in the order of the target's columns. -/
structure Insert where
  table : Table
  rows : List (List Expr)

structure Assignment where
  columnIndex : Nat
  value : Expr

structure Update where
  table : Table
  assignments : List Assignment
  filter : Option Expr

structure Delete where
  table : Table
  filter : Option Expr

inductive Statement where
  | select (q : Select)
  | createTable (d : CreateTable)
  | insert (i : Insert)
  | update (u : Update)
  | delete (d : Delete)
  | begin
  | commit
  | rollback

/-! ## Operands -/

/-- The operands of an expression, those of an aggregate among them. -/
def Expr.operands (e : Expr) : List Expr :=
  match e.kind with
  | .unary _ c | .cast c | .isNull c _ => [c]
  | .binary _ l r => [l, r]
  | .aggregate a => a.args ++ a.filter.toList
  | .window w => w.args ++ w.filter.toList ++ w.partitionBy ++ w.orderBy.map fun o => o.expr
  | .literal _ | .column _ => []

theorem sum_sizeOf_le (es : List Expr) : (es.map sizeOf).sum ≤ sizeOf es := by
  induction es with
  | nil => simp
  | cons e es ih =>
    simp only [map_cons, sum_cons, cons.sizeOf_spec]
    omega

theorem sum_sizeOf_orders_le (os : List (OrderByExpr Expr)) :
    ((os.map fun o => o.expr).map sizeOf).sum ≤ sizeOf os := by
  induction os with
  | nil => simp
  | cons o os ih =>
    obtain ⟨e, direction, nulls⟩ := o
    simp only [map_cons, sum_cons, cons.sizeOf_spec, OrderByExpr.mk.sizeOf_spec]
    omega

theorem sum_sizeOf_toList_le (o : Option Expr) : (o.toList.map sizeOf).sum ≤ sizeOf o := by
  cases o with
  | none => simp
  | some e => simp

/-- The operands together are smaller than the expression. -/
theorem Expr.sum_sizeOf_operands (e : Expr) : (e.operands.map sizeOf).sum < sizeOf e := by
  obtain ⟨t, n, k⟩ := e
  cases k with
  | literal s | column b => simp [operands]
  | unary op c | cast c | isNull c negated | binary op l r => simp [operands]; omega
  | aggregate a =>
    obtain ⟨f, args, d, filter⟩ := a
    have hargs := sum_sizeOf_le args
    have hfilter := sum_sizeOf_toList_le filter
    simp [operands]
    omega
  | window w =>
    obtain ⟨f, args, d, filter, partitionBy, orderBy, frame⟩ := w
    have hargs := sum_sizeOf_le args
    have hfilter := sum_sizeOf_toList_le filter
    have hpartition := sum_sizeOf_le partitionBy
    have horder := sum_sizeOf_orders_le orderBy
    simp only [operands, map_append, sum_append, mk.sizeOf_spec, ExprKind.window.sizeOf_spec,
      WindowExpr.mk.sizeOf_spec]
    omega

theorem Expr.sizeOf_operand {e c : Expr} (h : c ∈ e.operands) : sizeOf c < sizeOf e := by
  have hsum := e.sum_sizeOf_operands
  have hmem := single_le_sum (fun _ _ => Nat.zero_le _) _ (mem_map_of_mem (f := sizeOf) h)
  omega

/-- Induction over the operands. -/
theorem Expr.inductOn {P : Expr → Prop} (step : ∀ e : Expr, (∀ c ∈ e.operands, P c) → P e) (e : Expr) : P e :=
  step e fun c _ => inductOn step c
termination_by sizeOf e
decreasing_by exact sizeOf_operand ‹_›

/-! ## Literals -/

/-- The literals in an expression. -/
def Expr.scalars (e : Expr) : List Scalar :=
  match e.kind with
  | .literal s => [s]
  | _ => e.operands.attach.flatMap fun c => c.1.scalars
termination_by sizeOf e
decreasing_by exact sizeOf_operand c.2

end Bound

namespace Scalar

/-- The derived `PartialEq`. -/
def eq : Scalar → Scalar → Bool
  | .float32 x, .float32 y => x.ieeeEq y
  | .float64 x, .float64 y => x.ieeeEq y
  | s, s' => s = s'

def canon : Scalar → Scalar
  | .float32 x => .float32 x.canon
  | .float64 x => .float64 x.canon
  | s => s

def isNan : Scalar → Bool
  | .float32 x => x.isNan
  | .float64 x => x.isNan
  | _ => false

theorem eq_iff {s s' : Scalar} : s.eq s' = true ↔ s.canon = s'.canon ∧ s.isNan = false := by
  cases s <;> cases s' <;> simp [eq, canon, isNan, Binary.ieeeEq_iff]

end Scalar

namespace Bound

/-! ## Equality -/

mutual

/-- The derived `PartialEq`. -/
def Expr.eq : Expr → Expr → Bool
  | ⟨t, n, k⟩, ⟨t', n', k'⟩ => t = t' && n = n' && kindEq k k'

def kindEq : ExprKind Expr → ExprKind Expr → Bool
  | .aggregate a, .aggregate a' => aggregateEq a a'
  | .window w, .window w' => windowEq w w'
  | .literal s, .literal s' => s.eq s'
  | .column b, .column b' => b = b'
  | .unary op c, .unary op' c' => op = op' && c.eq c'
  | .binary op l r, .binary op' l' r' => op = op' && l.eq l' && r.eq r'
  | .cast c, .cast c' => c.eq c'
  | .isNull c negated, .isNull c' negated' => c.eq c' && negated = negated'
  | _, _ => false

def aggregateEq : AggregateExpr Expr → AggregateExpr Expr → Bool
  | ⟨f, args, d, filter⟩, ⟨f', args', d', filter'⟩ =>
    f = f' && vecEq args args' && d = d' && optionEq filter filter'

def windowEq : WindowExpr Expr → WindowExpr Expr → Bool
  | ⟨f, args, d, filter, ps, os, frame⟩, ⟨f', args', d', filter', ps', os', frame'⟩ =>
    f = f' && vecEq args args' && d = d' && optionEq filter filter' && vecEq ps ps' && ordersEq os os' &&
      frame = frame'

def vecEq : List Expr → List Expr → Bool
  | [], [] => true
  | c :: cs, c' :: cs' => c.eq c' && vecEq cs cs'
  | _, _ => false

def optionEq : Option Expr → Option Expr → Bool
  | none, none => true
  | some c, some c' => c.eq c'
  | _, _ => false

def ordersEq : List (OrderByExpr Expr) → List (OrderByExpr Expr) → Bool
  | [], [] => true
  | ⟨c, direction, nulls⟩ :: os, ⟨c', direction', nulls'⟩ :: os' =>
    c.eq c' && direction = direction' && nulls = nulls' && ordersEq os os'
  | _, _ => false

end

mutual

/-- The expression with its zeros unsigned. -/
def Expr.canon : Expr → Expr
  | ⟨t, n, k⟩ => ⟨t, n, kindCanon k⟩

def kindCanon : ExprKind Expr → ExprKind Expr
  | .aggregate ⟨f, args, d, filter⟩ => .aggregate ⟨f, vecCanon args, d, optionCanon filter⟩
  | .window ⟨f, args, d, filter, ps, os, frame⟩ =>
    .window ⟨f, vecCanon args, d, optionCanon filter, vecCanon ps, ordersCanon os, frame⟩
  | .literal s => .literal s.canon
  | .column b => .column b
  | .unary op c => .unary op c.canon
  | .binary op l r => .binary op l.canon r.canon
  | .cast c => .cast c.canon
  | .isNull c negated => .isNull c.canon negated

def vecCanon : List Expr → List Expr
  | [] => []
  | c :: cs => c.canon :: vecCanon cs

def optionCanon : Option Expr → Option Expr
  | none => none
  | some c => some c.canon

def ordersCanon : List (OrderByExpr Expr) → List (OrderByExpr Expr)
  | [] => []
  | ⟨c, direction, nulls⟩ :: os => ⟨c.canon, direction, nulls⟩ :: ordersCanon os

end

/-- No literal of the expression is a NaN. -/
def Expr.Ordered (e : Expr) : Prop := ∀ s ∈ e.scalars, s.isNan = false

variable {e : Expr}

theorem Expr.mem_scalars {s : Scalar} : s ∈ e.scalars ↔ e.kind = .literal s ∨ ∃ c ∈ e.operands, s ∈ c.scalars := by
  rw [scalars]
  split
  · rename_i s' h
    have hnone : e.operands = [] := by simp [operands, h]
    simp [h, hnone, eq_comm]
  · rename_i h
    have hnot : e.kind ≠ .literal s := fun hs => h s hs
    simp [hnot]

theorem Expr.ordered_iff :
    e.Ordered ↔ (∀ s, e.kind = .literal s → s.isNan = false) ∧ ∀ c ∈ e.operands, c.Ordered := by
  unfold Ordered
  constructor
  · intro h
    exact ⟨fun s hs => h s (mem_scalars.2 (.inl hs)), fun c hc s hs => h s (mem_scalars.2 (.inr ⟨c, hc, hs⟩))⟩
  · rintro ⟨hown, hoperands⟩ s hs
    rcases mem_scalars.1 hs with hs | ⟨c, hc, hs⟩
    · exact hown s hs
    · exact hoperands c hc s hs

/-- What the derived equality compares: the expression up to the signs of its zeros; a NaN is not even
equal to itself. -/
def Expr.EqIff (e : Expr) : Prop := ∀ e' : Expr, e.eq e' = true ↔ e.canon = e'.canon ∧ e.Ordered

theorem vecEq_iff : ∀ {cs : List Expr}, (∀ c ∈ cs, c.EqIff) → ∀ cs' : List Expr,
    vecEq cs cs' = true ↔ vecCanon cs = vecCanon cs' ∧ ∀ c ∈ cs, c.Ordered
  | [], _, [] => by simp [vecEq, vecCanon]
  | [], _, c' :: cs' => by simp [vecEq, vecCanon]
  | c :: cs, _, [] => by simp [vecEq, vecCanon]
  | c :: cs, h, c' :: cs' => by
    have hhead := h c mem_cons_self c'
    have htail := vecEq_iff (fun c hc => h c (mem_cons_of_mem _ hc)) cs'
    simp only [vecEq, vecCanon, Bool.and_eq_true, hhead, htail, cons.injEq, forall_mem_cons]
    tauto

theorem optionEq_iff : ∀ {o : Option Expr}, (∀ c ∈ o.toList, c.EqIff) → ∀ o' : Option Expr,
    optionEq o o' = true ↔ optionCanon o = optionCanon o' ∧ ∀ c ∈ o.toList, c.Ordered
  | none, _, none => by simp [optionEq, optionCanon]
  | none, _, some c' => by simp [optionEq, optionCanon]
  | some c, _, none => by simp [optionEq, optionCanon]
  | some c, h, some c' => by simp [optionEq, optionCanon, h c (by simp) c']

theorem ordersEq_iff : ∀ {os : List (OrderByExpr Expr)}, (∀ c ∈ os.map fun o => o.expr, c.EqIff) →
    ∀ os' : List (OrderByExpr Expr), ordersEq os os' = true ↔
      ordersCanon os = ordersCanon os' ∧ ∀ c ∈ os.map fun o => o.expr, c.Ordered
  | [], _, [] => by simp [ordersEq, ordersCanon]
  | [], _, o' :: os' => by simp [ordersEq, ordersCanon]
  | o :: os, _, [] => by simp [ordersEq, ordersCanon]
  | ⟨c, direction, nulls⟩ :: os, h, ⟨c', direction', nulls'⟩ :: os' => by
    have hhead := h c mem_cons_self c'
    have htail := ordersEq_iff (fun c hc => h c (mem_cons_of_mem _ hc)) os'
    simp only [ordersEq, ordersCanon, Bool.and_eq_true, hhead, htail, decide_eq_true_eq, cons.injEq,
      OrderByExpr.mk.injEq, map_cons, forall_mem_cons]
    tauto

/-- **The derived equality ignores the signs of zeros, and nothing else but NaNs.** -/
theorem Expr.eq_iff (e : Expr) : e.EqIff := by
  induction e using inductOn with
  | step e ih =>
    intro e'
    obtain ⟨t, n, k⟩ := e
    obtain ⟨t', n', k'⟩ := e'
    rw [ordered_iff]
    cases k with
    | literal s => cases k' <;> simp [eq, kindEq, canon, kindCanon, operands, Scalar.eq_iff, and_assoc]
    | column b => cases k' <;> simp [eq, kindEq, canon, kindCanon, operands, and_assoc]
    | unary op c | cast c =>
      have hc := ih c (by simp [operands])
      cases k' <;> simp [eq, kindEq, canon, kindCanon, operands, hc _, and_assoc]
    | binary op l r =>
      have hl := ih l (by simp [operands])
      have hr := ih r (by simp [operands])
      cases k' <;> simp [eq, kindEq, canon, kindCanon, operands, hl _, hr _]
      tauto
    | isNull c negated =>
      have hc := ih c (by simp [operands])
      cases k' <;> simp [eq, kindEq, canon, kindCanon, operands, hc _]
      tauto
    | aggregate a =>
      obtain ⟨f, args, d, filter⟩ := a
      simp only [operands, mem_append, or_imp, forall_and] at ih
      have hargs := vecEq_iff ih.1
      have hfilter := optionEq_iff ih.2
      cases k' with
      | aggregate a' =>
        obtain ⟨f', args', d', filter'⟩ := a'
        simp only [eq, kindEq, aggregateEq, canon, kindCanon, operands, hargs _, hfilter _, Bool.and_eq_true,
          decide_eq_true_eq, mk.injEq, ExprKind.aggregate.injEq, AggregateExpr.mk.injEq, mem_append,
          or_imp, forall_and, reduceCtorEq, IsEmpty.forall_iff, implies_true, true_and]
        tauto
      | _ => simp [eq, kindEq, canon, kindCanon]
    | window w =>
      obtain ⟨f, args, d, filter, ps, os, frame⟩ := w
      simp only [operands, mem_append, or_imp, forall_and] at ih
      have hargs := vecEq_iff ih.1.1.1
      have hfilter := optionEq_iff ih.1.1.2
      have hps := vecEq_iff ih.1.2
      have hos := ordersEq_iff ih.2
      cases k' with
      | window w' =>
        obtain ⟨f', args', d', filter', ps', os', frame'⟩ := w'
        simp only [eq, kindEq, windowEq, canon, kindCanon, operands, hargs _, hfilter _, hps _, hos _,
          Bool.and_eq_true, decide_eq_true_eq, mk.injEq, ExprKind.window.injEq, WindowExpr.mk.injEq,
          mem_append, or_imp, forall_and, reduceCtorEq, IsEmpty.forall_iff, implies_true, true_and]
        tauto
      | _ => simp [eq, kindEq, canon, kindCanon]

theorem Expr.eq_refl (h : e.Ordered) : e.eq e = true := (e.eq_iff e).2 ⟨rfl, h⟩

theorem vecCanon_eq_map : ∀ cs : List Expr, vecCanon cs = cs.map Expr.canon
  | [] => rfl
  | c :: cs => by rw [vecCanon, vecCanon_eq_map cs, map_cons]

theorem toList_optionCanon (o : Option Expr) : (optionCanon o).toList = o.toList.map Expr.canon := by
  cases o <;> rfl

theorem ordersCanon_eq_map : ∀ os : List (OrderByExpr Expr),
    ordersCanon os = os.map fun o => ⟨o.expr.canon, o.direction, o.nulls⟩
  | [] => rfl
  | o :: os => by rw [ordersCanon, ordersCanon_eq_map os, map_cons]

theorem map_expr_ordersCanon (os : List (OrderByExpr Expr)) :
    ((ordersCanon os).map fun o => o.expr) = (os.map fun o => o.expr).map Expr.canon := by
  simp [ordersCanon_eq_map]

theorem Expr.operands_canon (e : Expr) : e.canon.operands = e.operands.map canon := by
  obtain ⟨t, n, k⟩ := e
  cases k <;> simp [canon, kindCanon, operands, vecCanon_eq_map, toList_optionCanon, map_expr_ordersCanon]

/-! ## Shape and literals -/

/-- A literal itself. -/
def ExprKind.literals {E : Type} : ExprKind E → List Scalar
  | .literal s => [s]
  | _ => []

theorem Expr.scalars_eq (e : Expr) : e.scalars = e.kind.literals ++ e.operands.flatMap scalars := by
  have hattach : (e.operands.attach.flatMap fun c => c.1.scalars) = e.operands.flatMap scalars := by
    simp [flatMap_subtype]
  rw [scalars, hattach]
  obtain ⟨t, n, k⟩ := e
  cases k <;> rfl

theorem Expr.length_literals_canon (e : Expr) : e.canon.kind.literals.length = e.kind.literals.length := by
  obtain ⟨t, n, k⟩ := e
  cases k <;> rfl

theorem Expr.length_scalars_canon (e : Expr) : e.canon.scalars.length = e.scalars.length := by
  induction e using inductOn with
  | step e ih =>
    rw [scalars_eq, scalars_eq, operands_canon, flatMap_map, length_append, length_append, length_flatMap,
      length_flatMap, map_congr_left ih, length_literals_canon]

theorem toList_injective {o o' : Option Expr} (h : o.toList = o'.toList) : o = o' := by
  cases o <;> cases o' <;> simp_all

theorem orders_injective : ∀ {os os' : List (OrderByExpr Expr)}, ordersCanon os = ordersCanon os' →
    (os.map fun o => o.expr) = (os'.map fun o => o.expr) → os = os'
  | [], [], _, _ => rfl
  | ⟨c, direction, nulls⟩ :: os, ⟨c', direction', nulls'⟩ :: os', h, hexprs => by
    simp only [ordersCanon, List.cons.injEq, OrderByExpr.mk.injEq, map_cons] at h hexprs
    rw [hexprs.1, h.1.2.1, h.1.2.2, orders_injective h.2 hexprs.2]

theorem length_of_vecCanon {cs cs' : List Expr} (h : vecCanon cs = vecCanon cs') : cs.length = cs'.length := by
  simpa [vecCanon_eq_map] using congrArg length h

/-- Literals apart, an expression is what the equality compares of it and its operands. -/
theorem Expr.eq_of_operands {e e' : Expr} (h : e.canon = e'.canon) (hoperands : e.operands = e'.operands)
    (hliteral : ∀ s s', e.kind = .literal s → e'.kind = .literal s' → s = s') : e = e' := by
  obtain ⟨t, n, k⟩ := e
  obtain ⟨t', n', k'⟩ := e'
  simp only [canon, mk.injEq] at h
  obtain ⟨rfl, rfl, h⟩ := h
  cases k <;> cases k' <;> simp [kindCanon] at h
  case literal.literal s s' => rw [hliteral s s' rfl rfl]
  case column.column => rw [h]
  case unary.unary | binary.binary | cast.cast | isNull.isNull => simp_all [operands]
  case aggregate.aggregate a a' =>
    obtain ⟨f, args, d, filter⟩ := a
    obtain ⟨f', args', d', filter'⟩ := a'
    dsimp only [operands] at h hoperands
    obtain ⟨rfl, hargs, rfl, _⟩ := h
    obtain ⟨rfl, hfilter⟩ := append_inj hoperands (length_of_vecCanon hargs)
    rw [toList_injective hfilter]
  case window.window w w' =>
    obtain ⟨f, args, d, filter, ps, os, frame⟩ := w
    obtain ⟨f', args', d', filter', ps', os', frame'⟩ := w'
    dsimp only [operands] at h hoperands
    obtain ⟨rfl, hargs, rfl, _, hps, hos, rfl⟩ := h
    have hlength : os.length = os'.length := by simpa [ordersCanon_eq_map] using congrArg length hos
    obtain ⟨hparts, hexprs⟩ := append_inj' hoperands (by simpa using hlength)
    obtain ⟨hfirst, rfl⟩ := append_inj' hparts (length_of_vecCanon hps)
    obtain ⟨rfl, hfilter⟩ := append_inj hfirst (length_of_vecCanon hargs)
    rw [toList_injective hfilter, orders_injective hos hexprs]

/-- The parts of two lists of one shape are compared in turn. -/
theorem eq_of_map_canon {cs : List Expr}
    (ih : ∀ c ∈ cs, ∀ c' : Expr, c.canon = c'.canon → c.scalars = c'.scalars → c = c') :
    ∀ {cs' : List Expr}, cs.map Expr.canon = cs'.map Expr.canon →
      cs.flatMap Expr.scalars = cs'.flatMap Expr.scalars → cs = cs' := by
  induction cs with
  | nil => 
    intro cs' h _
    simpa using h.symm
  | cons c cs hcs =>
    intro cs' h hs
    obtain _ | ⟨c', cs'⟩ := cs'
    · cases h
    · simp only [map_cons, List.cons.injEq] at h
      have hlength : c.scalars.length = c'.scalars.length := by
        rw [← c.length_scalars_canon, h.1, c'.length_scalars_canon]
      obtain ⟨hc, hrest⟩ := append_inj (by simpa using hs) hlength
      rw [ih c mem_cons_self c' h.1 hc, hcs (fun c hc => ih c (mem_cons_of_mem _ hc)) h.2 hrest]

/-- **An expression is its shape and its literals.** -/
theorem Expr.eq_of_scalars (e : Expr) :
    ∀ e' : Expr, e.canon = e'.canon → e.scalars = e'.scalars → e = e' := by
  induction e using inductOn with
  | step e ih =>
    intro e' h hs
    have hlength : e.kind.literals.length = e'.kind.literals.length := by
      rw [← length_literals_canon, h, length_literals_canon]
    rw [scalars_eq, scalars_eq] at hs
    obtain ⟨hown, hrest⟩ := append_inj hs hlength
    have hmap : e.operands.map canon = e'.operands.map canon := by rw [← operands_canon, h, operands_canon]
    refine eq_of_operands h (eq_of_map_canon ih hmap hrest) fun s s' hk hk' => ?_
    rw [hk, hk'] at hown
    exact List.singleton_inj.1 hown

theorem vecCanon_eq_self {cs : List Expr} (h : ∀ c ∈ cs, c.canon = c) : vecCanon cs = cs := by
  rw [vecCanon_eq_map, map_congr_left h, map_id']

theorem optionCanon_eq_self {o : Option Expr} (h : ∀ c ∈ o.toList, c.canon = c) : optionCanon o = o := by
  cases o <;> simp_all [optionCanon]

theorem ordersCanon_eq_self {os : List (OrderByExpr Expr)} (h : ∀ c ∈ os.map fun o => o.expr, c.canon = c) :
    ordersCanon os = os := by
  have hexpr : ∀ o ∈ os, (⟨o.expr.canon, o.direction, o.nulls⟩ : OrderByExpr Expr) = o :=
    fun o ho => by rw [h o.expr (mem_map_of_mem ho)]
  rw [ordersCanon_eq_map, map_congr_left hexpr, map_id']

/-- Nothing else is changed. -/
theorem Expr.canon_eq_self (e : Expr) : (∀ s ∈ e.scalars, s.canon = s) → e.canon = e := by
  induction e using inductOn with
  | step e ih =>
    intro h
    have hoperands : ∀ c ∈ e.operands, c.canon = c :=
      fun c hc => ih c hc fun s hs => h s (mem_scalars.2 (.inr ⟨c, hc, hs⟩))
    have hown : ∀ s, e.kind = .literal s → s.canon = s := fun s hs => h s (mem_scalars.2 (.inl hs))
    clear ih h
    obtain ⟨t, n, k⟩ := e
    simp only [operands] at hoperands
    cases k with
    | literal s => rw [canon, kindCanon, hown s rfl]
    | column b => rfl
    | unary op c | cast c | isNull c negated => rw [canon, kindCanon, hoperands c (by simp)]
    | binary op l r => rw [canon, kindCanon, hoperands l (by simp), hoperands r (by simp)]
    | aggregate a =>
      simp only [mem_append, or_imp, forall_and] at hoperands
      rw [canon, kindCanon, vecCanon_eq_self hoperands.1, optionCanon_eq_self hoperands.2]
    | window w =>
      simp only [mem_append, or_imp, forall_and] at hoperands
      obtain ⟨⟨⟨hargs, hfilter⟩, hps⟩, hos⟩ := hoperands
      rw [canon, kindCanon, vecCanon_eq_self hargs, optionCanon_eq_self hfilter, vecCanon_eq_self hps,
        ordersCanon_eq_self hos]

end Bound
end ChiliDB

import ChiliDB.Binder.Expression
import ChiliDB.Lib.Fallible

/-!
# What binding an expression returns

* `bindExprInner_induct` — induction over a successful binding: one case for each construct, with what is
  known of its operands.
* `InPhase` — where aggregates and windows stand in a bound expression; its columns are visible, its filters
  are Boolean and no literal is a NaN.

Principal result: `bindExprInner_inPhase`.
-/

namespace ChiliDB

open List

/-- The type of a literal. -/
def Scalar.dataType : Scalar → LogicalType
  | .null => .null
  | .boolean _ => .boolean
  | .int32 _ => .int32
  | .int64 _ => .int64
  | .uint32 _ => .uint32
  | .float32 _ => .float32
  | .float64 _ => .float64
  | .string _ => .text

namespace Binder

open Effect
open Sql (UnaryOp BinaryOp)
open ChiliDB.Bound (Expr ExprKind OrderByExpr AggregateFunction WindowFunction WindowFrame)

variable {E : Type} {context : BindContext}

/-! ## Calls -/

/-- A filter is bound and Boolean. -/
inductive FilterBound (E : Type) (P : Sql.Expr → Expr → Prop) : Option Sql.Expr → Option Expr → Prop where
  | none : FilterBound E P none none
  | some {x : Sql.Expr} {e e' : Expr} : P x e → (boolean e "FILTER" : BindResult E _) = .ok e' →
      FilterBound E P (some x) (some e')

/-- A call whose operands are bound as `P` says, given whether they may contain aggregates. -/
inductive CallBound (E : Type) (P : Bool → Sql.Expr → Expr → Prop) (name : String) (args : List Sql.Expr)
    (distinct : Bool) (filter : Option Sql.Expr) : Bool → Bool → Option (Sql.WindowSpec Sql.Expr) → Expr → Prop where
  | aggregate {windows nullable : Bool} {f : AggregateFunction} {es es' : List Expr} {filter' : Option Expr}
      {dataType : LogicalType} : functionNamed name = some (.aggregate f) →
      (checkArguments (.aggregate f) args distinct filter.isSome : BindResult E _) = .ok () →
      List.Forall₂ (P false) (boundArgs args) es →
      FilterBound E (P false) filter filter' →
      (signature (.aggregate f) es : BindResult E _) = .ok (es', dataType, nullable) →
      CallBound E P name args distinct filter true windows none
        ⟨dataType, nullable, .aggregate ⟨f, es', distinct, filter'⟩⟩
  | window {aggregates nullable : Bool} {f : WindowFunction} {es es' partitionBy : List Expr}
      {filter' : Option Expr} {keys : List Expr} {dataType : LogicalType} {over_ : Sql.WindowSpec Sql.Expr}
      {frame : WindowFrame} : functionNamed name = some f → distinct = false →
      (checkArguments f args distinct filter.isSome : BindResult E _) = .ok () →
      List.Forall₂ (P true) (boundArgs args) es →
      FilterBound E (P true) filter filter' →
      (signature f es : BindResult E _) = .ok (es', dataType, nullable) →
      List.Forall₂ (P true) over_.partitionBy partitionBy →
      List.Forall₂ (fun o e => P true o.expr e) over_.orderBy keys →
      CallBound E P name args distinct filter aggregates true (some over_)
        ⟨dataType, nullable, .window ⟨f, es', distinct, filter', partitionBy,
          List.zipWith order keys over_.orderBy, frame⟩⟩

variable {P : Sql.Expr → Expr → Prop} {filter : Option Sql.Expr} {f : WindowFunction} {distinct : Bool}
  {bind : Sql.Expr → BindResult E Expr} {filter' : Option Expr} {aggregates windows : Bool}
  {over_ : Option (Sql.WindowSpec Sql.Expr)} {name : String} {args : List Sql.Expr}

theorem bindFilter_ok (hbind : ∀ {x e}, bind x = .ok e → P x e) (h : bindFilter bind filter = .ok filter') :
    FilterBound E P filter filter' := by
  rcases option_mapM_ok.1 h with ⟨rfl, rfl⟩ | ⟨x, e', rfl, rfl, hx⟩
  · exact .none
  · obtain ⟨e, he, hboolean⟩ := except_bind_ok.1 hx
    exact .some (hbind he) hboolean

theorem checkPlacement_ok {over_ : Bool}
    (h : (checkPlacement f distinct over_ aggregates windows : BindResult E _) = .ok ()) :
    (over_ = true ∧ windows = true ∧ distinct = false) ∨
      (over_ = false ∧ aggregates = true ∧ ∃ a, f = .aggregate a) := by
  unfold checkPlacement at h
  cases over_ with
  | true =>
    cases windows <;> cases distinct <;> first | exact .inl ⟨rfl, rfl, rfl⟩ | cases h
  | false =>
    cases f with
    | aggregate a =>
      cases aggregates <;> first | exact .inr ⟨rfl, rfl, a, rfl⟩ | cases h
    | _ => cases h

theorem bindOrders_ok (hbind : ∀ {x e}, bind x = .ok e → P x e) {os : List (Sql.OrderByExpr Sql.Expr)}
    {os' : List (OrderByExpr Expr)} (h : (os.mapM fun o => do return order (← bind o.expr) o) = .ok os') :
    ∃ keys, Forall₂ (fun o e => P o.expr e) os keys ∧ os' = zipWith order keys os := by
  replace h := mapM_ok.1 h
  induction h with
  | nil => exact ⟨[], .nil, rfl⟩
  | cons ho _ ih =>
    beta_reduce at ho
    obtain ⟨e, he, ho⟩ := except_bind_ok.1 ho
    obtain ⟨keys, hkeys, rfl⟩ := ih
    cases ho
    exact ⟨e :: keys, .cons (hbind he) hkeys, rfl⟩

theorem bindCall_ok {bind : Bool → Sql.Expr → BindResult E Expr} {P : Bool → Sql.Expr → Expr → Prop}
    (hbind : ∀ {o x e}, bind o x = .ok e → P o x e) {e : Expr}
    (h : bindCall bind aggregates windows name args distinct filter over_ = .ok e) :
    CallBound E P name args distinct filter aggregates windows over_ e := by
  unfold bindCall at h
  split at h
  · cases h
  · rename_i function hname
    obtain ⟨_, hplacement, h⟩ := except_bind_ok.1 h
    obtain ⟨_, harguments, h⟩ := except_bind_ok.1 h
    obtain ⟨es, hes, h⟩ := except_bind_ok.1 h
    obtain ⟨filter', hfilter, h⟩ := except_bind_ok.1 h
    obtain ⟨⟨es', dataType, nullable⟩, hsignature, h⟩ := except_bind_ok.1 h
    obtain ⟨kind, hkind, h⟩ := except_bind_ok.1 h
    cases h
    have hargs : Forall₂ (P over_.isSome) (boundArgs args) es := (mapM_ok.1 hes).imp fun _ _ => hbind
    have hfilter := bindFilter_ok hbind hfilter
    rcases checkPlacement_ok hplacement with ⟨hover, rfl, rfl⟩ | ⟨hover, rfl, a, rfl⟩
    · obtain ⟨spec, rfl⟩ := Option.isSome_iff_exists.1 hover
      obtain ⟨w, hw, hkind⟩ := except_bind_ok.1 hkind
      cases hkind
      unfold bindWindow at hw
      obtain ⟨partitionBy, hpartition, hw⟩ := except_bind_ok.1 hw
      obtain ⟨orderBy, horder, hw⟩ := except_bind_ok.1 hw
      obtain ⟨frame, _, hw⟩ := except_bind_ok.1 hw
      cases hw
      obtain ⟨keys, hkeys, rfl⟩ := bindOrders_ok (P := P true) hbind horder
      exact .window hname rfl harguments hargs hfilter hsignature
        ((mapM_ok.1 hpartition).imp fun _ _ => hbind) hkeys
    · obtain rfl := Option.isSome_eq_false_iff.1 hover |> Option.isNone_iff_eq_none.1
      cases hkind
      exact .aggregate hname harguments hargs hfilter hsignature

/-! ## Expressions -/

/-- A name in a syntax tree. -/
def isName : Sql.Expr → Bool
  | .identifier _ | .qualifiedIdentifier _ _ => true
  | _ => false

/-- Induction over a successful binding, with the levels that are left. -/
theorem bindExprInner_induct {P : Nat → Bool → Bool → Sql.Expr → Expr → Prop}
    (name : ∀ {n a w x e}, isName x = true → context.Visible e → P (n + 1) a w x e)
    (literal : ∀ {n a w l e}, (bindLiteral l : BindResult E _) = .ok e → P (n + 1) a w (.literal l) e)
    (signed : ∀ {n a w s e}, (number s true : BindResult E _) = .ok e →
      P (n + 1) a w (.unary .minus (.literal (.number s))) e)
    (unary : ∀ {n a w op x e e'}, (∀ s, op = .minus → x ≠ .literal (.number s)) → P n a w x e →
      (bindUnary op e : BindResult E _) = .ok e' → P (n + 1) a w (.unary op x) e')
    (binary : ∀ {n a w l op r e e' e''}, P n a w l e → P n a w r e' →
      (bindBinary op e e' : BindResult E _) = .ok e'' → P (n + 1) a w (.binary l op r) e'')
    (isNull : ∀ {n a w x e negated}, P n a w x e →
      P (n + 1) a w (.isNull x negated) ⟨.boolean, false, .isNull e negated⟩)
    (call : ∀ {n a w fname args distinct filter over_ e},
      CallBound E (fun o => P n o false) fname args distinct filter a w over_ e →
      P (n + 1) a w (.functionCall fname args distinct filter over_) e) :
    ∀ {levels : Nat} {a w : Bool} {x : Sql.Expr} {e : Expr},
      (bindExprInner context levels a w x : BindResult E _) = .ok e → P levels a w x e := by
  intro levels
  induction levels with
  | zero =>
    intro a w x e h
    cases h
  | succ levels ih =>
    intro a w x e h
    unfold bindExprInner at h
    split at h
    · cases h
    · exact call (bindCall_ok (P := fun o => P levels o false) ih h)
    · exact name rfl (resolveColumn_ok h)
    · exact name rfl (resolveColumn_ok h)
    · cases h
    · exact literal h
    · exact signed h
    · rename_i hsigned
      obtain ⟨e', he', h⟩ := except_bind_ok.1 h
      exact unary hsigned (ih he') h
    · obtain ⟨l, hl, h⟩ := except_bind_ok.1 h
      obtain ⟨r, hr, h⟩ := except_bind_ok.1 h
      exact binary (ih hl) (ih hr) h
    · obtain ⟨e', he', h⟩ := except_bind_ok.1 h
      cases h
      exact isNull (ih he')

/-! ## Phases -/

/-- An expression that is computed from its operands in the same phase. -/
def isOperator (e : Expr) : Bool :=
  match e.kind with
  | .unary _ _ | .binary _ _ _ | .cast _ | .isNull _ _ => true
  | _ => false

/-- An expression that may contain aggregates or windows.  The operands of an aggregate contain neither, those
of a window no window. -/
inductive InPhase (context : BindContext) : Bool → Bool → Expr → Prop where
  | literal {a w : Bool} {e : Expr} {s : Scalar} : e.kind = .literal s → s.isNan = false → InPhase context a w e
  | column {a w : Bool} {e : Expr} {b : Bound.ColumnBinding} : e.kind = .column b → context.Visible e →
      InPhase context a w e
  | operator {a w : Bool} {e : Expr} : isOperator e = true → (∀ c ∈ e.operands, InPhase context a w c) →
      InPhase context a w e
  | aggregate {w : Bool} {e : Expr} {g : Bound.AggregateExpr Expr} : e.kind = .aggregate g →
      (∀ c ∈ e.operands, InPhase context false false c) → (∀ c ∈ g.filter.toList, c.dataType = .boolean) →
      InPhase context true w e
  | window {a : Bool} {e : Expr} {g : Bound.WindowExpr Expr} : e.kind = .window g →
      (∀ c ∈ e.operands, InPhase context true false c) → (∀ c ∈ g.filter.toList, c.dataType = .boolean) →
      InPhase context a true e

variable {a w : Bool} {e e' e'' : Expr}

theorem InPhase.operands (h : InPhase context a w e) : ∀ c ∈ e.operands, ∃ a' w', InPhase context a' w' c := by
  cases h with
  | literal hkind | column hkind => simp [Expr.operands, hkind]
  | operator _ hoperands | aggregate _ hoperands | window _ hoperands => exact fun c hc => ⟨_, _, hoperands c hc⟩

theorem InPhase.ordered (h : InPhase context a w e) : e.Ordered := by
  induction h with
  | @literal _ _ e s hkind hs => exact Expr.ordered_iff.2 ⟨by simp [hkind, hs], by simp [Expr.operands, hkind]⟩
  | column hkind => exact Expr.ordered_iff.2 ⟨by simp [hkind], by simp [Expr.operands, hkind]⟩
  | @operator _ _ e hop _ ih =>
    refine Expr.ordered_iff.2 ⟨fun s hs => ?_, ih⟩
    simp [isOperator, hs] at hop
  | aggregate hkind _ _ ih | window hkind _ _ ih => exact Expr.ordered_iff.2 ⟨by simp [hkind], ih⟩

/-! ## Coercions -/

/-- Casts lead from types of a lower to types of a higher rank. -/
def castRank : LogicalType → Nat
  | .null => 0
  | .int32 | .uint32 | .float32 | .varchar _ => 1
  | .int64 | .text => 2
  | .float64 | .boolean => 3

/-- `NULL` is cast to any type, numbers to numbers and strings to strings. -/
def castable (s t : LogicalType) : Bool := s = .null || (numeric s && numeric t) || (isString s && isString t)

/-- No cast, or one to a type of a higher rank. -/
def Widens (s t : LogicalType) : Prop := s = t ∨ (castRank s < castRank t ∧ castable s t = true)

theorem widens_null (t : LogicalType) : Widens .null t := by cases t <;> simp [Widens, castRank, castable]

/-- An expression behind casts. -/
inductive Coerced (e : Expr) : Expr → Prop where
  | refl : Coerced e e
  | step {c : Expr} {t : LogicalType} : Coerced e c → castRank c.dataType < castRank t →
      castable c.dataType t = true → Coerced e ⟨t, c.nullable, .cast c⟩

theorem Coerced.inPhase (h : Coerced e e') (he : InPhase context a w e) : InPhase context a w e' := by
  induction h with
  | refl => exact he
  | step _ _ _ ih =>
    refine .operator rfl ?_
    simpa [Expr.operands] using ih

variable {t l r : LogicalType}

theorem Coerced.cast (h : Coerced e e') (ht : Widens e'.dataType t) : Coerced e (cast e' t) := by
  unfold Binder.cast
  split
  · exact h
  · rename_i hne
    obtain ⟨hrank, hcast⟩ := ht.resolve_left hne
    exact h.step hrank hcast

theorem dataType_cast (e : Expr) (t : LogicalType) : (cast e t).dataType = t := by
  unfold cast
  split
  · assumption
  · rfl

variable {clause : String} {op : UnaryOp} {es es' : List Expr} {nullable : Bool}

theorem boolean_ok (h : (boolean e clause : BindResult E _) = .ok e') :
    Coerced e e' ∧ e'.dataType = .boolean := by
  unfold boolean at h
  split at h
  · rename_i ht
    cases h
    exact ⟨.refl, ht⟩
  · rename_i ht
    cases h
    refine ⟨Coerced.refl.cast ?_, dataType_cast e _⟩
    rw [ht]
    exact widens_null _
  · cases h

theorem requireNumeric_ok {integral : Bool}
    (h : (requireNumeric t integral clause : BindResult E _) = .ok ()) :
    t = .null ∨ (numeric t = true ∧ (integral = true → isInteger t = true)) := by
  unfold requireNumeric at h
  split at h
  · rename_i ht
    simp only [Bool.or_eq_true, decide_eq_true_eq, Bool.and_eq_true, Bool.not_eq_true'] at ht
    refine ht.imp_right fun ht => ⟨ht.1, fun hintegral => ht.2.resolve_left ?_⟩
    simp [hintegral]
  · cases h

theorem signOperand_ok (h : (signOperand op e : BindResult E _) = .ok e') :
    Coerced e e' ∧ numeric e'.dataType = true ∧ (op = .minus → e'.dataType ≠ .uint32) := by
  unfold signOperand at h
  obtain ⟨_, hnumeric, h⟩ := except_bind_ok.1 h
  have hnull : Coerced e (if e.dataType = .null then cast e .int32 else e) ∧
      (if e.dataType = .null then cast e .int32 else e).dataType ≠ .null := by
    split
    · rename_i ht
      refine ⟨Coerced.refl.cast ?_, by simp [dataType_cast]⟩
      rw [ht]
      exact widens_null _
    · rename_i ht
      exact ⟨.refl, ht⟩
  cases h
  generalize (if e.dataType = .null then cast e .int32 else e) = e at hnull hnumeric
  obtain ⟨hcoerced, hnull⟩ := hnull
  split
  · rename_i ht
    refine ⟨hcoerced.cast ?_, by simp [dataType_cast, numeric], by simp [dataType_cast]⟩
    rw [ht.2]
    simp [Widens, castRank, castable, numeric]
  · rename_i ht
    exact ⟨hcoerced, ((requireNumeric_ok hnumeric).resolve_left hnull).1, fun hop hu => ht ⟨hop, hu⟩⟩

/-- The operand of a unary operator, which is also of the type of its result. -/
def UnaryTyped (op : UnaryOp) (t : LogicalType) : Prop :=
  match op with
  | .not => t = .boolean
  | .plus => numeric t = true
  | .minus => numeric t = true ∧ t ≠ .uint32

theorem bindUnary_ok (h : (bindUnary op e : BindResult E _) = .ok e') :
    ∃ c, Coerced e c ∧ UnaryTyped op c.dataType ∧ e' = ⟨c.dataType, c.nullable, .unary op c⟩ := by
  unfold bindUnary at h
  cases op with
  | not =>
    obtain ⟨c, hc, h⟩ := except_bind_ok.1 h
    cases h
    exact ⟨c, (boolean_ok hc).1, (boolean_ok hc).2, rfl⟩
  | plus =>
    obtain ⟨c, hc, h⟩ := except_bind_ok.1 h
    cases h
    exact ⟨c, (signOperand_ok hc).1, (signOperand_ok hc).2.1, rfl⟩
  | minus =>
    obtain ⟨c, hc, h⟩ := except_bind_ok.1 h
    cases h
    obtain ⟨hcoerced, hnumeric, hsigned⟩ := signOperand_ok hc
    exact ⟨c, hcoerced, ⟨hnumeric, hsigned rfl⟩, rfl⟩

theorem numericCommon_ok (h : numericCommon l r = some t) : Widens l t ∧ Widens r t ∧ numeric t = true := by
  cases l <;> cases r <;> simp [numericCommon, numeric, isFloat] at h <;> subst h <;>
    simp [Widens, castRank, castable, numeric]

/-- The common type of integers, one of which may be `NULL`, is that of integers. -/
theorem numericCommon_integer (h : numericCommon l r = some t) (hl : l = .null ∨ isInteger l = true)
    (hr : r = .null ∨ isInteger r = true) : isInteger t = true := by
  cases l <;> cases r <;> simp [isInteger] at hl hr <;> simp [numericCommon, numeric, isFloat] at h <;> subst h <;> rfl

theorem comparisonCommon_ok (h : comparisonCommon l r = some t) :
    Widens l t ∧ Widens r t ∧ (t = .boolean ∨ t = .text ∨ numeric t = true) := by
  cases l <;> cases r <;>
    simp [comparisonCommon, comparisonKnown, isString, numericCommon, numeric, isFloat] at h <;> subst h <;>
    simp [Widens, castRank, castable, numeric, isString]

theorem castRank_le (t : LogicalType) : castRank t ≤ 3 := by cases t <;> simp [castRank]

/-- The types of the operands and of the result of a binary operator. -/
def BinaryTyped (op : BinaryOp) (l r t : LogicalType) : Prop :=
  match op with
  | .and | .or => l = .boolean ∧ r = .boolean ∧ t = .boolean
  | .add | .subtract | .multiply | .divide => l = t ∧ r = t ∧ numeric t = true
  | .modulo => l = t ∧ r = t ∧ isInteger t = true
  | .eq | .notEq | .less | .lessEq | .greater | .greaterEq =>
    l = r ∧ (r = .boolean ∨ r = .text ∨ numeric r = true) ∧ t = .boolean

/-- The operands of a binary operator are coerced to a type whose rank is at most that of the result. -/
structure Operands (op : BinaryOp) (e e' l r : Expr) (t : LogicalType) : Prop where
  left : Coerced e l
  right : Coerced e' r
  left_le : castRank l.dataType ≤ castRank t
  right_le : castRank r.dataType ≤ castRank t
  typed : BinaryTyped op l.dataType r.dataType t

theorem binaryOperands_ok {op : BinaryOp} {l r : Expr}
    (h : (binaryOperands op e e' : BindResult E _) = .ok (l, r, t)) : Operands op e e' l r t := by
  cases op with
  | and | or =>
    obtain ⟨l', hl, h⟩ := except_bind_ok.1 h
    obtain ⟨r', hr, h⟩ := except_bind_ok.1 h
    cases h
    obtain ⟨hleft, hltype⟩ := boolean_ok hl
    obtain ⟨hright, hrtype⟩ := boolean_ok hr
    exact ⟨hleft, hright, castRank_le _, castRank_le _, hltype, hrtype, rfl⟩
  | add | subtract | multiply | divide =>
    obtain ⟨_, _, h⟩ := except_bind_ok.1 h
    obtain ⟨_, _, h⟩ := except_bind_ok.1 h
    obtain ⟨target, htarget, h⟩ := except_bind_ok.1 h
    cases h
    obtain ⟨hl, hr, hnumeric⟩ := numericCommon_ok (Result.unwrap_eq_ok.1 htarget)
    exact ⟨Coerced.refl.cast hl, Coerced.refl.cast hr, by rw [dataType_cast], by rw [dataType_cast],
      dataType_cast _ _, dataType_cast _ _, hnumeric⟩
  | modulo =>
    obtain ⟨_, hleft, h⟩ := except_bind_ok.1 h
    obtain ⟨_, hright, h⟩ := except_bind_ok.1 h
    obtain ⟨target, htarget, h⟩ := except_bind_ok.1 h
    cases h
    replace htarget := Result.unwrap_eq_ok.1 htarget
    obtain ⟨hl, hr, _⟩ := numericCommon_ok htarget
    have hinteger := by
      apply numericCommon_integer htarget
      · exact (requireNumeric_ok hleft).imp_right fun h => h.2 rfl
      · exact (requireNumeric_ok hright).imp_right fun h => h.2 rfl
    exact ⟨Coerced.refl.cast hl, Coerced.refl.cast hr, by rw [dataType_cast], by rw [dataType_cast],
      dataType_cast _ _, dataType_cast _ _, hinteger⟩
  | eq | notEq | less | lessEq | greater | greaterEq =>
    simp only [binaryOperands] at h
    split at h
    · rename_i target htarget
      cases h
      obtain ⟨hl, hr, hcomparable⟩ := comparisonCommon_ok htarget
      refine ⟨Coerced.refl.cast hl, Coerced.refl.cast hr, castRank_le _, castRank_le _, ?_⟩
      simp only [BinaryTyped, dataType_cast]
      exact ⟨trivial, hcomparable, trivial⟩
    · cases h

theorem bindBinary_ok {op : BinaryOp} (h : (bindBinary op e e' : BindResult E _) = .ok e'') :
    ∃ l r t, Operands op e e' l r t ∧ e'' = ⟨t, l.nullable || r.nullable, .binary op l r⟩ := by
  unfold bindBinary at h
  obtain ⟨⟨l, r, t⟩, hop, h⟩ := except_bind_ok.1 h
  cases h
  exact ⟨l, r, t, binaryOperands_ok hop, rfl⟩

/-- No aggregate is of type `Null`. -/
theorem aggregateType_ok {f : AggregateFunction} {arg : LogicalType}
    (h : (aggregateType f arg : BindResult E _) = .ok t) : 0 < castRank t ∧ Widens arg t := by
  cases f with
  | count => cases h
  | sum | avg =>
    obtain ⟨_, harg, h⟩ := except_bind_ok.1 h
    cases h
    have hnumeric := (requireNumeric_ok harg).imp_right And.left
    cases arg <;> simp [numeric] at hnumeric <;> simp [Widens, castRank, castable, numeric, isFloat]
  | min | max =>
    cases h
    cases arg <;> simp [Widens, castRank, castable]

def isRanking : WindowFunction → Bool
  | .aggregate _ => false
  | _ => true

/-- The signatures of calls: those that count, and those of the type of their argument. -/
inductive Signature : WindowFunction → List Expr → List Expr → LogicalType → Bool → Prop where
  | counting {f : WindowFunction} {es : List Expr} : f = .aggregate .count ∨ isRanking f = true →
      Signature f es es .int64 false
  | typed {f : AggregateFunction} {arg : Expr} {args : List Expr} {t : LogicalType} : f ≠ .count →
      0 < castRank t → Widens arg.dataType t →
      Signature (.aggregate f) (arg :: args) (args ++ [cast arg t]) t true

theorem signature_cases (h : (signature f es : BindResult E _) = .ok (es', t, nullable)) :
    Signature f es es' t nullable := by
  unfold signature at h
  split at h
  case h_5 f hf =>
    split at h
    · cases h
    · rename_i arg args
      obtain ⟨target, htarget, h⟩ := except_bind_ok.1 h
      cases h
      obtain ⟨hnull, harg⟩ := aggregateType_ok htarget
      exact .typed (fun hcount => hf (by rw [hcount])) hnull harg
  case h_1 =>
    cases h
    exact .counting (.inl rfl)
  all_goals
    cases h
    exact .counting (.inr rfl)

theorem signature_ok (h : (signature f es : BindResult E _) = .ok (es', t, nullable)) :
    0 < castRank t ∧ ∀ c' ∈ es', ∃ c ∈ es, Coerced c c' := by
  cases signature_cases h with
  | counting => exact ⟨by decide, fun c hc => ⟨c, hc, .refl⟩⟩
  | @typed _ arg args _ _ hnull harg =>
    refine ⟨hnull, fun c' hc' => ?_⟩
    rcases mem_append.1 hc' with hc' | hc'
    · exact ⟨c', mem_cons_of_mem _ hc', .refl⟩
    · rw [mem_singleton.1 hc']
      exact ⟨arg, mem_cons_self, Coerced.refl.cast harg⟩

/-- The expressions that are bound for a call. -/
def callOperands (args : List Sql.Expr) (filter : Option Sql.Expr) (over_ : Option (Sql.WindowSpec Sql.Expr)) :
    List Sql.Expr :=
  boundArgs args ++ filter.toList ++
    over_.toList.flatMap fun over_ => over_.partitionBy ++ over_.orderBy.map fun o => o.expr

section

variable {P : Bool → Sql.Expr → Expr → Prop} {name : String} {args : List Sql.Expr} {distinct : Bool}
  {filter : Option Sql.Expr} {over_ : Option (Sql.WindowSpec Sql.Expr)}

theorem FilterBound.operands {P : Sql.Expr → Expr → Prop} {filter' : Option Expr}
    (h : FilterBound E P filter filter') :
    ∀ c ∈ filter'.toList, ∃ x ∈ filter.toList, ∃ c', P x c' ∧ Coerced c' c := by
  cases h with
  | none => simp
  | some he hboolean => simpa using ⟨_, he, (boolean_ok hboolean).1⟩

theorem args_operands {P : Sql.Expr → Expr → Prop} {es es' : List Expr} {nullable : Bool}
    (hargs : Forall₂ P (boundArgs args) es)
    (h : (signature f es : BindResult E _) = .ok (es', t, nullable)) :
    ∀ c ∈ es', ∃ x ∈ boundArgs args, ∃ c', P x c' ∧ Coerced c' c := by
  intro c hc
  obtain ⟨c', hc', hcoerced⟩ := (signature_ok h).2 c hc
  obtain ⟨x, hx, hxc⟩ := exists_of_forall₂ hargs c' hc'
  exact ⟨x, hx, c', hxc, hcoerced⟩

theorem keys_subset {keys : List Expr} {os : List (Sql.OrderByExpr Sql.Expr)} :
    ((zipWith order keys os).map fun o => o.expr) ⊆ keys := by
  intro c hc
  obtain ⟨o, ho, rfl⟩ := mem_map.1 hc
  rw [← map_uncurry_zip_eq_zipWith] at ho
  obtain ⟨p, hp, rfl⟩ := mem_map.1 ho
  exact (of_mem_zip hp).1

/-- The operands of a call are those that are bound for it, coerced. -/
theorem CallBound.operands (h : CallBound E P name args distinct filter a w over_ e) :
    ∀ c ∈ e.operands, ∃ x ∈ callOperands args filter over_, ∃ c', P over_.isSome x c' ∧ Coerced c' c := by
  intro c hc
  have hmem {xs : List Sql.Expr} (hsub : xs ⊆ callOperands args filter over_)
      (h : ∃ x ∈ xs, ∃ c', P over_.isSome x c' ∧ Coerced c' c) :
      ∃ x ∈ callOperands args filter over_, ∃ c', P over_.isSome x c' ∧ Coerced c' c := by
    obtain ⟨x, hx, hxc⟩ := h
    exact ⟨x, hsub hx, hxc⟩
  cases h with
  | aggregate _ _ hargs hfilter hsignature =>
    rcases mem_append.1 hc with hc | hc
    · exact hmem (by simp [callOperands]) (args_operands hargs hsignature c hc)
    · exact hmem (by simp [callOperands]) (hfilter.operands c hc)
  | @window _ _ _ _ _ _ _ keys _ over_ _ _ _ _ hargs hfilter hsignature hpartition hkeys =>
    rcases mem_append.1 hc with hc | hc
    · rcases mem_append.1 hc with hc | hc
      · rcases mem_append.1 hc with hc | hc
        · exact hmem (by simp [callOperands]) (args_operands hargs hsignature c hc)
        · exact hmem (by simp [callOperands]) (hfilter.operands c hc)
      · obtain ⟨x, hx, hxc⟩ := exists_of_forall₂ hpartition c hc
        exact ⟨x, by simp [callOperands, hx], c, hxc, .refl⟩
    · obtain ⟨o, ho, hoc⟩ := exists_of_forall₂ hkeys c (keys_subset hc)
      exact ⟨o.expr, by simp [callOperands]; tauto, c, hoc, .refl⟩

end

theorem integer_ok (n : Int64) : ∃ v : Scalar, integer n = value v.dataType v ∧ v.isNan = false := by
  unfold integer
  split
  · exact ⟨.int32 _, rfl, rfl⟩
  · exact ⟨.int64 _, rfl, rfl⟩

theorem number_ok {s : String} {negative : Bool} (h : (number s negative : BindResult E _) = .ok e) :
    ∃ v : Scalar, e = value v.dataType v ∧ v.isNan = false := by
  unfold number at h
  simp only at h
  split at h
  · cases h
  · split at h
    · split at h
      · cases h
      · rename_i hfinite
        cases h
        refine ⟨.float64 _, rfl, ?_⟩
        apply Binary.not_nan_of_isFinite
        split <;> simpa using hfinite
    · split at h
      · cases h
      · split at h
        · split at h
          · cases h
            exact integer_ok _
          · split at h
            · cases h
              exact integer_ok _
            · cases h
        · split at h
          · cases h
            exact integer_ok _
          · cases h

theorem bindLiteral_ok {l : Sql.Literal} (h : (bindLiteral l : BindResult E _) = .ok e) :
    ∃ v : Scalar, e = value v.dataType v ∧ v.isNan = false := by
  cases l with
  | number s => exact number_ok h
  | null =>
    cases h
    exact ⟨.null, rfl, rfl⟩
  | boolean b =>
    cases h
    exact ⟨.boolean b, rfl, rfl⟩
  | string s =>
    cases h
    exact ⟨.string s, rfl, rfl⟩

theorem inPhase_value {v : Scalar} (h : v.isNan = false) : InPhase context a w (value t v) :=
  .literal rfl h

/-! ## Where aggregates and windows stand -/

theorem FilterBound.boolean (h : FilterBound E P filter filter') : ∀ c ∈ filter'.toList, c.dataType = .boolean := by
  cases h with
  | none => simp
  | some _ hboolean => simpa using (boolean_ok hboolean).2

theorem CallBound.inPhase
    (h : CallBound E (fun o _ e => InPhase context o false e) name args distinct filter a w over_ e) :
    InPhase context a w e := by
  have hoperands : ∀ c ∈ e.operands, InPhase context over_.isSome false c := by
    intro c hc
    obtain ⟨x, _, c', hc', hcoerced⟩ := h.operands c hc
    exact hcoerced.inPhase hc'
  cases h with
  | aggregate _ _ _ hfilter _ => exact .aggregate rfl hoperands hfilter.boolean
  | window _ _ _ _ hfilter _ _ _ => exact .window rfl hoperands hfilter.boolean

/-- **Where aggregates and windows stand.**  What binding an expression returns contains them only where they
are allowed; its columns are visible, its filters are Boolean and no literal is a NaN. -/
theorem bindExprInner_inPhase {levels : Nat} {x : Sql.Expr}
    (h : (bindExprInner context levels a w x : BindResult E _) = .ok e) : InPhase context a w e := by
  revert h
  apply bindExprInner_induct (P := fun _ a w _ e => InPhase context a w e)
  case name =>
    intro n a w x e _ hvisible
    obtain ⟨_, _, r, _, index, column, _, rfl⟩ := id hvisible
    exact .column rfl hvisible
  case literal =>
    intro n a w l e h
    obtain ⟨v, rfl, hv⟩ := bindLiteral_ok h
    exact inPhase_value hv
  case signed =>
    intro n a w s e h
    obtain ⟨v, rfl, hv⟩ := number_ok h
    exact inPhase_value hv
  case unary =>
    intro n a w op x e e' _ he h
    obtain ⟨c, hc, _, rfl⟩ := bindUnary_ok h
    refine .operator rfl ?_
    simpa [Expr.operands] using hc.inPhase he
  case binary =>
    intro n a w l op r e e' e'' hl hr h
    obtain ⟨l', r', t, hop, rfl⟩ := bindBinary_ok h
    refine .operator rfl ?_
    simpa [Expr.operands] using ⟨hop.left.inPhase hl, hop.right.inPhase hr⟩
  case isNull =>
    intro n a w x e negated he
    refine .operator rfl ?_
    simpa [Expr.operands] using he
  case call =>
    intro n a w name args distinct filter over_ e h
    exact h.inPhase

end Binder
end ChiliDB

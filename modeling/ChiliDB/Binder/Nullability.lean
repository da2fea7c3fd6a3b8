import ChiliDB.Binder.Nodes

/-!
# Nullability of bound expressions

* `Algebra`, `Environment` — the values that are not `NULL` with their operations, which may fail, and what
  columns, aggregates and windows evaluate to.
* `eval` — the value of a bound expression: operators are strict in `NULL` but for `AND`, `OR` and `IS NULL`.
* `Admits` — columns that are `NOT NULL`, counts and ranks are not `NULL`.

Principal result: `nullability_sound`.
-/

namespace ChiliDB.Binder

open Effect
open Sql (UnaryOp BinaryOp)
open ChiliDB.Bound (Expr ExprKind ColumnBinding AggregateExpr WindowExpr)

/-- The values that are not `NULL`; an operation without a value fails. -/
structure Algebra (V : Type) where
  literal : Scalar → V
  boolean : Bool → V
  truth : V → Option Bool
  unary : UnaryOp → V → Option V
  binary : BinaryOp → V → V → Option V
  cast : LogicalType → V → Option V

/-- What an expression is evaluated in; `none` within a value is `NULL`. -/
structure Environment (V : Type) where
  row : ColumnBinding → Option V
  aggregate : AggregateExpr Expr → Option (Option V)
  window : WindowExpr Expr → Option (Option V)

section

variable {V : Type} (algebra : Algebra V)

/-- Three-valued conjunction. -/
def conjunction : Option Bool → Option Bool → Option Bool
  | some false, _ | _, some false => some false
  | some true, some true => some true
  | _, _ => none

/-- Three-valued disjunction. -/
def disjunction : Option Bool → Option Bool → Option Bool
  | some true, _ | _, some true => some true
  | some false, some false => some false
  | _, _ => none

def strictUnary (f : V → Option V) : Option V → Option (Option V)
  | some v => (f v).map some
  | none => some none

def strictBinary (f : V → V → Option V) : Option V → Option V → Option (Option V)
  | some l, some r => (f l r).map some
  | _, _ => some none

/-- A connective on truth values. -/
def logical (f : Option Bool → Option Bool → Option Bool) (l r : Option V) : Option (Option V) := do
  let l ← l.mapM algebra.truth
  let r ← r.mapM algebra.truth
  return (f l r).map algebra.boolean

def binaryValue (op : BinaryOp) (l r : Option V) : Option (Option V) :=
  match op with
  | .and => logical algebra conjunction l r
  | .or => logical algebra disjunction l r
  | op => strictBinary (algebra.binary op) l r

variable (env : Environment V)

mutual

/-- The value of an expression, if its evaluation does not fail. -/
def eval : Expr → Option (Option V)
  | ⟨t, _, k⟩ => evalKind t k

def evalKind (t : LogicalType) : ExprKind Expr → Option (Option V)
  | .literal s => some (if s = .null then none else some (algebra.literal s))
  | .column b => some (env.row b)
  | .unary op c => do strictUnary (algebra.unary op) (← eval c)
  | .binary op l r => do binaryValue algebra op (← eval l) (← eval r)
  | .cast c => do strictUnary (algebra.cast t) (← eval c)
  | .isNull c negated => do return some (algebra.boolean ((← eval c).isNone != negated))
  | .aggregate g => env.aggregate g
  | .window g => env.window g

end

end

/-- `NOT NULL` columns hold values; counts and ranks are never `NULL`. -/
structure Admits {V : Type} (context : BindContext) (env : Environment V) : Prop where
  row : ∀ e b, context.Visible e → e.kind = .column b → e.nullable = false → env.row b ≠ none
  aggregate : ∀ g, g.function = .count → env.aggregate g ≠ some none
  window : ∀ g, g.function = .aggregate .count ∨ isRanking g.function = true → env.window g ≠ some none

/-- If the expression is not nullable then it is not `NULL`. -/
def Sound {V : Type} (algebra : Algebra V) (env : Environment V) (e : Expr) : Prop :=
  e.nullable = false → eval algebra env e ≠ some none

variable {E V : Type} {algebra : Algebra V} {env : Environment V} {context : BindContext} {e : Expr}

theorem strictUnary_ne_null {f : V → Option V} {v : Option V} (h : v ≠ none) : strictUnary f v ≠ some none := by
  cases v with
  | none => exact absurd rfl h
  | some v =>
    simp only [strictUnary]
    cases f v <;> simp

theorem binaryValue_ne_null {op : BinaryOp} {l r : Option V} (hl : l ≠ none) (hr : r ≠ none) :
    binaryValue algebra op l r ≠ some none := by
  obtain ⟨l, rfl⟩ := Option.ne_none_iff_exists'.1 hl
  obtain ⟨r, rfl⟩ := Option.ne_none_iff_exists'.1 hr
  have hlogical {f : Option Bool → Option Bool → Option Bool} (hf : ∀ p q, f (some p) (some q) ≠ none) :
      logical algebra f (some l) (some r) ≠ some none := by
    simp only [logical, Option.mapM_some]
    cases algebra.truth l with
    | none => simp
    | some p =>
      cases algebra.truth r with
      | none => simp
      | some q => simpa using hf p q
  unfold binaryValue
  split
  · exact hlogical (by decide)
  · exact hlogical (by decide)
  · simp only [strictBinary]
    cases algebra.binary _ l r <;> simp

theorem bind_ne_null {x : Option (Option V)} {f : Option V → Option (Option V)} (hx : x ≠ some none)
    (hf : ∀ v, v ≠ none → f v ≠ some none) : (x >>= f) ≠ some none := by
  cases x with
  | none => simp
  | some v => exact hf v fun h => hx (by rw [h])

/-- **The flag of a node is sound if those of its operands are.** -/
theorem Nodes.sound (h : Nodes context e) (hadmits : Admits context env) : Sound algebra env e := by
  induction e using Expr.inductOn with
  | step e ih =>
    have hoperands (c : Expr) (hc : c ∈ e.operands) : Sound algebra env c :=
      ih c hc fun x hx => h x (.operand hc hx)
    intro hnullable
    cases h e (.self e) with
    | literal v =>
      have hv : v ≠ .null := by simpa [value] using hnullable
      simp [value, eval, evalKind, hv]
    | column hvisible =>
      obtain ⟨_, _, _, _, _, _, _, rfl⟩ := id hvisible
      simpa [columnExpr, eval, evalKind] using hadmits.row _ _ hvisible rfl hnullable
    | @cast c t _ _ | @unary op c _ =>
      have hc := hoperands c (by simp [Expr.operands]) hnullable
      simp only [eval, evalKind]
      exact bind_ne_null hc fun v hv => strictUnary_ne_null hv
    | @binary op l r t _ =>
      simp only [Bool.or_eq_false_iff] at hnullable
      have hl := hoperands l (by simp [Expr.operands]) hnullable.1
      have hr := hoperands r (by simp [Expr.operands]) hnullable.2
      simp only [eval, evalKind]
      exact bind_ne_null hl fun v hv => bind_ne_null hr fun v' hv' => binaryValue_ne_null hv hv'
    | @isNull c negated =>
      simp only [eval, evalKind]
      cases eval algebra env c <;> simp
    | @aggregate g t nullable hcall =>
      refine hadmits.aggregate g ?_
      simpa [isRanking] using hcall.counting hnullable
    | @window g t nullable hcall => exact hadmits.window g (hcall.counting hnullable)

/-- **Nullability.**  An expression that the binder does not mark as nullable is not `NULL`; nor are such values
of `INSERT` and `UPDATE`, in the types of their targets. -/
theorem nullability_sound (E : Type) {V : Type} (algebra : Algebra V) (env : Environment V) :
    (∀ (context : BindContext) (levels : Nat) (a w : Bool) (x : Sql.Expr) (e : Expr), Admits context env →
      (bindExprInner context levels a w x : BindResult E _) = .ok e → Sound algebra env e) ∧
    (∀ (catalog : Catalog E) (name : String) (columns : List String) (rows : List (List Sql.Expr)) (i : Bound.Insert),
      Admits ⟨[]⟩ env → bindInsert catalog name columns rows = .ok i →
        ∀ row ∈ i.rows, ∀ e ∈ row, Sound algebra env e) ∧
    ∀ (catalog : Catalog E) (name : String) (assignments : List Sql.Assignment) (filter : Option Sql.Expr)
      (u : Bound.Update), Admits (queryContext (some (name, u.table))) env →
        bindUpdate catalog name assignments filter = .ok u → ∀ a ∈ u.assignments, Sound algebra env a.value := by
  refine ⟨fun context levels a w x e hadmits h => (bindExprInner_nodes h).sound hadmits, ?_, ?_⟩
  · intro catalog name columns rows i hadmits h row hrow e he
    obtain ⟨c, _, hassigned⟩ := exists_of_forall₂ (bindInsert_ok h row hrow).flip e he
    exact hassigned.nodes.sound hadmits
  · intro catalog name assignments filter u hadmits h a ha
    obtain ⟨c, _, hassigned⟩ := (bindUpdate_ok h).1 a ha
    exact hassigned.nodes.sound hadmits

/-- One value, and operations that do not fail. -/
def unitAlgebra : Algebra Unit :=
  ⟨fun _ => (), fun _ => (), fun _ => some true, fun _ => some, fun _ _ => some, fun _ => some⟩

/-- Whatever may be `NULL` is. -/
def nullEnvironment : Environment Unit :=
  ⟨fun b => if b.columnIndex = 0 then some () else none,
    fun g => some (if g.function = .count then some () else none),
    fun g => some (if g.function = .aggregate .count ∨ isRanking g.function = true then some () else none)⟩

/-- `t (a INTEGER NOT NULL, b INTEGER)`. -/
def optionalContext : BindContext :=
  queryContext (some ("t", ⟨⟨0⟩, ⟨0, ⟨"t", [⟨"a", .int32, false⟩, ⟨"b", .int32, true⟩]⟩⟩⟩))

theorem nullEnvironment_admits : Admits optionalContext nullEnvironment := by
  refine ⟨fun e b hvisible hkind hnullable => ?_, fun g hg => by simp [nullEnvironment, hg],
    fun g hg => by simp [nullEnvironment, hg]⟩
  obtain ⟨scope, hscope, r, hr, index, column, hcolumn, rfl⟩ := hvisible
  cases List.mem_singleton.1 hscope
  cases List.mem_singleton.1 hr
  cases hkind
  match index, hcolumn with
  | 0, _ => exact nofun
  | 1, hcolumn => cases hcolumn; cases hnullable

/-- `a + f(b)`. -/
def plusCall (f : String) : Sql.Expr :=
  .binary (.identifier "a") .add (.functionCall f [.identifier "b"] false none none)

/-- `a + COUNT(b)` is not `NULL` where `a + SUM(b)` is. -/
theorem sum_notNull : ∃ e e',
    (bindExprInner optionalContext 256 true false (plusCall "count") : BindResult Empty _) = .ok e ∧
      e.nullable = false ∧ eval unitAlgebra nullEnvironment e ≠ some none ∧
    (bindExprInner optionalContext 256 true false (plusCall "sum") : BindResult Empty _) = .ok e' ∧
      eval unitAlgebra nullEnvironment e' = some none := by
  obtain ⟨e, he, hnullable⟩ := exists_of_any (p := fun e => e.nullable == false)
    (x := (bindExprInner optionalContext 256 true false (plusCall "count") : BindResult Empty _))
    (by decide +kernel)
  obtain ⟨e', he', hnull⟩ := exists_of_any (p := fun e => eval unitAlgebra nullEnvironment e == some none)
    (x := (bindExprInner optionalContext 256 true false (plusCall "sum") : BindResult Empty _))
    (by decide +kernel)
  have hnullable' : e.nullable = false := by simpa using hnullable
  have hsound := (nullability_sound Empty unitAlgebra nullEnvironment).1 optionalContext 256 true false _ e
    nullEnvironment_admits he
  exact ⟨e, e', he, hnullable', hsound hnullable', he', by simpa using hnull⟩

end ChiliDB.Binder

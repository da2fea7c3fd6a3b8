import ChiliDB.Binder.Expression
import ChiliDB.Planner.PlanningSpec

/-!
# Shared columns

The planner computes one column for all expressions that the derived equality identifies.  That equality
compares floating-point literals with `==`, for which the two zeros are one number; lowering keeps their signs.

* `Nested` — operands of two expressions, at any depth; what stands in an aggregate or a window is lowered
  apart from the expression around it.
* `eq_of_nested` — expressions of one shape whose operands are lowered alike are the same.

Principal result: `sharing_sound_iff`.
-/

namespace ChiliDB.Planner

open ChiliDB.Bound (Expr)

/-- Operands of two expressions that stand at one place, at any depth. -/
inductive Nested (e e' : Expr) : Expr → Expr → Prop where
  | self : Nested e e' e e'
  | operand {c c' d d' : Expr} : Nested e e' c c' → (d, d') ∈ c.operands.zip c'.operands → Nested e e' d d'

variable {Err : Type} {engine : DataFusion.Engine Err} {e e' c c' d d' : Expr}

theorem Nested.of_operand (h : (d, d') ∈ e.operands.zip e'.operands) (hc : Nested d d' c c') :
    Nested e e' c c' := by
  induction hc with
  | self => exact .operand .self h
  | operand _ hzip ih => exact .operand ih hzip

theorem Nested.eq (h : Nested e e c c') : c = c' := by
  induction h with
  | self => rfl
  | @operand c c' d d' _ hzip ih =>
    subst ih
    have hsame : List.Forall₂ Eq c.operands c.operands := List.forall₂_refl _
    exact (List.forall₂_iff_zip.1 hsame).2 hzip

theorem literal_injective {s s' : Scalar} {t : LogicalType} (hcanon : s.canon = s'.canon)
    (h : literal engine s t = literal engine s' t) : s = s' := by
  cases s <;> cases s' <;> simp_all [Scalar.canon, literal, scalarValue, lift]

/-- **What is lowered alike at every place is the same.**  A literal is lowered to itself where nothing stands
for it. -/
theorem eq_of_nested (e : Expr) : ∀ e' : Expr, e.canon = e'.canon →
    (∀ c c', Nested e e' c c' → ∀ lower : Lower,
      lower.expr engine 256 c = lower.expr engine 256 c') → e = e' := by
  induction e using Expr.inductOn with
  | step e ih =>
    intro e' hcanon h
    refine Expr.eq_of_operands hcanon ?_ ?_
    · have hmap : e.operands.map Expr.canon = e'.operands.map Expr.canon := by
        rw [← Expr.operands_canon, hcanon, Expr.operands_canon]
      have hshape : List.Forall₂ (fun c c' => c.canon = c'.canon) e.operands e'.operands := by
        rwa [← List.forall₂_eq_eq_eq, List.forall₂_map_left_iff, List.forall₂_map_right_iff] at hmap
      rw [← List.forall₂_eq_eq_eq]
      rw [List.forall₂_iff_zip] at hshape ⊢
      refine ⟨hshape.1, fun {d d'} hzip => ?_⟩
      exact ih d (List.of_mem_zip hzip).1 d' (hshape.2 hzip) fun c c' hc => h c c' (hc.of_operand hzip)
    · intro s s' hk hk'
      obtain ⟨t, b, k⟩ := e
      obtain ⟨t', b', k'⟩ := e'
      cases hk
      cases hk'
      simp only [Expr.canon, Bound.kindCanon, Expr.mk.injEq, Bound.ExprKind.literal.injEq] at hcanon
      obtain ⟨rfl, rfl, hcanon⟩ := hcanon
      exact literal_injective hcanon (h _ _ .self (Lower.raw .empty))

/-- **Sharing a column.** Expressions that the derived equality identifies are lowered to the same expressions
in every `Lower`, with all that is nested in them, exactly if they have the same literals, bit for bit and
inside aggregates and windows too.  They are then one expression. -/
theorem sharing_sound_iff (h : e.eq e' = true) :
    ((∀ c c', Nested e e' c c' → ∀ lower : Lower,
      lower.expr engine 256 c = lower.expr engine 256 c') ↔ e.scalars = e'.scalars) ∧
    (e.scalars = e'.scalars ↔ e = e') := by
  have hcanon := ((e.eq_iff e').1 h).1
  have hscalars : e.scalars = e'.scalars ↔ e = e' := ⟨e.eq_of_scalars e' hcanon, congrArg _⟩
  refine ⟨?_, hscalars⟩
  rw [hscalars]
  constructor
  · exact eq_of_nested e e' hcanon
  · rintro rfl c c' hc lower
    rw [hc.eq]

/-! ## The two zeros -/

/-- The tokens `0.0` and `-0.0`. -/
def zeroToken : Bool → Sql.Expr
  | false => .literal (.number "0.0")
  | true => .unary .minus (.literal (.number "0.0"))

def zero (sign : Bool) : Expr := ⟨.float64, false, .literal (.float64 ⟨sign, 0, 0⟩)⟩

/-- The minimum of a zero. -/
def least (sign : Bool) : Expr := ⟨.float64, true, .aggregate ⟨.min, [zero sign], false, none⟩⟩

theorem zero_eq : (zero false).eq (zero true) = true := by
  simp [zero, Expr.eq, Bound.kindEq, Scalar.eq, Binary.ieeeEq, Binary.isNan, Binary.isZero]

theorem least_eq : (least false).eq (least true) = true := by
  simp [least, Expr.eq, Bound.kindEq, Bound.aggregateEq, Bound.vecEq, Bound.optionEq, zero_eq]

/-- `MAX(MIN(0.0)) OVER ()`, the minimum of either zero. -/
def greatest (sign : Bool) : Expr :=
  ⟨.float64, true, .window ⟨.aggregate .max, [least sign], false, none, [], [],
    ⟨.range, .unboundedPreceding, .unboundedFollowing⟩⟩⟩

theorem greatest_eq : (greatest false).eq (greatest true) = true := by
  simp [greatest, Expr.eq, Bound.kindEq, Bound.windowEq, Bound.vecEq, Bound.optionEq, Bound.ordersEq, least_eq]

/-- The zero is an operand of an operand. -/
theorem sharing_sound_iff_zeros : (greatest false).eq (greatest true) = true ∧
    ¬ ∀ c c', Nested (greatest false) (greatest true) c c' → ∀ lower : Lower,
      lower.expr .standard 256 c = lower.expr .standard 256 c' := by
  refine ⟨greatest_eq, fun h => ?_⟩
  have hscalars := (sharing_sound_iff greatest_eq).1.1 h
  simp [Expr.scalars_eq, greatest, least, zero, Expr.operands, Bound.ExprKind.literals] at hscalars

open Binder (BindResult bindExprInner) in
/-- **One column for two minima.** The binder makes both zeros, which are equal and lowered to different literals,
and `MIN(-0.0)` gets the column of `MIN(0.0)`. -/
theorem zeros_share_a_column :
    (∀ sign, (bindExprInner ⟨[]⟩ 256 true false (zeroToken sign) : BindResult Empty _) = .ok (zero sign) ∧
      (bindExprInner ⟨[]⟩ 256 true false (.functionCall "min" [zeroToken sign] false none none) :
        BindResult Empty _) = .ok (least sign)) ∧
    (zero false).eq (zero true) = true ∧
    (Lower.raw .empty).expr .standard 256 (zero false) ≠ (Lower.raw .empty).expr .standard 256 (zero true) ∧
    (collectAll false [least false, least true] : PlanResult String _) = .ok [least false] ∧
    aggregateValue .standard (.raw .empty) (least false) ≠ aggregateValue .standard (.raw .empty) (least true) := by
  refine ⟨?_, zero_eq, nofun, ?_, nofun⟩
  · rintro (_ | _)
    · exact ⟨rfl, rfl⟩
    · exact ⟨rfl, rfl⟩
  · change Except.ok (if [least false].any (fun f => f.eq (least true)) = true then _ else _) = _
    simp [least_eq]

end ChiliDB.Planner

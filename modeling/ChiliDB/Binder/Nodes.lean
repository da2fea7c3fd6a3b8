import ChiliDB.Binder.BindingSpec

/-!
# The nodes of bound expressions

* `Occurs` — a node of an expression.
* `Node` — the nodes that the binder builds, with their types and their nullability; `bindExprInner_nodes`.
* `bindExprInner_noPanic` — binding returns its errors.
* `WellTyped` — the typing rules, node by node.

Principal result: `bound_expression_wellTyped`.
-/

namespace ChiliDB.Binder

open Effect
open Sql (UnaryOp BinaryOp)
open ChiliDB.Bound (Expr AggregateFunction WindowFunction WindowFrame OrderByExpr)

variable {E : Type} {context : BindContext} {a w : Bool} {e e' x : Expr}

/-- `x` is `e` or a node below it. -/
inductive Occurs : Expr → Expr → Prop where
  | self (e : Expr) : Occurs e e
  | operand {e c x : Expr} : c ∈ e.operands → Occurs c x → Occurs e x

/-- The arguments, the filter, the type and the nullability of a call. -/
structure CallNode (f : WindowFunction) (args : List Expr) (filter : Option Expr) (t : LogicalType)
    (nullable : Bool) : Prop where
  filter_boolean : ∀ c ∈ filter.toList, c.dataType = .boolean
  counting : nullable = false → f = .aggregate .count ∨ isRanking f = true
  typed : ∀ g, f = .aggregate g → g ≠ .count → ∀ c ∈ args, c.dataType = t
  single : ∀ g, f = .aggregate g → args.length = 1 ∨ (g = .count ∧ args = [])
  ranking : isRanking f = true → args = [] ∧ filter = none

/-- A node that the binder builds. -/
inductive Node (context : BindContext) : Expr → Prop where
  | literal (v : Scalar) : Node context (value v.dataType v)
  | column {e : Expr} : context.Visible e → Node context e
  | cast {c : Expr} {t : LogicalType} : c.dataType ≠ t → castable c.dataType t = true →
      Node context ⟨t, c.nullable, .cast c⟩
  | unary {op : UnaryOp} {c : Expr} : UnaryTyped op c.dataType → Node context ⟨c.dataType, c.nullable, .unary op c⟩
  | binary {op : BinaryOp} {l r : Expr} {t : LogicalType} : BinaryTyped op l.dataType r.dataType t →
      Node context ⟨t, l.nullable || r.nullable, .binary op l r⟩
  | isNull {c : Expr} {negated : Bool} : Node context ⟨.boolean, false, .isNull c negated⟩
  | aggregate {g : Bound.AggregateExpr Expr} {t : LogicalType} {nullable : Bool} :
      CallNode (.aggregate g.function) g.args g.filter t nullable → Node context ⟨t, nullable, .aggregate g⟩
  | window {g : Bound.WindowExpr Expr} {t : LogicalType} {nullable : Bool} :
      CallNode g.function g.args g.filter t nullable → Node context ⟨t, nullable, .window g⟩

/-- Every node of the expression is one that the binder builds. -/
def Nodes (context : BindContext) (e : Expr) : Prop := ∀ x, Occurs e x → Node context x

theorem Nodes.of_operands (h : Node context e) (hoperands : ∀ c ∈ e.operands, Nodes context c) :
    Nodes context e := by
  intro x hx
  cases hx with
  | self => exact h
  | operand hc hx => exact hoperands _ hc x hx

theorem Nodes.leaf (h : Node context e) (he : e.operands = []) : Nodes context e :=
  .of_operands h (by simp [he])

theorem Coerced.nodes (h : Coerced e e') (he : Nodes context e) : Nodes context e' := by
  induction h with
  | refl => exact he
  | @step c t _ hrank hcast ih =>
    refine .of_operands (.cast (fun heq => ?_) hcast) (by simpa [Expr.operands] using ih)
    rw [heq] at hrank
    exact absurd hrank (Nat.lt_irrefl _)

/-! ## Calls -/

variable {args : List Sql.Expr} {distinct : Bool} {t : LogicalType} {f : WindowFunction}

theorem checkArguments_ok {filter : Bool}
    (h : (checkArguments f args distinct filter : BindResult E _) = .ok ()) :
    (∀ g, f = .aggregate g → args.length = 1 ∧ (isStar args = true → g = .count)) ∧
      (isRanking f = true → args = [] ∧ filter = false) := by
  unfold checkArguments at h
  cases f with
  | aggregate g =>
    refine ⟨?_, by simp [isRanking]⟩
    rintro g' ⟨⟩
    simp only at h
    split at h
    · cases h
    · rename_i hargs
      simp only [Bool.or_eq_true, decide_eq_true_eq, Bool.and_eq_true, not_or, not_and, not_not, ne_eq] at hargs
      exact ⟨hargs.1.1, hargs.1.2⟩
  | _ =>
    refine ⟨by simp, fun _ => ?_⟩
    simp only at h
    split at h
    · cases h
    · rename_i hargs
      simp only [Bool.or_eq_true, not_or, Bool.not_eq_true, Bool.not_eq_false', List.isEmpty_iff] at hargs
      exact ⟨hargs.1.1, hargs.2⟩

/-- The parts of a bound call fit together. -/
theorem callNode_of_ok {filter : Option Sql.Expr} {P : Sql.Expr → Expr → Prop}
    {es es' : List Expr} {filter' : Option Expr} {nullable : Bool}
    (harguments : (checkArguments f args distinct filter.isSome : BindResult E _) = .ok ())
    (hargs : List.Forall₂ P (boundArgs args) es) (hfilter : FilterBound E P filter filter')
    (hsignature : (signature f es : BindResult E _) = .ok (es', t, nullable)) :
    CallNode f es' filter' t nullable := by
  obtain ⟨haggregate, hranking⟩ := checkArguments_ok harguments
  have hlength := hargs.length_eq
  have hnone (h : filter.isSome = false) : filter' = none := by
    cases hfilter with
    | none => rfl
    | some => cases h
  cases signature_cases hsignature with
  | counting hcounting =>
    refine ⟨hfilter.boolean, fun _ => hcounting, ?_, ?_, ?_⟩
    · rintro g rfl hne
      simp [isRanking, hne] at hcounting
    · rintro g rfl
      obtain ⟨hone, hstar⟩ := haggregate g rfl
      unfold boundArgs at hlength
      split at hlength
      · rename_i hargs
        exact .inr ⟨hstar hargs, List.length_eq_zero_iff.1 hlength.symm⟩
      · exact .inl (by rw [← hlength, hone])
    · intro hf
      obtain ⟨rfl, hfilter⟩ := hranking hf
      exact ⟨List.length_eq_zero_iff.1 (by rw [← hlength]; rfl), hnone hfilter⟩
  | @typed g arg rest _ hne _ _ =>
    obtain ⟨hone, hstar⟩ := haggregate g rfl
    have hnot : isStar args = false := by simpa using fun hargs => hne (hstar hargs)
    have hrest : rest = [] := by
      simp only [boundArgs, hnot, Bool.false_eq_true, if_false, hone, List.length_cons] at hlength
      exact List.length_eq_zero_iff.1 (by omega)
    subst hrest
    refine ⟨hfilter.boolean, by simp, ?_, fun _ _ => .inl rfl, by simp [isRanking]⟩
    rintro g' ⟨⟩ _ c hc
    rw [List.nil_append, List.mem_singleton] at hc
    rw [hc, dataType_cast]

theorem CallBound.node {P : Bool → Sql.Expr → Expr → Prop} {name : String} {filter : Option Sql.Expr}
    {over_ : Option (Sql.WindowSpec Sql.Expr)} (h : CallBound E P name args distinct filter a w over_ e) :
    Node context e := by
  cases h with
  | aggregate _ harguments hargs hfilter hsignature =>
    exact .aggregate (callNode_of_ok harguments hargs hfilter hsignature)
  | window _ _ harguments hargs hfilter hsignature =>
    exact .window (callNode_of_ok harguments hargs hfilter hsignature)

/-! ## Expressions -/

theorem nodes_of_visible (h : context.Visible e) : Nodes context e := by
  refine .leaf (.column h) ?_
  obtain ⟨_, _, _, _, _, _, _, rfl⟩ := h
  rfl

/-- **The binder builds no other nodes.** -/
theorem bindExprInner_nodes {levels : Nat} {x : Sql.Expr} :
    (bindExprInner context levels a w x : BindResult E _) = .ok e → Nodes context e := by
  apply bindExprInner_induct (P := fun _ _ _ _ e => Nodes context e)
  case name =>
    intro _ _ _ x e _ hvisible
    exact nodes_of_visible hvisible
  case literal =>
    intro _ _ _ l e h
    obtain ⟨v, rfl, _⟩ := bindLiteral_ok h
    exact .leaf (.literal v) rfl
  case signed =>
    intro _ _ _ s e h
    obtain ⟨v, rfl, _⟩ := number_ok h
    exact .leaf (.literal v) rfl
  case unary =>
    intro _ _ _ op x e e' _ he h
    obtain ⟨c, hc, htyped, rfl⟩ := bindUnary_ok h
    exact .of_operands (.unary htyped) (by simpa [Expr.operands] using hc.nodes he)
  case binary =>
    intro _ _ _ l op r e e' e'' hl hr h
    obtain ⟨l', r', t, hop, rfl⟩ := bindBinary_ok h
    exact .of_operands (.binary hop.typed) (by simpa [Expr.operands] using ⟨hop.left.nodes hl, hop.right.nodes hr⟩)
  case isNull =>
    intro _ _ _ x e negated he
    exact .of_operands .isNull (by simpa [Expr.operands] using he)
  case call =>
    intro _ _ _ name args distinct filter over_ e h
    refine .of_operands h.node fun c hc => ?_
    obtain ⟨_, _, c', hc', hcoerced⟩ := h.operands c hc
    exact hcoerced.nodes hc'

variable {xs : List Sql.Expr}

theorem Origin.nodes (h : Origin E context a w xs e) : Nodes context e := by
  cases h with
  | star hvisible => exact nodes_of_visible hvisible
  | bound _ hbound hcoerced => exact hcoerced.nodes (bindExprInner_nodes hbound)

theorem nodes_cast (h : Nodes context e) (ht : e.dataType = t ∨ castable e.dataType t = true) :
    Nodes context (cast e t) := by
  unfold cast
  split
  · exact h
  · rename_i hne
    exact .of_operands (.cast hne (ht.resolve_left hne)) (by simpa [Expr.operands] using h)

theorem Assigned.nodes (h : Assigned E context xs t e) : Nodes context e := by
  cases h with
  | expr horigin hcast => exact nodes_cast horigin.nodes hcast
  | null => exact nodes_cast (.leaf (.literal .null) rfl) (.inr rfl)

/-! ## Panics -/

/-- A returned error. -/
def Returned : Fault (BindError E) → Prop
  | .error _ => True
  | .panic _ => False

section

variable {op : UnaryOp} {t : LogicalType}

abbrev NoPanic (E : Type) {α : Type} (x : BindResult E α) : Prop := FailsOnly Returned x

theorem fail_returned {α : Type} (error : BindError E) : FailsOnly Returned (.fail error : Result _ α) :=
  .error trivial

variable {qualifier : Option String}

theorem findColumn_noPanic {name : String} {relation : Bound.RelationId} :
    ∀ {columns : List (ColumnSchema × Nat)} {found : Option Expr},
      NoPanic E (findColumn qualifier name relation columns found)
  | [], _ => .ok _
  | (c, index) :: columns, found => by
    unfold findColumn
    split
    · split
      · exact fail_returned _
      · exact findColumn_noPanic
    · exact findColumn_noPanic

theorem findRelation_noPanic {name : String} {relations : List RelationBinding} :
    ∀ {found : Option Expr} {qualified : Nat},
      NoPanic E (findRelation qualifier name relations found qualified) := by
  induction relations with
  | nil => exact .ok _
  | cons r relations ih =>
    intro found qualified
    cases qualifier with
    | none => exact .bind findColumn_noPanic fun _ _ => ih
    | some q =>
      unfold findRelation
      simp only
      split
      · exact ih
      · split
        · exact fail_returned _
        · exact .bind findColumn_noPanic fun _ _ => ih

theorem resolveIn_noPanic {name : String} :
    ∀ {scopes : List Scope}, NoPanic E (resolveIn qualifier name scopes)
  | [] => fail_returned _
  | scope :: scopes => by
    unfold resolveIn
    apply FailsOnly.bind findRelation_noPanic
    rintro ⟨found, qualified⟩ _
    cases found with
    | some e => exact .ok e
    | none =>
      simp only
      split
      · exact fail_returned _
      · exact resolveIn_noPanic

theorem number_noPanic (s : String) (negative : Bool) : NoPanic E (number s negative) := by
  unfold number
  simp only
  repeat' split
  all_goals first | exact .ok _ | exact fail_returned _

theorem bindLiteral_noPanic (l : Sql.Literal) : NoPanic E (bindLiteral l) := by
  cases l with
  | number s => exact number_noPanic s false
  | _ => exact .ok _

theorem boolean_noPanic (e : Expr) (clause : String) : NoPanic E (boolean e clause) := by
  unfold boolean
  split
  · exact .ok _
  · exact .ok _
  · exact fail_returned _

theorem requireNumeric_noPanic (t : LogicalType) (integral : Bool) (clause : String) :
    NoPanic E (requireNumeric t integral clause) := by
  unfold requireNumeric
  split
  · exact .ok _
  · exact fail_returned _

theorem bindUnary_noPanic (op : UnaryOp) (e : Expr) : NoPanic E (bindUnary op e) := by
  have hsign (op : UnaryOp) : NoPanic E (signOperand op e) :=
    .bind (requireNumeric_noPanic _ _ _) fun _ _ => .ok _
  cases op with
  | not => exact .bind (boolean_noPanic _ _) fun _ _ => .ok _
  | plus | minus => exact .bind (hsign _) fun _ _ => .ok _

/-- `numeric_common` has an answer for the types that were checked before it. -/
theorem numericCommon_isSome {l r : LogicalType} (hl : l = .null ∨ numeric l = true)
    (hr : r = .null ∨ numeric r = true) : ∃ t, numericCommon l r = some t := by
  cases l <;> simp [numeric] at hl <;> cases r <;> simp [numeric] at hr <;> simp [numericCommon, numeric, isFloat]

theorem bindBinary_noPanic (op : BinaryOp) (l r : Expr) : NoPanic E (bindBinary op l r) := by
  have harithmetic (integral : Bool) (clause : String) : NoPanic E (do
      requireNumeric l.dataType integral clause
      requireNumeric r.dataType integral clause
      let target ← Result.unwrap (numericCommon l.dataType r.dataType)
      return (cast l target, cast r target, target)) := by
    apply FailsOnly.bind (requireNumeric_noPanic _ _ _)
    intro _ hl
    apply FailsOnly.bind (requireNumeric_noPanic _ _ _)
    intro _ hr
    obtain ⟨t, ht⟩ := numericCommon_isSome ((requireNumeric_ok hl).imp_right And.left)
      ((requireNumeric_ok hr).imp_right And.left)
    rw [ht]
    exact .ok _
  have hoperands : NoPanic E (binaryOperands op l r) := by
    cases op with
    | and | or => exact .bind (boolean_noPanic _ _) fun _ _ => .bind (boolean_noPanic _ _) fun _ _ => .ok _
    | add | subtract | multiply | divide | modulo => exact harithmetic _ _
    | eq | notEq | less | lessEq | greater | greaterEq =>
      unfold binaryOperands
      simp only
      split
      · exact .ok _
      · exact fail_returned _
  exact .bind hoperands fun _ _ => .ok _

theorem frame_noPanic (f : Option Sql.WindowFrame) (ordered : Bool) : NoPanic E (frame f ordered) := by
  have hbound (units : Sql.FrameUnits) (b : Sql.FrameBound) : NoPanic E (frameBound units b) := by
    cases b with
    | preceding n | following n =>
      unfold frameBound frameOffset
      simp only
      repeat' split
      all_goals first | exact .ok _ | exact fail_returned _
    | _ => exact .ok _
  cases f with
  | none => exact .ok _
  | some f =>
    apply FailsOnly.bind (hbound _ _)
    intro start _
    apply FailsOnly.bind (hbound _ _)
    intro stop _
    split
    · exact fail_returned _
    · exact .ok _

/-- The argument that is removed from the list is there. -/
theorem signature_noPanic {filter : Bool} {es : List Expr}
    (harguments : (checkArguments f args distinct filter : BindResult E _) = .ok ())
    (hlength : (boundArgs args).length = es.length) : NoPanic E (signature f es) := by
  unfold signature
  split
  case h_5 g hg =>
    obtain ⟨hone, hstar⟩ := (checkArguments_ok harguments).1 g rfl
    have hnot : isStar args = false := Bool.eq_false_iff.2 fun hargs => hg (hstar hargs)
    split
    · simp [boundArgs, hnot, hone] at hlength
    · rename_i arg rest
      have htype : NoPanic E (aggregateType g arg.dataType) := by
        cases g with
        | count => exact absurd rfl hg
        | sum | avg => exact .bind (requireNumeric_noPanic _ _ _) fun _ _ => .ok _
        | min | max => exact .ok _
      exact .bind htype fun _ _ => .ok _
  all_goals exact .ok _

theorem bindCall_noPanic {bind : Bool → Sql.Expr → BindResult E Expr}
    (hbind : ∀ o x, FailsOnly Returned (bind o x)) {name : String} {filter : Option Sql.Expr}
    {over_ : Option (Sql.WindowSpec Sql.Expr)} :
    FailsOnly Returned (bindCall bind a w name args distinct filter over_) := by
  unfold bindCall
  split
  · exact fail_returned _
  · rename_i f _
    have hplacement : NoPanic E (checkPlacement f distinct over_.isSome a w) := by
      unfold checkPlacement
      repeat' split
      all_goals first | exact .ok _ | exact fail_returned _
    have harguments : NoPanic E (checkArguments f args distinct filter.isSome) := by
      unfold checkArguments
      repeat' split
      all_goals first | exact .ok _ | exact fail_returned _
    apply FailsOnly.bind hplacement
    intro _ hplaced
    apply FailsOnly.bind harguments
    intro _ hchecked
    apply FailsOnly.bind (.mapM fun x _ => hbind _ x)
    intro es hes
    apply FailsOnly.bind (.option_mapM fun x _ => .bind (hbind _ x) fun _ _ => boolean_noPanic _ _)
    intro filter' _
    apply FailsOnly.bind (signature_noPanic hchecked (mapM_ok.1 hes).length_eq)
    rintro ⟨es', t, nullable⟩ _
    refine .bind ?_ fun _ _ => .ok _
    cases over_ with
    | some spec =>
      refine .bind ?_ fun _ _ => .ok _
      apply FailsOnly.bind (.mapM fun x _ => hbind _ x)
      intro _ _
      apply FailsOnly.bind (.mapM fun o _ => .bind (hbind _ _) fun _ _ => .ok _)
      intro _ _
      exact .bind (frame_noPanic _ _) fun _ _ => .ok _
    | none =>
      rcases checkPlacement_ok hplaced with ⟨h, _⟩ | ⟨_, _, g, rfl⟩
      · cases h
      · exact .ok _

/-- **Binding an expression returns its errors.** -/
theorem bindExprInner_noPanic : ∀ {levels : Nat} {a w : Bool} {x : Sql.Expr},
    NoPanic E (bindExprInner context levels a w x)
  | 0, _, _, _ => fail_returned _
  | levels + 1, a, w, x => by
    unfold bindExprInner
    split
    · exact fail_returned _
    · exact bindCall_noPanic fun _ _ => bindExprInner_noPanic
    · exact resolveIn_noPanic
    · exact resolveIn_noPanic
    · exact fail_returned _
    · exact bindLiteral_noPanic _
    · exact number_noPanic _ _
    · exact .bind bindExprInner_noPanic fun _ _ => bindUnary_noPanic _ _
    · exact .bind bindExprInner_noPanic fun _ _ => .bind bindExprInner_noPanic fun _ _ => bindBinary_noPanic _ _ _
    · exact .bind bindExprInner_noPanic fun _ _ => .ok _

end

/-! ## Types -/

/-- The typing rules at one node. -/
def WellTyped (context : BindContext) (e : Expr) : Prop :=
  match e.kind with
  | .literal s => s.dataType = e.dataType
  | .column _ => context.Visible e
  | .unary op c => UnaryTyped op c.dataType ∧ e.dataType = c.dataType
  | .binary op l r => BinaryTyped op l.dataType r.dataType e.dataType
  | .cast c => c.dataType ≠ e.dataType ∧ castable c.dataType e.dataType = true
  | .isNull _ _ => e.dataType = .boolean
  | .aggregate g => (∀ c ∈ g.filter.toList, c.dataType = .boolean) ∧
    (g.function ≠ .count → ∀ c ∈ g.args, c.dataType = e.dataType)
  | .window g => (∀ c ∈ g.filter.toList, c.dataType = .boolean) ∧
    ∀ f, g.function = .aggregate f → f ≠ .count → ∀ c ∈ g.args, c.dataType = e.dataType

theorem Node.wellTyped (h : Node context e) : WellTyped context e := by
  cases h with
  | literal v | isNull => exact rfl
  | column hvisible =>
    obtain ⟨_, _, _, _, _, _, _, rfl⟩ := id hvisible
    exact hvisible
  | cast hne hcast => exact ⟨hne, hcast⟩
  | unary htyped => exact ⟨htyped, rfl⟩
  | binary htyped => exact htyped
  | aggregate hcall => exact ⟨hcall.filter_boolean, hcall.typed _ rfl⟩
  | window hcall => exact ⟨hcall.filter_boolean, hcall.typed⟩

/-- **Bound expressions are well typed.**  Binding an expression does not panic, and every node of what it
returns obeys the typing rules. -/
theorem bound_expression_wellTyped (E : Type) (context : BindContext) (levels : Nat) (a w : Bool) (x : Sql.Expr) :
    (∀ p, (bindExprInner context levels a w x : BindResult E _) ≠ .error (.panic p)) ∧
      ∀ e, (bindExprInner context levels a w x : BindResult E _) = .ok e →
        ∀ node, Occurs e node → WellTyped context node :=
  ⟨fun _ h => bindExprInner_noPanic _ h, fun _ h node hnode => (bindExprInner_nodes h node hnode).wellTyped⟩

/-- `t (a INTEGER NOT NULL)`. -/
def exampleContext : BindContext := queryContext (some ("t", ⟨⟨0⟩, ⟨0, ⟨"t", [⟨"a", .int32, false⟩]⟩⟩⟩))

theorem sum_wellTyped : ∃ e, (bindExprInner exampleContext 256 false false
      (.binary (.identifier "a") .add (.literal (.number "1.5"))) : BindResult Empty _) = .ok e ∧
    ∀ node, Occurs e node → WellTyped exampleContext node := by
  obtain ⟨e, he⟩ := exists_of_toBool (x := (bindExprInner exampleContext 256 false false
    (.binary (.identifier "a") .add (.literal (.number "1.5"))) : BindResult Empty _)) (by decide +kernel)
  exact ⟨e, he, (bound_expression_wellTyped Empty exampleContext 256 false false _).2 e he⟩

end ChiliDB.Binder

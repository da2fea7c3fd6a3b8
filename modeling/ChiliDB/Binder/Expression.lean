import ChiliDB.Binder.Context

/-!
# Binding expressions

`crates/binder/src/expression.rs` and `aggregate.rs`: names become columns, operators and calls are typed
and the coercions they need become explicit casts.

* `boolean`, `assignment`, `cast`, `numericCommon`, `comparisonCommon` — coercions.
* `number` — a numeric token, with the sign in front of it if there is one.
* `bindCall` — aggregates and windows.
* `bindExprInner` — an expression with the levels that are left of the 256.
* `validateGrouped` — no column outside of the grouping keys and aggregates.
-/

namespace ChiliDB.Binder

open Effect
open Sql (UnaryOp BinaryOp)
open ChiliDB.Bound (Expr OrderByExpr AggregateFunction WindowFunction FrameBound WindowFrame)

variable {E : Type}

/-! ## Coercions -/

def value (dataType : LogicalType) (scalar : Scalar) : Expr := ⟨dataType, scalar = .null, .literal scalar⟩

def cast (e : Expr) (target : LogicalType) : Expr :=
  if e.dataType = target then e else ⟨target, e.nullable, .cast e⟩

def boolean (e : Expr) (context : String) : BindResult E Expr :=
  match e.dataType with
  | .boolean => .ok e
  | .null => .ok (cast e .boolean)
  | actual => .fail (.typeMismatch context "Boolean" actual)

def numeric : LogicalType → Bool
  | .int32 | .int64 | .uint32 | .float32 | .float64 => true
  | _ => false

def isInteger : LogicalType → Bool
  | .int32 | .int64 | .uint32 => true
  | _ => false

def isFloat : LogicalType → Bool
  | .float32 | .float64 => true
  | _ => false

def isString : LogicalType → Bool
  | .text | .varchar _ => true
  | _ => false

/-- Run-time range checks are left to the execution. -/
def assignment (e : Expr) (target : LogicalType) : BindResult E Expr :=
  if e.dataType = target || e.dataType = .null || (numeric e.dataType && numeric target) ||
      (isString e.dataType && isString target) then
    .ok (cast e target)
  else
    .fail (.incompatibleTypes "assignment" e.dataType target)

def requireNumeric (t : LogicalType) (integral : Bool) (context : String) : BindResult E Unit :=
  if t = .null || (numeric t && (!integral || isInteger t)) then
    .ok ()
  else
    .fail (.typeMismatch context (if integral then "integer" else "numeric") t)

def numericCommon (left right : LogicalType) : Option LogicalType :=
  if left = .null ∧ right = .null then some .int32
  else if left = .null then if numeric right then some right else none
  else if right = .null then if numeric left then some left else none
  else if !numeric left || !numeric right then none
  else if left = right then some left
  else if isFloat left || isFloat right then some .float64
  else some .int64

/-- `comparisonCommon` of two types that are not `Null`. -/
def comparisonKnown (left right : LogicalType) : Option LogicalType :=
  if left = .boolean ∧ right = .boolean then some .boolean
  else if isString left && isString right then some .text
  else numericCommon left right

def comparisonCommon (left right : LogicalType) : Option LogicalType :=
  if left = .null ∧ right = .null then some .text
  else if left = .null then comparisonKnown right right
  else if right = .null then comparisonKnown left left
  else comparisonKnown left right

/-! ## Numbers -/

/-- An unsigned decimal token at the front of a text, and what is behind it. -/
structure Decimal where
  whole : List Char
  fraction : List Char
  exponent : Int
  rest : List Char

def digits (cs : List Char) : Nat := cs.foldl (fun n c => 10 * n + (c.toNat - '0'.toNat)) 0

/-- The digits behind the point; a token without a point has digits in front. -/
def scanFraction (whole : List Char) : List Char → Option (List Char × List Char)
  | '.' :: cs => if cs.takeWhile Char.isDigit = [] then none
    else some (cs.takeWhile Char.isDigit, cs.dropWhile Char.isDigit)
  | cs => if whole = [] then none else some ([], cs)

def scanExponent : List Char → Option (Int × List Char)
  | c :: cs =>
    if c = 'e' ∨ c = 'E' then
      let signed := match cs with
        | '+' :: cs => (false, cs)
        | '-' :: cs => (true, cs)
        | cs => (false, cs)
      let exponent := signed.2.takeWhile Char.isDigit
      if exponent = [] then none
      else some (if signed.1 then -(digits exponent : Int) else digits exponent,
        signed.2.dropWhile Char.isDigit)
    else
      some (0, c :: cs)
  | [] => some (0, [])

/-- The scan of `valid_number`. -/
def scanDecimal (cs : List Char) : Option Decimal := do
  let whole := cs.takeWhile Char.isDigit
  let (fraction, cs) ← scanFraction whole (cs.dropWhile Char.isDigit)
  let (exponent, cs) ← scanExponent cs
  return ⟨whole, fraction, exponent, cs⟩

def validNumber (s : String) : Bool :=
  match scanDecimal s.toList with
  | some d => d.rest = []
  | none => false

/-- `str::parse::<f64>` of a valid token. -/
def parseFloat (s : String) : Binary64 :=
  match scanDecimal s.toList with
  | some d => .ofDecimal 11 52 (digits (d.whole ++ d.fraction)) (d.exponent - d.fraction.length)
  | none => .ofDecimal 11 52 0 0

/-- `i64::try_from`. -/
def tryInt64 (n : Int) : Option Int64 :=
  if Int64.minValue.toInt ≤ n ∧ n ≤ Int64.maxValue.toInt then some (.ofInt n) else none

/-- `i32::try_from`. -/
def tryInt32 (n : Int) : Option Int32 :=
  if Int32.minValue.toInt ≤ n ∧ n ≤ Int32.maxValue.toInt then some (.ofInt n) else none

/-- The narrowest integer literal. -/
def integer (n : Int64) : Expr :=
  match tryInt32 n.toInt with
  | some n => value .int32 (.int32 n)
  | none => value .int64 (.int64 n)

def number (s : String) (negative : Bool) : BindResult E Expr :=
  let invalid := BindError.invalidNumber (if negative then "-" ++ s else s)
  if !validNumber s then
    .fail invalid
  else if s.toList.any fun c => c = '.' || c = 'e' || c = 'E' then
    let n := parseFloat s
    if !n.isFinite then .fail invalid
    else .ok (value .float64 (.float64 (if negative then n.neg else n)))
  else
    let magnitude := digits s.toList
    if magnitude ≥ 2 ^ 64 then .fail invalid
    else if negative then
      if magnitude = 2 ^ 63 then .ok (integer Int64.minValue)
      else
        match tryInt64 magnitude with
        | some n => .ok (integer (-n))
        | none => .fail invalid
    else
      match tryInt64 magnitude with
      | some n => .ok (integer n)
      | none => .fail invalid

def bindLiteral : Sql.Literal → BindResult E Expr
  | .null => .ok (value .null .null)
  | .boolean b => .ok (value .boolean (.boolean b))
  | .string s => .ok (value .text (.string s))
  | .number s => number s false

/-! ## Operators -/

/-- The operand of a sign. -/
def signOperand (op : UnaryOp) (e : Expr) : BindResult E Expr := do
  let e := if e.dataType = .null then cast e .int32 else e
  requireNumeric e.dataType false "unary sign"
  return if op = .minus ∧ e.dataType = .uint32 then cast e .int64 else e

def bindUnary (op : UnaryOp) (e : Expr) : BindResult E Expr := do
  let e ← match op with
    | .not => boolean e "NOT"
    | .plus | .minus => signOperand op e
  return ⟨e.dataType, e.nullable, .unary op e⟩

/-- The operands of a binary operator with their casts, and its type. -/
def binaryOperands (op : BinaryOp) (left right : Expr) : BindResult E (Expr × Expr × LogicalType) :=
  match op with
  | .and | .or => do
    return (← boolean left "boolean operator", ← boolean right "boolean operator", .boolean)
  | .add | .subtract | .multiply | .divide | .modulo => do
    requireNumeric left.dataType (op = .modulo) "arithmetic"
    requireNumeric right.dataType (op = .modulo) "arithmetic"
    let target ← Result.unwrap (numericCommon left.dataType right.dataType)
    return (cast left target, cast right target, target)
  | .eq | .notEq | .less | .lessEq | .greater | .greaterEq =>
    match comparisonCommon left.dataType right.dataType with
    | some target => .ok (cast left target, cast right target, .boolean)
    | none => .fail (.incompatibleTypes "comparison" left.dataType right.dataType)

def bindBinary (op : BinaryOp) (left right : Expr) : BindResult E Expr := do
  let (left, right, dataType) ← binaryOperands op left right
  return ⟨dataType, left.nullable || right.nullable, .binary op left right⟩

/-! ## Calls -/

def functionNamed : String → Option WindowFunction
  | "count" => some (.aggregate .count)
  | "sum" => some (.aggregate .sum)
  | "avg" => some (.aggregate .avg)
  | "min" => some (.aggregate .min)
  | "max" => some (.aggregate .max)
  | "row_number" => some .rowNumber
  | "rank" => some .rank
  | "dense_rank" => some .denseRank
  | _ => none

/-- Where a call may stand. -/
def checkPlacement (function : WindowFunction) (distinct over_ aggregates windows : Bool) :
    BindResult E Unit :=
  if over_ then
    if !windows then .fail (.invalidFunction "window is not allowed in this context")
    else if distinct then .fail (.invalidFunction "window DISTINCT is unsupported")
    else .ok ()
  else
    match function with
    | .aggregate _ =>
      if !aggregates then .fail (.invalidFunction "aggregate is not allowed in this context") else .ok ()
    | _ => .fail (.invalidFunction "ranking functions require OVER")

def isStar : List Sql.Expr → Bool
  | [.wildcard] => true
  | _ => false

/-- The arguments that are bound; the star of `COUNT(*)` is not. -/
def boundArgs (args : List Sql.Expr) : List Sql.Expr := if isStar args then [] else args

def checkArguments (function : WindowFunction) (args : List Sql.Expr) (distinct filter : Bool) :
    BindResult E Unit :=
  match function with
  | .aggregate a =>
    if args.length ≠ 1 || (isStar args && a ≠ .count) || (isStar args && distinct) then
      .fail (.invalidFunction "aggregate requires one argument; only COUNT accepts non-DISTINCT *")
    else
      .ok ()
  | _ =>
    if !args.isEmpty || distinct || filter then
      .fail (.invalidFunction "ranking functions take no arguments, DISTINCT, or FILTER")
    else
      .ok ()

/-- The type to which the argument of an aggregate is cast, which is also that of its result. -/
def aggregateType (a : AggregateFunction) (arg : LogicalType) : BindResult E LogicalType :=
  match a with
  | .sum | .avg => do
    requireNumeric arg false "aggregate"
    return if a = .avg ∨ isFloat arg then .float64 else .int64
  | .min | .max => .ok (if arg = .null then .text else arg)
  | .count => .error (.panic .assertion)

/-- The arguments with their casts, the type and the nullability of a call. -/
def signature (function : WindowFunction) (args : List Expr) :
    BindResult E (List Expr × LogicalType × Bool) :=
  match function with
  | .aggregate .count | .rowNumber | .rank | .denseRank => .ok (args, .int64, false)
  | .aggregate a =>
    match args with
    | [] => .error (.panic .bounds)
    | arg :: args => do
      let target ← aggregateType a arg.dataType
      return (args ++ [cast arg target], target, true)

def order (e : Expr) (o : Sql.OrderByExpr Sql.Expr) : OrderByExpr Expr :=
  ⟨e, o.direction, o.nulls.getD (match o.direction with
    | .ascending => .last
    | .descending => .first)⟩

/-- `str::parse::<u64>` of digits. -/
def parseUInt64 (s : String) : Option UInt64 :=
  if digits s.toList < 2 ^ 64 then some (.ofNat (digits s.toList)) else none

def isDigits (s : String) : Bool := !s.toList.isEmpty && s.toList.all Char.isDigit

def frameOffset (units : Sql.FrameUnits) (n : String) (bound : UInt64 → FrameBound) :
    BindResult E FrameBound :=
  if units = .range then .fail (.invalidWindowFrame "RANGE offsets are unsupported")
  else if !isDigits n then .fail (.invalidWindowFrame "ROWS offset must be a nonnegative integer")
  else
    match parseUInt64 n with
    | some n => .ok (bound n)
    | none => .fail (.invalidWindowFrame "ROWS offset exceeds u64")

def frameBound (units : Sql.FrameUnits) : Sql.FrameBound → BindResult E FrameBound
  | .unboundedPreceding => .ok .unboundedPreceding
  | .unboundedFollowing => .ok .unboundedFollowing
  | .currentRow => .ok .currentRow
  | .preceding n => frameOffset units n .preceding
  | .following n => frameOffset units n .following

def frameCategory : FrameBound → Nat
  | .unboundedPreceding => 0
  | .preceding _ => 1
  | .currentRow => 2
  | .following _ => 3
  | .unboundedFollowing => 4

def frame (f : Option Sql.WindowFrame) (ordered : Bool) : BindResult E WindowFrame :=
  match f with
  | none => .ok ⟨.range, .unboundedPreceding, if ordered then .currentRow else .unboundedFollowing⟩
  | some f => do
    let start ← frameBound f.units f.start
    let stop ← frameBound f.units f.stop
    if start = .unboundedFollowing ∨ stop = .unboundedPreceding ∨ frameCategory start > frameCategory stop then
      .fail (.invalidWindowFrame "frame boundaries are reversed or use an invalid unbounded endpoint")
    else
      return ⟨f.units, start, stop⟩

section

variable (bind : Sql.Expr → BindResult E Expr)

def bindFilter (filter : Option Sql.Expr) : BindResult E (Option Expr) :=
  filter.mapM fun x => do boolean (← bind x) "FILTER"

/-- The operands of a window besides its arguments and its filter. -/
def bindWindow (function : WindowFunction) (args : List Expr) (distinct : Bool) (filter : Option Expr)
    (over_ : Sql.WindowSpec Sql.Expr) : BindResult E (Bound.WindowExpr Expr) := do
  let partitionBy ← over_.partitionBy.mapM bind
  let orderBy ← over_.orderBy.mapM fun o => do return order (← bind o.expr) o
  let frame ← frame over_.frame (!over_.orderBy.isEmpty)
  return ⟨function, args, distinct, filter, partitionBy, orderBy, frame⟩

/-- The kind of a call. -/
def bindKind (function : WindowFunction) (args : List Expr) (distinct : Bool) (filter : Option Expr) :
    Option (Sql.WindowSpec Sql.Expr) → BindResult E (Bound.ExprKind Expr)
  | some over_ => do return .window (← bindWindow bind function args distinct filter over_)
  | none =>
    match function with
    | .aggregate f => .ok (.aggregate ⟨f, args, distinct, filter⟩)
    | _ => .error (.panic .assertion)

end

/-- A call whose operands are bound by `bind`, given whether they may contain aggregates: those of a window
are evaluated on groups and may. -/
def bindCall (bind : Bool → Sql.Expr → BindResult E Expr) (aggregates windows : Bool) (name : String)
    (args : List Sql.Expr) (distinct : Bool) (filter : Option Sql.Expr)
    (over_ : Option (Sql.WindowSpec Sql.Expr)) : BindResult E Expr :=
  match functionNamed name with
  | none => .fail (.unknownFunction name)
  | some function => do
    checkPlacement function distinct over_.isSome aggregates windows
    checkArguments function args distinct filter.isSome
    let bound ← (boundArgs args).mapM (bind over_.isSome)
    let filter ← bindFilter (bind over_.isSome) filter
    let (bound, dataType, nullable) ← signature function bound
    let kind ← bindKind (bind over_.isSome) function bound distinct filter over_
    return ⟨dataType, nullable, kind⟩

/-! ## Expressions -/

/-- An expression, with the levels that are left: at `depth` there are `256 - depth`. -/
def bindExprInner (context : BindContext) : Nat → Bool → Bool → Sql.Expr → BindResult E Expr
  | 0, _, _, _ => .fail .expressionTooDeep
  | levels + 1, aggregates, windows, expr =>
    match expr with
    | .alias _ _ => .fail (.invalidStatement "alias only allowed on projection")
    | .functionCall name args distinct filter over_ =>
      bindCall (fun over_ => bindExprInner context levels over_ false) aggregates windows name args distinct
        filter over_
    | .identifier name => context.resolveColumn none name
    | .qualifiedIdentifier table column => context.resolveColumn (some table) column
    | .wildcard => .fail .invalidWildcard
    | .literal l => bindLiteral l
    -- a signed token is one literal, so that the least integers have one
    | .unary .minus (.literal (.number s)) => number s true
    | .unary op x => do bindUnary op (← bindExprInner context levels aggregates windows x)
    | .binary left op right => do
      let left ← bindExprInner context levels aggregates windows left
      let right ← bindExprInner context levels aggregates windows right
      bindBinary op left right
    | .isNull x negated => do
      return ⟨.boolean, false, .isNull (← bindExprInner context levels aggregates windows x) negated⟩

def bindExpr (context : BindContext) (expr : Sql.Expr) : BindResult E Expr :=
  bindExprInner context 256 false false expr

/-! ## Grouping -/

/-- The operands that are evaluated in the phase of the expression itself. -/
def children (e : Expr) : List Expr :=
  match e.kind with
  | .unary _ c | .cast c | .isNull c _ => [c]
  | .binary _ l r => [l, r]
  | .window w => w.args ++ w.filter.toList ++ w.partitionBy ++ w.orderBy.map fun o => o.expr
  | .literal _ | .column _ | .aggregate _ => []

theorem children_subset {e c : Expr} (h : c ∈ children e) : c ∈ e.operands := by
  unfold children at h
  unfold Expr.operands
  split at h <;> simp_all

def isAggregate (e : Expr) : Bool :=
  match e.kind with
  | .aggregate _ => true
  | _ => false

def isColumn (e : Expr) : Bool :=
  match e.kind with
  | .column _ => true
  | _ => false

def containsAggregate (e : Expr) : Bool :=
  if isAggregate e then true else (children e).attach.any fun c => containsAggregate c.1
termination_by sizeOf e
decreasing_by exact Expr.sizeOf_operand (children_subset c.2)

def validateGrouped (groups : List Expr) (e : Expr) : BindResult E Unit :=
  if groups.any (fun g => g.eq e) || isAggregate e then .ok ()
  else if isColumn e then .fail .ungroupedColumn
  else (children e).attach.forM fun c => validateGrouped groups c.1
termination_by sizeOf e
decreasing_by exact Expr.sizeOf_operand (children_subset c.2)

end ChiliDB.Binder

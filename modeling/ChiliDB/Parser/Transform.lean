import ChiliDB.Parser.Ast
import ChiliDB.Peg.Parser

/-!
# From parse trees to syntax trees

`crates/parser/src/transform.rs`: every node is checked again, for the rules of its children and for the
text of a leaf, and an error names the node and what was expected there.

* `Children` — the children of a node that have not been taken yet.
* `trivia`, `token`, `keywordSequence`, `unquote`, `number` — the recognisers of leaves.
* `Expr.parse` — expressions; a node is converted from its children's values, so the recursion is on the
  tree (`exprBody`).
* `Statement.parse`, `statements` — statements, and the root of a parse.
-/

namespace ChiliDB.Sql.Transform

open Peg (Node ParseError)

abbrev Result := Except ParseError

def error {α : Type} (n : Node) (expected : String) : Result α := .error ⟨n.start, [expected]⟩

/-! ## Children -/

/-- The nodes inside a node. -/
abbrev Below (n : Node) := { m : Node // sizeOf m < sizeOf n }

theorem sizeOf_child {n m : Node} (h : m ∈ n.children) : sizeOf m < sizeOf n := by
  cases n
  have := List.sizeOf_lt_of_mem h
  simp only [Node.mk.sizeOf_spec] at this ⊢
  omega

/-- A node inside a node inside this one. -/
def Below.inner {n : Node} (m : Below n) (k : Below m.1) : Below n := ⟨k.1, Nat.lt_trans k.2 m.2⟩

structure Children (n : Node) where
  rest : List (Below n)

namespace Children

variable {n : Node} {α : Type}

def new (n : Node) : Children n := ⟨n.children.attach.map fun m => ⟨m.1, sizeOf_child m.2⟩⟩

def take (rule : String) (c : Children n) : Result (Below n × Children n) :=
  match c.rest with
  | m :: rest => if m.1.rule = rule then pure (m, ⟨rest⟩) else error n rule
  | [] => error n rule

def optional (rule : String) (c : Children n) : Result (Option (Below n) × Children n) :=
  match c.rest with
  | m :: rest => if m.1.rule = rule then pure (some m, ⟨rest⟩) else pure (none, c)
  | [] => pure (none, c)

def finish (c : Children n) : Result Unit :=
  if c.rest.isEmpty then pure () else error n "no extra children"

/-- `while !c.rest.is_empty() { values.push(f(c.take(rule)?)?) }`. -/
def takeAll (rule : String) (f : Below n → Result α) : List (Below n) → Result (List α)
  | [] => pure []
  | m :: rest => do
    if m.1.rule = rule then
      let value ← f m
      let values ← takeAll rule f rest
      pure (value :: values)
    else
      error n rule

/-- One child or more, all of this rule. -/
def many (rule : String) (f : Below n → Result α) (c : Children n) : Result (List α) := do
  let (first, c) ← c.take rule
  let value ← f first
  let values ← takeAll rule f c.rest
  pure (value :: values)

/-- `while let Some(m) = c.optional(rule)? { values.push(f(m)?) }`. -/
def takeWhile (rule : String) (f : Below n → Result α) :
    List (Below n) → Result (List α × Children n)
  | [] => pure ([], ⟨[]⟩)
  | m :: rest => do
    if m.1.rule = rule then
      let value ← f m
      let (values, c) ← takeWhile rule f rest
      pure (value :: values, c)
    else
      pure ([], ⟨m :: rest⟩)

end Children

def only (n : Node) (rule : String) : Result (Below n) := do
  let (child, c) ← (Children.new n).take rule
  c.finish
  pure child

def leaf (n : Node) : Result String := do
  (Children.new n).finish
  pure n.text

/-! ## Leaves -/

def isSpace (c : Char) : Bool := c = ' ' || c = '\t' || c = '\r' || c = '\n'

/-- What is behind the first `*/`. -/
def afterComment : List Char → Option (List Char)
  | '*' :: '/' :: rest => some rest
  | _ :: rest => afterComment rest
  | [] => none

theorem afterComment_length : ∀ {s rest : List Char}, afterComment s = some rest → rest.length < s.length
  | [], _, h => by cases h
  | c :: s, rest, h => by
    unfold afterComment at h
    split at h
    · rename_i heq
      cases heq
      cases h
      simp only [List.length_cons]
      omega
    · rename_i heq
      cases heq
      have := afterComment_length h
      simp only [List.length_cons]
      omega
    · rename_i heq
      cases heq

theorem length_line {s rest : List Char} (h : s.dropWhile isSpace = '-' :: '-' :: rest) :
    (rest.dropWhile (· ≠ '\n')).length < s.length := by
  have hle := (List.dropWhile_suffix isSpace (l := s)).length_le
  have hle' := (List.dropWhile_suffix (fun c => decide (c ≠ '\n')) (l := rest)).length_le
  rw [h] at hle
  simp only [List.length_cons] at hle
  omega

theorem length_block {s rest rest' : List Char} (h : s.dropWhile isSpace = '/' :: '*' :: rest)
    (hc : afterComment rest = some rest') : rest'.length < s.length := by
  have hle := (List.dropWhile_suffix isSpace (l := s)).length_le
  have hlt := afterComment_length hc
  rw [h] at hle
  simp only [List.length_cons] at hle
  omega

/-- The loop of `trivia`, and of `keyword_sequence` between two words: white space and comments are
skipped.  `none` is a block comment without an end. -/
def skipTrivia (s : List Char) : Option (List Char) :=
  match _h : s.dropWhile isSpace with
  | '-' :: '-' :: rest => skipTrivia (rest.dropWhile (· ≠ '\n'))
  | '/' :: '*' :: rest =>
    match _hc : afterComment rest with
    | some rest' => skipTrivia rest'
    | none => none
  | rest => some rest
termination_by s.length
decreasing_by
  · exact length_line _h
  · exact length_block _h _hc

/-- The loop of `keyword_sequence` as it stands there, with block comments first; it skips what `skipTrivia`
skips (`skipToKeyword_eq`), which the sequence below has in its place. -/
def skipToKeyword (s : List Char) : Option (List Char) :=
  match _h : s.dropWhile isSpace with
  | '/' :: '*' :: rest =>
    match _hc : afterComment rest with
    | some rest' => skipToKeyword rest'
    | none => none
  | '-' :: '-' :: rest => skipToKeyword (rest.dropWhile (· ≠ '\n'))
  | rest => some rest
termination_by s.length
decreasing_by
  · exact length_block _h _hc
  · exact length_line _h

def trivia (s : List Char) : Bool := skipTrivia s = some []

/-- `s.get(..word.len())` is the word, ASCII case apart; what is behind it. -/
def stripWord (word : String) (s : List Char) : Option (List Char) :=
  match Peg.splitBytes (Peg.bytes word.toList) s with
  | some (part, rest) => if Peg.eqIgnoreAsciiCase part word.toList then some rest else none
  | none => none

/-- The first of the words that the leaf is, but for trivia behind it.  A word stands with the value it
selects, where the source indexes a table. -/
def token {α : Type} (n : Node) (choices : List (String × α)) : Result α := do
  let s ← leaf n
  match choices.find? fun choice => (stripWord choice.1 s.toList).any trivia with
  | some choice => pure choice.2
  | none => error n "valid leaf token"

def isIdentChar (c : Char) : Bool := c.isAlphanum || c = '_'

/-- The words of a sequence from here on, with trivia before each but the first. -/
def keywordsFrom (n : Node) : Bool → List String → List Char → Result (List Char)
  | _, [], s => pure s
  | first, word :: words, s => do
    let s ← match if first then some s else skipTrivia s with
      | some s => pure s
      | none => error n "closed comment"
    match stripWord word s with
    | some rest =>
      if rest.head?.any isIdentChar then error n "keyword boundary" else keywordsFrom n false words rest
    | none => error n "keyword sequence"

def keywordSequence (n : Node) (words : List String) : Result Unit := do
  let s ← keywordsFrom n true words n.text.toList
  if trivia s then pure () else error n "trailing trivia"

/-- Are all quotes inside doubled? -/
def doubled (quote : Char) : List Char → Bool
  | [] => true
  | [c] => c ≠ quote
  | c :: d :: s => if c = quote then d = quote && doubled quote s else doubled quote (d :: s)

/-- `inner.replace` of doubled quotes. -/
def undouble (quote : Char) : List Char → List Char
  | c :: d :: s => if c = quote ∧ d = quote then quote :: undouble quote s else c :: undouble quote (d :: s)
  | s => s

/-- `s.strip_prefix(quote).and_then(|s| s.strip_suffix(quote))`. -/
def stripQuotes (quote : Char) : List Char → Option (List Char)
  | [] => none
  | c :: s => if c = quote ∧ s.getLast? = some quote then some s.dropLast else none

def unquote (n : Node) (quote : Char) : Result String := do
  let s ← leaf n
  match stripQuotes quote s.toList with
  | none => error n "paired SQL quotes"
  | some inner =>
    if doubled quote inner then
      pure (String.ofList (if quote ∈ inner then undouble quote inner else inner))
    else
      error n "doubled SQL quote"

/-- The words of the constant `RESERVED`. -/
def reserved : List String :=
  ["SELECT", "FROM", "WHERE", "CREATE", "TABLE", "INSERT", "INTO", "VALUES", "UPDATE", "SET",
   "DELETE", "BEGIN", "COMMIT", "ROLLBACK", "OR", "AND", "NOT", "IS", "NULL", "TRUE", "FALSE",
   "PRIMARY", "KEY", "UNIQUE", "ORDER", "BY", "LIMIT", "JOIN", "AS", "GROUP", "HAVING", "UNION",
   "DISTINCT", "ASC", "DESC", "NULLS", "FIRST", "LAST", "FILTER", "OVER", "PARTITION", "ROWS",
   "RANGE", "BETWEEN", "UNBOUNDED", "PRECEDING", "FOLLOWING", "CURRENT", "ROW"]

def isReserved (s : List Char) : Bool := reserved.any fun word => Peg.eqIgnoreAsciiCase word.toList s

/-- `to_ascii_lowercase`. -/
def lowercase (s : String) : String := String.ofList (s.toList.map Char.toLower)

def bareIdentifier (n : Node) : Result String := do
  let s ← leaf n
  if !(s.toList.head?.any fun c => c.isAlpha || c = '_') || !s.toList.all isIdentChar then
    error n "bare identifier"
  else if isReserved s.toList then
    error n "nonreserved identifier"
  else
    pure (lowercase s)

def identifier (n : Node) : Result String := do
  if n.rule ≠ "Identifier" then
    error n "Identifier"
  else
    match n.children with
    | [child] =>
      match child.rule with
      | "QuotedIdentifier" => do
        let value ← unquote child '"'
        if value = "" then error child "nonempty identifier" else pure value
      | "BareIdentifier" => bareIdentifier child
      | _ => error child "identifier token"
    | _ => error n "one identifier token"

def digits (s : List Char) : List Char := s.dropWhile Char.isDigit

/-- The exponent, and nothing behind it. -/
def exponent : List Char → Bool
  | [] => true
  | c :: s =>
    if c = 'e' ∨ c = 'E' then
      let s := match s with
        | d :: s => if d = '+' ∨ d = '-' then s else d :: s
        | [] => []
      s.head?.any Char.isDigit && (digits s).isEmpty
    else
      false

def number (s : List Char) : Bool :=
  match digits s with
  | '.' :: rest => rest.head?.any Char.isDigit && exponent (digits rest)
  | rest => s.head?.any Char.isDigit && exponent rest

end ChiliDB.Sql.Transform

namespace ChiliDB.Sql

open Transform
open Peg (Node)

def Literal.parse (n : Node) : Transform.Result Literal :=
  match n.rule with
  | "String" => do
    let s ← unquote n '\''
    pure (.string s)
  | "Number" => do
    let s ← leaf n
    if Transform.number s.toList then pure (.number s) else error n "numeric literal"
  | "Null" => token n [("NULL", .null)]
  | "True" => token n [("TRUE", .boolean true)]
  | "False" => token n [("FALSE", .boolean false)]
  | _ => error n "literal node"

def BinaryOp.parse (n : Node) : Transform.Result BinaryOp :=
  match n.rule with
  | "OrOp" => token n [("OR", .or)]
  | "AndOp" => token n [("AND", .and)]
  | "AddOp" => token n [("+", .add), ("-", .subtract)]
  | "MulOp" => token n [("*", .multiply), ("/", .divide), ("%", .modulo)]
  | "CompareOp" => token n [("<=", .lessEq), (">=", .greaterEq), ("<>", .notEq), ("!=", .notEq),
      ("=", .eq), ("<", .less), (">", .greater)]
  | _ => error n "binary operator"

/-! ## Orderings and windows -/

def SortDirection.parse (n : Node) : Transform.Result SortDirection := do
  if n.rule ≠ "SortDirection" then
    error n "SortDirection"
  else
    token n [("ASC", .ascending), ("DESC", .descending)]

def NullOrder.parse (n : Node) : Transform.Result NullOrder := do
  if n.rule ≠ "NullOrder" then
    error n "NullOrder"
  else
    let _ ← leaf n
    if (keywordSequence n ["NULLS", "FIRST"]).toBool then
      pure .first
    else
      keywordSequence n ["NULLS", "LAST"]
      pure .last

def FrameUnits.parse (n : Node) : Transform.Result FrameUnits := do
  if n.rule ≠ "FrameUnits" then
    error n "FrameUnits"
  else
    token n [("ROWS", .rows), ("RANGE", .range)]

/-- The offset of a frame bound. -/
def frameOffset (bound : Node) : Transform.Result String := do
  let offset ← leaf (← only bound "Offset").1
  if offset = "" ∨ !offset.toList.all Char.isDigit then
    error bound "unsigned decimal offset"
  else
    pure offset

/-- A frame bound of keywords. -/
def frameWords (bound : Node) (value : FrameBound) (words : List String) : Transform.Result FrameBound := do
  let _ ← leaf bound
  keywordSequence bound words
  pure value

def FrameBound.parse (n : Node) : Transform.Result FrameBound := do
  if n.rule ≠ "FrameBound" then
    error n "FrameBound"
  else
    match n.children with
    | [bound] =>
      match bound.rule with
      | "UnboundedPreceding" => frameWords bound .unboundedPreceding ["UNBOUNDED", "PRECEDING"]
      | "UnboundedFollowing" => frameWords bound .unboundedFollowing ["UNBOUNDED", "FOLLOWING"]
      | "CurrentRow" => frameWords bound .currentRow ["CURRENT", "ROW"]
      | "Preceding" => do
        let offset ← frameOffset bound
        pure (.preceding offset)
      | "Following" => do
        let offset ← frameOffset bound
        pure (.following offset)
      | _ => error bound "frame bound"
    | _ => error n "one frame bound"

def WindowFrame.parse (n : Node) : Transform.Result WindowFrame := do
  if n.rule ≠ "WindowFrame" then
    error n "WindowFrame"
  else
    let (units, c) ← (Children.new n).take "FrameUnits"
    let units ← FrameUnits.parse units.1
    match ← c.optional "Between" with
    | (some between, c) =>
      let (start, b) ← (Children.new between.1).take "FrameBound"
      let start ← FrameBound.parse start.1
      let (stop, b) ← b.take "FrameBound"
      let stop ← FrameBound.parse stop.1
      b.finish
      c.finish
      pure ⟨units, start, stop⟩
    | (none, c) =>
      let (start, c) ← c.take "FrameBound"
      let start ← FrameBound.parse start.1
      c.finish
      pure ⟨units, start, .currentRow⟩

section

variable {n : Node} (sub : Below n → Transform.Result Expr)

/-- The expressions below a node of this one. -/
def within (m : Below n) : Below m.1 → Transform.Result Expr := fun k => sub (m.inner k)

def expressions (m : Below n) : Transform.Result (List Expr) :=
  (Children.new m.1).many "Expr" (within sub m)

def OrderByExpr.parse (m : Below n) : Transform.Result (OrderByExpr Expr) := do
  if m.1.rule ≠ "OrderByExpr" then
    error m.1 "OrderByExpr"
  else
    let (expr, c) ← (Children.new m.1).take "Expr"
    let expr ← within sub m expr
    let (direction, c) ← c.optional "SortDirection"
    let direction ← direction.mapM fun d => SortDirection.parse d.1
    let (nulls, c) ← c.optional "NullOrder"
    let nulls ← nulls.mapM fun n => NullOrder.parse n.1
    c.finish
    pure ⟨expr, direction.getD .ascending, nulls⟩

def orderings (m : Below n) : Transform.Result (List (OrderByExpr Expr)) :=
  (Children.new m.1).many "OrderByExpr" fun k => OrderByExpr.parse sub (m.inner k)

def WindowSpec.parse (m : Below n) : Transform.Result (WindowSpec Expr) := do
  if m.1.rule ≠ "WindowSpec" then
    error m.1 "WindowSpec"
  else
    let (partition, c) ← (Children.new m.1).optional "PartitionBy"
    let partition ← partition.mapM fun p => expressions sub (m.inner p)
    let (order, c) ← c.optional "OrderBy"
    let order ← order.mapM fun o => orderings sub (m.inner o)
    let (frame, c) ← c.optional "WindowFrame"
    let frame ← frame.mapM fun f => WindowFrame.parse f.1
    c.finish
    pure ⟨partition.getD [], order.getD [], frame⟩

/-! ## Expressions -/

/-- `left (operator operand)*`, associating to the left. -/
def chainFrom (operator operand : String) : Expr → List (Below n) → Transform.Result Expr
  | left, [] => pure left
  | left, op :: rest => do
    if op.1.rule ≠ operator then
      error n operator
    else
      let op ← BinaryOp.parse op.1
      match rest with
      | [] => error n operand
      | right :: rest =>
        if right.1.rule ≠ operand then
          error n operand
        else
          let right ← sub right
          chainFrom operator operand (.binary left op right) rest

def chain (operand operator : String) : Transform.Result Expr := do
  let (left, c) ← (Children.new n).take operand
  let left ← sub left
  chainFrom sub operator operand left c.rest

/-- `operator self / operand`. -/
def prefixed {op : Type} (operator operand : String) (choices : List (String × op))
    (make : op → Expr → Expr) : Transform.Result Expr := do
  match ← (Children.new n).optional operator with
  | (some o, c) =>
    let o ← token o.1 choices
    let (e, c) ← c.take n.rule
    let e ← sub e
    c.finish
    pure (make o e)
  | (none, c) =>
    let (e, c) ← c.take operand
    let e ← sub e
    c.finish
    pure e

/-- `IS [NOT] NULL`. -/
def isNullSuffix (is : Node) : Transform.Result Bool := do
  let (not, parts) ← (Children.new is).optional "IsNot"
  let not ← not.mapM fun not => token not.1 [("NOT", ())]
  parts.finish
  keywordSequence is (if not.isSome then ["IS", "NOT", "NULL"] else ["IS", "NULL"])
  pure not.isSome

def comparison : Transform.Result Expr := do
  let (left, c) ← (Children.new n).take "Additive"
  let left ← sub left
  match ← c.optional "IsNull" with
  | (some is, c) =>
    let negated ← isNullSuffix is.1
    c.finish
    pure (.isNull left negated)
  | (none, c) =>
    match ← c.optional "CompareOp" with
    | (some op, c) =>
      let op ← BinaryOp.parse op.1
      let (right, c) ← c.take "Additive"
      let right ← sub right
      c.finish
      pure (.binary left op right)
    | (none, c) =>
      c.finish
      pure left

def projectionItem : Transform.Result Expr := do
  let (expr, c) ← (Children.new n).take "Expr"
  let expr ← sub expr
  match ← c.optional "Identifier" with
  | (some named, c) =>
    let name ← identifier named.1
    c.finish
    pure (.alias expr name)
  | (none, c) =>
    c.finish
    pure expr

/-- The arguments of a call: a lone star, or expressions. -/
def arguments (m : Below n) : Transform.Result (List Expr) := do
  if m.1.children.head?.any fun k => k.rule = "Star" then
    let star ← only m.1 "Star"
    let star ← within sub m star
    pure [star]
  else
    expressions sub m

def functionCall : Transform.Result Expr := do
  let (name, c) ← (Children.new n).take "Identifier"
  let name ← identifier name.1
  let (distinct, c) ← c.optional "Distinct"
  let distinct ← distinct.mapM fun d => token d.1 [("DISTINCT", ())]
  let (args, c) ← c.optional "Arguments"
  let args ← args.mapM (arguments sub)
  let (filter, c) ← c.optional "CallFilter"
  let filter ← filter.mapM fun f => do
    let e ← only f.1 "Expr"
    within sub f e
  let (over_, c) ← c.optional "Over"
  let over_ ← over_.mapM fun o => do
    let w ← only o.1 "WindowSpec"
    WindowSpec.parse sub (o.inner w)
  c.finish
  pure (.functionCall name (args.getD []) distinct.isSome filter over_)

def name : Transform.Result Expr := do
  let (first, c) ← (Children.new n).take "Identifier"
  let first ← identifier first.1
  match ← c.optional "Identifier" with
  | (some second, c) =>
    let second ← identifier second.1
    c.finish
    pure (.qualifiedIdentifier first second)
  | (none, c) =>
    c.finish
    pure (.identifier first)

def primaryRules : List String :=
  ["Number", "String", "Null", "True", "False", "Name", "FunctionCall", "Expr"]

def primary : Transform.Result Expr :=
  match (Children.new n).rest with
  | [child] => if child.1.rule ∈ primaryRules then sub child else error child.1 "primary expression"
  | _ => error n "one primary expression"

/-- A rule with one child, which it stands for. -/
def wrapper (rule : String) : Transform.Result Expr := do
  let (e, c) ← (Children.new n).take rule
  let e ← sub e
  c.finish
  pure e

/-- `Expr::sub` at one node, over the values of the nodes below it. -/
def exprBody : Transform.Result Expr :=
  match n.rule with
  | "Expr" => wrapper sub "Or"
  | "Primary" => primary sub
  | "Or" => chain sub "And" "OrOp"
  | "And" => chain sub "Not" "AndOp"
  | "Additive" => chain sub "Multiplicative" "AddOp"
  | "Multiplicative" => chain sub "Unary" "MulOp"
  | "Not" => prefixed sub "NotOp" "Comparison" [("NOT", UnaryOp.not)] .unary
  | "Unary" => prefixed sub "UnaryOp" "Primary" [("+", UnaryOp.plus), ("-", UnaryOp.minus)] .unary
  | "Comparison" => comparison sub
  | "ProjectionItem" => projectionItem sub
  | "FunctionCall" => functionCall sub
  | "Name" => name (n := n)
  | "Star" => token n [("*", .wildcard)]
  | "Number" => do
    let l ← Literal.parse n
    pure (.literal l)
  | "String" => do
    let l ← Literal.parse n
    pure (.literal l)
  | "Null" => do
    let l ← Literal.parse n
    pure (.literal l)
  | "True" => do
    let l ← Literal.parse n
    pure (.literal l)
  | "False" => do
    let l ← Literal.parse n
    pure (.literal l)
  | _ => error n "expression node"

end

def Expr.parse (n : Node) : Transform.Result Expr :=
  exprBody fun m : Below n => Expr.parse m.1
termination_by sizeOf n
decreasing_by exact m.2

/-! ## Statements -/

def DataType.parse (n : Node) : Transform.Result DataType := do
  if n.rule ≠ "DataType" then
    error n "DataType"
  else
    match n.children with
    | [ty] =>
      match ty.rule with
      | "IntegerType" => token ty [("INTEGER", .integer), ("INT", .integer)]
      | "BigIntType" => token ty [("BIGINT", .bigInt)]
      | "TextType" => token ty [("TEXT", .text)]
      | "BooleanType" => token ty [("BOOLEAN", .boolean), ("BOOL", .boolean)]
      | "RealType" => token ty [("REAL", .real)]
      | "DoubleType" => token ty [("DOUBLE", .double)]
      | "VarcharType" => do
        match ← (Children.new ty).optional "Length" with
        | (some length, c) =>
          let s ← leaf length.1
          if s = "" ∨ !s.toList.all Char.isDigit then
            error length.1 "decimal length"
          else
            c.finish
            pure (.varchar (some s))
        | (none, c) =>
          c.finish
          token ty [("VARCHAR", .varchar none)]
      | _ => error ty "data type"
    | _ => error n "one data type"

/-- A constraint of keywords. -/
def constraintWords (n : Node) (value : ColumnConstraint) (words : List String) :
    Transform.Result ColumnConstraint := do
  let _ ← leaf n
  keywordSequence n words
  pure value

def ColumnConstraint.parse (n : Node) : Transform.Result ColumnConstraint := do
  if n.rule ≠ "Constraint" then
    error n "Constraint"
  else
    match n.children with
    | [n] =>
      match n.rule with
      | "NotNull" => constraintWords n .notNull ["NOT", "NULL"]
      | "PrimaryKey" => constraintWords n .primaryKey ["PRIMARY", "KEY"]
      | "Unique" => constraintWords n .unique ["UNIQUE"]
      | _ => error n "column constraint"
    | _ => error n "one constraint"

def ColumnDef.parse (n : Node) : Transform.Result ColumnDef := do
  if n.rule ≠ "ColumnDef" then
    error n "ColumnDef"
  else
    let (name, c) ← (Children.new n).take "Identifier"
    let name ← identifier name.1
    let (type, c) ← c.take "DataType"
    let type ← DataType.parse type.1
    let constraints ← Children.takeAll "Constraint" (fun m => ColumnConstraint.parse m.1) c.rest
    pure ⟨name, type, constraints⟩

def Assignment.parse (n : Node) : Transform.Result Assignment := do
  if n.rule ≠ "Assignment" then
    error n "Assignment"
  else
    let (column, c) ← (Children.new n).take "Identifier"
    let column ← identifier column.1
    let (value, c) ← c.take "Expr"
    let value ← Expr.parse value.1
    c.finish
    pure ⟨column, value⟩

/-- The expressions below a node. -/
def exprs {n : Node} (m : Below n) : Transform.Result (List Expr) := expressions (fun k => Expr.parse k.1) m

/-- The only expression below a node. -/
def onlyExpr (n : Node) : Transform.Result Expr := do
  let e ← only n "Expr"
  Expr.parse e.1

def filter {n : Node} (c : Children n) : Transform.Result (Option Expr × Children n) := do
  let (w, c) ← c.optional "Where"
  let e ← w.mapM fun w => onlyExpr w.1
  pure (e, c)

/-- A projection: a lone star, or items. -/
def projection (p : Node) : Transform.Result (List Expr) :=
  p.children.mapM Expr.parse

def selectStatement (n : Node) : Transform.Result Statement := do
  let (p, c) ← (Children.new n).take "Projection"
  let items ← projection p.1
  let (source, c) ← c.optional "From"
  let source ← source.mapM fun f => do identifier (← only f.1 "Identifier").1
  let (condition, c) ← filter c
  let (group, c) ← c.optional "GroupBy"
  let group ← group.mapM exprs
  let (having, c) ← c.optional "Having"
  let having ← having.mapM fun h => onlyExpr h.1
  let (order, c) ← c.optional "OrderBy"
  let order ← order.mapM fun o => orderings (fun k => Expr.parse k.1) o
  c.finish
  pure (.select items source condition (group.getD []) having (order.getD []))

def createTableStatement (n : Node) : Transform.Result Statement := do
  let (table, c) ← (Children.new n).take "Identifier"
  let table ← identifier table.1
  let columns ← c.many "ColumnDef" fun m => ColumnDef.parse m.1
  pure (.createTable table columns)

def insertStatement (n : Node) : Transform.Result Statement := do
  let (table, c) ← (Children.new n).take "Identifier"
  let table ← identifier table.1
  let (columns, c) ← c.optional "Columns"
  let columns ← columns.mapM fun m => (Children.new m.1).many "Identifier" fun k => identifier k.1
  let rows ← c.many "Row" exprs
  pure (.insert table (columns.getD []) rows)

def updateStatement (n : Node) : Transform.Result Statement := do
  let (table, c) ← (Children.new n).take "Identifier"
  let table ← identifier table.1
  let (first, c) ← c.take "Assignment"
  let first ← Assignment.parse first.1
  let (assignments, c) ← Children.takeWhile "Assignment" (fun m => Assignment.parse m.1) c.rest
  let (condition, c) ← filter c
  c.finish
  pure (.update table (first :: assignments) condition)

def deleteStatement (n : Node) : Transform.Result Statement := do
  let (table, c) ← (Children.new n).take "Identifier"
  let table ← identifier table.1
  let (condition, c) ← filter c
  c.finish
  pure (.delete table condition)

/-- A statement by its own rule. -/
def concreteStatement (n : Node) : Transform.Result Statement :=
  match n.rule with
  | "Select" => selectStatement n
  | "CreateTable" => createTableStatement n
  | "Insert" => insertStatement n
  | "Update" => updateStatement n
  | "Delete" => deleteStatement n
  | "Begin" => token n [("BEGIN", .begin)]
  | "Commit" => token n [("COMMIT", .commit)]
  | "Rollback" => token n [("ROLLBACK", .rollback)]
  | _ => error n "statement node"

def Statement.parse (n : Node) : Transform.Result Statement :=
  if n.rule = "Statement" then
    match n.children with
    | [n] => concreteStatement n
    | _ => error n "one statement"
  else
    concreteStatement n

/-- `transform::statements`. -/
def statements (root : Node) : Transform.Result (List Statement) :=
  if root.rule ≠ "Root" then
    error root "Root"
  else
    root.children.mapM fun n => if n.rule ≠ "Statement" then error n "Statement" else Statement.parse n

end ChiliDB.Sql

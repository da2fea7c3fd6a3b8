import ChiliDB.Parser.LeafNodes

/-!
# The transform succeeds on every tree of the grammar

Rule by rule: the children that the grammar makes are the children that the transform takes, and so every
node has a value once the nodes below it have one.  The induction is on the size of the tree.

* `Ready` — a parsed node without reserved identifiers, all smaller expressions of which have values.
* `expr_total` — expressions; `statement_total` — statements.

Principal result: `transform_succeeds_on_parse_trees`.
-/

namespace ChiliDB.Sql.Grammar

open Effect List
open Peg
open Transform (Gives identifier)

variable {n m : Node} {α : Type}

/-- The rules that `Expr::parse` accepts. -/
def exprRules : List String :=
  ["Expr", "Primary", "Or", "And", "Additive", "Multiplicative", "Not", "Unary", "Comparison",
   "ProjectionItem", "FunctionCall", "Name", "Star", "Number", "String", "Null", "True", "False"]

/-- A parsed node without reserved identifiers, all smaller expressions of which have values. -/
structure Ready (n : Node) : Prop where
  parsed : Parsed n
  unreserved : Unreserved n
  below : ∀ k, sizeOf k < sizeOf n → Parsed k → Unreserved k → k.rule ∈ exprRules → ∃ e, Expr.parse k = .ok e

namespace Ready

theorem child (h : Ready n) (hm : m ∈ n.children) : Ready m where
  parsed := h.parsed.child hm
  unreserved := h.unreserved.child hm
  below k hk := h.below k (Nat.lt_trans hk (Transform.sizeOf_child hm))

theorem value (h : Ready n) (hm : m ∈ n.children) (hrule : m.rule ∈ exprRules) : ∃ e, Expr.parse m = .ok e :=
  h.below m (Transform.sizeOf_child hm) (h.parsed.child hm) (h.unreserved.child hm) hrule

theorem name (h : Ready n) (hm : m ∈ n.children) (hrule : m.rule = "Identifier") : ∃ v, identifier m = .ok v :=
  identifier_total (h.parsed.child hm) hrule (h.unreserved.child hm)

end Ready

/-! ## Children of one rule -/

variable {rule : String} {g : Node → Transform.Result α}

theorem Ready.optional (h : Ready n) {o : Option Node} (ho : ∀ m ∈ o, m ∈ n.children)
    (hrule : ∀ m ∈ o, m.rule = rule) (hg : ∀ {m}, Ready m → m.rule = rule → ∃ v, g m = .ok v) :
    ∃ v, o.mapM g = .ok v := by
  cases o with
  | none => exact ⟨none, rfl⟩
  | some m =>
    obtain ⟨v, hv⟩ := hg (h.child (ho m rfl)) (hrule m rfl)
    exact ⟨some v, option_mapM_ok.2 (.inr ⟨m, v, rfl, rfl, hv⟩)⟩

variable {l ks : List Node}

theorem list_total (hrule : ∀ m ∈ l, m.rule = rule) (h : ∀ m ∈ l, ∃ v, g m = .ok v) :
    ∃ vs, Forall₂ (Gives rule g) l vs := by
  refine exists_forall₂ fun m hm => ?_
  obtain ⟨v, hv⟩ := h m hm
  exact ⟨v, hrule m hm, hv⟩

/-- A list that starts with a node has a first value. -/
theorem cons_total (hks : ks = m :: l) (hrule : ∀ k ∈ ks, k.rule = rule) (h : ∀ k ∈ ks, ∃ v, g k = .ok v) :
    ∃ v vs, Forall₂ (Gives rule g) ks (v :: vs) := by
  obtain ⟨vs, hvs⟩ := list_total hrule h
  subst hks
  obtain ⟨v, vs', hv, hvs', rfl⟩ := forall₂_cons_left_iff.1 hvs
  exact ⟨v, vs', .cons hv hvs'⟩

/-- A node whose children are all expressions, one at least. -/
theorem exprs_total (h : Ready n) (hc : n.children = m :: l) (hrule : ∀ k ∈ n.children, k.rule = "Expr") :
    ∃ es, exprsOf Expr.parse n = .ok es := by
  obtain ⟨v, vs, hvs⟩ := cons_total (g := Expr.parse) hc hrule fun k hk =>
    h.value hk (by rw [hrule k hk]; decide)
  exact ⟨_, exprsOf_ok hvs⟩

/-! ## Orderings and windows -/

variable {i : Nat} {name : String}

/-- The rules of the children of a node, all of them. -/
theorem rules_of_children (rule : String) {e : Peg.Expr} (hi : rules[i]? = some ⟨name, e⟩) (h : Parsed n)
    (hn : n.rule = name) (hrules : ∀ r ∈ childRules e, r = rule) : ∀ k ∈ n.children, k.rule = rule :=
  fun k hk => hrules _ ((h.shape valid hi hn).rules k hk)

/-- A node with one child of this rule, and its value. -/
theorem only_total (hc : n.children = [m]) (hm : m.rule = rule) (h : ∃ v, g m = .ok v) :
    ∃ v, onlyOf rule g n = .ok v := by
  obtain ⟨v, hv⟩ := h
  exact ⟨v, onlyOf_ok hc ⟨hm, hv⟩⟩

section

variable (h : Ready n) {operand operator : String}

include h

theorem ordering_total (hn : n.rule = "OrderByExpr") : ∃ v, orderingOf Expr.parse n = .ok v := by
  have hshape := h.parsed.shape valid (i := 8) rfl hn
  simp (disch := decide) only [shape_seq, shapeAll_loud, shapeAll_optional, shapeAll_nil] at hshape
  obtain ⟨x, l, hc, hx, d, l', rfl, hd, o, l'', rfl, ho, rfl⟩ := hshape
  rw [append_nil] at hc
  obtain ⟨e, he⟩ := h.value (m := x) (by simp [hc]) (by rw [hx]; decide)
  obtain ⟨direction, hdirection⟩ := h.optional (by simp +contextual [hc]) hd fun hk => sortDirection_total hk.parsed
  obtain ⟨nulls, hnulls⟩ := h.optional (by simp +contextual [hc]) ho fun hk => nullOrder_total hk.parsed
  exact ⟨_, orderingOf_ok hn hc ⟨hx, he⟩ hd hdirection ho hnulls⟩

theorem orderings_total (hn : n.rule = "OrderBy") : ∃ v, orderingsOf Expr.parse n = .ok v := by
  have hrule := rules_of_children "OrderByExpr" (i := 7) rfl h.parsed hn (by decide)
  have hshape := h.parsed.shape valid (i := 7) rfl hn
  rw [shape_seq, shapeAll_silent (by decide), shapeAll_silent (by decide), shapeAll_loud (by decide)] at hshape
  obtain ⟨x, l, hc, _⟩ := hshape
  obtain ⟨v, vs, hvs⟩ := cons_total (g := orderingOf Expr.parse) hc hrule fun k hk =>
    ordering_total (h.child hk) (hrule k hk)
  exact ⟨_, orderingsOf_ok hvs⟩

theorem partitionBy_total (hn : n.rule = "PartitionBy") : ∃ v, exprsOf Expr.parse n = .ok v := by
  have hrule := rules_of_children "Expr" (i := 17) rfl h.parsed hn (by decide)
  have hshape := h.parsed.shape valid (i := 17) rfl hn
  rw [shape_seq, shapeAll_silent (by decide), shapeAll_silent (by decide), shapeAll_loud (by decide)] at hshape
  obtain ⟨x, l, hc, _⟩ := hshape
  exact exprs_total h hc hrule

theorem window_total (hn : n.rule = "WindowSpec") : ∃ v, windowOf Expr.parse n = .ok v := by
  have hshape := h.parsed.shape valid (i := 16) rfl hn
  simp (disch := decide) only [shape_seq, shapeAll_silent, shapeAll_optional, shapeAll_nil] at hshape
  obtain ⟨p, l, hc, hp, o, l', rfl, ho, w, l'', rfl, hw, rfl⟩ := hshape
  rw [append_nil] at hc
  obtain ⟨partitionBy, hpartition⟩ := h.optional (by simp +contextual [hc]) hp partitionBy_total
  obtain ⟨orderBy, horder⟩ := h.optional (by simp +contextual [hc]) ho orderings_total
  obtain ⟨frame, hframe⟩ := h.optional (by simp +contextual [hc]) hw fun hk => windowFrame_total hk.parsed
  exact ⟨_, windowOf_ok hn hc hp hpartition ho horder hw hframe⟩

/-! ## Expressions -/

theorem arguments_total (hn : n.rule = "Arguments") : ∃ v, argumentsOf Expr.parse n = .ok v := by
  have hshape := h.parsed.shape valid (i := 13) rfl hn
  rw [shape_choice, shapeAny_cons, shape_loud (by decide)] at hshape
  rcases hshape with ⟨s, hc, hs⟩ | hshape
  · obtain ⟨e, he⟩ := h.value (m := s) (by simp [hc]) (by rw [hs]; decide)
    exact ⟨_, argumentsOf_star hc ⟨hs, he⟩⟩
  · rw [shapeAny_cons, shapeAny_nil, or_false] at hshape
    have hrule : ∀ k ∈ n.children, k.rule = "Expr" := fun k hk =>
      (show ∀ r ∈ childRules (.seq [.ref "Expr", .repeat_ (.seq [.ref "_comma", .ref "Expr"]) false]),
        r = "Expr" by decide) _ (hshape.rules k hk)
    rw [shape_seq, shapeAll_loud (by decide)] at hshape
    obtain ⟨x, l, hc, _⟩ := hshape
    obtain ⟨v, vs, hvs⟩ := cons_total (g := Expr.parse) hc hrule fun k hk =>
      h.value hk (by rw [hrule k hk]; decide)
    exact ⟨_, argumentsOf_exprs hvs⟩

theorem callFilter_total (hn : n.rule = "CallFilter") : ∃ v, onlyOf "Expr" Expr.parse n = .ok v := by
  have hshape := h.parsed.shape valid (i := 14) rfl hn
  simp (disch := decide) only [shape_seq, shapeAll_silent, shapeAll_loud, shapeAll_nil] at hshape
  obtain ⟨x, l, hc, hx, rfl⟩ := hshape
  exact only_total hc hx (h.value (by simp [hc]) (by rw [hx]; decide))

theorem over_total (hn : n.rule = "Over") : ∃ v, onlyOf "WindowSpec" (windowOf Expr.parse) n = .ok v := by
  have hshape := h.parsed.shape valid (i := 15) rfl hn
  simp (disch := decide) only [shape_seq, shapeAll_silent, shapeAll_loud, shapeAll_nil] at hshape
  obtain ⟨x, l, hc, hx, rfl⟩ := hshape
  exact only_total hc hx (window_total (h.child (by simp [hc])) hx)

theorem functionCall_total (hn : n.rule = "FunctionCall") :
    ∃ v, functionCall (fun k : Transform.Below n => Expr.parse k.1) = .ok v := by
  have hshape := h.parsed.shape valid (i := 11) rfl hn
  simp (disch := decide) only [shape_seq, shapeAll_silent, shapeAll_loud, shapeAll_optional, shapeAll_nil] at hshape
  obtain ⟨i, l, hc, hi, d, l1, rfl, hd, a, l2, rfl, ha, w, l3, rfl, hw, o, l4, rfl, ho, rfl⟩ := hshape
  rw [append_nil] at hc
  obtain ⟨name, hname⟩ := h.name (m := i) (by simp [hc]) hi
  obtain ⟨args, hargs⟩ := h.optional (by simp +contextual [hc]) ha arguments_total
  obtain ⟨filter, hfilter⟩ := h.optional (by simp +contextual [hc]) hw callFilter_total
  obtain ⟨over_, hover⟩ := h.optional (by simp +contextual [hc]) ho over_total
  refine ⟨_, functionCall_ok hc ⟨hi, hname⟩ hd ?_ ha hargs hw hfilter ho hover⟩
  exact fun k hk => distinct_total (h.child (by simp [hc, Option.mem_def.1 hk])).parsed (hd k hk)

/-- A chain of operators. -/
theorem chain_total
    (hi : rules[i]? = some ⟨name, .seq [.ref operand, .repeat_ (.seq [.ref operator, .ref operand]) false]⟩)
    (hoperand : silentName operand = false ∧ operand ∈ exprRules)
    (hoperator : silentName operator = false ∧ operator ∈ ["OrOp", "AndOp", "AddOp", "MulOp", "CompareOp"])
    (hn : n.rule = name) : ∃ v, chain (fun k : Transform.Below n => Expr.parse k.1) operand operator = .ok v := by
  obtain ⟨x, ps, hc, hx, hps⟩ :=
    shape_chain hoperand.1 hoperator.1 (h.parsed.shape valid hi hn)
  obtain ⟨left, hleft⟩ := h.value (m := x) (by simp [hc]) (by rw [hx]; exact hoperand.2)
  -- every operator and every operand has its value
  have hlink : ∀ p ∈ ps, ∃ v, Link Expr.parse operator operand p v := by
    intro p hp
    obtain ⟨hp1, hp2⟩ := hps p hp
    have hmem : p.1 ∈ n.children ∧ p.2 ∈ n.children := by
      rw [hc]
      constructor <;> refine mem_cons_of_mem _ (mem_flatMap.2 ⟨p, hp, ?_⟩) <;> simp
    obtain ⟨op, hop⟩ := binaryOp_total (h.child hmem.1).parsed (by rw [hp1]; exact hoperator.2)
    obtain ⟨right, hright⟩ := h.value hmem.2 (by rw [hp2]; exact hoperand.2)
    exact ⟨(op, right), ⟨hp1, hop⟩, ⟨hp2, hright⟩⟩
  obtain ⟨vs, hvs⟩ := exists_forall₂ hlink
  exact ⟨_, chain_ok hc ⟨hx, hleft⟩ hvs⟩

/-- `operator self / operand`. -/
theorem prefixed_total {choices : List (String × UnaryOp)}
    (hi : rules[i]? = some ⟨n.rule, .choice [.seq [.ref operator, .ref n.rule], .ref operand]⟩)
    (hself : silentName n.rule = false ∧ n.rule ∈ exprRules)
    (hoperand : silentName operand = false ∧ operand ∈ exprRules ∧ operand ≠ operator)
    (hoperator : silentName operator = false)
    (htoken : ∀ m, Parsed m → m.rule = operator → ∃ v, Transform.token m choices = .ok v) :
    ∃ v, prefixed (fun k : Transform.Below n => Expr.parse k.1) operator operand choices .unary = .ok v := by
  have hshape := h.parsed.shape valid hi rfl
  rw [shape_choice, shapeAny_cons, shapeAny_cons, shapeAny_nil, or_false,
    shape_loud hoperand.1, shape_seq, shapeAll_loud hoperator] at hshape
  rcases hshape with ⟨o, l, hc, ho, hl⟩ | ⟨x, hc, hx⟩
  · rw [shapeAll_loud hself.1] at hl
    obtain ⟨x, l', rfl, hx, hnil⟩ := hl
    obtain rfl := shapeAll_nil.1 hnil
    obtain ⟨op, hop⟩ := htoken o (h.child (by simp [hc])).parsed ho
    obtain ⟨e, he⟩ := h.value (m := x) (by simp [hc]) (by rw [hx]; exact hself.2)
    exact ⟨_, prefixed_op hc ⟨ho, hop⟩ ⟨hx, he⟩⟩
  · obtain ⟨e, he⟩ := h.value (m := x) (by simp [hc]) (by rw [hx]; exact hoperand.2.1)
    exact ⟨_, prefixed_operand hc hoperand.2.2 ⟨hx, he⟩⟩

theorem comparison_total (hn : n.rule = "Comparison") :
    ∃ v, comparison (fun k : Transform.Below n => Expr.parse k.1) = .ok v := by
  have hshape := h.parsed.shape valid (i := 62) rfl hn
  rw [shape_seq, shapeAll_loud (by decide)] at hshape
  obtain ⟨x, l, hc, hx, ns, l', rfl, hopt, hnil⟩ := hshape
  rw [shapeAll_nil.1 hnil, append_nil] at hc
  obtain ⟨left, hleft⟩ := h.value (m := x) (by simp [hc]) (by rw [hx]; decide)
  rw [Shape] at hopt
  rcases hopt with rfl | hopt
  · exact ⟨_, comparison_plain hc ⟨hx, hleft⟩⟩
  · simp (disch := decide) only [shape_choice, shapeAny_cons, shapeAny_nil, shape_loud,
      shape_seq, shapeAll_loud, shapeAll_nil, or_false] at hopt
    rcases hopt with ⟨o, l1, rfl, ho, y, l2, rfl, hy, rfl⟩ | ⟨i, rfl, hi⟩
    · obtain ⟨op, hop⟩ := binaryOp_total (h.child (m := o) (by simp [hc])).parsed (by rw [ho]; decide)
      obtain ⟨right, hright⟩ := h.value (m := y) (by simp [hc]) (by rw [hy]; decide)
      exact ⟨_, comparison_op hc ⟨hx, hleft⟩ ⟨ho, hop⟩ ⟨hy, hright⟩⟩
    · obtain ⟨negated, hnegated⟩ := isNull_total (h.child (m := i) (by simp [hc])).parsed hi
      exact ⟨_, comparison_isNull hc ⟨hx, hleft⟩ ⟨hi, hnegated⟩⟩

theorem projectionItem_total (hn : n.rule = "ProjectionItem") :
    ∃ v, projectionItem (fun k : Transform.Below n => Expr.parse k.1) = .ok v := by
  have hshape := h.parsed.shape valid (i := 4) rfl hn
  rw [shape_seq, shapeAll_loud (by decide)] at hshape
  obtain ⟨x, l, hc, hx, ns, l', rfl, hopt, hnil⟩ := hshape
  rw [shapeAll_nil.1 hnil, append_nil] at hc
  obtain ⟨e, he⟩ := h.value (m := x) (by simp [hc]) (by rw [hx]; decide)
  rw [Shape] at hopt
  rcases hopt with rfl | hopt
  · exact ⟨_, projectionItem_plain hc ⟨hx, he⟩⟩
  · simp (disch := decide) only [shape_seq, shapeAll_silent, shapeAll_loud, shapeAll_nil] at hopt
    obtain ⟨i, l1, rfl, hi, rfl⟩ := hopt
    obtain ⟨name, hname⟩ := h.name (m := i) (by simp [hc]) hi
    exact ⟨_, projectionItem_alias hc ⟨hx, he⟩ ⟨hi, hname⟩⟩

theorem name_total (hn : n.rule = "Name") : ∃ v, Sql.name (n := n) = .ok v := by
  have hshape := h.parsed.shape valid (i := 73) rfl hn
  rw [shape_seq, shapeAll_loud (by decide)] at hshape
  obtain ⟨i, l, hc, hi, hl⟩ := hshape
  rw [shapeAll_silent (by decide)] at hl
  obtain ⟨ns, l', rfl, hopt, hnil⟩ := hl
  rw [shapeAll_nil.1 hnil, append_nil] at hc
  obtain ⟨table, htable⟩ := h.name (m := i) (by simp [hc]) hi
  rw [Shape] at hopt
  rcases hopt with rfl | hopt
  · exact ⟨_, name_plain hc ⟨hi, htable⟩⟩
  · simp (disch := decide) only [shape_seq, shapeAll_lit, shapeAll_silent, shapeAll_loud, shapeAll_nil] at hopt
    obtain ⟨j, l1, rfl, hj, rfl⟩ := hopt
    obtain ⟨column, hcolumn⟩ := h.name (m := j) (by simp [hc]) hj
    exact ⟨_, name_qualified hc ⟨hi, htable⟩ ⟨hj, hcolumn⟩⟩

theorem primary_total (hn : n.rule = "Primary") :
    ∃ v, primary (fun k : Transform.Below n => Expr.parse k.1) = .ok v := by
  have hshape := h.parsed.shape valid (i := 72) rfl hn
  obtain ⟨x, hc, hx⟩ : ∃ x, n.children = [x] ∧ x.rule ∈ primaryRules := by
    simp (disch := decide) only [shape_choice, shapeAny_cons, shapeAny_nil, shape_loud,
      shape_seq, shapeAll_silent, shapeAll_loud, shapeAll_nil, or_false] at hshape
    rcases hshape with ⟨x, l, hc, hx, rfl⟩ | ⟨x, l, hc, hx, rfl⟩ | ⟨x, hc, hx⟩ | ⟨x, hc, hx⟩ | ⟨x, hc, hx⟩ |
      ⟨x, hc, hx⟩ | ⟨x, hc, hx⟩ | ⟨x, l, hc, hx, rfl⟩ <;> exact ⟨x, hc, by rw [hx]; decide⟩
  have hsub : ∀ r ∈ primaryRules, r ∈ exprRules := by decide
  obtain ⟨e, he⟩ := h.value (m := x) (by simp [hc]) (hsub _ hx)
  exact ⟨_, primary_ok hc hx he⟩

/-- The node has a value once the expressions below it have one. -/
theorem exprBody_total (hn : n.rule ∈ exprRules) :
    ∃ v, exprBody (fun k : Transform.Below n => Expr.parse k.1) = .ok v := by
  -- a literal is a leaf
  have hliteral : n.rule ∈ ["Number", "String", "Null", "True", "False"] →
      ∃ v, (do let l ← Literal.parse n; pure (Expr.literal l)) = (.ok v : Transform.Result Expr) := by
    intro hr
    obtain ⟨l, hl⟩ := literal_total h.parsed hr
    exact ⟨_, ok_then hl rfl⟩
  unfold exprBody
  simp only [exprRules, mem_cons, not_mem_nil, or_false] at hn
  rcases hn with hn | hn | hn | hn | hn | hn | hn | hn | hn | hn | hn | hn | hn | hn | hn | hn | hn | hn <;>
    simp only [hn]
  · obtain ⟨x, hc, hx⟩ := (shape_loud (by decide)).1 (h.parsed.shape valid (i := 55) rfl hn)
    obtain ⟨e, he⟩ := h.value (m := x) (by simp [hc]) (by rw [hx]; decide)
    exact ⟨_, wrapper_ok hc ⟨hx, he⟩⟩
  · exact primary_total h hn
  · exact chain_total h (i := 56) rfl (by decide) (by decide) hn
  · exact chain_total h (i := 58) rfl (by decide) (by decide) hn
  · exact chain_total h (i := 66) rfl (by decide) (by decide) hn
  · exact chain_total h (i := 68) rfl (by decide) (by decide) hn
  · exact prefixed_total h (i := 60) (by rw [hn]; rfl) (by rw [hn]; decide) (by decide) (by decide)
      fun m hm hr => notOp_total hm hr
  · exact prefixed_total h (i := 70) (by rw [hn]; rfl) (by rw [hn]; decide) (by decide) (by decide)
      fun m hm hr => unaryOp_total hm hr
  · exact comparison_total h hn
  · exact projectionItem_total h hn
  · exact functionCall_total h hn
  · exact name_total h hn
  · exact star_total h.parsed hn
  · exact hliteral (by rw [hn]; decide)
  · exact hliteral (by rw [hn]; decide)
  · exact hliteral (by rw [hn]; decide)
  · exact hliteral (by rw [hn]; decide)
  · exact hliteral (by rw [hn]; decide)

end

/-- **Every expression of a parse tree has a value.** -/
theorem expr_total (h : Parsed n) (hu : Unreserved n) (hn : n.rule ∈ exprRules) : ∃ e, Expr.parse n = .ok e := by
  induction hsize : sizeOf n using Nat.strongRecOn generalizing n with
  | ind size ih =>
    have hready : Ready n :=
      ⟨h, hu, fun k hk hp hur hr => ih (sizeOf k) (by rw [← hsize]; exact hk) hp hur hr rfl⟩
    rw [Expr.parse]
    exact exprBody_total hready hn

theorem ready (h : Parsed n) (hu : Unreserved n) : Ready n := ⟨h, hu, fun _ _ hp hur hr => expr_total hp hur hr⟩

/-! ## Statements -/

section

variable (h : Ready n)

include h

/-- A node with one expression among silent parts. -/
theorem clause_total {w : String} (hi : rules[i]? = some ⟨name, .seq [.ref w, .ref "Expr"]⟩)
    (hw : silentName w = true) (hn : n.rule = name) : ∃ v, onlyOf "Expr" Expr.parse n = .ok v := by
  have hshape := h.parsed.shape valid hi hn
  rw [shape_seq, shapeAll_silent hw, shapeAll_loud (by decide)] at hshape
  obtain ⟨x, l, hc, hx, hnil⟩ := hshape
  obtain rfl := shapeAll_nil.1 hnil
  exact only_total hc hx (h.value (by simp [hc]) (by rw [hx]; decide))

theorem where_total (hn : n.rule = "Where") : ∃ v, onlyOf "Expr" Expr.parse n = .ok v :=
  clause_total h (i := 30) rfl (by decide) hn

theorem projection_total (hn : n.rule = "Projection") : ∃ v, projection n = .ok v := by
  have hrule : ∀ k ∈ n.children, k.rule ∈ exprRules := by
    intro k hk
    have hmem := (h.parsed.shape valid (i := 3) rfl hn).rules k hk
    exact (show ∀ r ∈ childRules (.choice [.ref "Star", .seq [.ref "ProjectionItem", .repeat_ (.seq
      [.ref "_comma", .ref "ProjectionItem"]) false]]), r ∈ exprRules by decide) _ hmem
  unfold projection
  obtain ⟨vs, hvs⟩ := exists_forall₂ fun k hk => h.value hk (hrule k hk)
  exact ⟨vs, mapM_ok.2 hvs⟩

theorem from_total (hn : n.rule = "From") : ∃ v, onlyOf "Identifier" identifier n = .ok v := by
  have hshape := h.parsed.shape valid (i := 29) rfl hn
  simp (disch := decide) only [shape_seq, shapeAll_silent, shapeAll_loud, shapeAll_nil] at hshape
  obtain ⟨x, l, hc, hx, rfl⟩ := hshape
  exact only_total hc hx (h.name (by simp [hc]) hx)

theorem groupBy_total (hn : n.rule = "GroupBy") : ∃ v, exprsOf Expr.parse n = .ok v := by
  have hrule := rules_of_children "Expr" (i := 5) rfl h.parsed hn (by decide)
  have hshape := h.parsed.shape valid (i := 5) rfl hn
  rw [shape_seq, shapeAll_silent (by decide), shapeAll_silent (by decide), shapeAll_loud (by decide)] at hshape
  obtain ⟨x, l, hc, _⟩ := hshape
  exact exprs_total h hc hrule

theorem select_total (hn : n.rule = "Select") : ∃ v, selectStatement n = .ok v := by
  have hshape := h.parsed.shape valid (i := 2) rfl hn
  simp (disch := decide) only [shape_seq, shapeAll_silent, shapeAll_loud, shapeAll_optional, shapeAll_nil] at hshape
  obtain ⟨p, l, hc, hp, s, l1, rfl, hs, w, l2, rfl, hw, g, l3, rfl, hg, b, l4, rfl, hb, o, l5, rfl, ho, rfl⟩ :=
    hshape
  rw [append_nil] at hc
  obtain ⟨items, hitems⟩ := projection_total (h.child (m := p) (by simp [hc])) hp
  obtain ⟨source, hsource⟩ := h.optional (by simp +contextual [hc]) hs from_total
  obtain ⟨condition, hcondition⟩ := h.optional (by simp +contextual [hc]) hw where_total
  obtain ⟨group, hgroup⟩ := h.optional (by simp +contextual [hc]) hg groupBy_total
  obtain ⟨having, hhaving⟩ := h.optional (by simp +contextual [hc]) hb fun hk => clause_total hk (i := 6) rfl (by decide)
  obtain ⟨order, horder⟩ := h.optional (by simp +contextual [hc]) ho orderings_total
  exact ⟨_, selectStatement_ok hc ⟨hp, hitems⟩ hs hsource hw hcondition hg hgroup hb hhaving ho horder⟩

theorem columnDef_total (hn : n.rule = "ColumnDef") : ∃ v, ColumnDef.parse n = .ok v := by
  have hshape := h.parsed.shape valid (i := 32) rfl hn
  rw [shape_seq, shapeAll_loud (by decide)] at hshape
  obtain ⟨i, l, hc, hi, hl⟩ := hshape
  rw [shapeAll_silent (by decide), shapeAll_loud (by decide)] at hl
  obtain ⟨t, cs, rfl, ht, hcs⟩ := hl
  have hrule : ∀ k ∈ cs, k.rule = "Constraint" := fun k hk =>
    (show ∀ r ∈ childRulesAll [.repeat_ (.ref "Constraint") false], r = "Constraint" by decide) _ (hcs.rules k hk)
  obtain ⟨name, hname⟩ := h.name (m := i) (by simp [hc]) hi
  obtain ⟨dataType, htype⟩ := dataType_total (h.child (m := t) (by simp [hc])).parsed ht
  obtain ⟨vs, hvs⟩ := list_total (g := ColumnConstraint.parse) hrule fun k hk =>
    constraint_total (h.child (by simp [hc, hk])).parsed (hrule k hk)
  exact ⟨_, columnDef_ok hn hc ⟨hi, hname⟩ ⟨ht, htype⟩ hvs⟩

theorem createTable_total (hn : n.rule = "CreateTable") : ∃ v, createTableStatement n = .ok v := by
  have hshape := h.parsed.shape valid (i := 31) rfl hn
  rw [shape_seq, shapeAll_silent (by decide), shapeAll_silent (by decide), shapeAll_loud (by decide)] at hshape
  obtain ⟨i, l, hc, hi, hl⟩ := hshape
  rw [shapeAll_silent (by decide), shapeAll_silent (by decide)] at hl
  have hrule : ∀ k ∈ l, k.rule = "ColumnDef" := fun k hk =>
    (show ∀ r ∈ childRulesAll [.ref "ColumnDef", .repeat_ (.seq [.ref "_comma", .ref "ColumnDef"]) false,
      .ref "_rp"], r = "ColumnDef" by decide) _ (hl.rules k hk)
  rw [shapeAll_loud (by decide)] at hl
  obtain ⟨x, l', rfl, _⟩ := hl
  obtain ⟨table, htable⟩ := h.name (m := i) (by simp [hc]) hi
  obtain ⟨v, vs, hvs⟩ := cons_total (g := ColumnDef.parse) rfl hrule fun k hk =>
    columnDef_total (h.child (by rw [hc]; exact mem_cons_of_mem _ hk)) (hrule k hk)
  exact ⟨_, createTableStatement_ok hc ⟨hi, htable⟩ hvs⟩

theorem columns_total (hn : n.rule = "Columns") : ∃ v, namesOf n = .ok v := by
  have hrule := rules_of_children "Identifier" (i := 47) rfl h.parsed hn (by decide)
  have hshape := h.parsed.shape valid (i := 47) rfl hn
  rw [shape_seq, shapeAll_silent (by decide), shapeAll_loud (by decide)] at hshape
  obtain ⟨x, l, hc, _⟩ := hshape
  obtain ⟨v, vs, hvs⟩ := cons_total (g := identifier) hc hrule fun k hk => h.name hk (hrule k hk)
  exact ⟨_, Transform.many_ok (c := Transform.Children.new n) (by rw [Transform.Children.new_nodes]; exact hvs)⟩

theorem row_total (hn : n.rule = "Row") : ∃ v, exprsOf Expr.parse n = .ok v := by
  have hrule := rules_of_children "Expr" (i := 48) rfl h.parsed hn (by decide)
  have hshape := h.parsed.shape valid (i := 48) rfl hn
  rw [shape_seq, shapeAll_silent (by decide), shapeAll_loud (by decide)] at hshape
  obtain ⟨x, l, hc, _⟩ := hshape
  exact exprs_total h hc hrule

theorem insert_total (hn : n.rule = "Insert") : ∃ v, insertStatement n = .ok v := by
  have hshape := h.parsed.shape valid (i := 46) rfl hn
  rw [shape_seq, shapeAll_silent (by decide), shapeAll_silent (by decide), shapeAll_loud (by decide)] at hshape
  obtain ⟨i, l, hc, hi, hl⟩ := hshape
  rw [shapeAll_silent (by decide), shapeAll_optional (by decide)] at hl
  obtain ⟨c, rs, rfl, hcs, hrs⟩ := hl
  rw [shapeAll_silent (by decide)] at hrs
  have hrule : ∀ k ∈ rs, k.rule = "Row" := fun k hk =>
    (show ∀ r ∈ childRulesAll [.ref "Row", .repeat_ (.seq [.ref "_comma", .ref "Row"]) false], r = "Row" by
      decide) _ (hrs.rules k hk)
  rw [shapeAll_loud (by decide)] at hrs
  obtain ⟨x, l', rfl, _⟩ := hrs
  obtain ⟨table, htable⟩ := h.name (m := i) (by simp [hc]) hi
  obtain ⟨columns, hcolumns⟩ := h.optional (by simp +contextual [hc]) hcs columns_total
  obtain ⟨v, vs, hvs⟩ := cons_total (g := exprsOf Expr.parse) rfl hrule fun k hk =>
    row_total (h.child (by rw [hc]; exact mem_cons_of_mem _ (mem_append_right _ hk))) (hrule k hk)
  exact ⟨_, insertStatement_ok hc ⟨hi, htable⟩ hcs hcolumns hvs⟩

theorem assignment_total (hn : n.rule = "Assignment") : ∃ v, Assignment.parse n = .ok v := by
  have hshape := h.parsed.shape valid (i := 50) rfl hn
  simp (disch := decide) only [shape_seq, shapeAll_lit, shapeAll_silent, shapeAll_loud, shapeAll_nil] at hshape
  obtain ⟨i, l, hc, hi, x, l', rfl, hx, rfl⟩ := hshape
  obtain ⟨column, hcolumn⟩ := h.name (m := i) (by simp [hc]) hi
  obtain ⟨value, hvalue⟩ := h.value (m := x) (by simp [hc]) (by rw [hx]; decide)
  exact ⟨_, assignment_ok hn hc ⟨hi, hcolumn⟩ ⟨hx, hvalue⟩⟩

theorem update_total (hn : n.rule = "Update") : ∃ v, updateStatement n = .ok v := by
  have hshape := h.parsed.shape valid (i := 49) rfl hn
  rw [shape_seq, shapeAll_silent (by decide), shapeAll_loud (by decide)] at hshape
  obtain ⟨i, l, hc, hi, hl⟩ := hshape
  rw [shapeAll_silent (by decide), shapeAll_silent (by decide), shapeAll_loud (by decide)] at hl
  obtain ⟨a, l1, rfl, ha, as, l2, rfl, has, hl2⟩ := hl
  rw [shapeAll_optional (by decide)] at hl2
  obtain ⟨w, l3, rfl, hw, hnil⟩ := hl2
  obtain rfl := shapeAll_nil.1 hnil
  rw [append_nil] at hc
  have hrule : ∀ k ∈ as, k.rule = "Assignment" := fun k hk =>
    (show ∀ r ∈ childRules (.repeat_ (.seq [.ref "_comma", .ref "Assignment"]) false), r = "Assignment" by
      decide) _ (has.rules k hk)
  obtain ⟨table, htable⟩ := h.name (m := i) (by simp [hc]) hi
  obtain ⟨first, hfirst⟩ := assignment_total (h.child (m := a) (by simp [hc])) ha
  obtain ⟨vs, hvs⟩ := list_total (g := Assignment.parse) hrule fun k hk =>
    assignment_total (h.child (by simp [hc, hk])) (hrule k hk)
  obtain ⟨condition, hcondition⟩ := h.optional (by simp +contextual [hc]) hw where_total
  exact ⟨_, updateStatement_ok hc ⟨hi, htable⟩ ⟨ha, hfirst⟩ hvs hw hcondition⟩

theorem delete_total (hn : n.rule = "Delete") : ∃ v, deleteStatement n = .ok v := by
  have hshape := h.parsed.shape valid (i := 51) rfl hn
  simp (disch := decide) only [shape_seq, shapeAll_silent, shapeAll_loud, shapeAll_optional, shapeAll_nil] at hshape
  obtain ⟨i, l, hc, hi, w, l', rfl, hw, rfl⟩ := hshape
  rw [append_nil] at hc
  obtain ⟨table, htable⟩ := h.name (m := i) (by simp [hc]) hi
  obtain ⟨condition, hcondition⟩ := h.optional (by simp +contextual [hc]) hw where_total
  exact ⟨_, deleteStatement_ok hc ⟨hi, htable⟩ hw hcondition⟩

/-- **Every statement of a parse tree has a value.** -/
theorem statement_total (hn : n.rule = "Statement") : ∃ v, Statement.parse n = .ok v := by
  have hshape := h.parsed.shape valid (i := 1) rfl hn
  simp (disch := decide) only [shape_choice, shapeAny_cons, shapeAny_nil, shape_loud, or_false] at hshape
  unfold Statement.parse
  rw [if_pos hn]
  rcases hshape with ⟨k, hc, hk⟩ | ⟨k, hc, hk⟩ | ⟨k, hc, hk⟩ | ⟨k, hc, hk⟩ | ⟨k, hc, hk⟩ | ⟨k, hc, hk⟩ |
    ⟨k, hc, hk⟩ | ⟨k, hc, hk⟩ <;> have hready : Ready k := h.child (by simp [hc]) <;> rw [hc] <;>
    simp only [concreteStatement, hk]
  · exact select_total hready hk
  · exact createTable_total hready hk
  · exact insert_total hready hk
  · exact update_total hready hk
  · exact delete_total hready hk
  · exact keyword_total (leaf_text (i := 52) rfl (reads_word (i := 95) rfl rfl) hready.parsed hk)
  · exact keyword_total (leaf_text (i := 53) rfl (reads_word (i := 96) rfl rfl) hready.parsed hk)
  · exact keyword_total (leaf_text (i := 54) rfl (reads_word (i := 97) rfl rfl) hready.parsed hk)

end

variable {debug : Debug} {input : String} {root : Node}

/-- The match behind a tree. -/
theorem matches_of_parse (h : parse debug input = .ok root) :
    ∃ pos, Matches (.rule 0) (.start input) (some (⟨pos, []⟩, [root])) ∧ root.rule = "Root" := by
  obtain ⟨pos, ns, hmatch, rfl⟩ := matches_of_parseRule valid (i := 0) rfl h
  obtain ⟨r, hr, heq⟩ := (matches_rule (i := 0) rfl).1 hmatch
  obtain ⟨⟨c', ns'⟩, rfl, hclose⟩ := Option.map_eq_some_iff.1 heq.symm
  cases hclose
  exact ⟨pos, hmatch, rfl⟩

/-- The root of a parse is a parsed node. -/
theorem parse_parsed (h : parse debug input = .ok root) : Parsed root ∧ root.rule = "Root" := by
  obtain ⟨_, hmatch, hroot⟩ := matches_of_parse h
  exact ⟨hmatch.parsed root mem_cons_self, hroot⟩

/-- **The transform succeeds on every tree that the grammar produces**, if no bare identifier in it is
reserved. -/
theorem transform_succeeds_on_parse_trees (debug : Debug) (input : String) (root : Node)
    (hparse : Grammar.parse debug input = .ok root)
    (hreserved : ∀ n, root.Has n → n.rule = "BareIdentifier" → Transform.isReserved n.text.toList = false) :
    ∃ list, statements root = .ok list := by
  obtain ⟨hparsed, hroot⟩ := parse_parsed hparse
  have hready : Ready root := ready hparsed hreserved
  have hrule := rules_of_children "Statement" (i := 0) rfl hparsed hroot (by decide)
  obtain ⟨vs, hvs⟩ := list_total (g := Statement.parse) hrule fun k hk =>
    statement_total (hready.child hk) (hrule k hk)
  refine ⟨vs, ?_⟩
  unfold statements
  rw [if_neg (by simp [hroot])]
  refine mapM_ok.2 (hvs.imp fun m v hm => ?_)
  rw [if_neg (by simp [hm.1])]
  exact hm.2

/-! ## A tree -/

mutual

/-- Every node of the tree passes. -/
def allNodes (p : Node → Bool) : Node → Bool
  | ⟨rule, text, start, stop, children⟩ => p ⟨rule, text, start, stop, children⟩ && allLists p children

def allLists (p : Node → Bool) : List Node → Bool
  | [] => true
  | n :: l => allNodes p n && allLists p l

end

theorem allLists_mem {p : Node → Bool} : ∀ {l : List Node}, allLists p l = true → ∀ k ∈ l, allNodes p k = true
  | [], _, k, hk => by cases hk
  | x :: l, h, k, hk => by
    rw [allLists, Bool.and_eq_true] at h
    rcases mem_cons.1 hk with rfl | hk
    · exact h.1
    · exact allLists_mem h.2 k hk

theorem allNodes_has {p : Node → Bool} (h : allNodes p n = true) (hm : n.Has m) : p m = true := by
  induction hm with
  | self n =>
    obtain ⟨rule, text, start, stop, children⟩ := n
    rw [allNodes, Bool.and_eq_true] at h
    exact h.1
  | @child n k m hk _ ih =>
    obtain ⟨rule, text, start, stop, children⟩ := n
    rw [allNodes, Bool.and_eq_true] at h
    exact ih (allLists_mem h.2 k hk)

/-- A node that is no reserved identifier. -/
def unreservedNode (n : Node) : Bool := n.rule ≠ "BareIdentifier" || !Transform.isReserved n.text.toList

theorem selectName_transformed :
    ∃ root list, Grammar.parse printable "SELECT a" = .ok root ∧ statements root = .ok list := by
  obtain ⟨root, hroot, hall⟩ := exists_of_any (p := allNodes unreservedNode)
    (x := parseRule printable rules table "Root" "SELECT a") (by decide +kernel)
  have hparse : Grammar.parse printable "SELECT a" = .ok root := by
    unfold Grammar.parse
    rw [names_eq_table]
    exact hroot
  obtain ⟨list, hlist⟩ := transform_succeeds_on_parse_trees _ _ root hparse fun n hn hrule => by
    have hnode := allNodes_has hall hn
    simpa [unreservedNode, hrule] using hnode
  exact ⟨root, list, hparse, hlist⟩

end ChiliDB.Sql.Grammar

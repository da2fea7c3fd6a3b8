import ChiliDB.Lib.Fallible
import ChiliDB.Parser.Transform

/-!
# What the transform makes of a node

One lemma for each function of the transform: the value of a node from the values of its children, which are
given by their rules in the order in which the function takes them.

* `take_ok`, `optional_ok`, `many_ok` — the children.
* `functionCall_ok`, `chain_ok`, … — expressions, over any conversion of the nodes below.
* `selectStatement_ok`, … — statements.
-/

namespace ChiliDB.Sql.Transform

open Effect List
open Peg (Node)

variable {n m : Node} {l : List Node} {rule : String} {α : Type}

/-! ## Children -/

/-- The nodes that have not been taken. -/
def Children.nodes (c : Children n) : List Node := c.rest.map Subtype.val

@[simp] theorem Children.new_nodes (n : Node) : (Children.new n).nodes = n.children := by
  unfold Children.nodes Children.new
  rw [map_map]
  exact attach_map_subtype_val n.children

theorem nodes_of (h : n.children = l) : (Children.new n).nodes = l := by rw [Children.new_nodes, h]

variable {c : Children n}

theorem finish_ok (h : c.nodes = []) : c.finish = .ok () := by
  have hrest : c.rest = [] := map_eq_nil_iff.1 h
  unfold Children.finish
  rw [hrest]
  rfl

theorem leaf_ok (h : n.children = []) : leaf n = .ok n.text := by
  unfold leaf
  rw [finish_ok (nodes_of h)]
  rfl

theorem leaf_eq (n : Node) : leaf n = if n.children = [] then .ok n.text else error n "no extra children" := by
  split
  · rename_i h
    exact leaf_ok h
  · rename_i h
    have hrest : (Children.new n).rest ≠ [] := by
      intro hnil
      apply h
      rw [← Children.new_nodes, Children.nodes, hnil]
      rfl
    unfold leaf Children.finish
    rw [if_neg (by simpa using hrest)]
    rfl

theorem take_ok (h : c.nodes = m :: l) (hm : m.rule = rule) :
    ∃ k c', c.take rule = .ok (k, c') ∧ k.1 = m ∧ c'.nodes = l := by
  obtain ⟨k, rest, hrest, rfl, rfl⟩ := map_eq_cons_iff.1 h
  refine ⟨k, ⟨rest⟩, ?_, rfl, rfl⟩
  unfold Children.take
  rw [hrest]
  exact if_pos hm

theorem optional_none (h : ∀ m ∈ c.nodes.head?, m.rule ≠ rule) : c.optional rule = .ok (none, c) := by
  unfold Children.optional
  cases hrest : c.rest with
  | nil => rfl
  | cons k rest =>
    refine if_neg (h k.1 ?_)
    unfold Children.nodes
    rw [hrest]
    rfl

theorem optional_some (h : c.nodes = m :: l) (hm : m.rule = rule) :
    ∃ k c', c.optional rule = .ok (some k, c') ∧ k.1 = m ∧ c'.nodes = l := by
  obtain ⟨k, rest, hrest, rfl, rfl⟩ := map_eq_cons_iff.1 h
  refine ⟨k, ⟨rest⟩, ?_, rfl, rfl⟩
  unfold Children.optional
  rw [hrest]
  exact if_pos hm

variable {o : Option Node}

/-- An optional child that is there, or one that is not and that the next child is not taken for. -/
theorem optional_ok (rule : String) (h : c.nodes = o.toList ++ l) (ho : ∀ m ∈ o, m.rule = rule)
    (hl : ∀ m ∈ l.head?, m.rule ≠ rule) :
    ∃ k c', c.optional rule = .ok (k, c') ∧ k.map Subtype.val = o ∧ c'.nodes = l := by
  cases o with
  | none =>
    have hnodes : c.nodes = l := h
    refine ⟨none, c, optional_none ?_, rfl, hnodes⟩
    rwa [hnodes]
  | some m =>
    obtain ⟨k, c', hopt, hk, hc'⟩ := optional_some h (ho m rfl)
    exact ⟨some k, c', hopt, congrArg some hk, hc'⟩

/-- A conversion of an optional child. -/
theorem mapM_val {k : Option (Below n)} (h : k.map Subtype.val = o) (g : Node → Result α) :
    (k.mapM fun k => g k.1) = o.mapM g := by
  subst h
  cases k <;> rfl

theorem only_ok (h : n.children = [m]) (hm : m.rule = rule) : ∃ k, only n rule = .ok k ∧ k.1 = m := by
  obtain ⟨k, c, htake, hk, hc⟩ := take_ok (nodes_of h) hm
  refine ⟨k, ?_, hk⟩
  unfold only
  refine ok_then htake (ok_then (finish_ok hc) rfl)

/-- The node has this rule and this value. -/
def Gives (rule : String) (g : Node → Result α) (m : Node) (v : α) : Prop := m.rule = rule ∧ g m = .ok v

section

variable {β : Type} {g : Node → Result β} {c : Children n} {v : β} {o : Option Node} {r : α}
  {F : Below n × Children n → Result α} {G : Option (Below n) × Children n → Result α}
  {K : Children n → β → Result α} {L : Children n → Option β → Result α}

/-- A child that is taken and converted. -/
theorem take_value (h : c.nodes = m :: l) (hm : Gives rule g m v) (hF : ∀ k c', F (k, c') = (g k.1 >>= K c'))
    (hK : ∀ c', c'.nodes = l → K c' v = .ok r) : (c.take rule >>= F) = .ok r := by
  obtain ⟨k, c', htake, rfl, hc'⟩ := take_ok h hm.1
  refine ok_then htake ?_
  rw [hF]
  exact ok_then hm.2 (hK c' hc')

/-- An optional child that is there. -/
theorem some_value (h : c.nodes = m :: l) (hm : Gives rule g m v)
    (hG : ∀ k c', G (some k, c') = (g k.1 >>= K c')) (hK : ∀ c', c'.nodes = l → K c' v = .ok r) :
    (c.optional rule >>= G) = .ok r := by
  obtain ⟨k, c', hopt, rfl, hc'⟩ := optional_some h hm.1
  refine ok_then hopt ?_
  rw [hG]
  exact ok_then hm.2 (hK c' hc')

theorem none_value (h : ∀ m ∈ c.nodes.head?, m.rule ≠ rule) (hG : G (none, c) = .ok r) :
    (c.optional rule >>= G) = .ok r :=
  ok_then (optional_none h) hG

/-- An optional child that is converted if it is there. -/
theorem optional_value {v : Option β} (h : c.nodes = o.toList ++ l) (ho : ∀ m ∈ o, m.rule = rule)
    (hl : ∀ m ∈ l.head?, m.rule ≠ rule) (hv : o.mapM g = .ok v)
    (hG : ∀ k c', G (k, c') = ((k.mapM fun k => g k.1) >>= L c')) (hL : ∀ c', c'.nodes = l → L c' v = .ok r) :
    (c.optional rule >>= G) = .ok r := by
  obtain ⟨k, c', hopt, hk, hc'⟩ := optional_ok rule h ho hl
  refine ok_then hopt ?_
  rw [hG]
  exact ok_then ((mapM_val hk g).trans hv) (hL c' hc')

/-- The last child. -/
theorem last_value {v : Option β} (h : c.nodes = o.toList) (ho : ∀ m ∈ o, m.rule = rule) (hv : o.mapM g = .ok v)
    (hG : ∀ k c', G (k, c') = ((k.mapM fun k => g k.1) >>= L c')) (hL : ∀ c', c'.nodes = [] → L c' v = .ok r) :
    (c.optional rule >>= G) = .ok r :=
  optional_value (h.trans (append_nil _).symm) ho (by simp) hv hG hL

end

variable {g : Node → Result α}

theorem takeAll_ok : ∀ {ks : List (Below n)} {vs : List α},
    Forall₂ (Gives rule g) (ks.map Subtype.val) vs →
    Children.takeAll rule (fun k => g k.1) ks = .ok vs
  | [], vs, h => by
    cases h
    rfl
  | k :: ks, vs, h => by
    obtain ⟨v, vs', hk, hvs, rfl⟩ := forall₂_cons_left_iff.1 h
    unfold Children.takeAll
    rw [if_pos hk.1]
    exact ok_then hk.2 (ok_then (takeAll_ok hvs) rfl)

theorem many_ok {v : α} {vs : List α} (h : Forall₂ (Gives rule g) c.nodes (v :: vs)) :
    c.many rule (fun k => g k.1) = .ok (v :: vs) := by
  obtain ⟨m, l, hm, hvs, hnodes⟩ := forall₂_cons_right_iff.1 h
  obtain ⟨k, c', htake, rfl, rfl⟩ := take_ok hnodes hm.1
  exact ok_then htake (ok_then hm.2 (ok_then (takeAll_ok hvs) rfl))

/-- As many children of one rule as there are, and then others. -/
theorem takeWhile_ok : ∀ (ks : List (Below n)) {l : List Node} {vs : List α},
    (∃ ms', ks.map Subtype.val = ms' ++ l ∧ List.Forall₂ (Gives rule g) ms' vs) →
    (∀ m ∈ l.head?, m.rule ≠ rule) →
    ∃ c : Children n, Children.takeWhile rule (fun k => g k.1) ks = .ok (vs, c) ∧ c.nodes = l
  | [], l, vs, ⟨ms', h, hvs⟩, _ => by
    obtain ⟨rfl, rfl⟩ := append_eq_nil_iff.1 h.symm
    cases hvs
    exact ⟨⟨[]⟩, rfl, rfl⟩
  | k :: ks, l, vs, ⟨ms', h, hvs⟩, hl => by
    cases hvs with
    | nil =>
      refine ⟨⟨k :: ks⟩, ?_, h⟩
      unfold Children.takeWhile
      refine if_neg (hl k.1 ?_)
      rw [← show k.1 :: ks.map Subtype.val = l from h]
      rfl
    | @cons m v ms' vs hm hvs =>
      obtain ⟨rfl, htail⟩ := List.cons.inj h
      obtain ⟨c, hc, hnodes⟩ := takeWhile_ok ks ⟨ms', htail, hvs⟩ hl
      refine ⟨c, ?_, hnodes⟩
      unfold Children.takeWhile
      rw [if_pos hm.1]
      exact ok_then hm.2 (ok_then hc rfl)

/-! ## Leaves -/

theorem token_ok {choices : List (String × α)} (h : n.children = []) {choice : String × α}
    (hmem : choice ∈ choices) (hchoice : (stripWord choice.1 n.text.toList).any trivia = true) :
    ∃ v, token n choices = .ok v := by
  unfold token
  rw [leaf_ok h]
  simp only [bind, Except.bind]
  split
  · exact ⟨_, rfl⟩
  · rename_i hnone
    exact absurd hchoice (find?_eq_none.1 hnone choice hmem)

theorem identifier_ok {name : String} (hn : n.rule = "Identifier") (hc : n.children = [m])
    (hm : (m.rule = "QuotedIdentifier" ∧ unquote m '"' = .ok name ∧ name ≠ "") ∨
      (m.rule = "BareIdentifier" ∧ bareIdentifier m = .ok name)) : identifier n = .ok name := by
  unfold identifier
  rw [if_neg (by simp [hn]), hc]
  rcases hm with ⟨hrule, hvalue, hne⟩ | ⟨hrule, hvalue⟩
  · simp only [hrule]
    exact ok_then hvalue (if_neg hne)
  · simp only [hrule]
    exact hvalue

theorem bareIdentifier_ok (hc : n.children = []) (hstart : n.text.toList.head?.any (fun c => c.isAlpha || c = '_'))
    (hall : n.text.toList.all isIdentChar = true) (hreserved : isReserved n.text.toList = false) :
    bareIdentifier n = .ok (lowercase n.text) := by
  unfold bareIdentifier
  rw [leaf_ok hc]
  simp only [bind, Except.bind, hstart, hall, hreserved]
  rfl

end ChiliDB.Sql.Transform

namespace ChiliDB.Sql

open Effect Transform List
open Peg (Node)

variable {n m : Node} {l : List Node} {f : Node → Transform.Result Expr}

/-! ## Orderings and windows -/

variable {k u b x : Node} {units : FrameUnits} {start : FrameBound} {es : List Expr} {d : Option Node}

theorem frameOffset_ok (hc : n.children = [k]) (hk : k.rule = "Offset") (hleaf : k.children = [])
    (hne : k.text ≠ "") (hall : k.text.toList.all Char.isDigit = true) : frameOffset n = .ok k.text := by
  obtain ⟨b, honly, rfl⟩ := only_ok hc hk
  unfold frameOffset
  refine ok_then honly (ok_then (leaf_ok hleaf) (if_neg ?_))
  simp [hne, hall]

theorem frameWords_ok {value : FrameBound} {words : List String} (hc : n.children = [])
    (hwords : keywordSequence n words = .ok ()) : frameWords n value words = .ok value := by
  unfold frameWords
  exact ok_then (leaf_ok hc) (ok_then hwords rfl)

/-- A frame from one bound to the current row. -/
theorem windowFrame_from (hn : n.rule = "WindowFrame") (hc : n.children = [u, b])
    (hu : Gives "FrameUnits" FrameUnits.parse u units) (hb : Gives "FrameBound" FrameBound.parse b start) :
    WindowFrame.parse n = .ok ⟨units, start, .currentRow⟩ := by
  unfold WindowFrame.parse
  rw [if_neg (by simp [hn])]
  refine take_value (nodes_of hc) hu (fun _ _ => rfl) fun c1 hc1 => ?_
  have hnone : c1.optional "Between" = .ok (none, c1) := optional_none (by simp [hc1, hb.1])
  refine ok_then hnone ?_
  refine take_value hc1 hb (fun _ _ => rfl) fun c2 hc2 => ?_
  exact ok_then (finish_ok hc2) rfl

/-- A frame between two bounds. -/
theorem windowFrame_between {w b' : Node} {stop : FrameBound} (hn : n.rule = "WindowFrame")
    (hc : n.children = [u, w]) (hu : Gives "FrameUnits" FrameUnits.parse u units) (hw : w.rule = "Between")
    (hwc : w.children = [b, b']) (hb : Gives "FrameBound" FrameBound.parse b start)
    (hb' : Gives "FrameBound" FrameBound.parse b' stop) : WindowFrame.parse n = .ok ⟨units, start, stop⟩ := by
  unfold WindowFrame.parse
  rw [if_neg (by simp [hn])]
  refine take_value (nodes_of hc) hu (fun _ _ => rfl) fun c1 hc1 => ?_
  obtain ⟨k2, c2, hopt, rfl, hc2⟩ := optional_some hc1 hw
  refine ok_then hopt ?_
  refine take_value (nodes_of hwc) hb (fun _ _ => rfl) fun c3 hc3 => ?_
  refine take_value hc3 hb' (fun _ _ => rfl) fun c4 hc4 => ?_
  exact ok_then (finish_ok hc4) (ok_then (finish_ok hc2) rfl)

/-- A node as the only one inside another. -/
def alone (m : Node) : Below ⟨"", "", 0, 0, [m]⟩ := ⟨m, sizeOf_child mem_cons_self⟩

/-- The expressions below a node. -/
def exprsOf (f : Node → Transform.Result Expr) (m : Node) : Transform.Result (List Expr) :=
  expressions (fun k => f k.1) (alone m)

def orderingOf (f : Node → Transform.Result Expr) (m : Node) : Transform.Result (OrderByExpr Expr) :=
  OrderByExpr.parse (fun k => f k.1) (alone m)

def orderingsOf (f : Node → Transform.Result Expr) (m : Node) : Transform.Result (List (OrderByExpr Expr)) :=
  orderings (fun k => f k.1) (alone m)

def windowOf (f : Node → Transform.Result Expr) (m : Node) : Transform.Result (WindowSpec Expr) :=
  WindowSpec.parse (fun k => f k.1) (alone m)

def argumentsOf (f : Node → Transform.Result Expr) (m : Node) : Transform.Result (List Expr) :=
  arguments (fun k => f k.1) (alone m)

variable {e : Expr} {w o : Option Node}

theorem exprsOf_ok (h : Forall₂ (Gives "Expr" f) m.children (e :: es)) : exprsOf f m = .ok (e :: es) :=
  many_ok (c := .new m) (by rwa [Children.new_nodes])

theorem orderingsOf_ok {o : OrderByExpr Expr} {os : List (OrderByExpr Expr)}
    (h : Forall₂ (Gives "OrderByExpr" (orderingOf f)) m.children (o :: os)) :
    orderingsOf f m = .ok (o :: os) :=
  many_ok (g := orderingOf f) (c := .new m) (by rwa [Children.new_nodes])

theorem orderingOf_ok {nl : Option Node} {direction : Option SortDirection} {nulls : Option NullOrder}
    (hm : m.rule = "OrderByExpr") (hc : m.children = x :: (d.toList ++ nl.toList)) (hx : Gives "Expr" f x e)
    (hd : ∀ k ∈ d, k.rule = "SortDirection") (hdirection : d.mapM SortDirection.parse = .ok direction)
    (hn : ∀ k ∈ nl, k.rule = "NullOrder") (hnulls : nl.mapM NullOrder.parse = .ok nulls) :
    orderingOf f m = .ok ⟨e, direction.getD .ascending, nulls⟩ := by
  unfold orderingOf OrderByExpr.parse
  refine (if_neg (not_not.2 hm)).trans ?_
  refine take_value (nodes_of hc) hx (fun _ _ => rfl) fun c1 hc1 => ?_
  refine optional_value hc1 hd (by cases nl <;> simp_all) hdirection (fun _ _ => rfl) fun c2 hc2 => ?_
  refine last_value hc2 hn hnulls (fun _ _ => rfl) fun c3 hc3 => ?_
  exact ok_then (finish_ok hc3) rfl

theorem windowOf_ok {p : Option Node} {partitionBy : Option (List Expr)}
    {orderBy : Option (List (OrderByExpr Expr))} {frame : Option WindowFrame} (hm : m.rule = "WindowSpec")
    (hc : m.children = p.toList ++ (o.toList ++ w.toList)) (hp : ∀ k ∈ p, k.rule = "PartitionBy")
    (hpartition : p.mapM (exprsOf f) = .ok partitionBy) (ho : ∀ k ∈ o, k.rule = "OrderBy")
    (horder : o.mapM (orderingsOf f) = .ok orderBy) (hw : ∀ k ∈ w, k.rule = "WindowFrame")
    (hframe : w.mapM WindowFrame.parse = .ok frame) :
    windowOf f m = .ok ⟨partitionBy.getD [], orderBy.getD [], frame⟩ := by
  unfold windowOf WindowSpec.parse
  refine (if_neg (not_not.2 hm)).trans ?_
  refine optional_value (nodes_of hc) hp (by cases o <;> cases w <;> simp_all) hpartition (fun _ _ => rfl)
    fun c1 hc1 => ?_
  refine optional_value hc1 ho (by cases w <;> simp_all) horder (fun _ _ => rfl) fun c2 hc2 => ?_
  refine last_value hc2 hw hframe (fun _ _ => rfl) fun c3 hc3 => ?_
  exact ok_then (finish_ok hc3) rfl

/-! ## Expressions -/

variable {rule column : String} {left : Expr} {op : Type} {choices : List (String × op)}
  {make : op → Expr → Expr}

theorem wrapper_ok (hc : n.children = [m]) (hm : Gives rule f m e) :
    wrapper (fun k : Below n => f k.1) rule = .ok e := by
  unfold wrapper
  refine take_value (nodes_of hc) hm (fun _ _ => rfl) fun c hrest => ?_
  exact ok_then (finish_ok hrest) rfl

theorem primary_ok (hc : n.children = [m]) (hm : m.rule ∈ primaryRules) (he : f m = .ok e) :
    primary (fun k : Below n => f k.1) = .ok e := by
  have hnodes : (Children.new n).nodes = [m] := by rw [Children.new_nodes, hc]
  obtain ⟨k, rest, hrest, rfl, hnil⟩ := map_eq_cons_iff.1 hnodes
  rw [map_eq_nil_iff.1 hnil] at hrest
  unfold primary
  rw [hrest]
  exact (if_pos hm).trans he

/-- An operator and its right operand. -/
structure Link (f : Node → Transform.Result Expr) (operator operand : String) (p : Node × Node)
    (v : BinaryOp × Expr) : Prop where
  op : Gives operator BinaryOp.parse p.1 v.1
  right : Gives operand f p.2 v.2

theorem chainFrom_ok {operator operand : String} : ∀ {ks : List (Below n)} {ps : List (Node × Node)}
    {vs : List (BinaryOp × Expr)} {left : Expr}, ks.map Subtype.val = ps.flatMap (fun p => [p.1, p.2]) →
    Forall₂ (Link f operator operand) ps vs →
    chainFrom (fun k : Below n => f k.1) operator operand left ks =
      .ok (vs.foldl (fun left v => .binary left v.1 v.2) left)
  | ks, [], vs, left, h, hvs => by
    cases hvs
    rw [map_eq_nil_iff.1 h]
    rfl
  | ks, p :: ps, vs, left, h, hvs => by
    obtain ⟨v, vs', hp, hvs', rfl⟩ := forall₂_cons_left_iff.1 hvs
    rw [flatMap_cons] at h
    obtain ⟨k1, ks1, rfl, hk1, h1⟩ := map_eq_cons_iff.1 h
    obtain ⟨k2, ks2, rfl, hk2, h2⟩ := map_eq_cons_iff.1 h1
    have hop := hp.op
    have hright := hp.right
    rw [← hk1] at hop
    rw [← hk2] at hright
    unfold chainFrom
    rw [if_neg (by simp [hop.1])]
    refine ok_then hop.2 ?_
    simp only
    rw [if_neg (by simp [hright.1])]
    exact ok_then hright.2 (chainFrom_ok h2 hvs')

variable {operand operator name table : String} {i : Node}

theorem chain_ok {l : Node} {ps : List (Node × Node)} {vs : List (BinaryOp × Expr)}
    (hc : n.children = l :: ps.flatMap fun p => [p.1, p.2]) (hl : Gives operand f l left)
    (hvs : List.Forall₂ (Link f operator operand) ps vs) :
    chain (fun k : Below n => f k.1) operand operator =
      .ok (vs.foldl (fun left v => .binary left v.1 v.2) left) := by
  unfold chain
  refine take_value (nodes_of hc) hl (fun _ _ => rfl) fun c hrest => ?_
  exact chainFrom_ok hrest hvs

theorem prefixed_op {o : Node} {v : op} (hc : n.children = [o, m]) (ho : Gives operator (token · choices) o v)
    (hm : Gives n.rule f m e) :
    prefixed (fun k : Below n => f k.1) operator operand choices make = .ok (make v e) := by
  unfold prefixed
  refine some_value (nodes_of hc) ho (fun _ _ => rfl) fun c1 hc1 => ?_
  refine take_value hc1 hm (fun _ _ => rfl) fun c2 hc2 => ?_
  exact ok_then (finish_ok hc2) rfl

theorem prefixed_operand (hc : n.children = [m]) (hne : operand ≠ operator) (hm : Gives operand f m e) :
    prefixed (fun k : Below n => f k.1) operator operand choices make = .ok e := by
  unfold prefixed
  have hnone : (Children.new n).optional operator = .ok (none, Children.new n) :=
    optional_none (by simp [hc, hm.1, hne])
  refine ok_then hnone ?_
  refine take_value (nodes_of hc) hm (fun _ _ => rfl) fun c hrest => ?_
  exact ok_then (finish_ok hrest) rfl

/-- Whether an optional word is there. -/
theorem present_ok {word : String} (h : ∀ k ∈ o, ∃ u, token k [(word, ())] = .ok u) :
    ∃ v : Option Unit, o.mapM (token · [(word, ())]) = .ok v ∧ v.isSome = o.isSome := by
  cases o with
  | none => exact ⟨none, rfl, rfl⟩
  | some m =>
    obtain ⟨u, hu⟩ := h m rfl
    exact ⟨some u, option_mapM_ok.2 (.inr ⟨m, u, rfl, rfl, hu⟩), rfl⟩

theorem isNullSuffix_ok (hc : n.children = o.toList) (ho : ∀ k ∈ o, k.rule = "IsNot")
    (hnot : ∀ k ∈ o, ∃ u, token k [("NOT", ())] = .ok u)
    (hwords : keywordSequence n (if o.isSome then ["IS", "NOT", "NULL"] else ["IS", "NULL"]) = .ok ()) :
    isNullSuffix n = .ok o.isSome := by
  unfold isNullSuffix
  obtain ⟨v, hv, hvsome⟩ := present_ok hnot
  refine last_value (nodes_of hc) ho hv (fun _ _ => rfl) fun c hrest => ?_
  refine ok_then (finish_ok hrest) (ok_then (a := ()) ?_ ?_)
  · rw [hvsome]
    exact hwords
  · rw [hvsome]
    rfl

theorem comparison_plain (hc : n.children = [m]) (hm : Gives "Additive" f m e) :
    comparison (fun k : Below n => f k.1) = .ok e := by
  unfold comparison
  refine take_value (nodes_of hc) hm (fun _ _ => rfl) fun c hrest => ?_
  refine none_value (by simp [hrest]) ?_
  refine none_value (by simp [hrest]) ?_
  exact ok_then (finish_ok hrest) rfl

theorem comparison_isNull {negated : Bool} (hc : n.children = [m, i]) (hm : Gives "Additive" f m e)
    (hi : Gives "IsNull" isNullSuffix i negated) :
    comparison (fun k : Below n => f k.1) = .ok (.isNull e negated) := by
  unfold comparison
  refine take_value (nodes_of hc) hm (fun _ _ => rfl) fun c hrest => ?_
  refine some_value hrest hi (fun _ _ => rfl) fun c2 hc2 => ?_
  exact ok_then (finish_ok hc2) rfl

theorem comparison_op {right : Expr} {o l r : Node} {op : BinaryOp} (hc : n.children = [l, o, r])
    (hl : Gives "Additive" f l left) (ho : Gives "CompareOp" BinaryOp.parse o op)
    (hr : Gives "Additive" f r right) :
    comparison (fun k : Below n => f k.1) = .ok (.binary left op right) := by
  unfold comparison
  refine take_value (nodes_of hc) hl (fun _ _ => rfl) fun c hrest => ?_
  refine none_value (by simp [hrest, ho.1]) ?_
  refine some_value hrest ho (fun _ _ => rfl) fun c2 hc2 => ?_
  refine take_value hc2 hr (fun _ _ => rfl) fun c3 hc3 => ?_
  exact ok_then (finish_ok hc3) rfl

theorem projectionItem_plain (hc : n.children = [m]) (hm : Gives "Expr" f m e) :
    projectionItem (fun k : Below n => f k.1) = .ok e := by
  unfold projectionItem
  refine take_value (nodes_of hc) hm (fun _ _ => rfl) fun c hrest => ?_
  refine none_value (by simp [hrest]) ?_
  exact ok_then (finish_ok hrest) rfl

theorem projectionItem_alias (hc : n.children = [m, i]) (hm : Gives "Expr" f m e)
    (hi : Gives "Identifier" identifier i name) :
    projectionItem (fun k : Below n => f k.1) = .ok (.alias e name) := by
  unfold projectionItem
  refine take_value (nodes_of hc) hm (fun _ _ => rfl) fun c hrest => ?_
  refine some_value hrest hi (fun _ _ => rfl) fun c2 hc2 => ?_
  exact ok_then (finish_ok hc2) rfl

theorem argumentsOf_star {s : Node} (hc : m.children = [s]) (hs : Gives "Star" f s e) :
    argumentsOf f m = .ok [e] := by
  unfold argumentsOf arguments
  refine (if_pos (by rw [show (alone m).1.children = [s] from hc]; simp [hs.1])).trans ?_
  obtain ⟨k, honly, rfl⟩ := only_ok hc hs.1
  exact ok_then honly (ok_then hs.2 rfl)

theorem argumentsOf_exprs (h : Forall₂ (Gives "Expr" f) m.children (e :: es)) :
    argumentsOf f m = .ok (e :: es) := by
  unfold argumentsOf arguments
  obtain ⟨x, xs, hx, _, hc⟩ := forall₂_cons_right_iff.1 h
  refine (if_neg (by rw [show (alone m).1.children = x :: xs from hc]; simp [hx.1])).trans ?_
  exact exprsOf_ok h

theorem name_plain (hc : n.children = [i]) (hi : Gives "Identifier" identifier i name) :
    Sql.name (n := n) = .ok (.identifier name) := by
  unfold Sql.name
  refine take_value (nodes_of hc) hi (fun _ _ => rfl) fun c hrest => ?_
  refine none_value (by simp [hrest]) ?_
  exact ok_then (finish_ok hrest) rfl

theorem name_qualified {j : Node} (hc : n.children = [i, j]) (hi : Gives "Identifier" identifier i table)
    (hj : Gives "Identifier" identifier j column) :
    Sql.name (n := n) = .ok (.qualifiedIdentifier table column) := by
  unfold name
  refine take_value (nodes_of hc) hi (fun _ _ => rfl) fun c hrest => ?_
  refine some_value hrest hj (fun _ _ => rfl) fun c2 hc2 => ?_
  exact ok_then (finish_ok hc2) rfl

/-- The value of the only child. -/
def onlyOf {α : Type} (rule : String) (g : Node → Transform.Result α) (m : Node) : Transform.Result α := do
  let k ← only m rule
  g k.1

theorem onlyOf_ok {α : Type} {g : Node → Result α} {v : α} (hc : m.children = [k])
    (hk : Gives rule g k v) : onlyOf rule g m = .ok v := by
  obtain ⟨b, honly, rfl⟩ := only_ok hc hk.1
  exact ok_then honly hk.2

theorem functionCall_ok {a : Option Node} {args : Option (List Expr)} {filter : Option Expr}
    {over_ : Option (WindowSpec Expr)}
    (hc : n.children = i :: (d.toList ++ (a.toList ++ (w.toList ++ o.toList))))
    (hi : Gives "Identifier" identifier i name) (hd : ∀ k ∈ d, k.rule = "Distinct")
    (hdistinct : ∀ k ∈ d, ∃ u, token k [("DISTINCT", ())] = .ok u) (ha : ∀ k ∈ a, k.rule = "Arguments")
    (hargs : a.mapM (argumentsOf f) = .ok args) (hw : ∀ k ∈ w, k.rule = "CallFilter")
    (hfilter : w.mapM (onlyOf "Expr" f) = .ok filter) (ho : ∀ k ∈ o, k.rule = "Over")
    (hover : o.mapM (onlyOf "WindowSpec" (windowOf f)) = .ok over_) :
    functionCall (fun k : Below n => f k.1) = .ok (.functionCall name (args.getD []) d.isSome filter over_) := by
  unfold functionCall
  refine take_value (nodes_of hc) hi (fun _ _ => rfl) fun c1 hc1 => ?_
  obtain ⟨v, hv, hvsome⟩ := present_ok hdistinct
  refine optional_value hc1 hd (by cases a <;> cases w <;> cases o <;> simp_all) hv (fun _ _ => rfl)
    fun c2 hc2 => ?_
  refine optional_value hc2 ha (by cases w <;> cases o <;> simp_all) hargs (fun _ _ => rfl) fun c3 hc3 => ?_
  refine optional_value hc3 hw (by cases o <;> simp_all) hfilter (fun _ _ => rfl) fun c4 hc4 => ?_
  refine last_value hc4 ho hover (fun _ _ => rfl) fun c5 hc5 => ?_
  refine ok_then (finish_ok hc5) ?_
  rw [hvsome]
  rfl

/-! ## Statements -/

variable {cs : List Node}

theorem columnDef_ok {t : Node} {dataType : DataType} {constraints : List ColumnConstraint}
    (hn : n.rule = "ColumnDef") (hc : n.children = i :: t :: cs) (hi : Gives "Identifier" identifier i name)
    (ht : Gives "DataType" DataType.parse t dataType)
    (hcs : List.Forall₂ (Gives "Constraint" ColumnConstraint.parse) cs constraints) :
    ColumnDef.parse n = .ok ⟨name, dataType, constraints⟩ := by
  unfold ColumnDef.parse
  rw [if_neg (by simp [hn])]
  refine take_value (nodes_of hc) hi (fun _ _ => rfl) fun c1 hc1 => ?_
  refine take_value hc1 ht (fun _ _ => rfl) fun c2 hc2 => ?_
  have hcs2 : List.Forall₂ (Gives "Constraint" ColumnConstraint.parse) (c2.rest.map Subtype.val) constraints := by
    rw [← hc2] at hcs
    exact hcs
  exact ok_then (takeAll_ok hcs2) rfl

theorem assignment_ok {value : Expr} (hn : n.rule = "Assignment") (hc : n.children = [i, x])
    (hi : Gives "Identifier" identifier i column) (hx : Gives "Expr" Expr.parse x value) :
    Assignment.parse n = .ok ⟨column, value⟩ := by
  unfold Assignment.parse
  rw [if_neg (by simp [hn])]
  refine take_value (nodes_of hc) hi (fun _ _ => rfl) fun c1 hc1 => ?_
  refine take_value hc1 hx (fun _ _ => rfl) fun c2 hc2 => ?_
  exact ok_then (finish_ok hc2) rfl

variable {condition : Option Expr}

theorem filter_ok {c : Children n} (hc : c.nodes = w.toList ++ l) (hw : ∀ k ∈ w, k.rule = "Where")
    (hl : ∀ m ∈ l.head?, m.rule ≠ "Where") (hcondition : w.mapM (onlyOf "Expr" Expr.parse) = .ok condition) :
    ∃ c', filter c = .ok (condition, c') ∧ c'.nodes = l := by
  obtain ⟨k, c', hopt, hk, hc'⟩ := optional_ok "Where" hc hw hl
  exact ⟨c', ok_then hopt (ok_then ((mapM_val hk _).trans hcondition) rfl), hc'⟩

theorem selectStatement_ok {p : Node} {s g h : Option Node} {items : List Expr} {source : Option String}
    {having : Option Expr} {group : Option (List Expr)} {order : Option (List (OrderByExpr Expr))}
    (hc : n.children = p :: (s.toList ++ (w.toList ++ (g.toList ++ (h.toList ++ o.toList)))))
    (hp : Gives "Projection" projection p items) (hs : ∀ k ∈ s, k.rule = "From")
    (hsource : s.mapM (onlyOf "Identifier" identifier) = .ok source) (hw : ∀ k ∈ w, k.rule = "Where")
    (hcondition : w.mapM (onlyOf "Expr" Expr.parse) = .ok condition) (hg : ∀ k ∈ g, k.rule = "GroupBy")
    (hgroup : g.mapM (exprsOf Expr.parse) = .ok group) (hh : ∀ k ∈ h, k.rule = "Having")
    (hhaving : h.mapM (onlyOf "Expr" Expr.parse) = .ok having) (ho : ∀ k ∈ o, k.rule = "OrderBy")
    (horder : o.mapM (orderingsOf Expr.parse) = .ok order) :
    selectStatement n = .ok (.select items source condition (group.getD []) having (order.getD [])) := by
  unfold selectStatement
  refine take_value (nodes_of hc) hp (fun _ _ => rfl) fun c1 hc1 => ?_
  refine optional_value hc1 hs (by cases w <;> cases g <;> cases h <;> cases o <;> simp_all) hsource
    (fun _ _ => rfl) fun c2 hc2 => ?_
  obtain ⟨c3, hfilter, hc3⟩ := filter_ok hc2 hw (by cases g <;> cases h <;> cases o <;> simp_all) hcondition
  refine ok_then hfilter ?_
  refine optional_value hc3 hg (by cases h <;> cases o <;> simp_all) hgroup (fun _ _ => rfl) fun c4 hc4 => ?_
  refine optional_value hc4 hh (by cases o <;> simp_all) hhaving (fun _ _ => rfl) fun c5 hc5 => ?_
  refine last_value hc5 ho horder (fun _ _ => rfl) fun c6 hc6 => ?_
  exact ok_then (finish_ok hc6) rfl

theorem createTableStatement_ok {column : ColumnDef} {columns : List ColumnDef} (hc : n.children = i :: cs)
    (hi : Gives "Identifier" identifier i table)
    (hcs : List.Forall₂ (Gives "ColumnDef" ColumnDef.parse) cs (column :: columns)) :
    createTableStatement n = .ok (.createTable table (column :: columns)) := by
  unfold createTableStatement
  refine take_value (nodes_of hc) hi (fun _ _ => rfl) fun c1 hc1 => ?_
  exact ok_then (many_ok (hc1 ▸ hcs)) rfl

/-- The names below a node. -/
def namesOf (m : Node) : Transform.Result (List String) :=
  (Children.new m).many "Identifier" fun k => identifier k.1

theorem insertStatement_ok {c : Option Node} {rs : List Node} {columns : Option (List String)} {row : List Expr}
    {rows : List (List Expr)} (hc : n.children = i :: (c.toList ++ rs))
    (hi : Gives "Identifier" identifier i table) (hcs : ∀ k ∈ c, k.rule = "Columns")
    (hcolumns : c.mapM namesOf = .ok columns)
    (hrs : List.Forall₂ (Gives "Row" (exprsOf Expr.parse)) rs (row :: rows)) :
    insertStatement n = .ok (.insert table (columns.getD []) (row :: rows)) := by
  unfold insertStatement
  refine take_value (nodes_of hc) hi (fun _ _ => rfl) fun c1 hc1 => ?_
  have hrow : ∀ m ∈ rs.head?, m.rule ≠ "Columns" := by
    obtain ⟨r, rs', hr, _, rfl⟩ := List.forall₂_cons_right_iff.1 hrs
    simp [hr.1]
  refine optional_value hc1 hcs hrow hcolumns (fun _ _ => rfl) fun c2 hc2 => ?_
  exact ok_then (many_ok (hc2 ▸ hrs)) rfl

theorem updateStatement_ok {a : Node} {as : List Node} {first : Assignment} {assignments : List Assignment}
    (hc : n.children = i :: a :: (as ++ w.toList)) (hi : Gives "Identifier" identifier i table)
    (ha : Gives "Assignment" Assignment.parse a first)
    (has : List.Forall₂ (Gives "Assignment" Assignment.parse) as assignments) (hw : ∀ k ∈ w, k.rule = "Where")
    (hcondition : w.mapM (onlyOf "Expr" Expr.parse) = .ok condition) :
    updateStatement n = .ok (.update table (first :: assignments) condition) := by
  unfold updateStatement
  refine take_value (nodes_of hc) hi (fun _ _ => rfl) fun c1 hc1 => ?_
  refine take_value hc1 ha (fun _ _ => rfl) fun c2 hc2 => ?_
  obtain ⟨c3, hwhile, hc3⟩ := takeWhile_ok c2.rest ⟨as, hc2, has⟩ (by cases w <;> simp_all)
  refine ok_then hwhile ?_
  obtain ⟨c4, hfilter, hc4⟩ := filter_ok (w := w) (l := []) (by rw [hc3, append_nil]) hw (by simp) hcondition
  exact ok_then hfilter (ok_then (finish_ok hc4) rfl)

theorem deleteStatement_ok (hc : n.children = i :: w.toList) (hi : Gives "Identifier" identifier i table)
    (hw : ∀ k ∈ w, k.rule = "Where") (hcondition : w.mapM (onlyOf "Expr" Expr.parse) = .ok condition) :
    deleteStatement n = .ok (.delete table condition) := by
  unfold deleteStatement
  refine take_value (nodes_of hc) hi (fun _ _ => rfl) fun c1 hc1 => ?_
  obtain ⟨c2, hfilter, hc2⟩ := filter_ok (w := w) (l := []) (by rw [hc1, append_nil]) hw (by simp) hcondition
  exact ok_then hfilter (ok_then (finish_ok hc2) rfl)

end ChiliDB.Sql

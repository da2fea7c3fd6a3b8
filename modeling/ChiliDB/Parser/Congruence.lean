import ChiliDB.Parser.TransformSpec
import Mathlib.Data.List.Induction

/-!
# Trees that the transform does not tell apart

Two parse trees of one shape, whose leaves every recogniser of the transform reads in the same way, are
transformed to the same syntax tree, or both to an error.

* `Expr.Upto R`, `Statement.Upto R` — equal but for the spellings of numbers, which are in `R`.
* `LeafAlike E R` — the recognisers answer alike for the texts of two nodes, with errors whose positions are
  in `E`; `TreeAlike E R` — the same for all nodes of two trees.
* `expr_alike`, `statements_alike` — **the transform is a congruence**: one lemma for each of its functions.
-/

namespace ChiliDB.Sql

open Effect Transform
open Peg (Node)

/-! ## Values -/

inductive OrderByExpr.Rel (R : Expr → Expr → Prop) : OrderByExpr Expr → OrderByExpr Expr → Prop where
  | mk {e e' : Expr} (direction : SortDirection) (nulls : Option NullOrder) : R e e' →
      Rel R ⟨e, direction, nulls⟩ ⟨e', direction, nulls⟩

inductive WindowSpec.Rel (R : Expr → Expr → Prop) : WindowSpec Expr → WindowSpec Expr → Prop where
  | mk {partitionBy partitionBy' : List Expr} {orderBy orderBy' : List (OrderByExpr Expr)}
      (frame : Option WindowFrame) : List.Forall₂ R partitionBy partitionBy' →
      List.Forall₂ (OrderByExpr.Rel R) orderBy orderBy' →
      Rel R ⟨partitionBy, orderBy, frame⟩ ⟨partitionBy', orderBy', frame⟩

/-- Equal but for the spellings of numbers. -/
inductive Expr.Upto (R : String → String → Prop) : Expr → Expr → Prop where
  | identifier (name : String) : Upto R (.identifier name) (.identifier name)
  | qualifiedIdentifier (table column : String) :
      Upto R (.qualifiedIdentifier table column) (.qualifiedIdentifier table column)
  | alias {e e' : Expr} (name : String) : Upto R e e' → Upto R (.alias e name) (.alias e' name)
  | functionCall {args args' : List Expr} {filter filter' : Option Expr}
      {over_ over' : Option (WindowSpec Expr)} (name : String) (distinct : Bool) :
      List.Forall₂ (Upto R) args args' → Option.Rel (Upto R) filter filter' →
      Option.Rel (WindowSpec.Rel (Upto R)) over_ over' →
      Upto R (.functionCall name args distinct filter over_) (.functionCall name args' distinct filter' over')
  | wildcard : Upto R .wildcard .wildcard
  | number {s s' : String} : R s s' → Upto R (.literal (.number s)) (.literal (.number s'))
  | literal (l : Literal) : Upto R (.literal l) (.literal l)
  | unary {e e' : Expr} (op : UnaryOp) : Upto R e e' → Upto R (.unary op e) (.unary op e')
  | binary {e e' d d' : Expr} (op : BinaryOp) : Upto R e e' → Upto R d d' →
      Upto R (.binary e op d) (.binary e' op d')
  | isNull {e e' : Expr} (negated : Bool) : Upto R e e' → Upto R (.isNull e negated) (.isNull e' negated)

inductive Literal.Upto (R : String → String → Prop) : Literal → Literal → Prop where
  | number {s s' : String} : R s s' → Upto R (.number s) (.number s')
  | same (l : Literal) : Upto R l l

structure Assignment.Upto (R : String → String → Prop) (a a' : Assignment) : Prop where
  column : a'.column = a.column
  value : Expr.Upto R a.value a'.value

inductive Statement.Upto (R : String → String → Prop) : Statement → Statement → Prop where
  | select {projection projection' groupBy groupBy' : List Expr} {filter filter' having having' : Option Expr}
      {orderBy orderBy' : List (OrderByExpr Expr)} (source : Option String) :
      List.Forall₂ (Expr.Upto R) projection projection' → Option.Rel (Expr.Upto R) filter filter' →
      List.Forall₂ (Expr.Upto R) groupBy groupBy' → Option.Rel (Expr.Upto R) having having' →
      List.Forall₂ (OrderByExpr.Rel (Expr.Upto R)) orderBy orderBy' →
      Upto R (.select projection source filter groupBy having orderBy)
        (.select projection' source filter' groupBy' having' orderBy')
  | createTable (name : String) (columns : List ColumnDef) :
      Upto R (.createTable name columns) (.createTable name columns)
  | insert {rows rows' : List (List Expr)} (table : String) (columns : List String) :
      List.Forall₂ (List.Forall₂ (Expr.Upto R)) rows rows' →
      Upto R (.insert table columns rows) (.insert table columns rows')
  | update {assignments assignments' : List Assignment} {filter filter' : Option Expr} (table : String) :
      List.Forall₂ (Assignment.Upto R) assignments assignments' → Option.Rel (Expr.Upto R) filter filter' →
      Upto R (.update table assignments filter) (.update table assignments' filter')
  | delete {filter filter' : Option Expr} (table : String) : Option.Rel (Expr.Upto R) filter filter' →
      Upto R (.delete table filter) (.delete table filter')
  | begin : Upto R .begin .begin
  | commit : Upto R .commit .commit
  | rollback : Upto R .rollback .rollback

/-! ## Trees -/

/-- Both succeed with values in `V`, or both fail at positions in `E`. -/
abbrev Near {α α' : Type} (E : Nat → Nat → Prop) (V : α → α' → Prop) (x : Transform.Result α)
    (x' : Transform.Result α') : Prop :=
  Alike (fun e e' => E e.offset e'.offset) V x x'

/-- Digits, which both texts spell, or neither does. -/
def SameDigits (s s' : String) : Prop :=
  (s' = "" ∨ !s'.toList.all Char.isDigit ↔ s = "" ∨ !s.toList.all Char.isDigit) ∧
    (¬(s = "" ∨ !s.toList.all Char.isDigit) → s' = s)

/-- The recognisers of leaves answer alike. -/
structure LeafAlike (E : Nat → Nat → Prop) (R : String → String → Prop) (n n' : Node) : Prop where
  rule : n'.rule = n.rule
  start : E n.start n'.start
  token : ∀ {α : Type} (choices : List (String × α)), (∀ choice ∈ choices, '\n' ∉ choice.1.toList) →
    Near E (· = ·) (token n choices) (token n' choices)
  keywords : ∀ words : List String, (∀ word ∈ words, '\n' ∉ word.toList) →
    Near E (· = ·) (keywordSequence n words) (keywordSequence n' words)
  bare : n.rule = "BareIdentifier" → Near E (· = ·) (bareIdentifier n) (bareIdentifier n')
  quoted : n.rule = "QuotedIdentifier" → Near E (· = ·) (unquote n '"') (unquote n' '"')
  string : n.rule = "String" → Near E (· = ·) (unquote n '\'') (unquote n' '\'')
  number : n.rule = "Number" → Near E (Literal.Upto R) (Literal.parse n) (Literal.parse n')
  digits : n.rule = "Offset" ∨ n.rule = "Length" → SameDigits n.text n'.text

inductive TreeAlike (E : Nat → Nat → Prop) (R : String → String → Prop) : Node → Node → Prop where
  | mk {n n' : Node} : LeafAlike E R n n' → List.Forall₂ (TreeAlike E R) n.children n'.children → TreeAlike E R n n'

variable {E : Nat → Nat → Prop} {R : String → String → Prop} {n n' : Node} {α α' : Type} {V : α → α' → Prop}

theorem eq_of_optionRel {o o' : Option α} (h : Option.Rel (· = ·) o o') : o' = o := by
  cases h with
  | none => rfl
  | some h => rw [h]

theorem getD_forall₂ {o : Option (List α)} {o' : Option (List α')} (h : Option.Rel (List.Forall₂ V) o o') :
    List.Forall₂ V (o.getD []) (o'.getD []) := by
  cases h with
  | none => exact .nil
  | some h => exact h

theorem token_single {word : String} {v u : α} (h : token n [(word, v)] = .ok u) : u = v := by
  unfold token at h
  obtain ⟨s, _, h⟩ := except_bind_ok.1 h
  split at h
  · rename_i choice hfind
    cases h
    rw [List.mem_singleton.1 (List.mem_of_find?_eq_some hfind)]
  · cases h

section

variable (h : TreeAlike E R n n')

include h

theorem TreeAlike.leaf : LeafAlike E R n n' := by
  cases h with
  | mk h _ => exact h

theorem TreeAlike.children : List.Forall₂ (TreeAlike E R) n.children n'.children := by
  cases h with
  | mk _ h => exact h

theorem TreeAlike.rule : n'.rule = n.rule := h.leaf.rule

theorem TreeAlike.error (expected : String) : Near E V (error n expected) (error n' expected) :=
  .error h.leaf.start

theorem TreeAlike.rule_iff (rule : String) : n'.rule = rule ↔ n.rule = rule := by rw [h.rule]

/-- Every function checks the rule of its node first. -/
theorem guard_alike {rule expected : String} {x : Result α}
    {x' : Result α'} (hx : n.rule = rule → Near E V x x') :
    Near E V (if n.rule ≠ rule then error n expected else x) (if n'.rule ≠ rule then error n' expected else x') :=
  .ite (not_congr (h.rule_iff _)) (fun _ => h.error _) fun hrule => hx (not_not.1 hrule)

/-! ## Children -/

/-- Nodes of a rule below two nodes. -/
structure BelowAlike (E : Nat → Nat → Prop) (R : String → String → Prop) (rule : String) (m : Below n)
    (m' : Below n') : Prop where
  tree : TreeAlike E R m.1 m'.1
  rule_eq : m.1.rule = rule

/-- The children that are left. -/
def ChildrenAlike (E : Nat → Nat → Prop) (R : String → String → Prop) (c : Children n) (c' : Children n') :
    Prop :=
  List.Forall₂ (fun m m' => TreeAlike E R m.1 m'.1) c.rest c'.rest

variable {c : Children n} {c' : Children n'} {rule : String}

theorem new_alike : ChildrenAlike E R (.new n) (.new n') := by
  have hval : List.Forall₂ (TreeAlike E R) ((Children.new n).rest.map Subtype.val)
      ((Children.new n').rest.map Subtype.val) := by
    have hnodes := h.children
    rw [← Children.new_nodes n, ← Children.new_nodes n'] at hnodes
    exact hnodes
  rw [List.forall₂_map_left_iff, List.forall₂_map_right_iff] at hval
  exact hval

theorem take_alike (hc : ChildrenAlike E R c c') :
    Near E (fun p p' => BelowAlike E R rule p.1 p'.1 ∧ ChildrenAlike E R p.2 p'.2)
      (c.take rule) (c'.take rule) := by
  unfold ChildrenAlike at hc
  unfold Children.take
  revert hc
  rcases c.rest with _ | ⟨m, rest⟩ <;> rcases c'.rest with _ | ⟨m', rest'⟩ <;> intro hc
  · exact h.error rule
  · cases hc
  · cases hc
  · cases hc with
    | cons hm hrest =>
      exact .ite (hm.rule_iff rule) (fun hrule => .ok ⟨⟨hm, hrule⟩, hrest⟩) fun _ => h.error rule

omit h in
theorem optional_alike (hc : ChildrenAlike E R c c') :
    Near E (fun p p' => Option.Rel (BelowAlike E R rule) p.1 p'.1 ∧ ChildrenAlike E R p.2 p'.2)
      (c.optional rule) (c'.optional rule) := by
  have hall := hc
  unfold ChildrenAlike at hc
  unfold Children.optional
  revert hc
  rcases c.rest with _ | ⟨m, rest⟩ <;> rcases c'.rest with _ | ⟨m', rest'⟩ <;> intro hc
  · exact .ok ⟨.none, hall⟩
  · cases hc
  · cases hc
  · cases hc with
    | cons hm hrest =>
      exact .ite (hm.rule_iff rule) (fun hrule => .ok ⟨.some ⟨hm, hrule⟩, hrest⟩) fun _ => .ok ⟨.none, hall⟩

theorem finish_alike (hc : ChildrenAlike E R c c') : Near E (· = ·) c.finish c'.finish := by
  refine .ite ?_ (fun _ => .ok rfl) fun _ => h.error _
  have hlength := List.Forall₂.length_eq hc
  simp only [List.isEmpty_iff_length_eq_zero, hlength]

theorem finish_ok (hc : ChildrenAlike E R c c') {a : α} {a' : α'} (ha : V a a') :
    Near E V (do c.finish; pure a) (do c'.finish; pure a') :=
  .bind (finish_alike h hc) fun _ _ _ => .ok ha

theorem leaf_alike : Near E (fun s s' => s = n.text ∧ s' = n'.text) (leaf n) (leaf n') :=
  .bind (finish_alike h (new_alike h)) fun _ _ _ => .ok ⟨rfl, rfl⟩

theorem only_alike : Near E (BelowAlike E R rule) (only n rule) (only n' rule) := by
  refine .bind_pair (take_alike h (new_alike h)) fun hm hc => ?_
  exact finish_ok h hc hm

variable {f : Below n → Transform.Result α} {f' : Below n' → Transform.Result α'}

theorem takeAll_alike
    (hf : ∀ m m', TreeAlike E R m.1 m'.1 → Near E V (f m) (f' m')) {ms : List (Below n)}
    {ms' : List (Below n')} (hms : List.Forall₂ (fun m m' => TreeAlike E R m.1 m'.1) ms ms') :
    Near E (List.Forall₂ V) (Children.takeAll rule f ms) (Children.takeAll rule f' ms') := by
  induction hms with
  | nil => exact .ok .nil
  | cons hm _ ih =>
    unfold Children.takeAll
    exact .ite (hm.rule_iff rule)
      (fun _ => .bind (hf _ _ hm) fun _ _ hv => .bind ih fun _ _ hvs => .ok (.cons hv hvs))
      fun _ => h.error rule

theorem many_alike (hc : ChildrenAlike E R c c')
    (hf : ∀ m m', TreeAlike E R m.1 m'.1 → Near E V (f m) (f' m')) :
    Near E (List.Forall₂ V) (c.many rule f) (c'.many rule f') := by
  refine .bind_pair (take_alike h hc) fun hm hc => ?_
  exact .bind (hf _ _ hm.tree) fun _ _ hv => .bind (takeAll_alike h hf hc) fun _ _ hvs => .ok (.cons hv hvs)

omit h in
theorem takeWhile_alike (hf : ∀ m m', TreeAlike E R m.1 m'.1 → Near E V (f m) (f' m')) {ms : List (Below n)}
    {ms' : List (Below n')} (hms : List.Forall₂ (fun m m' => TreeAlike E R m.1 m'.1) ms ms') :
    Near E (fun p p' => List.Forall₂ V p.1 p'.1 ∧ ChildrenAlike E R p.2 p'.2)
      (Children.takeWhile rule f ms) (Children.takeWhile rule f' ms') := by
  induction hms with
  | nil => exact .ok ⟨.nil, .nil⟩
  | cons hm hms ih =>
    unfold Children.takeWhile
    refine .ite (hm.rule_iff rule) (fun _ => .bind (hf _ _ hm) fun v v' hv => .bind ih ?_)
      fun _ => .ok ⟨.nil, .cons hm hms⟩
    rintro ⟨vs, c⟩ ⟨vs', c'⟩ ⟨hvs, hc⟩
    exact .ok ⟨.cons hv hvs, hc⟩

omit h in
/-- A conversion of an optional child. -/
theorem optionalValue_alike {o : Option (Below n)} {o' : Option (Below n')}
    (ho : Option.Rel (BelowAlike E R rule) o o')
    (hf : ∀ m m', TreeAlike E R m.1 m'.1 → Near E V (f m) (f' m')) :
    Near E (Option.Rel V) (o.mapM f) (o'.mapM f') := by
  refine .option_mapM ?_
  cases ho with
  | none => exact .none
  | some hm => exact .some (hf _ _ hm.tree)

/-- A node with one child. -/
theorem child_alike {g : Node → Result α} {g' : Node → Result α'} {expected : String}
    (hg : ∀ {m m'}, TreeAlike E R m m' → Near E V (g m) (g' m')) :
    Near E V (match n.children with | [m] => g m | _ => error n expected)
      (match n'.children with | [m] => g' m | _ => error n' expected) := by
  have hchildren := h.children
  generalize n.children = l, n'.children = l' at hchildren ⊢
  rcases hchildren with _ | ⟨hm, _ | ⟨_, _⟩⟩
  · exact h.error _
  · exact hg hm
  · exact h.error _

/-! ## Leaves -/

theorem identifier_alike : Near E (· = ·) (identifier n) (identifier n') := by
  refine guard_alike h fun _ => child_alike h fun hm => ?_
  simp only [hm.rule]
  split
  · rename_i hrule
    refine .bind_eq (hm.leaf.quoted hrule) fun s => ?_
    exact .ite Iff.rfl (fun _ => hm.error _) fun _ => .ok rfl
  · rename_i hrule
    exact hm.leaf.bare hrule
  · exact hm.error _

theorem literal_alike : Near E (Literal.Upto R) (Literal.parse n) (Literal.parse n') := by
  have same : ∀ {x x' : Result Literal}, Near E (· = ·) x x' → Near E (Literal.Upto R) x x' :=
    fun hx => hx.mono fun l _ _ hl => hl ▸ .same l
  by_cases hnumber : n.rule = "Number"
  · exact h.leaf.number hnumber
  · unfold Literal.parse
    simp only [h.rule]
    split
    · rename_i hrule
      refine .bind_eq (h.leaf.string hrule) fun s => ?_
      exact .ok (.same _)
    · rename_i hrule
      exact absurd hrule hnumber
    · exact same (h.leaf.token _ (by decide))
    · exact same (h.leaf.token _ (by decide))
    · exact same (h.leaf.token _ (by decide))
    · exact h.error _

theorem binaryOp_alike : Near E (· = ·) (BinaryOp.parse n) (BinaryOp.parse n') := by
  unfold BinaryOp.parse
  simp only [h.rule]
  split
  · exact h.leaf.token _ (by decide)
  · exact h.leaf.token _ (by decide)
  · exact h.leaf.token _ (by decide)
  · exact h.leaf.token _ (by decide)
  · exact h.leaf.token _ (by decide)
  · exact h.error _

/-! ## Orderings and windows -/

theorem sortDirection_alike : Near E (· = ·) (SortDirection.parse n) (SortDirection.parse n') :=
  guard_alike h fun _ => h.leaf.token _ (by decide)

theorem frameUnits_alike : Near E (· = ·) (FrameUnits.parse n) (FrameUnits.parse n') :=
  guard_alike h fun _ => h.leaf.token _ (by decide)

theorem nullOrder_alike : Near E (· = ·) (NullOrder.parse n) (NullOrder.parse n') := by
  refine guard_alike h fun _ => .bind (leaf_alike h) fun _ _ _ => ?_
  have hfirst := h.leaf.keywords ["NULLS", "FIRST"] (by decide)
  refine .ite ?_ (fun _ => .ok rfl) fun _ =>
    .bind (h.leaf.keywords ["NULLS", "LAST"] (by decide)) fun _ _ _ => .ok rfl
  rw [hfirst.toBool_eq]

theorem frameOffset_alike : Near E (· = ·) (frameOffset n) (frameOffset n') := by
  refine .bind (only_alike h) fun m m' hm => .bind (leaf_alike hm.tree) ?_
  rintro s s' ⟨rfl, rfl⟩
  have hdigits := hm.tree.leaf.digits (.inl hm.rule_eq)
  exact .ite hdigits.1 (fun _ => h.error _) fun hs => .ok (hdigits.2 hs).symm

theorem frameWords_alike (value : FrameBound) {words : List String}
    (hwords : ∀ word ∈ words, '\n' ∉ word.toList) :
    Near E (· = ·) (frameWords n value words) (frameWords n' value words) :=
  .bind (leaf_alike h) fun _ _ _ => .bind (h.leaf.keywords words hwords) fun _ _ _ => .ok rfl

theorem frameBound_alike : Near E (· = ·) (FrameBound.parse n) (FrameBound.parse n') := by
  refine guard_alike h fun _ => child_alike h fun hm => ?_
  simp only [hm.rule]
  split
  · exact frameWords_alike hm _ (by decide)
  · exact frameWords_alike hm _ (by decide)
  · exact frameWords_alike hm _ (by decide)
  · refine .bind_eq (frameOffset_alike hm) fun s => ?_
    exact .ok rfl
  · refine .bind_eq (frameOffset_alike hm) fun s => ?_
    exact .ok rfl
  · exact hm.error _

theorem windowFrame_alike : Near E (· = ·) (WindowFrame.parse n) (WindowFrame.parse n') := by
  refine guard_alike h fun _ =>
    .bind_pair (take_alike h (new_alike h)) fun hu hc => ?_
  refine .bind_eq (frameUnits_alike hu.tree) fun units => ?_
  refine .bind_pair (optional_alike hc) fun hb hc => ?_
  cases hb with
  | none =>
    refine .bind_pair (take_alike h hc) fun hs hc => ?_
    refine .bind_eq (frameBound_alike hs.tree) fun start => ?_
    exact finish_ok h hc rfl
  | some hb =>
    refine .bind_pair (take_alike hb.tree (new_alike hb.tree)) fun hs hd => ?_
    refine .bind_eq (frameBound_alike hs.tree) fun start => ?_
    refine .bind_pair (take_alike hb.tree hd) fun ht hd => ?_
    refine .bind_eq (frameBound_alike ht.tree) fun stop => ?_
    exact .bind (finish_alike hb.tree hd) fun _ _ _ => finish_ok h hc rfl

end

section

variable {sub : Below n → Transform.Result Expr} {sub' : Below n' → Transform.Result Expr}

/-- The nodes below are converted alike. -/
def SubAlike (E : Nat → Nat → Prop) (R : String → String → Prop) (sub : Below n → Transform.Result Expr)
    (sub' : Below n' → Transform.Result Expr) : Prop :=
  ∀ m m', TreeAlike E R m.1 m'.1 → Near E (Expr.Upto R) (sub m) (sub' m')

section

variable (hsub : SubAlike E R sub sub') (m : Below n) (m' : Below n')

include hsub

theorem SubAlike.within : SubAlike E R (within sub m) (within sub' m') :=
  fun _ _ hk => hsub _ _ hk

variable (hm : TreeAlike E R m.1 m'.1)

include hm

theorem expressions_alike : Near E (List.Forall₂ (Expr.Upto R)) (expressions sub m) (expressions sub' m') :=
  many_alike hm (new_alike hm) (hsub.within m m')

theorem ordering_alike :
    Near E (OrderByExpr.Rel (Expr.Upto R)) (OrderByExpr.parse sub m) (OrderByExpr.parse sub' m') := by
  refine guard_alike hm fun _ =>
    .bind_pair (take_alike hm (new_alike hm)) fun hx hc => ?_
  refine .bind (hsub.within m m' _ _ hx.tree) fun e e' he => .bind_pair (optional_alike hc) fun hd hc => ?_
  refine .bind (optionalValue_alike hd fun _ _ => sortDirection_alike) fun direction _ hdirection =>
    .bind_pair (optional_alike hc) fun hk hc => ?_
  refine .bind (optionalValue_alike hk fun _ _ => nullOrder_alike) fun nulls _ hnulls =>
    finish_ok hm hc ?_
  rw [eq_of_optionRel hdirection, eq_of_optionRel hnulls]
  exact .mk _ _ he

theorem orderings_alike :
    Near E (List.Forall₂ (OrderByExpr.Rel (Expr.Upto R))) (orderings sub m) (orderings sub' m') :=
  many_alike hm (new_alike hm) fun k k' => ordering_alike hsub (m.inner k) (m'.inner k')

theorem window_alike :
    Near E (WindowSpec.Rel (Expr.Upto R)) (WindowSpec.parse sub m) (WindowSpec.parse sub' m') := by
  refine guard_alike hm fun _ =>
    .bind_pair (optional_alike (new_alike hm)) fun hp hc => ?_
  refine .bind (optionalValue_alike hp fun k k' => expressions_alike hsub (m.inner k) (m'.inner k')) fun ps ps' hps =>
    .bind_pair (optional_alike hc) fun ho hc => ?_
  refine .bind (optionalValue_alike ho fun k k' => orderings_alike hsub (m.inner k) (m'.inner k')) fun os os' hos =>
    .bind_pair (optional_alike hc) fun hf hc => ?_
  refine .bind (optionalValue_alike hf fun _ _ => windowFrame_alike) fun frame _ hframe =>
    finish_ok hm hc ?_
  rw [eq_of_optionRel hframe]
  exact .mk _ (getD_forall₂ hps) (getD_forall₂ hos)

theorem arguments_alike : Near E (List.Forall₂ (Expr.Upto R)) (arguments sub m) (arguments sub' m') := by
  refine .ite ?_ (fun _ => .bind (only_alike hm) fun k k' hk =>
    .bind (hsub.within m m' _ _ hk.tree) fun _ _ he => .ok (.cons he .nil)) fun _ => expressions_alike hsub m m' hm
  have hchildren := hm.children
  generalize m.1.children = l, m'.1.children = l' at hchildren ⊢
  cases hchildren with
  | nil => exact .rfl
  | cons hk _ => simp [hk.rule]

end

/-! ## Expressions -/

variable (h : TreeAlike E R n n')

include h

theorem isNullSuffix_alike : Near E (· = ·) (isNullSuffix n) (isNullSuffix n') := by
  refine .bind_pair (optional_alike (new_alike h)) fun ho hc => ?_
  refine .bind (optionalValue_alike ho fun _ _ hm => hm.leaf.token _ (by decide)) fun is _ his => ?_
  rw [eq_of_optionRel his]
  refine .bind (finish_alike h hc) fun _ _ _ => .bind (h.leaf.keywords _ ?_) fun _ _ _ => .ok rfl
  split <;> decide

theorem name_alike : Near E (Expr.Upto R) (name (n := n)) (name (n := n')) := by
  refine .bind_pair (take_alike h (new_alike h)) fun hm hc => ?_
  refine .bind_eq (identifier_alike hm.tree) fun first => ?_
  refine .bind_pair (optional_alike hc) fun ho hc => ?_
  cases ho with
  | none => exact finish_ok h hc (.identifier first)
  | some ho =>
    refine .bind_eq (identifier_alike ho.tree) fun second => ?_
    exact finish_ok h hc (.qualifiedIdentifier first second)

theorem literalExpr_alike :
    Near E (Expr.Upto R) (do let l ← Literal.parse n; pure (Expr.literal l))
      (do let l ← Literal.parse n'; pure (Expr.literal l)) := by
  refine .bind (literal_alike h) fun l l' hl => .ok ?_
  cases hl with
  | number hs => exact .number hs
  | same => exact .literal l

variable (hsub : SubAlike E R sub sub')

include hsub

theorem chainFrom_alike {operator operand : String} :
    ∀ {left left' : Expr} {ms : List (Below n)} {ms' : List (Below n')}, Expr.Upto R left left' →
    List.Forall₂ (fun m m' => TreeAlike E R m.1 m'.1) ms ms' →
    Near E (Expr.Upto R) (chainFrom sub operator operand left ms) (chainFrom sub' operator operand left' ms') := by
  intro left left' ms ms' hleft hms
  -- An operator and its right operand are taken together.
  induction ms using List.twoStepInduction generalizing left left' ms' with
  | nil =>
    cases hms
    exact .ok hleft
  | singleton =>
    cases hms with
    | cons hop hrest =>
      cases hrest
      unfold chainFrom
      exact .ite (not_congr (hop.rule_iff _)) (fun _ => h.error _) fun _ =>
        .bind (binaryOp_alike hop) fun _ _ _ => h.error _
  | cons_cons _ _ _ ih =>
    cases hms with
    | cons hop hrest =>
      cases hrest with
      | cons hright hrest =>
        unfold chainFrom
        refine .ite (not_congr (hop.rule_iff _)) (fun _ => h.error _) fun _ => .bind_eq (binaryOp_alike hop) fun op => ?_
        exact .ite (not_congr (hright.rule_iff _)) (fun _ => h.error _) fun _ =>
          .bind (hsub _ _ hright) fun _ _ he => ih (.binary op hleft he) hrest

theorem chain_alike (operand operator : String) :
    Near E (Expr.Upto R) (chain sub operand operator) (chain sub' operand operator) := by
  refine .bind_pair (take_alike h (new_alike h)) fun hm hc => ?_
  exact .bind (hsub _ _ hm.tree) fun _ _ he => chainFrom_alike h hsub he hc

theorem prefixed_alike (operator operand : String)
    {choices : List (String × UnaryOp)} (hchoices : ∀ choice ∈ choices, '\n' ∉ choice.1.toList) :
    Near E (Expr.Upto R) (prefixed sub operator operand choices .unary)
      (prefixed sub' operator operand choices .unary) := by
  refine .bind_pair (optional_alike (new_alike h)) fun ho hc => ?_
  cases ho with
  | none =>
    refine .bind_pair (take_alike h hc) fun hm hc => ?_
    exact .bind (hsub _ _ hm.tree) fun _ _ he => finish_ok h hc he
  | some ho =>
    refine .bind_eq (ho.tree.leaf.token choices hchoices) fun op => ?_
    rw [h.rule]
    refine .bind_pair (take_alike h hc) fun hm hc => ?_
    exact .bind (hsub _ _ hm.tree) fun _ _ he => finish_ok h hc (.unary op he)

theorem comparison_alike : Near E (Expr.Upto R) (comparison sub) (comparison sub') := by
  refine .bind_pair (take_alike h (new_alike h)) fun hm hc => ?_
  refine .bind (hsub _ _ hm.tree) fun e e' he => .bind_pair (optional_alike hc) fun ho hc => ?_
  cases ho with
  | some ho =>
    refine .bind_eq (isNullSuffix_alike ho.tree) fun negated => ?_
    exact finish_ok h hc (.isNull negated he)
  | none =>
    refine .bind_pair (optional_alike hc) fun ho hc => ?_
    cases ho with
    | none => exact finish_ok h hc he
    | some ho =>
      refine .bind_eq (binaryOp_alike ho.tree) fun op => ?_
      refine .bind_pair (take_alike h hc) fun hk hc => ?_
      exact .bind (hsub _ _ hk.tree) fun _ _ hd => finish_ok h hc (.binary op he hd)

theorem projectionItem_alike : Near E (Expr.Upto R) (projectionItem sub) (projectionItem sub') := by
  refine .bind_pair (take_alike h (new_alike h)) fun hm hc => ?_
  refine .bind (hsub _ _ hm.tree) fun e e' he => .bind_pair (optional_alike hc) fun ho hc => ?_
  cases ho with
  | none => exact finish_ok h hc he
  | some ho =>
    refine .bind_eq (identifier_alike ho.tree) fun name => ?_
    exact finish_ok h hc (.alias name he)

theorem functionCall_alike : Near E (Expr.Upto R) (functionCall sub) (functionCall sub') := by
  refine .bind_pair (take_alike h (new_alike h)) fun hm hc => ?_
  refine .bind_eq (identifier_alike hm.tree) fun name => ?_
  refine .bind_pair (optional_alike hc) fun hd hc => ?_
  refine .bind (optionalValue_alike hd fun _ _ hm => hm.leaf.token _ (by decide)) fun distinct _ hdistinct => ?_
  rw [eq_of_optionRel hdistinct]
  refine .bind_pair (optional_alike hc) fun ha hc => ?_
  refine .bind (optionalValue_alike ha (arguments_alike hsub)) fun args args' hargs =>
    .bind_pair (optional_alike hc) fun hf hc => ?_
  refine .bind (optionalValue_alike hf fun k k' hk => .bind (only_alike hk) fun x x' hx =>
    hsub.within k k' _ _ hx.tree) fun filter filter' hfilter => .bind_pair (optional_alike hc) fun ho hc => ?_
  exact .bind (optionalValue_alike ho fun k k' hk => .bind (only_alike hk) fun w w' hw =>
    window_alike hsub (k.inner w) (k'.inner w') hw.tree) fun over_ over' hover => .bind (finish_alike h hc) fun _ _ _ =>
    .ok (.functionCall name distinct.isSome (getD_forall₂ hargs) hfilter hover)

theorem primary_alike : Near E (Expr.Upto R) (primary sub) (primary sub') := by
  unfold primary
  have hrest := new_alike h
  unfold ChildrenAlike at hrest
  generalize (Children.new n).rest = l, (Children.new n').rest = l' at hrest ⊢
  rcases hrest with _ | ⟨hm, _ | ⟨_, _⟩⟩
  · exact h.error _
  · exact .ite (by rw [hm.rule]) (fun _ => hsub _ _ hm) fun _ => hm.error _
  · exact h.error _

theorem wrapper_alike (rule : String) : Near E (Expr.Upto R) (wrapper sub rule) (wrapper sub' rule) := by
  refine .bind_pair (take_alike h (new_alike h)) fun hm hc => ?_
  exact .bind (hsub _ _ hm.tree) fun _ _ he => finish_ok h hc he

theorem exprBody_alike : Near E (Expr.Upto R) (exprBody sub) (exprBody sub') := by
  unfold exprBody
  simp only [h.rule]
  split
  · exact wrapper_alike h hsub _
  · exact primary_alike h hsub
  · exact chain_alike h hsub _ _
  · exact chain_alike h hsub _ _
  · exact chain_alike h hsub _ _
  · exact chain_alike h hsub _ _
  · exact prefixed_alike h hsub _ _ (by decide)
  · exact prefixed_alike h hsub _ _ (by decide)
  · exact comparison_alike h hsub
  · exact projectionItem_alike h hsub
  · exact functionCall_alike h hsub
  · exact name_alike h
  · refine (h.leaf.token _ (by decide)).mono ?_
    rintro e _ he rfl
    rw [token_single he]
    exact .wildcard
  · exact literalExpr_alike h
  · exact literalExpr_alike h
  · exact literalExpr_alike h
  · exact literalExpr_alike h
  · exact literalExpr_alike h
  · exact h.error _

end

/-- **The transform of expressions is a congruence.** -/
theorem expr_alike {n n' : Node} (h : TreeAlike E R n n') :
    Near E (Expr.Upto R) (Expr.parse n) (Expr.parse n') := by
  rw [Expr.parse, Expr.parse]
  exact exprBody_alike h fun m m' hm => expr_alike hm
termination_by sizeOf n
decreasing_by exact m.2

/-! ## Statements -/

variable (h : TreeAlike E R n n')

include h

theorem dataType_alike : Near E (· = ·) (DataType.parse n) (DataType.parse n') := by
  refine guard_alike h fun _ => child_alike h fun hm => ?_
  simp only [hm.rule]
  split
  · exact hm.leaf.token _ (by decide)
  · exact hm.leaf.token _ (by decide)
  · exact hm.leaf.token _ (by decide)
  · exact hm.leaf.token _ (by decide)
  · exact hm.leaf.token _ (by decide)
  · exact hm.leaf.token _ (by decide)
  · refine .bind_pair (optional_alike (new_alike hm)) fun ho hc => ?_
    cases ho with
    | none => exact .bind (finish_alike hm hc) fun _ _ _ => hm.leaf.token _ (by decide)
    | some ho =>
      refine .bind (leaf_alike ho.tree) ?_
      rintro s s' ⟨rfl, rfl⟩
      have hdigits := ho.tree.leaf.digits (.inr ho.rule_eq)
      refine .ite hdigits.1 (fun _ => ho.tree.error _) fun hs => finish_ok hm hc ?_
      rw [hdigits.2 hs]
  · exact hm.error _

theorem constraintWords_alike (value : ColumnConstraint) {words : List String}
    (hwords : ∀ word ∈ words, '\n' ∉ word.toList) :
    Near E (· = ·) (constraintWords n value words) (constraintWords n' value words) :=
  .bind (leaf_alike h) fun _ _ _ => .bind (h.leaf.keywords words hwords) fun _ _ _ => .ok rfl

theorem constraint_alike : Near E (· = ·) (ColumnConstraint.parse n) (ColumnConstraint.parse n') := by
  refine guard_alike h fun _ => child_alike h fun hm => ?_
  simp only [hm.rule]
  split
  · exact constraintWords_alike hm _ (by decide)
  · exact constraintWords_alike hm _ (by decide)
  · exact constraintWords_alike hm _ (by decide)
  · exact hm.error _

theorem columnDef_alike : Near E (· = ·) (ColumnDef.parse n) (ColumnDef.parse n') := by
  refine guard_alike h fun _ => .bind_pair (take_alike h (new_alike h)) fun hm hc => ?_
  refine .bind_eq (identifier_alike hm.tree) fun name => ?_
  refine .bind_pair (take_alike h hc) fun ht hc => ?_
  refine .bind_eq (dataType_alike ht.tree) fun type => ?_
  refine .bind (takeAll_alike h (fun _ _ => constraint_alike) hc) fun ks ks' hks => .ok ?_
  rw [List.forall₂_eq_eq_eq] at hks
  rw [hks]

theorem assignment_alike : Near E (Assignment.Upto R) (Assignment.parse n) (Assignment.parse n') := by
  refine guard_alike h fun _ => .bind_pair (take_alike h (new_alike h)) fun hm hc => ?_
  refine .bind_eq (identifier_alike hm.tree) fun column => ?_
  refine .bind_pair (take_alike h hc) fun hx hc => ?_
  exact .bind (expr_alike hx.tree) fun _ _ he => .bind (finish_alike h hc) fun _ _ _ => .ok ⟨rfl, he⟩

omit h in
theorem sub_alike : SubAlike E R (fun m : Below n => Expr.parse m.1) fun m : Below n' => Expr.parse m.1 :=
  fun _ _ => expr_alike

omit h in
theorem exprs_alike (m : Below n) (m' : Below n') (hm : TreeAlike E R m.1 m'.1) :
    Near E (List.Forall₂ (Expr.Upto R)) (exprs m) (exprs m') :=
  expressions_alike sub_alike m m' hm

theorem onlyExpr_alike : Near E (Expr.Upto R) (onlyExpr n) (onlyExpr n') :=
  .bind (only_alike h) fun _ _ hm => expr_alike hm.tree

omit h in
theorem filter_alike {c : Children n} {c' : Children n'} (hc : ChildrenAlike E R c c') :
    Near E (fun p p' => Option.Rel (Expr.Upto R) p.1 p'.1 ∧ ChildrenAlike E R p.2 p'.2) (filter c) (filter c') := by
  refine .bind_pair (optional_alike hc) fun hw hc => ?_
  exact .bind (optionalValue_alike hw fun _ _ => onlyExpr_alike) fun _ _ he => .ok ⟨he, hc⟩

theorem projection_alike : Near E (List.Forall₂ (Expr.Upto R)) (projection n) (projection n') :=
  .mapM (h.children.imp fun _ _ => expr_alike)

theorem selectStatement_alike : Near E (Statement.Upto R) (selectStatement n) (selectStatement n') := by
  refine .bind_pair (take_alike h (new_alike h)) fun hp hc => ?_
  refine .bind (projection_alike hp.tree) fun items items' hitems => .bind_pair (optional_alike hc) fun hf hc => ?_
  refine .bind (optionalValue_alike hf fun _ _ hm => .bind (only_alike hm) fun _ _ hk =>
    identifier_alike hk.tree) fun source _ hsource => ?_
  rw [eq_of_optionRel hsource]
  refine .bind_pair (filter_alike hc) fun hw hc => ?_
  refine .bind_pair (optional_alike hc) fun hg hc => ?_
  refine .bind (optionalValue_alike hg exprs_alike) fun group group' hgroup =>
    .bind_pair (optional_alike hc) fun hv hc => ?_
  refine .bind (optionalValue_alike hv fun _ _ => onlyExpr_alike) fun having having' hhaving =>
    .bind_pair (optional_alike hc) fun ho hc => ?_
  exact .bind (optionalValue_alike ho (orderings_alike sub_alike)) fun order order' horder =>
    .bind (finish_alike h hc) fun _ _ _ =>
    .ok (.select source hitems hw (getD_forall₂ hgroup) hhaving (getD_forall₂ horder))

theorem createTableStatement_alike :
    Near E (Statement.Upto R) (createTableStatement n) (createTableStatement n') := by
  refine .bind_pair (take_alike h (new_alike h)) fun hm hc => ?_
  refine .bind_eq (identifier_alike hm.tree) fun name => ?_
  refine .bind (many_alike h hc fun _ _ => columnDef_alike) fun columns columns' hcolumns => .ok ?_
  rw [List.forall₂_eq_eq_eq] at hcolumns
  rw [hcolumns]
  exact .createTable name columns'

theorem insertStatement_alike : Near E (Statement.Upto R) (insertStatement n) (insertStatement n') := by
  refine .bind_pair (take_alike h (new_alike h)) fun hm hc => ?_
  refine .bind_eq (identifier_alike hm.tree) fun table => ?_
  refine .bind_pair (optional_alike hc) fun hk hc => ?_
  refine .bind (optionalValue_alike hk fun _ _ hm => many_alike hm (new_alike hm) fun _ _ => identifier_alike)
    fun columns columns' hcolumns => ?_
  have heq : columns'.getD [] = columns.getD [] := by
    have := getD_forall₂ hcolumns
    rw [List.forall₂_eq_eq_eq] at this
    exact this.symm
  rw [heq]
  exact .bind (many_alike h hc exprs_alike) fun rows rows' hrows => .ok (.insert table _ hrows)

theorem updateStatement_alike : Near E (Statement.Upto R) (updateStatement n) (updateStatement n') := by
  refine .bind_pair (take_alike h (new_alike h)) fun hm hc => ?_
  refine .bind_eq (identifier_alike hm.tree) fun table => ?_
  refine .bind_pair (take_alike h hc) fun ha hc => ?_
  refine .bind (assignment_alike ha.tree) fun first first' hfirst =>
    .bind (takeWhile_alike (fun _ _ => assignment_alike) hc) ?_
  rintro ⟨as, c⟩ ⟨as', c'⟩ ⟨has, hc⟩
  refine .bind_pair (filter_alike hc) fun hw hc => ?_
  exact finish_ok h hc (.update table (.cons hfirst has) hw)

theorem deleteStatement_alike : Near E (Statement.Upto R) (deleteStatement n) (deleteStatement n') := by
  refine .bind_pair (take_alike h (new_alike h)) fun hm hc => ?_
  refine .bind_eq (identifier_alike hm.tree) fun table => ?_
  refine .bind_pair (filter_alike hc) fun hw hc => ?_
  exact finish_ok h hc (.delete table hw)

/-- A statement that is one word. -/
theorem wordStatement_alike {word : String} {s : Statement} (hs : Statement.Upto R s s)
    (hword : ∀ choice ∈ [(word, s)], '\n' ∉ choice.1.toList) :
    Near E (Statement.Upto R) (token n [(word, s)]) (token n' [(word, s)]) := by
  refine (h.leaf.token _ hword).mono ?_
  rintro u _ hu rfl
  rwa [token_single hu]

theorem concreteStatement_alike : Near E (Statement.Upto R) (concreteStatement n) (concreteStatement n') := by
  unfold concreteStatement
  simp only [h.rule]
  split
  · exact selectStatement_alike h
  · exact createTableStatement_alike h
  · exact insertStatement_alike h
  · exact updateStatement_alike h
  · exact deleteStatement_alike h
  · exact wordStatement_alike h .begin (by simp)
  · exact wordStatement_alike h .commit (by simp)
  · exact wordStatement_alike h .rollback (by simp)
  · exact h.error _

theorem statement_alike : Near E (Statement.Upto R) (Statement.parse n) (Statement.parse n') :=
  .ite (h.rule_iff _) (fun _ => child_alike h concreteStatement_alike) fun _ => concreteStatement_alike h

/-- **The transform of a root is a congruence.** -/
theorem statements_alike : Near E (List.Forall₂ (Statement.Upto R)) (statements n) (statements n') :=
  guard_alike h fun _ => .mapM (h.children.imp fun _ _ hm =>
    guard_alike hm fun _ => statement_alike hm)

end ChiliDB.Sql

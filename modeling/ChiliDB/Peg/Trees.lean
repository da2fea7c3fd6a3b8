import ChiliDB.Peg.Reading

/-!
# Parse trees

Every node of a parse tree is the match of its rule (`Parsed`), and the rules of its children follow from the
expression of the rule (`Shape`).

* `Eval.nodes` — what holds of all nodes that a match makes.
* `Matches.parsed` — a match makes only such nodes; `Parsed.child` — all the way down.
* `Matches.shape` — the nodes that a match of an expression makes.
* `Node.Has` — the nodes of a tree.
-/

namespace ChiliDB.Peg

open List

/-- The second node is in the tree of the first. -/
inductive Node.Has : Node → Node → Prop where
  | self (n : Node) : n.Has n
  | child {n m k : Node} : m ∈ n.children → m.Has k → n.Has k

/-- The node is a match of its rule. -/
structure Parsed (rules : List Rule) (names : Names) (n : Node) : Prop where
  ex : ∃ e c c', ⟨n.rule, e⟩ ∈ rules ∧ Matches rules names (.expr e) c (some (c', n.children)) ∧
    n.text = c.text c'

variable {rules : List Rule} {names : Names} {null : List Bool} {d : Nat} {task : Task} {c c' : Cursor}
  {t : List Event} {r : Outcome} {e : Expr} {es : List Expr} {ns : List Node}

/-- What holds of a node where its rule has matched, and from every position before it, holds of all nodes that
a match makes. -/
theorem Eval.nodes {P : Cursor → Node → Prop} (hback : ∀ {c c' : Cursor} {n : Node}, c.Reaches c' → P c' n → P c n)
    (hrule : ∀ {rule : Rule} {c c' : Cursor} {ns : List Node}, rule ∈ rules →
      Matches rules names (.expr rule.expr) c (some (c', ns)) → (∀ n ∈ ns, P c n) →
      P c ⟨rule.name, c.text c', c.pos, c'.pos, ns⟩)
    (h : Eval rules names d task c t r) {m : Cursor × List Node} (hm : r = some m) : ∀ n ∈ m.2, P c n := by
  refine (h.compose (R := fun c c' ns => c.Reaches c' ∧ ∀ n ∈ ns, P c n) ?_ ?_ ?_ hm).2
  · intro c c' hreaches
    exact ⟨hreaches, by simp⟩
  · rintro c1 c2 c3 ns ns' ⟨hreaches, hns⟩ ⟨hreaches', hns'⟩
    exact ⟨hreaches.trans hreaches', forall_mem_append.2 ⟨hns, fun n hn => hback hreaches (hns' n hn)⟩⟩
  · rintro d i rule c t m hi heval ⟨hreaches, hns⟩
    refine ⟨hreaches, ?_⟩
    unfold Rule.close
    split
    · simp
    · exact forall_mem_singleton.2 (hrule (mem_of_getElem? hi) (.of_eval heval) hns)

/-- **A match makes parsed nodes.** -/
theorem Matches.parsed (h : Matches rules names task c (some (c', ns))) : ∀ n ∈ ns, Parsed rules names n := by
  obtain ⟨t, heval⟩ := h 0
  exact heval.nodes (P := fun _ => Parsed rules names) (fun _ hn => hn)
    (fun hmem hmatch _ => ⟨_, _, _, hmem, hmatch, rfl⟩) rfl

/-- The texts of the tree are made of these characters. -/
def Node.Within (n : Node) (cs : List Char) : Prop := ∀ k, n.Has k → k.text.toList ⊆ cs

/-- The texts of the nodes come from the input. -/
theorem Matches.within (h : Matches rules names task c (some (c', ns))) : ∀ n ∈ ns, n.Within c.rest := by
  obtain ⟨t, heval⟩ := h 0
  refine heval.nodes (P := fun c n => n.Within c.rest) ?_ ?_ rfl
  · rintro c c' n ⟨cs, hrest, _⟩ hn k hk a ha
    rw [hrest]
    exact mem_append_right cs (hn k hk ha)
  · intro rule c c' ns _ _ hns k hk
    cases hk with
    | self =>
      unfold Cursor.text
      rw [String.toList_ofList]
      exact take_subset _ _
    | child hm hk => exact hns _ hm k hk

/-- The children of a parsed node are parsed. -/
theorem Parsed.child {n m : Node} (h : Parsed rules names n) (hm : m ∈ n.children) : Parsed rules names m := by
  obtain ⟨e, c, c', _, hmatch, _⟩ := h
  exact hmatch.parsed m hm

/-- The rules of a validated grammar have different names. -/
theorem Validated.rule_unique (h : Validated rules names null) {rule rule' : Rule} (hr : rule ∈ rules)
    (hr' : rule' ∈ rules) (hname : rule.name = rule'.name) : rule = rule' := by
  obtain ⟨i, hi⟩ := mem_iff_getElem?.1 hr
  obtain ⟨j, hj⟩ := mem_iff_getElem?.1 hr'
  have hij := (h.named rule.name i).2 ⟨rule, hi, rfl⟩
  rw [(h.named rule.name j).2 ⟨rule', hj, hname.symm⟩] at hij
  cases hij
  rw [hi] at hj
  cases hj
  rfl

/-- The match behind a parsed node of a given rule. -/
theorem Parsed.of_rule (hv : Validated rules names null) {n : Node} {i : Nat} {name : String}
    (hi : rules[i]? = some ⟨name, e⟩) (h : Parsed rules names n) (hn : n.rule = name) :
    ∃ c c', Matches rules names (.expr e) c (some (c', n.children)) ∧ n.text = c.text c' := by
  obtain ⟨e', c, c', hmem, hmatch, htext⟩ := h
  have hrule := hv.rule_unique hmem (mem_of_getElem? hi) hn
  cases hrule
  exact ⟨c, c', hmatch, htext⟩

/-! ## Shapes -/

def silentName (n : String) : Bool := n.toList.head? = some '_'

/-- One node of this rule. -/
def One (n : String) (ns : List Node) : Prop := ∃ node, ns = [node] ∧ node.rule = n

mutual

/-- The nodes that a match of the expression may make, by their rules. -/
def Shape : Expr → List Node → Prop
  | .ref n, ns => if silentName n then ns = [] else One n ns
  | .lit _ _, ns => ns = []
  | .class_ _ _, ns => ns = []
  | .any, ns => ns = []
  | .seq es, ns => ShapeAll es ns
  | .choice es, ns => ShapeAny es ns
  | .optional e, ns => ns = [] ∨ Shape e ns
  | .repeat_ e _, ns => ∃ blocks : List (List Node), ns = blocks.flatten ∧ ∀ b ∈ blocks, Shape e b
  | .predicate _ _, ns => ns = []

def ShapeAll : List Expr → List Node → Prop
  | [], ns => ns = []
  | e :: es, ns => ∃ ns₁ ns₂, ns = ns₁ ++ ns₂ ∧ Shape e ns₁ ∧ ShapeAll es ns₂

def ShapeAny : List Expr → List Node → Prop
  | [], _ => False
  | e :: es, ns => Shape e ns ∨ ShapeAny es ns

end

/-- The shape of the nodes of a call. -/
def TaskShape (rules : List Rule) : Task → List Node → Prop
  | .expr e, ns => Shape e ns
  | .rule i, ns => ∃ rule, rules[i]? = some rule ∧ if rule.silent then ns = [] else One rule.name ns
  | .all es, ns => ShapeAll es ns
  | .any es, ns => ShapeAny es ns
  | .more e, ns => ∃ blocks : List (List Node), ns = blocks.flatten ∧ ∀ b ∈ blocks, Shape e b

theorem Eval.shape (hv : Validated rules names null) (h : Eval rules names d task c t r) :
    ∀ {m : Cursor × List Node}, r = some m → TaskShape rules task m.2 := by
  induction h with
  | @terminal _ e c m he =>
    intro m hm
    obtain ⟨c', _, rfl⟩ := Option.map_eq_some_iff.1 hm
    cases e with
    | lit | class_ | any => exact rfl
    | _ => cases he
  | @ref _ n i _ _ _ hn _ ih =>
    intro m hm
    obtain ⟨rule, hi, hshape⟩ := ih hm
    obtain ⟨rule', hi', rfl⟩ := (hv.named n i).1 hn
    rw [hi] at hi'
    cases hi'
    exact hshape
  | seq _ ih | choice _ ih => exact ih
  | @optional _ _ c _ r _ ih =>
    intro m hm
    cases r with
    | none =>
      cases hm
      exact .inl rfl
    | some m' =>
      cases hm
      exact .inr (ih rfl)
  | @repeatNone _ _ one c _ _ ih =>
    intro m hm
    cases one with
    | true => cases hm
    | false =>
      cases hm
      exact ⟨[], rfl, by simp⟩
  | repeatSome _ _ ih ih' | moreAgain _ _ ih ih' =>
    intro m hm
    obtain ⟨m', rfl, rfl⟩ := Option.map_eq_some_iff.1 hm
    obtain ⟨blocks, hns, hblocks⟩ := ih' rfl
    refine ⟨_ :: blocks, ?_, forall_mem_cons.2 ⟨ih rfl, hblocks⟩⟩
    rw [flatten_cons, ← hns]
    rfl
  | predicate _ ih =>
    intro m hm
    split at hm
    · cases hm
      exact rfl
    · cases hm
  | @rule _ _ rule c _ r hi heval ih =>
    intro m hm
    obtain ⟨m', rfl, rfl⟩ := Option.map_eq_some_iff.1 hm
    refine ⟨rule, hi, ?_⟩
    unfold Rule.close
    split
    · rfl
    · exact ⟨_, rfl, rfl⟩
  | allNil =>
    intro m hm
    cases hm
    exact rfl
  | allFail _ _ | anyNil =>
    intro m hm
    cases hm
  | allCons _ _ ih ih' =>
    intro m hm
    obtain ⟨m', rfl, rfl⟩ := Option.map_eq_some_iff.1 hm
    exact ⟨_, _, rfl, ih rfl, ih' rfl⟩
  | anyFirst _ ih => exact fun hm => .inl (ih hm)
  | anyNext _ _ _ ih' => exact fun hm => .inr (ih' hm)
  | moreDone _ _ =>
    intro m hm
    cases hm
    exact ⟨[], rfl, by simp⟩

/-- **The nodes of a match have the shape of its expression.** -/
theorem Matches.shape (hv : Validated rules names null)
    (h : Matches rules names (.expr e) c (some (c', ns))) : Shape e ns := by
  obtain ⟨t, heval⟩ := h 0
  exact heval.shape hv rfl

theorem Parsed.shape (hv : Validated rules names null) {n : Node} {i : Nat} {name : String}
    (hi : rules[i]? = some ⟨name, e⟩) (h : Parsed rules names n) (hn : n.rule = name) :
    Shape e n.children := by
  obtain ⟨c, c', hmatch, _⟩ := h.of_rule hv hi hn
  exact hmatch.shape hv

/-! ## Sequences of children -/

section

variable {n : String}

theorem shape_silent (h : silentName n = true) : Shape (.ref n) ns ↔ ns = [] := by rw [Shape, if_pos h]

theorem shape_loud (h : silentName n = false) : Shape (.ref n) ns ↔ One n ns := by rw [Shape, if_neg (by simp [h])]

theorem shapeAll_silent (h : silentName n = true) : ShapeAll (.ref n :: es) ns ↔ ShapeAll es ns := by
  simp [ShapeAll, shape_silent h]

theorem shapeAll_lit {text : String} {insensitive : Bool} :
    ShapeAll (.lit text insensitive :: es) ns ↔ ShapeAll es ns := by
  simp [ShapeAll, Shape]

theorem shapeAll_predicate {positive : Bool} : ShapeAll (.predicate e positive :: es) ns ↔ ShapeAll es ns := by
  simp [ShapeAll, Shape]

theorem shapeAll_loud (h : silentName n = false) :
    ShapeAll (.ref n :: es) ns ↔ ∃ m l, ns = m :: l ∧ m.rule = n ∧ ShapeAll es l := by
  rw [ShapeAll]
  constructor
  · rintro ⟨ns1, l, rfl, hm, hl⟩
    obtain ⟨m, rfl, hrule⟩ := (shape_loud h).1 hm
    exact ⟨m, l, rfl, hrule, hl⟩
  · rintro ⟨m, l, rfl, hm, hl⟩
    exact ⟨[m], l, rfl, (shape_loud h).2 ⟨m, rfl, hm⟩, hl⟩

theorem shapeAll_optional (h : silentName n = false) : ShapeAll (.optional (.ref n) :: es) ns ↔
    ∃ (o : Option Node) (l : List Node), ns = o.toList ++ l ∧ (∀ m ∈ o, m.rule = n) ∧ ShapeAll es l := by
  rw [ShapeAll]
  constructor
  · rintro ⟨ns1, l, rfl, hm, hl⟩
    rw [Shape, shape_loud h] at hm
    rcases hm with rfl | ⟨m, rfl, hm⟩
    · exact ⟨none, l, rfl, by simp, hl⟩
    · exact ⟨some m, l, rfl, by simpa using hm, hl⟩
  · rintro ⟨o, l, rfl, ho, hl⟩
    refine ⟨o.toList, l, rfl, ?_, hl⟩
    rw [Shape, shape_loud h]
    cases o with
    | none => exact .inl rfl
    | some m => exact .inr ⟨m, rfl, ho m rfl⟩

theorem shapeAll_nil : ShapeAll [] ns ↔ ns = [] := by rw [ShapeAll]

theorem shape_seq : Shape (.seq es) ns ↔ ShapeAll es ns := by rw [Shape]

theorem shape_choice : Shape (.choice es) ns ↔ ShapeAny es ns := by rw [Shape]

theorem shapeAny_cons : ShapeAny (e :: es) ns ↔ Shape e ns ∨ ShapeAny es ns := by rw [ShapeAny]

theorem shapeAny_nil : ShapeAny [] ns ↔ False := by rw [ShapeAny]

/-- An operand, and as many operators with another operand as there are. -/
theorem shape_chain {operand operator : String} (h1 : silentName operand = false)
    (h2 : silentName operator = false)
    (h : Shape (.seq [.ref operand, .repeat_ (.seq [.ref operator, .ref operand]) false]) ns) :
    ∃ (l : Node) (ps : List (Node × Node)), ns = l :: ps.flatMap (fun p => [p.1, p.2]) ∧ l.rule = operand ∧
      ∀ p ∈ ps, p.1.rule = operator ∧ p.2.rule = operand := by
  rw [shape_seq, shapeAll_loud h1] at h
  obtain ⟨l, rest, rfl, hl, hrest⟩ := h
  obtain ⟨ns1, ns2, rfl, hrepeat, hnil⟩ := hrest
  obtain rfl := shapeAll_nil.1 hnil
  rw [Shape] at hrepeat
  obtain ⟨blocks, rfl, hblocks⟩ := hrepeat
  suffices hps : ∃ ps : List (Node × Node), blocks.flatten = ps.flatMap (fun p => [p.1, p.2]) ∧
      ∀ p ∈ ps, p.1.rule = operator ∧ p.2.rule = operand by
    obtain ⟨ps, hflat, hps⟩ := hps
    exact ⟨l, ps, by rw [hflat, append_nil], hl, hps⟩
  induction blocks with
  | nil => exact ⟨[], rfl, by simp⟩
  | cons b blocks ih =>
    obtain ⟨ps, hflat, hps⟩ := ih fun b' hb' => hblocks b' (mem_cons_of_mem _ hb')
    have hb := hblocks b mem_cons_self
    rw [shape_seq, shapeAll_loud h2] at hb
    obtain ⟨o, rest, rfl, ho, hb⟩ := hb
    rw [shapeAll_loud h1] at hb
    obtain ⟨r, rest, rfl, hr, hb⟩ := hb
    obtain rfl := shapeAll_nil.1 hb
    exact ⟨(o, r) :: ps, by simp [hflat], by simpa [ho, hr] using hps⟩

end

/-! ## Rules of children -/

mutual

/-- The rules that the children made by an expression may have. -/
def childRules : Expr → List String
  | .ref n => if silentName n then [] else [n]
  | .lit _ _ => []
  | .class_ _ _ => []
  | .any => []
  | .seq es => childRulesAll es
  | .choice es => childRulesAll es
  | .optional e => childRules e
  | .repeat_ e _ => childRules e
  | .predicate _ _ => []

def childRulesAll : List Expr → List String
  | [] => []
  | e :: es => childRules e ++ childRulesAll es

end

mutual

theorem Shape.rules : ∀ {e : Expr} {ns : List Node}, Shape e ns → ∀ m ∈ ns, m.rule ∈ childRules e
  | .ref n, ns, h, m, hm => by
    cases hn : silentName n with
    | true =>
      rw [(shape_silent hn).1 h] at hm
      cases hm
    | false =>
      obtain ⟨node, rfl, hnode⟩ := (shape_loud hn).1 h
      obtain rfl := mem_singleton.1 hm
      simp [childRules, hn, hnode]
  | .lit _ _, ns, h, m, hm => by
    rw [show ns = [] by simpa [Shape] using h] at hm
    cases hm
  | .class_ _ _, ns, h, m, hm => by
    rw [show ns = [] by simpa [Shape] using h] at hm
    cases hm
  | .any, ns, h, m, hm => by
    rw [show ns = [] by simpa [Shape] using h] at hm
    cases hm
  | .seq es, ns, h, m, hm => ShapeAll.rules (shape_seq.1 h) m hm
  | .choice es, ns, h, m, hm => ShapeAny.rules (shape_choice.1 h) m hm
  | .optional e, ns, h, m, hm => by
    rw [Shape] at h
    rcases h with rfl | h
    · cases hm
    · exact Shape.rules h m hm
  | .repeat_ e _, ns, h, m, hm => by
    rw [Shape] at h
    obtain ⟨blocks, rfl, hblocks⟩ := h
    obtain ⟨b, hb, hm⟩ := mem_flatten.1 hm
    exact Shape.rules (hblocks b hb) m hm
  | .predicate _ _, ns, h, m, hm => by
    rw [show ns = [] by simpa [Shape] using h] at hm
    cases hm

theorem ShapeAll.rules : ∀ {es : List Expr} {ns : List Node}, ShapeAll es ns →
    ∀ m ∈ ns, m.rule ∈ childRulesAll es
  | [], ns, h, m, hm => by
    rw [shapeAll_nil.1 h] at hm
    cases hm
  | e :: es, ns, h, m, hm => by
    rw [ShapeAll] at h
    obtain ⟨ns1, ns2, rfl, h1, h2⟩ := h
    rw [childRulesAll]
    rcases mem_append.1 hm with hm | hm
    · exact mem_append_left _ (Shape.rules h1 m hm)
    · exact mem_append_right _ (ShapeAll.rules h2 m hm)

theorem ShapeAny.rules : ∀ {es : List Expr} {ns : List Node}, ShapeAny es ns →
    ∀ m ∈ ns, m.rule ∈ childRulesAll es
  | [], ns, h, m, hm => (shapeAny_nil.1 h).elim
  | e :: es, ns, h, m, hm => by
    rw [childRulesAll]
    rcases shapeAny_cons.1 h with h | h
    · exact mem_append_left _ (Shape.rules h m hm)
    · exact mem_append_right _ (ShapeAny.rules h m hm)

end

end ChiliDB.Peg

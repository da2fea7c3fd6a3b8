import ChiliDB.Peg.Trees

/-!
# Spans of parse trees

Where the nodes of a parse tree stand in the input, and which rules have none.

* `Node.At`, `Laid` — a node between two cursors, and nodes one behind the other.
* `Node.new` — `Node::new`, with the addresses of the texts that it compares.
* `loud`, `Node.prune` — the grammar in which no rule is silent, and its trees without the nodes of silent
  rules and all that is below them.

Principal result: `parse_trees_wellFormed`.
-/

namespace ChiliDB.Peg

open List

/-! ## Building nodes -/

/-- `input.get(start..stop)`. -/
def slice (input : List Char) (start stop : Nat) : Option (List Char) :=
  if start ≤ stop then (splitBytes start input).bind fun p => (splitBytes (stop - start) p.2).map Prod.fst
  else none

/-- Where the text of a node is, in an input at address `base`: the parser borrows it from there. -/
def Node.pointer (base : Nat) (n : Node) : Nat := base + n.start

/-- The loop over the children. -/
def Node.checkChildren (base : Nat) (pointer : Node → Nat) (input : List Char) (stop : Nat) :
    Nat → List Node → Except ParseError Unit
  | _, [] => .ok ()
  | previousEnd, child :: children =>
    if child.start < previousEnd ∨ child.stop > stop then
      .error ⟨child.start, ["contained, ordered child spans"]⟩
    else
      match slice input child.start child.stop with
      | none => .error ⟨child.start, ["valid UTF-8 child span"]⟩
      | some text =>
        if pointer child ≠ base + child.start ∨ bytes child.text.toList ≠ bytes text then
          .error ⟨child.start, ["child text borrowed from the same input span"]⟩
        else
          checkChildren base pointer input stop child.stop children

/-- `Node::new`; `pointer` is the address of a node's text. -/
def Node.new (base : Nat) (pointer : Node → Nat) (rule : String) (input : List Char) (start stop : Nat)
    (children : List Node) : Except ParseError Node :=
  match slice input start stop with
  | none => .error ⟨start, ["valid UTF-8 node span"]⟩
  | some text =>
    match Node.checkChildren base pointer input stop start children with
    | .error e => .error e
    | .ok _ => .ok ⟨rule, String.ofList text, start, stop, children⟩

/-! ## Positions -/

/-- The node of the characters between two cursors. -/
structure Node.At (a b : Cursor) (n : Node) : Prop where
  reaches : a.Reaches b
  start : n.start = a.pos
  stop : n.stop = b.pos
  text : n.text = a.text b

/-- Nodes between two cursors, one behind the other. -/
inductive Laid : Cursor → Cursor → List Node → Prop where
  | nil {c c' : Cursor} : c.Reaches c' → Laid c c' []
  | cons {c a b c' : Cursor} {n : Node} {ns : List Node} :
      c.Reaches a → n.At a b → Laid b c' ns → Laid c c' (n :: ns)

/-- The same by positions: in order, without overlap, and up to `stop`. -/
def Ordered (stop : Nat) : Nat → List Node → Prop
  | start, [] => start ≤ stop
  | start, n :: ns => start ≤ n.start ∧ n.start ≤ n.stop ∧ Ordered stop n.stop ns

/-- A piece of the input by its bytes. -/
structure Piece (input : String) (n : Node) : Prop where
  ex : ∃ before inside after, input.toList = before ++ inside ++ after ∧ n.start = bytes before ∧
    n.stop = bytes (before ++ inside) ∧ n.text = String.ofList inside

variable {rules : List Rule} {names : Names} {d : Nat} {task : Task} {c c' c'' a b : Cursor} {t : List Event}
  {r : Outcome} {ns ns' : List Node} {n : Node} {input : String}

theorem Cursor.Reaches.pos_le (h : c.Reaches c') : c.pos ≤ c'.pos := by
  obtain ⟨cs, _, hpos⟩ := h
  omega

theorem Laid.before (h : c.Reaches c') (hlaid : Laid c' c'' ns) : Laid c c'' ns := by
  cases hlaid with
  | nil h' => exact .nil (h.trans h')
  | cons h' hn hns => exact .cons (h.trans h') hn hns

theorem Laid.append (h : Laid c c' ns) (h' : Laid c' c'' ns') : Laid c c'' (ns ++ ns') := by
  induction h with
  | nil hreaches => exact h'.before hreaches
  | cons hreaches hn _ ih => exact .cons hreaches hn (ih h')

theorem Laid.reaches (h : Laid c c' ns) : c.Reaches c' := by
  induction h with
  | nil hreaches => exact hreaches
  | cons hreaches hn _ ih => exact (hreaches.trans hn.reaches).trans ih

theorem Laid.ordered (h : Laid c c' ns) : Ordered c'.pos c.pos ns := by
  induction h with
  | nil hreaches => exact hreaches.pos_le
  | cons hreaches hn _ ih =>
    rw [Ordered, hn.start, hn.stop]
    exact ⟨hreaches.pos_le, hn.reaches.pos_le, ih⟩

/-- **The nodes of a match are laid out between its ends.** -/
theorem Matches.laid (h : Matches rules names task c (some (c', ns))) : Laid c c' ns := by
  obtain ⟨t, heval⟩ := h 0
  refine heval.compose (R := Laid) .nil .append ?_ rfl
  intro d i rule c t m hi heval _
  have hreaches := heval.reaches rfl
  unfold Rule.close
  split
  · exact .nil hreaches
  · exact .cons (.refl c) ⟨hreaches, rfl, rfl, rfl⟩ (.nil (.refl m.1))

/-- Every node of the tree stands where its rule has matched, behind `c`. -/
def Node.Located (c : Cursor) (n : Node) : Prop :=
  ∀ k, n.Has k → ∃ a b, c.Reaches a ∧ k.At a b ∧ Laid a b k.children

theorem located_node (h : n.At c c') (hlaid : Laid c c' n.children) (hns : ∀ k ∈ n.children, k.Located c) :
    n.Located c := by
  intro k hk
  cases hk with
  | self => exact ⟨c, c', .refl c, h, hlaid⟩
  | child hm hk => exact hns _ hm k hk

theorem Matches.located (h : Matches rules names task c (some (c', ns))) : ∀ n ∈ ns, n.Located c := by
  obtain ⟨t, heval⟩ := h 0
  refine heval.nodes (P := Node.Located) ?_ ?_ rfl
  · intro c c' n hreaches hn k hk
    obtain ⟨a, b, ha, hat⟩ := hn k hk
    exact ⟨a, b, hreaches.trans ha, hat⟩
  · intro rule c c' ns _ hmatch hns
    exact located_node ⟨hmatch.reaches, rfl, rfl, rfl⟩ hmatch.laid hns

/-! ## Slices -/

theorem splitBytes_append : ∀ as rest : List Char, splitBytes (bytes as) (as ++ rest) = some (as, rest)
  | [], rest => by simp [bytes, splitBytes]
  | x :: as, rest => by
    have hpos := Char.utf8Size_pos x
    have hsum : bytes (x :: as) = x.utf8Size + bytes as := by simp [bytes]
    obtain ⟨n, hn⟩ : ∃ n, bytes (x :: as) = n + 1 := Nat.exists_eq_add_one.2 (by omega)
    rw [hn, cons_append, splitBytes, if_pos (by omega), show n + 1 - x.utf8Size = bytes as by omega,
      splitBytes_append as rest]
    rfl

theorem slice_append (before inside after : List Char) :
    slice (before ++ inside ++ after) (bytes before) (bytes (before ++ inside)) = some inside := by
  have hsum := bytes_append before inside
  rw [slice, if_pos (by omega), append_assoc, splitBytes_append, Option.bind_some,
    show bytes (before ++ inside) - bytes before = bytes inside by omega, splitBytes_append]
  rfl

theorem Node.At.piece (h : n.At a b) (ha : (Cursor.start input).Reaches a) : Piece input n := by
  obtain ⟨before, hbefore, hpos⟩ := ha
  obtain ⟨inside, hinside, hpos'⟩ := h.reaches
  refine ⟨before, inside, b.rest, ?_, ?_, ?_, ?_⟩
  · rw [append_assoc, ← hinside, ← hbefore]
    rfl
  · rw [h.start, hpos]
    exact Nat.zero_add _
  · rw [h.stop, hpos', hpos, bytes_append]
    show 0 + _ + _ = _
    omega
  · rw [h.text, Cursor.text_of_rest hinside]

theorem Piece.slice (h : Piece input n) : slice input.toList n.start n.stop = some n.text.toList := by
  obtain ⟨before, inside, after, hinput, hstart, hstop, htext⟩ := h
  rw [hinput, hstart, hstop, htext, slice_append, String.toList_ofList]

theorem Laid.check (base : Nat) (h : Laid a b ns) (ha : (Cursor.start input).Reaches a) :
    Node.checkChildren base (Node.pointer base) input.toList b.pos a.pos ns = .ok () := by
  induction h with
  | nil _ => rfl
  | @cons c a b c' n ns hreaches hn hlaid ih =>
    have hpiece := hn.piece (ha.trans hreaches)
    have hspan : ¬(n.start < c.pos ∨ n.stop > c'.pos) := by
      have hstart := hreaches.pos_le
      have hstop := hlaid.reaches.pos_le
      rw [hn.start, hn.stop]
      omega
    rw [Node.checkChildren, if_neg hspan, hpiece.slice]
    dsimp only
    rw [if_neg (by simp [Node.pointer]), hn.stop]
    exact ih ((ha.trans hreaches).trans hn.reaches)

/-- A node that stands where its children do can be built from them. -/
theorem Node.At.new (base : Nat) (h : n.At a b) (hlaid : Laid a b n.children)
    (ha : (Cursor.start input).Reaches a) :
    Node.new base (Node.pointer base) n.rule input.toList n.start n.stop n.children = .ok n := by
  have hcheck := hlaid.check base ha
  rw [← h.start, ← h.stop] at hcheck
  rw [Node.new, (h.piece ha).slice, hcheck]
  dsimp only
  rw [String.ofList_toList]
  cases n
  rfl

/-! ## Silent rules -/

/-- No rule is silent. -/
def loud (rules : List Rule) : List Rule := rules.map fun r => ⟨"." ++ r.name, r.expr⟩

/-- The name of a rule without the mark that makes it loud. -/
def unmarked (name : String) : String := String.ofList (name.toList.drop 1)

mutual

/-- A tree without the nodes of silent rules and what is below them. -/
def Node.prune : Node → Option Node
  | ⟨rule, text, start, stop, children⟩ =>
    if silentName (unmarked rule) then none else some ⟨unmarked rule, text, start, stop, pruneAll children⟩

def pruneAll : List Node → List Node
  | [] => []
  | n :: ns => n.prune.toList ++ pruneAll ns

end

def pruned (m : Cursor × List Node) : Cursor × List Node := (m.1, pruneAll m.2)

theorem pruneAll_append : ∀ ns ns' : List Node, pruneAll (ns ++ ns') = pruneAll ns ++ pruneAll ns'
  | [], ns' => by simp [pruneAll]
  | n :: ns, ns' => by rw [cons_append, pruneAll, pruneAll, pruneAll_append ns ns', append_assoc]

theorem pruned_behind (ns : List Node) : pruned ∘ behind ns = behind (pruneAll ns) ∘ pruned := by
  funext m
  simp [pruned, behind, pruneAll_append]

theorem unmarked_append (name : String) : unmarked ("." ++ name) = name := by
  rw [unmarked, String.toList_append]
  exact String.ofList_toList

theorem loud_not_silent (name : String) (e : Expr) : Rule.silent ⟨"." ++ name, e⟩ = false := by
  rw [Rule.silent, String.toList_append]
  rfl

theorem loud_getElem {i : Nat} {rule : Rule} (hi : rules[i]? = some rule) :
    (loud rules)[i]? = some ⟨"." ++ rule.name, rule.expr⟩ := by
  rw [loud, getElem?_map, hi]
  rfl

theorem pruned_close (rule : Rule) (c : Cursor) :
    pruned ∘ Rule.close ⟨"." ++ rule.name, rule.expr⟩ c = rule.close c ∘ pruned := by
  funext m
  simp only [Function.comp, pruned, Rule.close, loud_not_silent, Bool.false_eq_true, if_false, pruneAll, Node.prune,
    unmarked_append, append_nil]
  have hsilent : silentName rule.name = rule.silent := rfl
  rw [hsilent]
  cases rule.silent <;> rfl

/-- **The same calls make both trees.** -/
theorem Eval.loud (h : Eval rules names d task c t r) :
    ∃ r', Eval (loud rules) names d task c t r' ∧ r = r'.map pruned := by
  induction h with
  | terminal he =>
    refine ⟨_, .terminal he, ?_⟩
    rw [Option.map_map]
    rfl
  | ref hn _ ih =>
    obtain ⟨r', h, rfl⟩ := ih
    exact ⟨r', .ref hn h, rfl⟩
  | seq _ ih =>
    obtain ⟨r', h, rfl⟩ := ih
    exact ⟨r', .seq h, rfl⟩
  | choice _ ih =>
    obtain ⟨r', h, rfl⟩ := ih
    exact ⟨r', .choice h, rfl⟩
  | optional _ ih =>
    obtain ⟨r', h, rfl⟩ := ih
    refine ⟨_, .optional h, ?_⟩
    cases r' <;> rfl
  | @repeatNone _ _ one _ _ _ ih =>
    obtain ⟨r', h, hr⟩ := ih
    obtain rfl := Option.map_eq_none_iff.1 hr.symm
    refine ⟨_, .repeatNone h, ?_⟩
    cases one <;> rfl
  | repeatSome _ _ ih ih' =>
    obtain ⟨r1, h, hr⟩ := ih
    obtain ⟨m, rfl, hm⟩ := Option.map_eq_some_iff.1 hr.symm
    cases hm
    obtain ⟨r2, h', rfl⟩ := ih'
    refine ⟨_, .repeatSome h h', ?_⟩
    rw [Option.map_map, Option.map_map, pruned_behind]
  | predicate _ ih =>
    obtain ⟨r', h, rfl⟩ := ih
    refine ⟨_, .predicate h, ?_⟩
    rw [Option.isSome_map]
    split <;> rfl
  | rule hi _ ih =>
    obtain ⟨r', h, rfl⟩ := ih
    refine ⟨_, .rule (loud_getElem hi) h, ?_⟩
    rw [Option.map_map, Option.map_map, pruned_close]
  | allNil => exact ⟨_, .allNil, rfl⟩
  | allFail _ ih =>
    obtain ⟨r', h, hr⟩ := ih
    obtain rfl := Option.map_eq_none_iff.1 hr.symm
    exact ⟨_, .allFail h, rfl⟩
  | allCons _ _ ih ih' =>
    obtain ⟨r1, h, hr⟩ := ih
    obtain ⟨m, rfl, hm⟩ := Option.map_eq_some_iff.1 hr.symm
    cases hm
    obtain ⟨r2, h', rfl⟩ := ih'
    refine ⟨_, .allCons h h', ?_⟩
    rw [Option.map_map, Option.map_map, pruned_behind]
  | anyNil => exact ⟨_, .anyNil, rfl⟩
  | anyFirst _ ih =>
    obtain ⟨r', h, hr⟩ := ih
    obtain ⟨m, rfl, hm⟩ := Option.map_eq_some_iff.1 hr.symm
    exact ⟨_, .anyFirst h, hr⟩
  | anyNext _ _ ih ih' =>
    obtain ⟨r1, h, hr⟩ := ih
    obtain rfl := Option.map_eq_none_iff.1 hr.symm
    obtain ⟨r2, h', rfl⟩ := ih'
    exact ⟨_, .anyNext h h', rfl⟩
  | moreDone _ ih =>
    obtain ⟨r', h, hr⟩ := ih
    obtain rfl := Option.map_eq_none_iff.1 hr.symm
    exact ⟨_, .moreDone h, rfl⟩
  | moreAgain _ _ ih ih' =>
    obtain ⟨r1, h, hr⟩ := ih
    obtain ⟨m, rfl, hm⟩ := Option.map_eq_some_iff.1 hr.symm
    cases hm
    obtain ⟨r2, h', rfl⟩ := ih'
    refine ⟨_, .moreAgain h h', ?_⟩
    rw [Option.map_map, Option.map_map, pruned_behind]

/-- Silent rules have no nodes. -/
theorem Matches.not_silent (h : Matches rules names task c (some (c', ns))) :
    ∀ n ∈ ns, ∀ k, n.Has k → silentName k.rule = false := by
  obtain ⟨t, heval⟩ := h 0
  refine heval.compose (R := fun _ _ ns => ∀ n ∈ ns, ∀ k, n.Has k → silentName k.rule = false) ?_ ?_ ?_ rfl
  · intro c c' _ n hn
    cases hn
  · intro c1 c2 c3 ns ns' hns hns'
    exact forall_mem_append.2 ⟨hns, hns'⟩
  · intro d i rule c t m _ _ hns
    unfold Rule.close
    cases hsilent : rule.silent with
    | true => simp
    | false =>
      refine forall_mem_singleton.2 fun k hk => ?_
      cases hk with
      | self => exact hsilent
      | child hm hk => exact hns _ hm k hk

/-! ## Parse trees -/

theorem Node.Has.trans {m k : Node} (h : n.Has m) (h' : m.Has k) : n.Has k := by
  induction h with
  | self => exact h'
  | child hm _ ih => exact .child hm (ih h')

theorem known_of_parseRule {debug : Debug} {rule : String} {node : Node}
    (h : parseRule debug rules names rule input = .ok node) :
    ∃ i r, rules.findIdx? (fun r => r.name = rule) = some i ∧ rules[i]? = some r ∧ r.name = rule := by
  cases hfind : rules.findIdx? fun r => r.name = rule with
  | none =>
    rw [parseRule, hfind] at h
    cases h
  | some i =>
    obtain ⟨hlt, hname, _⟩ := findIdx?_eq_some_iff_getElem.1 hfind
    exact ⟨i, _, rfl, getElem?_eq_getElem hlt, of_decide_eq_true hname⟩

/-- The root of a parse stands over the whole input. -/
theorem root_at {rule : Rule} {pos : Nat}
    (h : Matches rules names (.expr rule.expr) (.start input) (some (⟨pos, []⟩, ns))) :
    (root rule.name input (rule.close (.start input) (⟨pos, []⟩, ns)).2).At (.start input) ⟨pos, []⟩ ∧
      (root rule.name input (rule.close (.start input) (⟨pos, []⟩, ns)).2).rule = rule.name ∧
      (root rule.name input (rule.close (.start input) (⟨pos, []⟩, ns)).2).children = if rule.silent then [] else ns := by
  have hreaches := h.reaches
  have hpos : pos = bytes input.toList := hreaches.pos_eq_iff.2 rfl
  unfold Rule.close
  cases rule.silent with
  | true =>
    refine ⟨⟨hreaches, rfl, hpos.symm, ?_⟩, rfl, rfl⟩
    rw [Cursor.text_of_rest (append_nil _).symm]
    exact String.ofList_toList.symm
  | false => exact ⟨⟨hreaches, rfl, rfl, rfl⟩, rfl, rfl⟩

/-- **Parse trees are well formed.**  The root has the name of the entry rule and spans the input.  Every node is
a piece of the input between character boundaries, its children lie in it one behind the other, and
`Node::new` accepts it again.  No node but the root has the name of a silent rule, and the tree is the tree
of all calls without the nodes of silent rules and what is below them. -/
theorem parse_trees_wellFormed (debug : Debug) (hvalid : validate rules = .ok names) {rule input : String}
    {node : Node} (hparse : parseRule debug rules names rule input = .ok node) (base : Nat) :
    (node.rule = rule ∧ node.text = input ∧ node.start = 0 ∧ node.stop = bytes input.toList) ∧
    (∀ n, node.Has n → Piece input n ∧ Ordered n.stop n.start n.children ∧
      Node.new base (Node.pointer base) n.rule input.toList n.start n.stop n.children = .ok n) ∧
    (∀ n k, node.Has n → k ∈ n.children → silentName k.rule = false) ∧
    ∃ i calls, rules.findIdx? (fun r => r.name = rule) = some i ∧
      Matches (loud rules) names (.rule i) (.start input) (some (⟨bytes input.toList, []⟩, [calls])) ∧
      node.children = if silentName rule then [] else pruneAll calls.children := by
  obtain ⟨i, r, hfind, hi, rfl⟩ := known_of_parseRule hparse
  obtain ⟨pos, ns, hrule, hnode⟩ := matches_of_parseRule (validated_of_validate hvalid) hi hparse
  obtain ⟨r', hmatch, hr⟩ := (matches_rule hi).1 hrule
  obtain ⟨⟨c', ns'⟩, rfl, hclose⟩ := Option.map_eq_some_iff.1 hr.symm
  obtain rfl : c' = ⟨pos, []⟩ := congrArg Prod.fst hclose
  have hpos : pos = bytes input.toList := hmatch.reaches.pos_eq_iff.2 rfl
  have hroot := root_at hmatch
  rw [hclose, ← hnode] at hroot
  obtain ⟨hat, hname, hchildren⟩ := hroot
  have hlaid : Laid (.start input) ⟨pos, []⟩ node.children := by
    rw [hchildren]
    split
    · exact .nil hmatch.reaches
    · exact hmatch.laid
  have hbelow : ∀ n ∈ node.children, n ∈ ns' := by
    rw [hchildren]
    split <;> simp
  have hlocated : node.Located (.start input) :=
    located_node hat hlaid fun n hn => hmatch.located n (hbelow n hn)
  refine ⟨⟨hname, ?_, hat.start, hat.stop.trans hpos⟩, ?_, ?_, ?_⟩
  · rw [hat.text, Cursor.text_of_rest (append_nil _).symm]
    exact String.ofList_toList
  · intro n hn
    obtain ⟨a, b, ha, hn', hns⟩ := hlocated n hn
    refine ⟨hn'.piece ha, ?_, hn'.new base hns ha⟩
    rw [hn'.start, hn'.stop]
    exact hns.ordered
  · intro n k hn hk
    cases hn with
    | self => exact hmatch.not_silent k (hbelow k hk) k (.self k)
    | child hm hn => exact hmatch.not_silent _ (hbelow _ hm) k (hn.trans (.child hk (.self k)))
  · obtain ⟨t, heval⟩ := hmatch 0
    obtain ⟨r', hloud, hr'⟩ := heval.loud
    obtain ⟨⟨c', calls⟩, rfl, hpruned⟩ := Option.map_eq_some_iff.1 hr'.symm
    cases hpruned
    refine ⟨i, ⟨"." ++ r.name, (Cursor.start input).text ⟨pos, []⟩, 0, pos, calls⟩, hfind,
      (matches_rule (loud_getElem hi)).2 ⟨_, .of_eval hloud, ?_⟩, hchildren⟩
    rw [Option.map_some, Rule.close, loud_not_silent, ← hpos]
    rfl

/-- A rule with two characters, the first of them behind a silent rule. -/
def silentRules : List Rule :=
  [⟨"Root", .seq [.ref "_first", .ref "Letter"]⟩, ⟨"_first", .ref "Letter"⟩, ⟨"Letter", .lit "é" false⟩]

theorem parse_trees_wellFormed_silent : ∃ names node, validate silentRules = .ok names ∧
    parseRule ⟨Char.toString, Char.toString⟩ silentRules names "Root" "éé" = .ok node ∧
    (node.children.map fun n => (n.rule, n.start, n.stop)) = [("Letter", 2, 4)] ∧
    ∀ n, node.Has n → Piece "éé" n := by
  refine ⟨_, _, rfl, rfl, rfl, ?_⟩
  intro n hn
  have hvalid : validate silentRules = .ok _ := rfl
  exact ((parse_trees_wellFormed ⟨Char.toString, Char.toString⟩ hvalid
    (rfl : parseRule _ silentRules _ "Root" "éé" = .ok _) 0).2.1 n hn).1

end ChiliDB.Peg

import ChiliDB.Peg.Agreement

/-!
# Parsers that do not see a change of characters

A map of characters that keeps their lengths, and that no terminal of a grammar sees, changes nothing about
a parse but the texts of its nodes: the same calls are made at the same positions with the same errors.

* `Expr.terminals` — the literals and classes of an expression; `Expr.Blind` — none of them sees the map.
* `run_map` — a function of the parser in the mapped state.
* `parseRule_map` — **the parse of the mapped text is the mapped parse**, errors included.
-/

namespace ChiliDB.Peg

open List

/-! ## The map -/

section

variable (f : Char → Char)

def mapText (text : String) : String := String.ofList (text.toList.map f)

def Cursor.map (c : Cursor) : Cursor := ⟨c.pos, c.rest.map f⟩

mutual

def Node.map : Node → Node
  | ⟨rule, text, start, stop, children⟩ => ⟨rule, mapText f text, start, stop, mapNodes children⟩

def mapNodes : List Node → List Node
  | [] => []
  | n :: ns => n.map :: mapNodes ns

end

theorem mapNodes_eq : ∀ ns : List Node, mapNodes f ns = ns.map (Node.map f)
  | [] => rfl
  | n :: ns => by rw [mapNodes, mapNodes_eq ns, map_cons]

variable (n : Node)

@[simp] theorem Node.map_rule : (n.map f).rule = n.rule := by
  cases n
  rw [Node.map]

@[simp] theorem Node.map_start : (n.map f).start = n.start := by
  cases n
  rw [Node.map]

@[simp] theorem Node.map_text : (n.map f).text = mapText f n.text := by
  cases n
  rw [Node.map]

@[simp] theorem Node.map_children : (n.map f).children = n.children.map (Node.map f) := by
  cases n
  rw [Node.map, mapNodes_eq]

def State.map (s : State) : State :=
  { s with cursor := s.cursor.map f, nodes := s.nodes.map (Node.map f) }

/-- What a function returns. -/
def mapOut (out : Bool × State) : Bool × State := (out.1, out.2.map f)

theorem Cursor.text_map (start stop : Cursor) : (start.map f).text (stop.map f) = mapText f (start.text stop) := by
  unfold Cursor.text Cursor.map mapText
  simp only [length_map, map_take, String.toList_ofList]

theorem expect_map (expected : String) (s : State) : (s.map f).expect expected = (s.expect expected).map f := by
  unfold State.expect
  rw [apply_ite (State.map f)]
  rfl

theorem closeRule_map (rule : Rule) (start : Cursor) (mark : Nat) (s : State) :
    closeRule rule (start.map f) mark (s.map f) = (closeRule rule start mark s).map f := by
  unfold closeRule
  split
  · simp [State.map, map_take]
  · simp only [State.map, Cursor.text_map, map_append, map_take, map_drop, map_cons, map_nil, Node.map, mapNodes_eq]
    rfl

theorem predicateEnd_map (positive matched : Bool) (s : State) :
    predicateEnd positive matched (s.map f) = mapOut f (predicateEnd positive matched s) := by
  unfold predicateEnd
  rw [expect_map]
  simp only
  rw [apply_ite (mapOut f)]
  rfl

end

/-! ## Terminals -/

mutual

/-- The literals and classes of an expression. -/
def Expr.terminals : Expr → List Expr
  | .ref _ => []
  | .lit s insensitive => [.lit s insensitive]
  | .class_ ranges negated => [.class_ ranges negated]
  | .any => [.any]
  | .seq es => allTerminals es
  | .choice es => allTerminals es
  | .optional e => e.terminals
  | .repeat_ e _ => e.terminals
  | .predicate e _ => e.terminals

def allTerminals : List Expr → List Expr
  | [] => []
  | e :: es => e.terminals ++ allTerminals es

end

/-- No terminal of the expression sees the map. -/
def Expr.Blind (f : Char → Char) (e : Expr) : Prop :=
  ∀ t ∈ e.terminals, ∀ m, t.terminal = some m → ∀ c, m (c.map f) = (m c).map (Cursor.map f)

variable {f : Char → Char} {debug : Debug} {rules : List Rule} {names : Names} {call : Calls} {e : Expr}

theorem mem_allTerminals {t : Expr} : ∀ {es : List Expr}, (∃ e ∈ es, t ∈ e.terminals) → t ∈ allTerminals es
  | [], ⟨_, he, _⟩ => nomatch he
  | e' :: es, ⟨e, he, ht⟩ => by
    rw [allTerminals, mem_append]
    rcases mem_cons.1 he with rfl | he
    · exact .inl ht
    · exact .inr (mem_allTerminals ⟨e, he, ht⟩)

theorem Expr.Blind.part {es : List Expr} (h : ∀ t ∈ allTerminals es, ∀ m, t.terminal = some m →
    ∀ c, m (c.map f) = (m c).map (Cursor.map f)) (he : e ∈ es) : e.Blind f :=
  fun t ht => h t (mem_allTerminals ⟨e, he, ht⟩)

/-- A character that the map keeps inside or outside of the class. -/
theorem matchChar_map {p : Char → Bool} (hsize : ∀ c, (f c).utf8Size = c.utf8Size) (hp : ∀ c, p (f c) = p c) :
    ∀ c : Cursor, matchChar p (c.map f) = (matchChar p c).map (Cursor.map f)
  | ⟨_, []⟩ => rfl
  | ⟨pos, c :: rest⟩ => by
    simp only [Cursor.map, map_cons, matchChar, hsize, hp]
    split <;> rfl

/-- A literal whose characters the map neither makes nor changes. -/
theorem matchText_map {insensitive : Bool} (hsize : ∀ c, (f c).utf8Size = c.utf8Size) :
    ∀ {as : List Char}, (∀ a ∈ as, ∀ b, sameChar insensitive a (f b) = sameChar insensitive a b) →
    ∀ c : Cursor, matchText insensitive as (c.map f) = (matchText insensitive as c).map (Cursor.map f)
  | [], _, _ => rfl
  | _ :: _, _, ⟨_, []⟩ => rfl
  | a :: as, h, ⟨pos, b :: rest⟩ => by
    simp only [Cursor.map, map_cons, matchText, hsize, h a mem_cons_self]
    split
    · exact matchText_map hsize (fun a' ha' => h a' (mem_cons_of_mem a ha')) ⟨_, rest⟩
    · rfl

theorem terminal_map {m : Cursor → Option Cursor} (h : ∀ c, m (c.map f) = (m c).map (Cursor.map f))
    (expected : String) (s : State) :
    (match m (s.map f).cursor with
      | some c => (true, { s.map f with cursor := c })
      | none => (false, (s.map f).expect expected)) =
    mapOut f (match m s.cursor with
      | some c => (true, { s with cursor := c })
      | none => (false, s.expect expected)) := by
  rw [show (s.map f).cursor = s.cursor.map f from rfl, h, expect_map]
  cases m s.cursor <;> rfl

/-! ## Functions -/

/-- The function does to the mapped state what it does to the state. -/
def Commutes (f : Char → Char) (g : State → Bool × State) : Prop := ∀ s, g (s.map f) = mapOut f (g s)

theorem seqBody_map : ∀ {es : List Expr}, (∀ e ∈ es, Commutes f (call (.expr e))) →
    Commutes f (seqBody call es)
  | [], _, _ => rfl
  | e :: es, h, s => by
    unfold seqBody
    rw [h e mem_cons_self]
    rcases call (.expr e) s with ⟨_ | _, s'⟩
    · rfl
    · exact seqBody_map (fun e' he' => h e' (mem_cons_of_mem e he')) s'

theorem choiceBody_map : ∀ {es : List Expr}, (∀ e ∈ es, Commutes f (call (.expr e))) →
    Commutes f (choiceBody call es)
  | [], _, _ => rfl
  | e :: es, h, s => by
    unfold choiceBody
    rw [h e mem_cons_self]
    rcases call (.expr e) s with ⟨_ | _, s'⟩
    · exact choiceBody_map (fun e' he' => h e' (mem_cons_of_mem e he')) s'
    · rfl

theorem loop_map (h : Commutes f (call (.expr e))) : ∀ (turns : Nat) (s : State),
    loop call e turns (s.map f) = ((loop call e turns s).1, (loop call e turns s).2.map f)
  | 0, _ => rfl
  | turns + 1, s => by
    simp only [loop]
    rw [h]
    rcases call (.expr e) s with ⟨_ | _, s'⟩
    · rfl
    · simp only [mapOut, loop_map h turns s']

theorem predicateBody_map (h : Commutes f (call (.expr e))) (positive : Bool) (start : Cursor) (mark : Nat)
    (s : State) : predicateBody call e positive (start.map f) mark (s.map f) =
      mapOut f (predicateBody call e positive start mark s) := by
  unfold predicateBody
  have hcall := h { s with suppressedErrors := s.suppressedErrors + 1 }
  rw [show ({ s.map f with suppressedErrors := (s.map f).suppressedErrors + 1 } : State) =
    State.map f { s with suppressedErrors := s.suppressedErrors + 1 } from rfl, hcall]
  rcases call (.expr e) { s with suppressedErrors := s.suppressedErrors + 1 } with ⟨matched, s'⟩
  rw [← predicateEnd_map]
  simp only [mapOut, State.map, map_take]

/-- The calls that the parser makes. -/
def Call.Blind (f : Char → Char) : Call → Prop
  | .expr e => e.Blind f
  | .rule _ => True

theorem body_map (debug : Debug) (names : Names) (h : ∀ k, k.Blind f → Commutes f (call k)) (he : e.Blind f)
    (start : Cursor) (mark : Nat) (s : State) : body debug names call e (start.map f) mark (s.map f) =
      mapOut f (body debug names call e start mark s) := by
  cases e with
  | ref n =>
    simp only [body]
    cases names.lookup n with
    | none => rfl
    | some i => exact h (.rule i) trivial s
  | lit text insensitive =>
    simp only [body, literal_eq]
    exact terminal_map (he _ (mem_singleton.2 rfl) _ rfl) _ s
  | class_ ranges negated =>
    simp only [body, character_eq, inRange_eq]
    exact terminal_map (he _ (mem_singleton.2 rfl) _ rfl) _ s
  | any =>
    simp only [body, character_eq]
    exact terminal_map (he _ (mem_singleton.2 rfl) _ rfl) _ s
  | seq es => exact seqBody_map (fun e' he' => h (.expr e') (.part he he')) s
  | choice es => exact choiceBody_map (fun e' he' => h (.expr e') (.part he he')) s
  | optional e =>
    simp only [body]
    rw [h (.expr e) he s]
    rfl
  | repeat_ e one =>
    simp only [body]
    rw [loop_map (h (.expr e) he) _ s]
    rfl
  | predicate e positive => exact predicateBody_map (h (.expr e) he) positive start mark s

theorem exprFn_map (h : ∀ k, k.Blind f → Commutes f (call k)) (he : e.Blind f) :
    Commutes f (exprFn debug names call e) := by
  intro s
  unfold exprFn
  have hbody := body_map debug names h he s.cursor s.nodes.length
    { s with fuel := s.fuel - 1, depth := s.depth + 1 }
  rw [show ({ s.map f with fuel := (s.map f).fuel - 1, depth := (s.map f).depth + 1 } : State) =
    State.map f { s with fuel := s.fuel - 1, depth := s.depth + 1 } from rfl,
    show (s.map f).nodes.length = s.nodes.length from length_map _,
    show (s.map f).cursor = s.cursor.map f from rfl, hbody]
  rw [apply_ite (mapOut f), apply_ite (mapOut f), apply_ite (mapOut f)]
  rcases body debug names call e s.cursor s.nodes.length { s with fuel := s.fuel - 1, depth := s.depth + 1 } with
    ⟨_ | _, s'⟩
  · simp only [mapOut, State.map, map_take]
    rfl
  · rfl

theorem ruleFn_map (h : ∀ k, k.Blind f → Commutes f (call k)) {rule : Rule} (he : rule.expr.Blind f) :
    Commutes f (ruleFn call rule) := by
  intro s
  unfold ruleFn
  have hcall := h (.expr rule.expr) he { s with depth := s.depth + 1 }
  rw [show ({ s.map f with depth := (s.map f).depth + 1 } : State) =
    State.map f { s with depth := s.depth + 1 } from rfl, hcall,
    show (s.map f).nodes.length = s.nodes.length from length_map _,
    apply_ite (mapOut f), apply_ite (mapOut f)]
  rcases call (.expr rule.expr) { s with depth := s.depth + 1 } with ⟨_ | _, s'⟩
  · rfl
  · simp only [mapOut]
    rw [← closeRule_map]
    rfl

/-- The parser makes the same calls for the mapped text. -/
theorem run_map (h : ∀ rule ∈ rules, rule.expr.Blind f) : ∀ (levels : Nat) (k : Call), k.Blind f →
    Commutes f (run debug rules names levels k)
  | 0, _, _, _ => rfl
  | levels + 1, .expr e, hk, s => exprFn_map (fun k hk => run_map h levels k hk) hk s
  | levels + 1, .rule i, _, s => by
    simp only [run]
    cases hi : rules[i]? with
    | none => rfl
    | some rule =>
      exact ruleFn_map (fun k hk => run_map h levels k hk) (h rule (mem_of_getElem? hi)) s

theorem bytes_map (hsize : ∀ c, (f c).utf8Size = c.utf8Size) (cs : List Char) : bytes (cs.map f) = bytes cs := by
  unfold bytes
  rw [map_map]
  congr 2
  funext c
  exact hsize c

/-- **The parse of the mapped text is the mapped parse.** -/
theorem parseRule_map (hsize : ∀ c, (f c).utf8Size = c.utf8Size) (h : ∀ rule ∈ rules, rule.expr.Blind f)
    (rule input : String) : parseRule debug rules names rule (mapText f input) =
      (parseRule debug rules names rule input).map (Node.map f) := by
  unfold parseRule
  cases rules.findIdx? fun r => r.name = rule with
  | none => rfl
  | some i =>
    have hstart : State.start (mapText f input) = (State.start input).map f := by
      simp [State.start, Cursor.start, State.map, Cursor.map, mapText]
    have hbytes : bytes (mapText f input).toList = bytes input.toList := by
      rw [mapText, String.toList_ofList, bytes_map hsize]
    simp only
    rw [hstart, run_map h 513 (.rule i) trivial, hbytes]
    rcases run debug rules names 513 (.rule i) (.start input) with ⟨ok, s⟩
    simp only [mapOut]
    rw [apply_ite (Except.map (Node.map f)), apply_ite (Except.map (Node.map f)), expect_map]
    congr 2
    simp only [Except.map, root, State.map, getLast?_map]
    cases s.nodes.getLast? with
    | none => simp [Node.map, mapNodes, hbytes]
    | some n => rfl

end ChiliDB.Peg

import ChiliDB.Peg.Grammar
import Mathlib.Algebra.GroupWithZero.Nat

/-!
# What a grammar means

The semantics of PEG expressions without any limit: ordered choice, greedy repetition, predicates that
consume nothing, and a parse tree with a node for every rule that is not silent.

* `Eval` — one call with its outcome and the calls it makes on the way, in their order; a call is an
  `Event` with its nesting depth and its position.
* `eval_unique` — a call has at most one outcome, reached by one sequence of calls.
* `Eval.compose` — the induction over a match; `Eval.reaches` — it ends behind the characters it has read.
-/

namespace ChiliDB.Peg

/-- A byte position, and the characters behind it. -/
structure Cursor where
  pos : Nat
  rest : List Char
  deriving DecidableEq

/-- The length of the characters in UTF-8. -/
def bytes (cs : List Char) : Nat := (cs.map Char.utf8Size).sum

def Cursor.start (input : String) : Cursor := ⟨0, input.toList⟩

/-- The text between two cursors. -/
def Cursor.text (start stop : Cursor) : String :=
  String.ofList (start.rest.take (start.rest.length - stop.rest.length))

/-- `stop` is behind `start` in the same input. -/
def Cursor.Reaches (start stop : Cursor) : Prop :=
  ∃ cs, start.rest = cs ++ stop.rest ∧ stop.pos = start.pos + bytes cs

structure Node where
  rule : String
  text : String
  start : Nat
  stop : Nat
  children : List Node

/-- Where a match ends and the nodes it has made, or a mismatch. -/
abbrev Outcome := Option (Cursor × List Node)

/-! ## Terminals -/

def sameChar (insensitive : Bool) (a b : Char) : Bool :=
  if insensitive then a.toLower = b.toLower else a = b

/-- The characters of a literal, one after the other. -/
def matchText (insensitive : Bool) : List Char → Cursor → Option Cursor
  | [], c => some c
  | _ :: _, ⟨_, []⟩ => none
  | a :: as, ⟨pos, b :: rest⟩ =>
    if sameChar insensitive a b then matchText insensitive as ⟨pos + b.utf8Size, rest⟩ else none

def matchChar (p : Char → Bool) : Cursor → Option Cursor
  | ⟨_, []⟩ => none
  | ⟨pos, c :: rest⟩ => if p c then some ⟨pos + c.utf8Size, rest⟩ else none

def inClass (ranges : List (Char × Char)) (negated : Bool) (c : Char) : Bool :=
  (ranges.any fun r => decide (r.1 ≤ c ∧ c ≤ r.2)) != negated

/-- What a literal, a class or `.` reads. -/
def Expr.terminal : Expr → Option (Cursor → Option Cursor)
  | .lit s insensitive => some (matchText insensitive s.toList)
  | .class_ ranges negated => some (matchChar (inClass ranges negated))
  | .any => some (matchChar fun _ => true)
  | _ => none

/-! ## Calls -/

inductive Task where
  | expr (e : Expr)
  | rule (i : Nat)
  /-- The rest of a sequence. -/
  | all (es : List Expr)
  /-- The rest of a choice. -/
  | any (es : List Expr)
  /-- The rest of a repetition. -/
  | more (e : Expr)

/-- A call of an expression's or of a rule's function. -/
structure Event where
  isExpr : Bool
  depth : Nat
  pos : Nat

def Rule.silent (rule : Rule) : Bool := rule.name.toList.head? = some '_'

/-- The node of a rule, around the nodes of its expression. -/
def Rule.close (rule : Rule) (start : Cursor) (m : Cursor × List Node) : Cursor × List Node :=
  (m.1, if rule.silent then [] else [⟨rule.name, start.text m.1, start.pos, m.1.pos, m.2⟩])

/-- Nodes that were made before. -/
def behind (ns : List Node) (m : Cursor × List Node) : Cursor × List Node := (m.1, ns ++ m.2)

inductive Eval (rules : List Rule) (names : Names) :
    Nat → Task → Cursor → List Event → Outcome → Prop where
  | terminal {d : Nat} {e : Expr} {c : Cursor} {m : Cursor → Option Cursor} : e.terminal = some m →
      Eval rules names d (.expr e) c [⟨true, d, c.pos⟩] ((m c).map fun c' => (c', []))
  | ref {d : Nat} {n : String} {i : Nat} {c : Cursor} {t : List Event} {r : Outcome} :
      names.lookup n = some i → Eval rules names (d + 1) (.rule i) c t r →
      Eval rules names d (.expr (.ref n)) c (⟨true, d, c.pos⟩ :: t) r
  | seq {d : Nat} {es : List Expr} {c : Cursor} {t : List Event} {r : Outcome} :
      Eval rules names (d + 1) (.all es) c t r →
      Eval rules names d (.expr (.seq es)) c (⟨true, d, c.pos⟩ :: t) r
  | choice {d : Nat} {es : List Expr} {c : Cursor} {t : List Event} {r : Outcome} :
      Eval rules names (d + 1) (.any es) c t r →
      Eval rules names d (.expr (.choice es)) c (⟨true, d, c.pos⟩ :: t) r
  | optional {d : Nat} {e : Expr} {c : Cursor} {t : List Event} {r : Outcome} :
      Eval rules names (d + 1) (.expr e) c t r →
      Eval rules names d (.expr (.optional e)) c (⟨true, d, c.pos⟩ :: t) (some (r.getD (c, [])))
  | repeatNone {d : Nat} {e : Expr} {one : Bool} {c : Cursor} {t : List Event} :
      Eval rules names (d + 1) (.expr e) c t none →
      Eval rules names d (.expr (.repeat_ e one)) c (⟨true, d, c.pos⟩ :: t)
        (if one then none else some (c, []))
  | repeatSome {d : Nat} {e : Expr} {one : Bool} {c c' : Cursor} {ns : List Node} {t t' : List Event}
      {r : Outcome} : Eval rules names (d + 1) (.expr e) c t (some (c', ns)) →
      Eval rules names (d + 1) (.more e) c' t' r →
      Eval rules names d (.expr (.repeat_ e one)) c (⟨true, d, c.pos⟩ :: (t ++ t')) (r.map (behind ns))
  | predicate {d : Nat} {e : Expr} {positive : Bool} {c : Cursor} {t : List Event} {r : Outcome} :
      Eval rules names (d + 1) (.expr e) c t r →
      Eval rules names d (.expr (.predicate e positive)) c (⟨true, d, c.pos⟩ :: t)
        (if r.isSome = positive then some (c, []) else none)
  | rule {d i : Nat} {rule : Rule} {c : Cursor} {t : List Event} {r : Outcome} :
      rules[i]? = some rule → Eval rules names (d + 1) (.expr rule.expr) c t r →
      Eval rules names d (.rule i) c (⟨false, d, c.pos⟩ :: t) (r.map (rule.close c))
  | allNil {d : Nat} {c : Cursor} : Eval rules names d (.all []) c [] (some (c, []))
  | allFail {d : Nat} {e : Expr} {es : List Expr} {c : Cursor} {t : List Event} :
      Eval rules names d (.expr e) c t none → Eval rules names d (.all (e :: es)) c t none
  | allCons {d : Nat} {e : Expr} {es : List Expr} {c c' : Cursor} {ns : List Node} {t t' : List Event}
      {r : Outcome} : Eval rules names d (.expr e) c t (some (c', ns)) →
      Eval rules names d (.all es) c' t' r →
      Eval rules names d (.all (e :: es)) c (t ++ t') (r.map (behind ns))
  | anyNil {d : Nat} {c : Cursor} : Eval rules names d (.any []) c [] none
  | anyFirst {d : Nat} {e : Expr} {es : List Expr} {c : Cursor} {m : Cursor × List Node}
      {t : List Event} : Eval rules names d (.expr e) c t (some m) →
      Eval rules names d (.any (e :: es)) c t (some m)
  | anyNext {d : Nat} {e : Expr} {es : List Expr} {c : Cursor} {t t' : List Event} {r : Outcome} :
      Eval rules names d (.expr e) c t none → Eval rules names d (.any es) c t' r →
      Eval rules names d (.any (e :: es)) c (t ++ t') r
  | moreDone {d : Nat} {e : Expr} {c : Cursor} {t : List Event} :
      Eval rules names d (.expr e) c t none → Eval rules names d (.more e) c t (some (c, []))
  | moreAgain {d : Nat} {e : Expr} {c c' : Cursor} {ns : List Node} {t t' : List Event} {r : Outcome} :
      Eval rules names d (.expr e) c t (some (c', ns)) → Eval rules names d (.more e) c' t' r →
      Eval rules names d (.more e) c (t ++ t') (r.map (behind ns))

variable {rules : List Rule} {names : Names} {d : Nat} {task : Task} {c : Cursor} {t : List Event}
  {r : Outcome}

/-- **A call has at most one outcome.** -/
theorem eval_unique (h : Eval rules names d task c t r) :
    ∀ {t' : List Event} {r' : Outcome}, Eval rules names d task c t' r' → t' = t ∧ r' = r := by
  induction h with
  | terminal hm =>
    intro t' r' h'
    cases h' with
    | terminal hm' =>
      rw [hm] at hm'
      cases hm'
      exact ⟨rfl, rfl⟩
    | _ => cases hm
  | ref hn _ ih =>
    intro t' r' h'
    cases h' with
    | terminal hm => cases hm
    | ref hn' h' =>
      rw [hn] at hn'
      cases hn'
      obtain ⟨rfl, rfl⟩ := ih h'
      exact ⟨rfl, rfl⟩
  | seq _ ih =>
    intro t' r' h'
    cases h' with
    | terminal hm => cases hm
    | seq h' =>
      obtain ⟨rfl, rfl⟩ := ih h'
      exact ⟨rfl, rfl⟩
  | choice _ ih =>
    intro t' r' h'
    cases h' with
    | terminal hm => cases hm
    | choice h' =>
      obtain ⟨rfl, rfl⟩ := ih h'
      exact ⟨rfl, rfl⟩
  | optional _ ih =>
    intro t' r' h'
    cases h' with
    | terminal hm => cases hm
    | optional h' =>
      obtain ⟨rfl, rfl⟩ := ih h'
      exact ⟨rfl, rfl⟩
  | repeatNone _ ih =>
    intro t' r' h'
    cases h' with
    | terminal hm => cases hm
    | repeatNone h' =>
      obtain ⟨rfl, _⟩ := ih h'
      exact ⟨rfl, rfl⟩
    | repeatSome h' _ => cases (ih h').2
  | repeatSome _ _ ih ih' =>
    intro t' r' h'
    cases h' with
    | terminal hm => cases hm
    | repeatNone h' => cases (ih h').2
    | repeatSome h1 h2 =>
      obtain ⟨rfl, he⟩ := ih h1
      cases he
      obtain ⟨rfl, rfl⟩ := ih' h2
      exact ⟨rfl, rfl⟩
  | predicate _ ih =>
    intro t' r' h'
    cases h' with
    | terminal hm => cases hm
    | predicate h' =>
      obtain ⟨rfl, rfl⟩ := ih h'
      exact ⟨rfl, rfl⟩
  | rule hi _ ih =>
    intro t' r' h'
    cases h' with
    | rule hi' h' =>
      rw [hi] at hi'
      cases hi'
      obtain ⟨rfl, rfl⟩ := ih h'
      exact ⟨rfl, rfl⟩
  | allNil | anyNil =>
    intro t' r' h'
    cases h'
    exact ⟨rfl, rfl⟩
  | allFail _ ih =>
    intro t' r' h'
    cases h' with
    | allFail h' => exact ⟨(ih h').1, rfl⟩
    | allCons h' _ => cases (ih h').2
  | allCons _ _ ih ih' =>
    intro t' r' h'
    cases h' with
    | allFail h' => cases (ih h').2
    | allCons h1 h2 =>
      obtain ⟨rfl, he⟩ := ih h1
      cases he
      obtain ⟨rfl, rfl⟩ := ih' h2
      exact ⟨rfl, rfl⟩
  | anyFirst _ ih =>
    intro t' r' h'
    cases h' with
    | anyFirst h' => exact ih h'
    | anyNext h' _ => cases (ih h').2
  | anyNext _ _ ih ih' =>
    intro t' r' h'
    cases h' with
    | anyFirst h' => cases (ih h').2
    | anyNext h1 h2 =>
      obtain ⟨rfl, _⟩ := ih h1
      obtain ⟨rfl, rfl⟩ := ih' h2
      exact ⟨rfl, rfl⟩
  | moreDone _ ih =>
    intro t' r' h'
    cases h' with
    | moreDone h' => exact ⟨(ih h').1, rfl⟩
    | moreAgain h' _ => cases (ih h').2
  | moreAgain _ _ ih ih' =>
    intro t' r' h'
    cases h' with
    | moreDone h' => cases (ih h').2
    | moreAgain h1 h2 =>
      obtain ⟨rfl, he⟩ := ih h1
      cases he
      obtain ⟨rfl, rfl⟩ := ih' h2
      exact ⟨rfl, rfl⟩

/-! ## What a match reads -/

theorem bytes_append (as bs : List Char) : bytes (as ++ bs) = bytes as + bytes bs := by
  unfold bytes
  rw [List.map_append, List.sum_append]

theorem Cursor.Reaches.refl (c : Cursor) : c.Reaches c := ⟨[], rfl, rfl⟩

theorem Cursor.Reaches.trans {c1 c2 c3 : Cursor} (h : c1.Reaches c2) (h' : c2.Reaches c3) : c1.Reaches c3 := by
  obtain ⟨cs, hrest, hpos⟩ := h
  obtain ⟨cs', hrest', hpos'⟩ := h'
  refine ⟨cs ++ cs', ?_, ?_⟩
  · rw [hrest, hrest', List.append_assoc]
  · rw [hpos', hpos, bytes_append]
    omega

theorem Cursor.Reaches.length_le {c c' : Cursor} (h : c.Reaches c') : c'.rest.length ≤ c.rest.length := by
  obtain ⟨cs, hrest, _⟩ := h
  rw [hrest, List.length_append]
  omega

/-- A match that has read nothing ends where it starts. -/
theorem Cursor.Reaches.eq_of_length {c c' : Cursor} (h : c.Reaches c')
    (hlen : c'.rest.length = c.rest.length) : c' = c := by
  obtain ⟨cs, hrest, hpos⟩ := h
  have hnil : cs = [] := by
    rw [hrest, List.length_append] at hlen
    exact List.length_eq_zero_iff.1 (by omega)
  subst hnil
  obtain ⟨pos, rest⟩ := c
  obtain ⟨pos', rest'⟩ := c'
  cases hrest
  cases hpos
  rfl

/-- One character. -/
theorem Cursor.reaches_cons (pos : Nat) (a : Char) (rest : List Char) :
    Cursor.Reaches ⟨pos, a :: rest⟩ ⟨pos + a.utf8Size, rest⟩ := by
  refine ⟨[a], rfl, ?_⟩
  simp [bytes]

theorem matchText_reaches {insensitive : Bool} : ∀ {as : List Char} {c c' : Cursor},
    matchText insensitive as c = some c' → c.Reaches c' ∧ c.rest.length = as.length + c'.rest.length
  | [], c, c', h => by
    cases h
    exact ⟨.refl c, by simp⟩
  | _ :: _, ⟨_, []⟩, c', h => by cases h
  | a :: as, ⟨pos, b :: rest⟩, c', h => by
    unfold matchText at h
    split at h
    · obtain ⟨hreaches, hlen⟩ := matchText_reaches h
      refine ⟨(Cursor.reaches_cons pos b rest).trans hreaches, ?_⟩
      simp only [List.length_cons] at hlen ⊢
      omega
    · cases h

theorem matchChar_reaches {p : Char → Bool} : ∀ {c c' : Cursor}, matchChar p c = some c' →
    c.Reaches c' ∧ c.rest.length = 1 + c'.rest.length
  | ⟨_, []⟩, c', h => by cases h
  | ⟨pos, b :: rest⟩, c', h => by
    simp only [matchChar] at h
    split at h
    · cases h
      refine ⟨Cursor.reaches_cons pos b rest, ?_⟩
      simp only [List.length_cons]
      omega
    · cases h

/-- A terminal reads its characters. -/
theorem terminal_reaches {e : Expr} {m : Cursor → Option Cursor} {c' : Cursor}
    (he : e.terminal = some m) (h : m c = some c') : c.Reaches c' := by
  cases e with
  | lit s insensitive =>
    cases he
    exact (matchText_reaches h).1
  | class_ ranges negated | any =>
    cases he
    exact (matchChar_reaches h).1
  | _ => cases he

/-- **What holds of a match**, by its start, its end and its nodes: it holds where characters are read, of a match
behind another, and of a rule around its expression. -/
theorem Eval.compose {R : Cursor → Cursor → List Node → Prop} (hread : ∀ {c c' : Cursor}, c.Reaches c' → R c c' [])
    (hseq : ∀ {c1 c2 c3 : Cursor} {ns ns' : List Node}, R c1 c2 ns → R c2 c3 ns' → R c1 c3 (ns ++ ns'))
    (hrule : ∀ {d i : Nat} {rule : Rule} {c : Cursor} {t : List Event} {m : Cursor × List Node},
      rules[i]? = some rule → Eval rules names d (.expr rule.expr) c t (some m) → R c m.1 m.2 →
      R c m.1 (rule.close c m).2)
    (h : Eval rules names d task c t r) : ∀ {m : Cursor × List Node}, r = some m → R c m.1 m.2 := by
  induction h with
  | terminal he =>
    intro m hm
    obtain ⟨c', hc', rfl⟩ := Option.map_eq_some_iff.1 hm
    exact hread (terminal_reaches he hc')
  | ref _ _ ih | seq _ ih | choice _ ih | anyFirst _ ih => exact ih
  | @optional _ _ c _ r _ ih =>
    intro m hm
    cases r with
    | none =>
      cases hm
      exact hread (.refl c)
    | some m' =>
      cases hm
      exact ih rfl
  | @repeatNone _ _ one c _ _ ih =>
    intro m hm
    cases one with
    | true => cases hm
    | false =>
      cases hm
      exact hread (.refl c)
  | repeatSome _ _ ih ih' | allCons _ _ ih ih' | moreAgain _ _ ih ih' =>
    intro m hm
    obtain ⟨m', rfl, rfl⟩ := Option.map_eq_some_iff.1 hm
    exact hseq (ih rfl) (ih' (m := m') rfl)
  | @predicate _ _ positive c _ r _ ih =>
    intro m hm
    split at hm
    · cases hm
      exact hread (.refl c)
    · cases hm
  | rule hi heval ih =>
    intro m hm
    obtain ⟨m', rfl, rfl⟩ := Option.map_eq_some_iff.1 hm
    exact hrule hi heval (ih rfl)
  | allNil | moreDone _ _ =>
    intro m hm
    cases hm
    exact hread (.refl _)
  | allFail _ _ | anyNil =>
    intro m hm
    cases hm
  | anyNext _ _ _ ih' => exact ih'

/-- A match ends behind the characters it has read. -/
theorem Eval.reaches (h : Eval rules names d task c t r) {m : Cursor × List Node} (hm : r = some m) :
    c.Reaches m.1 :=
  h.compose (R := fun c c' _ => c.Reaches c') id .trans (fun _ _ hreaches => hreaches) hm

end ChiliDB.Peg

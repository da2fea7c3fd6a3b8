import ChiliDB.Lib.Effect
import ChiliDB.Peg.Grammar

/-!
# Grammar texts

The reader of a grammar's text: a recursive descent that ends with the first error.

* `Grammar` — what is left of the text, where that is, and how deep groups and predicates are nested.
* `choice`, `sequence`, `term`, `rules`, `read` — the reader.
* `Gives P m` — what a reader returns has the property `P`.
* `read_alternatives` — no choice is read without alternatives.
-/

namespace ChiliDB.Peg

structure Grammar where
  rest : List Char
  pos : Nat
  nesting : Nat

namespace Grammar

/-- The first error ends the reading. -/
abbrev Reader (α : Type) : Type := StateT Grammar (Except String) α

def error {α : Type} (message : String) : Reader α := fun g =>
  .error ("grammar byte " ++ toString g.pos ++ ": " ++ message)

def peek : Reader (Option Char) := do return (← get).rest.head?

/-- Leave `text` behind, which is what is left starts with. -/
def advance (text : List Char) (g : Grammar) : Grammar :=
  { g with rest := g.rest.drop text.length, pos := g.pos + (text.map Char.utf8Size).sum }

def bump : Reader (Option Char) := do
  let c ← peek
  modify (advance c.toList)
  return c

/-- `comment` is set behind a `#`, until the line ends. -/
def skipped (isWhitespace : Char → Bool) (comment : Bool) : List Char → List Char
  | [] => []
  | c :: cs =>
    if comment then c :: skipped isWhitespace (c ≠ '\n') cs
    else if isWhitespace c then c :: skipped isWhitespace false cs
    else if c = '#' then c :: skipped isWhitespace true cs
    else []

/-- A loop that pushes what its turns return.  A turn is told how many there were before it; every turn takes a
character. -/
def turns {α : Type} (test : Reader Bool) (turn : Nat → Reader α) : Nat → Nat → Reader (List α)
  | 0, _ => pure []
  | left + 1, done => do
    if ← test then
      let a ← turn done
      return a :: (← turns test turn left (done + 1))
    else
      return []

def collect {α : Type} (test : Reader Bool) (turn : Nat → Reader α) : Reader (List α) := do
  turns test turn ((← get).rest.length + 1) 0

def check (ok : Bool) (message : String) : Reader Unit := if ok then pure () else error message

def hexDigit (c : Char) : Option Nat :=
  if c.isDigit then some (c.toNat - '0'.toNat)
  else if 'a' ≤ c ∧ c ≤ 'f' then some (c.toNat - 'a'.toNat + 10)
  else if 'A' ≤ c ∧ c ≤ 'F' then some (c.toNat - 'A'.toNat + 10)
  else none

def digit (message : String) : Reader Nat := do
  match (← bump).bind hexDigit with
  | some d => pure d
  | none => error message

def fromU32 (value : Nat) (message : String) : Reader Char :=
  if value.isValidChar then pure (Char.ofNat value) else error message

def hexValue (digits : List Nat) : Nat := digits.foldl (fun value d => value * 16 + d) 0

def unicode : Reader Char := do
  check ((← bump) = some '\x7b') "expected \x7b after \\u"
  let digits ← collect (do return (← peek) ≠ some '\x7d') fun done => do
    let d ← digit "invalid Unicode escape"
    check (done + 1 ≤ 6) "Unicode escape too long"
    return d
  let _ ← bump
  check (!digits.isEmpty) "empty Unicode escape"
  fromU32 (hexValue digits) "invalid Unicode scalar"

def escaped : Reader Char := do
  match ← bump with
  | none => error "unterminated literal or class"
  | some '\\' =>
    match ← bump with
    | none => error "unfinished escape"
    | some 'n' => pure '\n'
    | some 'r' => pure '\r'
    | some 't' => pure '\t'
    | some '0' => pure '\x00'
    | some 'x' =>
      let high ← digit "expected two hex digits"
      let low ← digit "expected two hex digits"
      fromU32 (hexValue [high, low]) "invalid character"
    | some 'u' => unicode
    | some c => if c ∈ ['\\', '\'', '"', '[', ']', '-', '^'] then pure c else error "unknown escape"
  | some c => pure c

def nameStart (c : Char) : Bool := c.isAlpha || c = '_'

def nameRest (c : Char) : Bool := c.isAlphanum || c = '_'

/-- The character, if it is the next one. -/
def optional (c : Char) : Reader Bool := do
  let found := (← peek) = some c
  if found then
    let _ ← bump
  return found

def lit (delimiter : Char) : Reader Expr := do
  let _ ← bump
  let value ← collect (do return (← peek) ≠ some delimiter) fun _ => escaped
  let _ ← bump
  return .lit (String.ofList value) (← optional 'i')

def range : Reader (Char × Char) := do
  let start ← escaped
  let g ← get
  let stop ← if ['-'].isPrefixOf g.rest && !(['-', ']'].isPrefixOf g.rest) then bump *> escaped else pure start
  check (start ≤ stop) "reversed character range"
  return (start, stop)

def class_ : Reader Expr := do
  let _ ← bump
  let negated ← optional '^'
  let ranges ← collect (do return (← peek) ≠ some ']') fun _ => range
  let _ ← bump
  check (!ranges.isEmpty) "empty character class"
  return .class_ ranges negated

/-- Groups and predicates are nested at most 128 deep. -/
def enter (levels : Nat) : Reader Unit := do
  modify fun g => { g with nesting := g.nesting + levels }
  check ((← get).nesting ≤ 128) "grammar nesting limit exceeded"

def leave (levels : Nat) : Reader Unit := modify fun g => { g with nesting := g.nesting - levels }

section

variable (isWhitespace : Char → Bool)

def skip : Reader Unit := modify fun g => g.advance (skipped isWhitespace false g.rest)

def eat (s : String) : Reader Bool := do
  skip isWhitespace
  if s.toList.isPrefixOf (← get).rest then
    modify (advance s.toList)
    return true
  else
    return false

def name : Reader String := do
  skip isWhitespace
  check ((← peek).any nameStart) "expected rule name"
  let text := (← get).rest.takeWhile nameRest
  modify (advance text)
  return String.ofList text

def predicates : Reader (List Bool) :=
  collect (do return (← peek).any (· ∈ ['&', '!'])) fun done => do
    let c ← bump
    skip isWhitespace
    check (done + 1 ≤ 128) "too many predicates"
    return c = some '&'

variable (choice : Reader Expr)

def group : Reader Expr := do
  let _ ← bump
  let e ← choice
  check (← eat isWhitespace ")") "expected )"
  return e

def primary : Reader Expr := do
  match ← peek with
  | some '\'' => lit '\''
  | some '"' => lit '"'
  | some '[' => class_
  | some '.' => do
    let _ ← bump
    return .any
  | some '(' => group isWhitespace choice
  | some c =>
    if nameStart c then
      return .ref (← name isWhitespace)
    else
      error "expected literal, class, rule, or group"
  | none => error "expected literal, class, rule, or group"

def suffix (e : Expr) : Reader Expr := do
  if ← optional '?' then return .optional e
  else if ← optional '*' then return .repeat_ e false
  else if ← optional '+' then return .repeat_ e true
  else return e

def term : Reader Expr := do
  skip isWhitespace
  let prefixes ← predicates isWhitespace
  enter prefixes.length
  let e ← primary isWhitespace choice
  skip isWhitespace
  let e ← suffix e
  leave prefixes.length
  return prefixes.foldr (fun positive e => .predicate e positive) e

def sequence : Reader Expr := do
  let items ← collect (do skip isWhitespace; return !(← peek).all (· ∈ ['/', ';', ')'])) fun _ =>
    term isWhitespace choice
  match items with
  | [] => error "empty sequence; use '' for epsilon"
  | [e] => return e
  | es => return .seq es

def choiceBody : Reader Expr := do
  enter 1
  let first ← sequence isWhitespace choice
  let others ← collect (eat isWhitespace "/") fun _ => sequence isWhitespace choice
  leave 1
  match others with
  | [] => return first
  | es => return .choice (first :: es)

end

/-- At most 128 choices are open, so that `levels` does not run out. -/
def choice (isWhitespace : Char → Bool) : Nat → Reader Expr
  | 0 => error "grammar nesting limit exceeded"
  | levels + 1 => choiceBody isWhitespace (choice isWhitespace levels)

def rule (isWhitespace : Char → Bool) : Reader Rule := do
  let name ← name isWhitespace
  check (← eat isWhitespace "<-") "expected <-"
  let expr ← choice isWhitespace 129
  check (← eat isWhitespace ";") "expected ; after rule"
  skip isWhitespace
  return ⟨name, expr⟩

def rules (isWhitespace : Char → Bool) : Reader (List Rule) := do
  skip isWhitespace
  let rules ← collect (do return (← peek).isSome) fun _ => rule isWhitespace
  check (!rules.isEmpty) "expected at least one rule"
  return rules

/-- The rules of a grammar's text; `isWhitespace` is `char::is_whitespace`. -/
def read (isWhitespace : Char → Bool) (text : String) : Except String (List Rule) := do
  let (rules, _) ← rules isWhitespace ⟨text.toList, 0, 0⟩
  return rules

/-! ## What is read -/

/-- What a reader returns has the property. -/
def Gives {α : Type} (P : α → Prop) (m : Reader α) : Prop := ∀ g a g', m g = .ok (a, g') → P a

variable {α β : Type} {P : α → Prop} {Q : β → Prop}

theorem gives_pure {a : α} (h : P a) : Gives P (pure a) := by
  intro g b g' hb
  cases hb
  exact h

theorem gives_error {message : String} : Gives P (error message) := by
  intro g a g' h
  cases h

theorem Gives.bind {m : Reader β} {f : β → Reader α} (hm : Gives Q m) (hf : ∀ b, Q b → Gives P (f b)) :
    Gives P (m >>= f) := by
  intro g a g' h
  obtain ⟨⟨b, g1⟩, hb, ha⟩ := Effect.except_bind_ok.1 h
  exact hf b (hm g b g1 hb) g1 a g' ha

theorem gives_after {m : Reader β} {f : β → Reader α} (hf : ∀ b, Gives P (f b)) : Gives P (m >>= f) :=
  Gives.bind (Q := fun _ => True) (fun _ _ _ _ => trivial) fun b _ => hf b

theorem gives_collect {test : Reader Bool} {turn : Nat → Reader α} (h : ∀ done, Gives P (turn done)) :
    Gives (∀ a ∈ ·, P a) (collect test turn) := by
  have hturns (left done : Nat) : Gives (∀ a ∈ ·, P a) (turns test turn left done) := by
    induction left generalizing done with
    | zero => exact gives_pure (by simp)
    | succ left ih =>
      refine gives_after fun b => ?_
      split
      · exact (h done).bind fun a ha => (ih (done + 1)).bind fun as has =>
          gives_pure (List.forall_mem_cons.2 ⟨ha, has⟩)
      · exact gives_pure (by simp)
  exact gives_after fun g => hturns _ 0

/-- A choice without alternatives would fail and expect nothing. -/
def checkAlternatives : Expr → Except String Unit
  | .choice [] => .error "empty choice"
  | _ => .ok ()

def Alternatives (e : Expr) : Prop := walk checkAlternatives e = .ok ()

theorem walkAll_alternatives {es : List Expr} (h : ∀ e ∈ es, Alternatives e) :
    walkAll checkAlternatives es = .ok () := by
  induction es with
  | nil => rfl
  | cons e es ih =>
    rw [List.forall_mem_cons] at h
    exact Effect.ok_then h.1 (ih h.2)

variable {isWhitespace : Char → Bool} {inner : Reader Expr}

theorem gives_primary (h : Gives Alternatives inner) : Gives Alternatives (primary isWhitespace inner) := by
  have hlit (delimiter : Char) : Gives Alternatives (lit delimiter) :=
    gives_after fun _ => gives_after fun _ => gives_after fun _ => gives_after fun _ => gives_pure rfl
  refine gives_after fun c => ?_
  split
  · exact hlit _
  · exact hlit _
  · exact gives_after fun _ => gives_after fun _ => gives_after fun _ => gives_after fun _ => gives_after fun _ =>
      gives_pure rfl
  · exact gives_after fun _ => gives_pure rfl
  · exact gives_after fun _ => h.bind fun e he => gives_after fun _ => gives_after fun _ => gives_pure he
  · split
    · exact gives_after fun _ => gives_pure rfl
    · exact gives_error
  · exact gives_error

theorem gives_suffix {e : Expr} (he : Alternatives e) : Gives Alternatives (suffix e) := by
  unfold suffix
  refine gives_after fun _ => ?_
  split
  · exact gives_pure he
  refine gives_after fun _ => ?_
  split
  · exact gives_pure he
  refine gives_after fun _ => ?_
  split <;> exact gives_pure he

theorem alternatives_predicates {e : Expr} (he : Alternatives e) (prefixes : List Bool) :
    Alternatives (prefixes.foldr (fun positive e => .predicate e positive) e) := by
  induction prefixes with
  | nil => exact he
  | cons _ _ ih => exact ih

theorem gives_term (h : Gives Alternatives inner) : Gives Alternatives (term isWhitespace inner) :=
  gives_after fun _ => gives_after fun prefixes => gives_after fun _ => (gives_primary h).bind fun _ he =>
    gives_after fun _ => (gives_suffix he).bind fun _ he' => gives_after fun _ =>
    gives_pure (alternatives_predicates he' prefixes)

theorem gives_sequence (h : Gives Alternatives inner) : Gives Alternatives (sequence isWhitespace inner) := by
  refine (gives_collect fun _ => gives_term h).bind fun items hitems => ?_
  split
  · exact gives_error
  · exact gives_pure (hitems _ (List.mem_singleton_self _))
  · exact gives_pure (walkAll_alternatives hitems)

theorem gives_choice (levels : Nat) : Gives Alternatives (choice isWhitespace levels) := by
  induction levels with
  | zero => exact gives_error
  | succ levels ih =>
    refine gives_after fun _ => (gives_sequence ih).bind fun first hfirst =>
      (gives_collect fun _ => gives_sequence ih).bind fun others hothers => gives_after fun _ => ?_
    split
    · exact gives_pure hfirst
    · exact gives_pure (walkAll_alternatives (List.forall_mem_cons.2 ⟨hfirst, hothers⟩))

/-- **Every choice that is read has alternatives.** -/
theorem read_alternatives {text : String} {rules : List Rule} (h : read isWhitespace text = .ok rules) :
    ∀ rule ∈ rules, Alternatives rule.expr := by
  have hrule : Gives (fun rule => Alternatives rule.expr) (rule isWhitespace) :=
    gives_after fun _ => gives_after fun _ => gives_after fun _ => (gives_choice 129).bind fun _ he =>
      gives_after fun _ => gives_after fun _ => gives_after fun _ => gives_pure he
  have hrules : Gives (∀ rule ∈ ·, Alternatives rule.expr) (Grammar.rules isWhitespace) :=
    gives_after fun _ => (gives_collect fun _ => hrule).bind fun _ hall => gives_after fun _ => gives_pure hall
  obtain ⟨⟨_, g⟩, hrun, hread⟩ := Effect.except_bind_ok.1 h
  cases hread
  exact hrules _ _ _ hrun

end Grammar

end ChiliDB.Peg

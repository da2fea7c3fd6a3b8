import ChiliDB.Peg.Semantics

/-!
# Generated parsers

What `grammar!` expands to: a function for every expression and for every rule, all over one mutable
`State`.  A call counts its depth, an expression call also uses up fuel; once one of the two limits is hit
the parser is `limited` and every further call fails at once.

* `exprFn`, `ruleFn` — the generated functions, over the functions they call (`call`).
* `run` — the functions together.  Each call is one level deeper and the function called at depth 512
  only reports the limit, so 513 levels are all there are.
* `parseRule` — `parse_rule`.

The texts of expectations show characters as `{:?}` does, whose Unicode tables are a parameter (`Debug`).
-/

namespace ChiliDB.Peg

structure ParseError where
  offset : Nat
  expected : List String
  deriving DecidableEq

/-- Forget what was expected before this position. -/
def ParseError.advance (pos : Nat) (error : ParseError) : ParseError :=
  if pos > error.offset then ⟨pos, []⟩ else error

def ParseError.add (expected : String) (error : ParseError) : ParseError :=
  if expected ∈ error.expected then error else ⟨error.offset, error.expected ++ [expected]⟩

structure State where
  cursor : Cursor
  nodes : List Node
  error : ParseError
  depth : Nat
  limited : Bool
  fuel : Nat
  suppressedErrors : Nat

/-- `char::escape_debug`, in a string and on its own. -/
structure Debug where
  str : Char → String
  char : Char → String

def recursionLimit : String := "recursion limit (512 parser calls)"

def workLimit : String := "work limit (1000000 expression calls)"

namespace State

def start (input : String) : State := ⟨.start input, [], ⟨0, []⟩, 0, false, 1000000, 0⟩

/-- Record an expectation if it is as far as any before. -/
def expect (expected : String) (s : State) : State :=
  if s.limited || s.suppressedErrors > 0 || s.cursor.pos < s.error.offset then
    s
  else
    { s with error := (s.error.advance s.cursor.pos).add expected }

/-- A limit is hit. -/
def limit (message : String) (s : State) : State :=
  { s with limited := true, error := ⟨s.cursor.pos, [message]⟩ }

end State

/-! ## Terminals -/

/-- `input.get(..n)` and what is behind it; `none` if `n` is no character boundary of the input. -/
def splitBytes : Nat → List Char → Option (List Char × List Char)
  | 0, cs => some ([], cs)
  | _ + 1, [] => none
  | n + 1, c :: cs =>
    if c.utf8Size ≤ n + 1 then
      (splitBytes (n + 1 - c.utf8Size) cs).map fun r => (c :: r.1, r.2)
    else
      none

def eqIgnoreAsciiCase (as bs : List Char) : Bool := as.map Char.toLower = bs.map Char.toLower

/-- The test of one range of a class. -/
def inRange (r : Char × Char) (c : Char) : Bool :=
  if r = ('a', 'z') then c.isLower
  else if r = ('A', 'Z') then c.isUpper
  else if r = ('0', '9') then c.isDigit
  else r.1 ≤ c && c ≤ r.2

def litText (debug : Debug) (s : String) (insensitive : Bool) : String :=
  "\"" ++ (String.join (s.toList.map debug.str) ++ ("\"" ++ if insensitive then "i" else ""))

def classText (debug : Debug) (ranges : List (Char × Char)) (negated : Bool) : String :=
  (if negated then "negated class " else "class ") ++ ("[" ++ (", ".intercalate (ranges.map fun r =>
      "('" ++ debug.char r.1 ++ "', '" ++ debug.char r.2 ++ "')") ++ "]"))

/-- The body of a literal. -/
def literal (debug : Debug) (s : String) (insensitive : Bool) (st : State) : Bool × State :=
  match splitBytes (bytes s.toList) st.cursor.rest with
  | some (part, rest) =>
    if (if insensitive then eqIgnoreAsciiCase part s.toList else part = s.toList) then
      (true, { st with cursor := ⟨st.cursor.pos + bytes s.toList, rest⟩ })
    else
      (false, st.expect (litText debug s insensitive))
  | none => (false, st.expect (litText debug s insensitive))

/-- The body of a class and of `.`: the next character, if it passes. -/
def character (p : Char → Bool) (expected : String) (st : State) : Bool × State :=
  match st.cursor.rest with
  | c :: rest =>
    if p c then
      (true, { st with cursor := ⟨st.cursor.pos + c.utf8Size, rest⟩ })
    else
      (false, st.expect expected)
  | [] => (false, st.expect expected)

/-! ## Functions -/

/-- The functions of the generated module. -/
inductive Call where
  | expr (e : Expr)
  | rule (i : Nat)

abbrev Calls := Call → State → Bool × State

variable (debug : Debug) (rules : List Rule) (names : Names) (call : Calls)

/-- `true && f(state) && …`. -/
def seqBody : List Expr → State → Bool × State
  | [], s => (true, s)
  | e :: es, s =>
    match call (.expr e) s with
    | (true, s') => seqBody es s'
    | (false, s') => (false, s')

/-- `false || f(state) || …`. -/
def choiceBody : List Expr → State → Bool × State
  | [], s => (false, s)
  | e :: es, s =>
    match call (.expr e) s with
    | (true, s') => (true, s')
    | (false, s') => choiceBody es s'

/-- `while f(state) { count += 1 }`; every turn uses up fuel. -/
def loop (e : Expr) : Nat → State → Nat × State
  | 0, s => (0, s)
  | turns + 1, s =>
    match call (.expr e) s with
    | (true, s') => ((loop e turns s').1 + 1, (loop e turns s').2)
    | (false, s') => (0, s')

/-- A predicate holds if its expression matches as it should and no limit was hit on the way. -/
def predicateEnd (positive matched : Bool) (s : State) : Bool × State :=
  let ok := matched == positive && !s.limited
  if !ok && !s.limited then
    (ok, s.expect (if positive then "positive predicate" else "negative predicate"))
  else
    (ok, s)

/-- The body of `!e` and of `&e`, which starts at `start` with `mark` nodes. -/
def predicateBody (e : Expr) (positive : Bool) (start : Cursor) (mark : Nat) (s : State) : Bool × State :=
  match call (.expr e) { s with suppressedErrors := s.suppressedErrors + 1 } with
  | (matched, s') => predicateEnd positive matched { s' with
      suppressedErrors := s'.suppressedErrors - 1, cursor := start, nodes := s'.nodes.take mark }

def body (e : Expr) (start : Cursor) (mark : Nat) (s : State) : Bool × State :=
  match e with
  | .ref n =>
    match names.lookup n with
    | some i => call (.rule i) s
    | none => (false, s)
  | .lit text insensitive => literal debug text insensitive s
  | .class_ ranges negated =>
    character (fun c => (ranges.any fun r => inRange r c) != negated) (classText debug ranges negated) s
  | .any => character (fun _ => true) "any character" s
  | .seq es => seqBody call es s
  | .choice es => choiceBody call es s
  | .optional e =>
    match call (.expr e) s with
    | (_, s') => (!s'.limited, s')
  | .repeat_ e one =>
    match loop call e (s.fuel + 1) s with
    | (count, s') => (!s'.limited && (!one || count > 0), s')
  | .predicate e positive => predicateBody call e positive start mark s

/-- `expr_…`. -/
def exprFn (e : Expr) (s : State) : Bool × State :=
  if s.limited then
    (false, s)
  else if s.depth ≥ 512 then
    (false, s.limit recursionLimit)
  else if s.fuel = 0 then
    (false, s.limit workLimit)
  else
    match body debug names call e s.cursor s.nodes.length
      { s with fuel := s.fuel - 1, depth := s.depth + 1 } with
    | (true, s') => (true, { s' with depth := s'.depth - 1 })
    | (false, s') => (false, { s' with
        depth := s'.depth - 1, cursor := s.cursor, nodes := s'.nodes.take s.nodes.length })

/-- The nodes of a rule that has matched. -/
def closeRule (rule : Rule) (start : Cursor) (mark : Nat) (s : State) : State :=
  if rule.silent then
    { s with nodes := s.nodes.take mark }
  else
    { s with nodes := s.nodes.take mark ++
        [⟨rule.name, start.text s.cursor, start.pos, s.cursor.pos, s.nodes.drop mark⟩] }

/-- `rule_…`. -/
def ruleFn (rule : Rule) (s : State) : Bool × State :=
  if s.limited then
    (false, s)
  else if s.depth ≥ 512 then
    (false, s.limit recursionLimit)
  else
    match call (.expr rule.expr) { s with depth := s.depth + 1 } with
    | (true, s') => (true, closeRule rule s.cursor s.nodes.length { s' with depth := s'.depth - 1 })
    | (false, s') => (false, { s' with depth := s'.depth - 1 })

/-- The generated functions; there is none for a rule that does not exist. -/
def run : Nat → Calls
  | 0, _, s => (false, s)
  | levels + 1, .expr e, s => exprFn debug names (run levels) e s
  | levels + 1, .rule i, s =>
    match rules[i]? with
    | some rule => ruleFn (run levels) rule s
    | none => (false, s)

/-- The root of a parse; a silent rule has made no node of its own. -/
def root (rule input : String) (nodes : List Node) : Node :=
  nodes.getLast?.getD ⟨rule, input, 0, bytes input.toList, []⟩

def parseRule (rule input : String) : Except ParseError Node :=
  match rules.findIdx? fun r => r.name = rule with
  | none => .error ⟨0, ["known rule (unknown: " ++ rule ++ ")"]⟩
  | some i =>
    match run debug rules names 513 (.rule i) (.start input) with
    | (ok, s) =>
      if !ok || s.limited then
        .error s.error
      else if s.cursor.pos ≠ bytes input.toList then
        .error (s.expect "end of input").error
      else
        .ok (root rule input s.nodes)

end ChiliDB.Peg

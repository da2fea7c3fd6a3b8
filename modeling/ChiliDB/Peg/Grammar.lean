import ChiliDB.Lib.Worklist
import Mathlib.Data.List.AList

/-!
# Validation of PEG grammars

`crates/peg/src/lib.rs`: a grammar is a list of rules, and `validate` accepts it if no generated parser
can recurse without consuming input.

* `nullable` — the expression may match the empty string; `nulls` — the same for every rule.
* `prefixes` — the rules that an expression may call where it starts.
* `validate` — names are unique and defined, no repetition is over a nullable expression, and no rule
  leads back to itself by prefixes.
-/

namespace ChiliDB.Peg

inductive Expr where
  | ref (name : String)
  | lit (text : String) (insensitive : Bool)
  | class_ (ranges : List (Char × Char)) (negated : Bool)
  | any
  | seq (es : List Expr)
  | choice (es : List Expr)
  | optional (e : Expr)
  | repeat_ (e : Expr) (one : Bool)
  | predicate (e : Expr) (positive : Bool)

structure Rule where
  name : String
  expr : Expr

/-- Every rule's number by its name. -/
abbrev Names := AList (fun _ : String => Nat)

variable (names : Names) (null : List Bool)

/-! ## Nullable expressions -/

/-- `null[names[n]]`; `validate` has looked the name up before. -/
def nullRef (n : String) : Bool := ((names.lookup n).bind fun i => null[i]?).getD false

mutual

def nullable : Expr → Bool
  | .ref n => nullRef names null n
  | .lit s _ => s = ""
  | .any => false
  | .class_ _ _ => false
  | .seq es => allNullable es
  | .choice es => anyNullable es
  | .optional _ => true
  | .predicate _ _ => true
  | .repeat_ _ false => true
  | .repeat_ e true => nullable e

def allNullable : List Expr → Bool
  | [] => true
  | e :: es => nullable e && allNullable es

def anyNullable : List Expr → Bool
  | [] => false
  | e :: es => nullable e || anyNullable es

end

/-- One turn of the loop: every rule anew. -/
def nullStep (rules : List Rule) (null : List Bool) : List Bool :=
  rules.map fun r => nullable names null r.expr

/-- The loop; a turn that changes something makes one more rule nullable. -/
def nulls (rules : List Rule) : List Bool :=
  Worklist.fixFrom (nullStep names rules) (rules.length + 1) (List.replicate rules.length false)

/-! ## Prefixes -/

mutual

def prefixes : Expr → List Nat
  | .ref n => (names.lookup n).toList
  | .seq es => seqPrefixes es
  | .choice es => choicePrefixes es
  | .optional e => prefixes e
  | .repeat_ e _ => prefixes e
  | .predicate e _ => prefixes e
  | .lit _ _ => []
  | .class_ _ _ => []
  | .any => []

/-- An element of a sequence starts where the sequence does if all before it are nullable. -/
def seqPrefixes : List Expr → List Nat
  | [] => []
  | e :: es => prefixes e ++ if nullable names null e then seqPrefixes es else []

def choicePrefixes : List Expr → List Nat
  | [] => []
  | e :: es => prefixes e ++ choicePrefixes es

end

/-! ## The checks -/

mutual

/-- `f` on every part of an expression, the whole first. -/
def walk (f : Expr → Except String Unit) : Expr → Except String Unit
  | .seq es => do
    f (.seq es)
    walkAll f es
  | .choice es => do
    f (.choice es)
    walkAll f es
  | .optional e => do
    f (.optional e)
    walk f e
  | .repeat_ e one => do
    f (.repeat_ e one)
    walk f e
  | .predicate e positive => do
    f (.predicate e positive)
    walk f e
  | .ref n => f (.ref n)
  | .lit s insensitive => f (.lit s insensitive)
  | .class_ ranges negated => f (.class_ ranges negated)
  | .any => f .any

def walkAll (f : Expr → Except String Unit) : List Expr → Except String Unit
  | [] => .ok ()
  | e :: es => do
    walk f e
    walkAll f es

end

/-- Number the rules from `i` on. -/
def nameRules : Nat → Names → List Rule → Except String Names
  | _, names, [] => .ok names
  | i, names, rule :: rules =>
    if rule.name ∈ names then
      .error ("duplicate rule " ++ rule.name)
    else
      nameRules (i + 1) (names.insert rule.name i) rules

def checkDefined : Expr → Except String Unit
  | .ref n => if n ∈ names then .ok () else .error ("undefined rule " ++ n)
  | _ => .ok ()

def checkRepeat (rule : Rule) : Expr → Except String Unit
  | .repeat_ inner _ =>
    if nullable names null inner then .error ("nullable repetition in rule " ++ rule.name) else .ok ()
  | _ => .ok ()

/-- `edges[j]`. -/
def edgesOf (edges : List (List Nat)) (j : Nat) : List Nat := edges[j]?.getD []

/-- Does the rule lead back to itself?  Every turn takes a node off the stack, and a node puts its edges
on it once. -/
def recursive (edges : List (List Nat)) (i : Nat) : Bool :=
  (Worklist.search (edgesOf edges) i
    ((edgesOf edges i).length + Worklist.cost (edgesOf edges) (List.range edges.length) [] + 1)
    [] (edgesOf edges i)).getD true

/-- The loop over the rules from number `i` on. -/
def checkRecursion (edges : List (List Nat)) : Nat → List Rule → Except String Unit
  | _, [] => .ok ()
  | i, rule :: rules =>
    if recursive edges i then
      .error ("nullable-prefix left recursion involving " ++ rule.name)
    else
      checkRecursion edges (i + 1) rules

def validate (rules : List Rule) : Except String Names := do
  let names ← nameRules 0 ∅ rules
  rules.forM fun rule => walk (checkDefined names) rule.expr
  let null := nulls names rules
  rules.forM fun rule => walk (checkRepeat names null rule) rule.expr
  let edges := rules.map fun rule => prefixes names null rule.expr
  checkRecursion edges 0 rules
  pure names

end ChiliDB.Peg

import ChiliDB.Binder.Context
import Mathlib.Data.List.Forall2

/-!
# The scoping rules

What `BindContext::resolve_column` decides, in terms of the columns and the relations of that name in each scope.

* `findRelation_none`, `findRelation_some` — what the loops over a scope collect.
* `Scope.verdict` — what a scope says of a name; `resolveColumn_iff` — the innermost scope with a verdict decides.
* `resolveColumn_meets_scoping` — the scoping rules.
-/

namespace ChiliDB.Binder

open Effect
open ChiliDB.Bound (Expr RelationId)

/-- The columns of that name among the given ones. -/
def namedIn (relation : RelationId) (name : String) (columns : List (ColumnSchema × Nat)) : List Expr :=
  (columns.filter fun p => p.1.name = name).map fun p => columnExpr relation p.2 p.1

/-- The columns of a relation that have that name. -/
def RelationBinding.named (r : RelationBinding) (name : String) : List Expr :=
  namedIn r.table.relation name r.table.source.schema.columns.zipIdx

/-- The columns of all relations of a scope that have that name. -/
def Scope.named (scope : Scope) (name : String) : List Expr := scope.relations.flatMap (·.named name)

/-- The relations of a scope that have that name. -/
def Scope.called (scope : Scope) (qualifier : String) : List RelationBinding :=
  scope.relations.filter fun r => r.name = qualifier

/-- The innermost scope with a property. -/
def BindContext.Innermost (context : BindContext) (p : Scope → Prop) (scope : Scope) : Prop :=
  ∃ outer inner, context.scopes = outer ++ scope :: inner ∧ p scope ∧ ∀ s ∈ inner, ¬ p s

/-- The same scopes, with the relations of each in some other order. -/
def BindContext.Reordered (context context' : BindContext) : Prop :=
  List.Forall₂ (fun s s' => s.relations.Perm s'.relations) context.scopes context'.scopes

variable {E : Type}

/-! ## The loops over a scope -/

section

variable {α : Type} (qualifier : Option String) (name : String)

/-- At most one candidate, or an ambiguity. -/
def pick : List α → BindResult E (Option α)
  | [] => .ok none
  | [a] => .ok (some a)
  | _ :: _ :: _ => .fail (.ambiguousColumn qualifier name)

/-- Candidates that come later are picked together with the one so far. -/
theorem pick_append (xs ys : List α) : (pick qualifier name (xs ++ ys) : BindResult E _) =
    pick qualifier name xs >>= fun found => pick qualifier name (found.toList ++ ys) := by
  rcases xs with _ | ⟨_, _ | ⟨_, _⟩⟩ <;> rfl

theorem findColumn_eq (relation : RelationId) (columns : List (ColumnSchema × Nat)) : ∀ found,
    (findColumn qualifier name relation columns found : BindResult E _) =
      pick qualifier name (found.toList ++ namedIn relation name columns) := by
  induction columns with
  | nil =>
    intro found
    cases found <;> rfl
  | cons p columns ih =>
    intro found
    obtain ⟨column, index⟩ := p
    unfold findColumn
    by_cases hname : column.name = name
    · cases found with
      | some e => simp [namedIn, hname, pick]
      | none => simp [namedIn, hname, ih]
    · simp [namedIn, hname, ih]

/-- Without a qualifier every relation contributes its columns of the name. -/
theorem findRelation_none (relations : List RelationBinding) (qualified : Nat) : ∀ found,
    (findRelation none name relations found qualified : BindResult E _) =
      pick none name (found.toList ++ relations.flatMap (·.named name)) >>= fun found => .ok (found, qualified) := by
  induction relations with
  | nil =>
    intro found
    cases found <;> rfl
  | cons r relations ih =>
    intro found
    unfold findRelation
    simp only [ih, findColumn_eq]
    rw [List.flatMap_cons, ← List.append_assoc, pick_append none name (_ ++ _), bind_assoc]
    rfl

/-- After a relation of the qualifier's name, another one is an ambiguity. -/
theorem findRelation_again (q : String) (relations : List RelationBinding) (found : Option Expr) :
    (findRelation (some q) name relations found 1 : BindResult E _) =
      if relations.filter (fun r => r.name = q) = [] then .ok (found, 1)
      else .fail (.ambiguousColumn (some q) name) := by
  induction relations with
  | nil => rfl
  | cons r relations ih =>
    unfold findRelation
    by_cases hr : r.name = q
    · simp [hr]
    · simp [hr, ih]

/-- With a qualifier a single relation of its name contributes its columns. -/
theorem findRelation_some (q : String) (relations : List RelationBinding) :
    (findRelation (some q) name relations none 0 : BindResult E _) =
      pick (some q) name (relations.filter fun r => r.name = q) >>= fun found =>
        found.elim (.ok (none, 0)) fun r => pick (some q) name (r.named name) >>= fun e => .ok (e, 1) := by
  induction relations with
  | nil => rfl
  | cons r relations ih =>
    unfold findRelation
    by_cases hr : r.name = q
    · have hfilter : (r :: relations).filter (fun r => r.name = q)
          = r :: relations.filter (fun r => r.name = q) := List.filter_cons_of_pos (by simp [hr])
      simp only [hr, ne_eq, not_true_eq_false, if_false, findColumn_eq, Nat.zero_add, gt_iff_lt, Nat.lt_irrefl,
        findRelation_again]
      rw [hfilter]
      cases relations.filter fun r => r.name = q with
      | nil => rfl
      | cons r' rest =>
        -- the columns of the first relation are scanned before the second one is seen: either way is ambiguous
        show pick (some q) name (r.named name) >>= _ = Result.fail _
        rcases r.named name with _ | ⟨_, _ | ⟨_, _⟩⟩ <;> rfl
    · simp [hr, ih]

end

/-! ## The innermost scope -/

section

variable {α : Type} {f : Scope → Option α} (context : BindContext)

theorem BindContext.findSome?_innermost {a : α} :
    context.scopes.reverse.findSome? f = some a ↔
      ∃ scope, context.Innermost (fun s => f s ≠ none) scope ∧ f scope = some a := by
  rw [List.findSome?_eq_some_iff]
  constructor
  · rintro ⟨inner, scope, outer, hsplit, hsome, hnone⟩
    refine ⟨scope, ⟨outer.reverse, inner.reverse, ?_, by simp [hsome], by simpa using hnone⟩, hsome⟩
    rw [← context.scopes.reverse_reverse, hsplit]
    simp
  · rintro ⟨scope, ⟨outer, inner, hsplit, -, hnone⟩, hsome⟩
    refine ⟨inner.reverse, scope, outer.reverse, by simp [hsplit], hsome, ?_⟩
    simpa using hnone

theorem BindContext.findSome?_none :
    context.scopes.reverse.findSome? f = none ↔ ∀ scope ∈ context.scopes, f scope = none := by
  simp

end

/-! ## The verdict of a scope -/

section

variable (qualifier : Option String) (name : String)

/-- What a scope says of a name; `none` if the next scope is asked. -/
def Scope.verdict (scope : Scope) : Option (BindResult E Expr) :=
  match qualifier with
  | none =>
    match scope.named name with
    | [] => none
    | [e] => some (.ok e)
    | _ :: _ :: _ => some (.fail (.ambiguousColumn none name))
  | some q =>
    match scope.called q with
    | [] => none
    | [r] =>
      match r.named name with
      | [] => some (.fail (.unknownColumn (some q) name))
      | [e] => some (.ok e)
      | _ :: _ :: _ => some (.fail (.ambiguousColumn (some q) name))
    | _ :: _ :: _ => some (.fail (.ambiguousColumn (some q) name))

theorem resolveIn_cons (scope : Scope) (scopes : List Scope) :
    (resolveIn qualifier name (scope :: scopes) : BindResult E _) =
      (scope.verdict qualifier name).getD (resolveIn qualifier name scopes) := by
  rw [resolveIn]
  cases qualifier with
  | none =>
    rw [findRelation_none]
    show pick none name (scope.named name) >>= _ >>= _ = _
    unfold Scope.verdict
    rcases scope.named name with _ | ⟨_, _ | ⟨_, _⟩⟩ <;> rfl
  | some q =>
    rw [findRelation_some]
    show pick (some q) name (scope.called q) >>= _ >>= _ = _
    unfold Scope.verdict
    dsimp only
    rcases scope.called q with _ | ⟨r, _ | ⟨_, _⟩⟩
    · rfl
    · show pick (some q) name (r.named name) >>= _ >>= _ = _
      dsimp only
      rcases r.named name with _ | ⟨_, _ | ⟨_, _⟩⟩ <;> rfl
    · rfl

theorem resolveIn_eq (scopes : List Scope) : (resolveIn qualifier name scopes : BindResult E _) =
    (scopes.findSome? (·.verdict qualifier name)).getD (.fail (.unknownColumn qualifier name)) := by
  induction scopes with
  | nil => rfl
  | cons scope scopes ih =>
    rw [resolveIn_cons, ih, List.findSome?_cons]
    cases scope.verdict qualifier name <;> rfl

/-- **The innermost scope with a verdict decides**; without one the name is unknown. -/
theorem resolveColumn_iff (context : BindContext) (outcome : BindResult E Expr) :
    context.resolveColumn qualifier name = outcome ↔
      (∃ scope, context.Innermost (fun s => (s.verdict qualifier name : Option (BindResult E _)) ≠ none) scope ∧
        scope.verdict qualifier name = some outcome) ∨
      ((∀ scope ∈ context.scopes, (scope.verdict qualifier name : Option (BindResult E _)) = none) ∧
        outcome = .fail (.unknownColumn qualifier name)) := by
  unfold BindContext.resolveColumn
  rw [resolveIn_eq, ← context.findSome?_innermost, ← context.findSome?_none, Option.getD_eq_iff,
    eq_comm (a := outcome)]

end

section

open Scope (verdict)

variable {name : String} {scope : Scope}

/-! What the verdicts are, without a qualifier and with one. -/

theorem verdict_none_eq_none : (scope.verdict none name : Option (BindResult E _)) = none ↔
    scope.named name = [] := by
  unfold verdict
  dsimp only
  rcases scope.named name with _ | ⟨_, _ | ⟨_, _⟩⟩ <;> simp

theorem verdict_none_ok {e : Expr} : scope.verdict none name = some (.ok e : BindResult E _) ↔
    scope.named name = [e] := by
  unfold verdict
  dsimp only
  rcases scope.named name with _ | ⟨_, _ | ⟨_, _⟩⟩ <;> simp [Result.fail]

theorem verdict_none_ambiguous :
    scope.verdict none name = some (.fail (.ambiguousColumn none name) : BindResult E _) ↔
      1 < (scope.named name).length := by
  unfold verdict
  dsimp only
  rcases scope.named name with _ | ⟨_, _ | ⟨_, _⟩⟩ <;> simp [Result.fail]

theorem verdict_none_unknown :
    scope.verdict none name ≠ some (.fail (.unknownColumn none name) : BindResult E _) := by
  unfold verdict
  dsimp only
  rcases scope.named name with _ | ⟨_, _ | ⟨_, _⟩⟩ <;> simp [Result.fail]

variable {q : String}

theorem verdict_some_eq_none : (scope.verdict (some q) name : Option (BindResult E _)) = none ↔
    scope.called q = [] := by
  unfold verdict
  dsimp only
  rcases scope.called q with _ | ⟨r, _ | ⟨_, _⟩⟩
  · simp
  · rcases hr : r.named name with _ | ⟨_, _ | ⟨_, _⟩⟩ <;> simp [hr]
  · simp

theorem verdict_some_ok {e : Expr} : scope.verdict (some q) name = some (.ok e : BindResult E _) ↔
    ∃ r, scope.called q = [r] ∧ r.named name = [e] := by
  unfold verdict
  dsimp only
  rcases scope.called q with _ | ⟨r, _ | ⟨_, _⟩⟩
  · simp
  · rcases hr : r.named name with _ | ⟨_, _ | ⟨_, _⟩⟩ <;> simp [hr, Result.fail]
  · simp [Result.fail]

theorem verdict_some_ambiguous :
    scope.verdict (some q) name = some (.fail (.ambiguousColumn (some q) name) : BindResult E _) ↔
      1 < (scope.called q).length ∨ ∃ r, scope.called q = [r] ∧ 1 < (r.named name).length := by
  unfold verdict
  dsimp only
  rcases scope.called q with _ | ⟨r, _ | ⟨_, _⟩⟩
  · simp
  · rcases hr : r.named name with _ | ⟨_, _ | ⟨_, _⟩⟩ <;> simp [hr, Result.fail]
  · simp

theorem verdict_some_unknown :
    scope.verdict (some q) name = some (.fail (.unknownColumn (some q) name) : BindResult E _) ↔
      ∃ r, scope.called q = [r] ∧ r.named name = [] := by
  unfold verdict
  dsimp only
  rcases scope.called q with _ | ⟨r, _ | ⟨_, _⟩⟩
  · simp
  · rcases hr : r.named name with _ | ⟨_, _ | ⟨_, _⟩⟩ <;> simp [hr, Result.fail]
  · simp [Result.fail]

/-- Lists with at most one element have one order. -/
theorem eq_or_long_of_perm {α : Type} {xs ys : List α} (h : xs.Perm ys) :
    ys = xs ∨ 1 < xs.length ∧ 1 < ys.length := by
  rcases xs with _ | ⟨x, _ | ⟨x', xs⟩⟩
  · exact .inl h.symm.eq_nil
  · exact .inl h.symm.eq_singleton
  · have hlength : 1 < (x :: x' :: xs).length := by simp
    exact .inr ⟨hlength, h.length_eq ▸ hlength⟩

theorem verdict_perm (qualifier : Option String) {scope' : Scope} (h : scope.relations.Perm scope'.relations) :
    (scope'.verdict qualifier name : Option (BindResult E _)) = scope.verdict qualifier name := by
  cases qualifier with
  | none =>
    have hnamed : (scope.named name).Perm (scope'.named name) := h.flatMap_right _
    rcases eq_or_long_of_perm hnamed with heq | ⟨hlong, hlong'⟩
    · unfold verdict
      rw [heq]
    · rw [verdict_none_ambiguous.2 hlong, verdict_none_ambiguous.2 hlong']
  | some q =>
    have hcalled : (scope.called q).Perm (scope'.called q) := h.filter _
    rcases eq_or_long_of_perm hcalled with heq | ⟨hlong, hlong'⟩
    · unfold verdict
      dsimp only
      rw [heq]
    · rw [verdict_some_ambiguous.2 (.inl hlong), verdict_some_ambiguous.2 (.inl hlong')]

end

/-! ## The rules -/

theorem resolveColumn_reordered {context context' : BindContext} (h : context.Reordered context')
    (qualifier : Option String) (name : String) :
    (context'.resolveColumn qualifier name : BindResult E _) = context.resolveColumn qualifier name := by
  obtain ⟨scopes⟩ := context
  obtain ⟨scopes'⟩ := context'
  replace h : List.Forall₂ (fun s s' => s.relations.Perm s'.relations) scopes scopes' := h
  have hverdicts : scopes'.map (·.verdict qualifier name : Scope → Option (BindResult E _)) =
      scopes.map (·.verdict qualifier name) := by
    induction h with
    | nil => rfl
    | cons hscope _ ih => rw [List.map_cons, List.map_cons, verdict_perm qualifier hscope, ih]
  have hfind (scopes : List Scope) :
      scopes.reverse.findSome? (·.verdict qualifier name : Scope → Option (BindResult E _)) =
        (scopes.map (·.verdict qualifier name : Scope → Option (BindResult E _))).reverse.findSome? id := by
    rw [← List.map_reverse, List.findSome?_map]
    rfl
  unfold BindContext.resolveColumn
  rw [resolveIn_eq, resolveIn_eq, hfind, hfind, hverdicts]

/-- **The scoping rules.**  An unqualified name is a column exactly if the innermost scope that has a column of
the name has one of them.  A qualified name is decided by the innermost scope that has a relation of the
qualifier's name.  The order of the relations in a scope does not matter. -/
theorem resolveColumn_meets_scoping (context : BindContext) (name : String) :
    -- unqualified
    (∀ e, (context.resolveColumn none name : BindResult E _) = .ok e ↔
      ∃ scope, context.Innermost (·.named name ≠ []) scope ∧ scope.named name = [e]) ∧
    ((context.resolveColumn none name : BindResult E _) = .fail (.ambiguousColumn none name) ↔
      ∃ scope, context.Innermost (·.named name ≠ []) scope ∧ 1 < (scope.named name).length) ∧
    ((context.resolveColumn none name : BindResult E _) = .fail (.unknownColumn none name) ↔
      ∀ scope ∈ context.scopes, scope.named name = []) ∧
    -- qualified
    (∀ q e, (context.resolveColumn (some q) name : BindResult E _) = .ok e ↔
      ∃ scope, context.Innermost (·.called q ≠ []) scope ∧ ∃ r, scope.called q = [r] ∧ r.named name = [e]) ∧
    (∀ q, (context.resolveColumn (some q) name : BindResult E _) = .fail (.ambiguousColumn (some q) name) ↔
      ∃ scope, context.Innermost (·.called q ≠ []) scope ∧
        (1 < (scope.called q).length ∨ ∃ r, scope.called q = [r] ∧ 1 < (r.named name).length)) ∧
    (∀ q, (context.resolveColumn (some q) name : BindResult E _) = .fail (.unknownColumn (some q) name) ↔
      (∃ scope, context.Innermost (·.called q ≠ []) scope ∧ ∃ r, scope.called q = [r] ∧ r.named name = []) ∨
        ∀ scope ∈ context.scopes, scope.called q = []) ∧
    -- the order of the relations
    ∀ context', context.Reordered context' → ∀ qualifier,
      (context'.resolveColumn qualifier name : BindResult E _) = context.resolveColumn qualifier name := by
  refine ⟨?_, ?_, ?_, ?_, ?_, ?_, fun context' h qualifier => resolveColumn_reordered h qualifier name⟩
  · intro e
    rw [resolveColumn_iff]
    simp only [ne_eq, verdict_none_eq_none, verdict_none_ok, Result.fail, reduceCtorEq, and_false, or_false]
  · rw [resolveColumn_iff]
    simp only [ne_eq, verdict_none_eq_none, verdict_none_ambiguous]
    simp [Result.fail]
  · rw [resolveColumn_iff]
    simp only [ne_eq, verdict_none_eq_none, verdict_none_unknown, and_false, exists_false, false_or, and_true]
  · intro q e
    rw [resolveColumn_iff]
    simp only [ne_eq, verdict_some_eq_none, verdict_some_ok, Result.fail, reduceCtorEq, and_false, or_false]
  · intro q
    rw [resolveColumn_iff]
    simp only [ne_eq, verdict_some_eq_none, verdict_some_ambiguous]
    simp [Result.fail]
  · intro q
    rw [resolveColumn_iff]
    simp only [ne_eq, verdict_some_eq_none, verdict_some_unknown, and_true]

end ChiliDB.Binder

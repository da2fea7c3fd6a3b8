import ChiliDB.Lib.Fallible
import ChiliDB.Peg.Semantics
import Mathlib.Order.WellFounded
import Mathlib.Data.Fintype.EquivFin

/-!
# Validated grammars are total

A rule of a validated grammar matches or fails at every position of every input.  What is left of the
input decreases from one turn of a repetition to the next; while it stays the same a rule only calls
rules that are below it in the prefix graph, which has no cycle.

* `nulls_loops`, `nulls_fixed`, `nulls_least` — the loop of `validate` ends in the least fixpoint of
  `nullStep`.
* `Eval.nullable` — an expression that matches without reading anything is nullable.
* `Validated` — what `validate` has checked, and `validated_of_validate`.

Principal result: `validated_grammar_is_total`.
-/

namespace ChiliDB.Peg

open Effect (except_bind_ok forM_ok lt_of_get)
open List

variable {rules : List Rule} {names : Names} {null null' : List Bool} {d : Nat} {c c' : Cursor}

/-! ## The nullability loop -/

/-- Every rule that is nullable in the first is nullable in the second. -/
abbrev Below (null null' : List Bool) : Prop := List.Forall₂ (· ≤ ·) null null'

theorem Below.getD (h : Below null null') (i : Nat) : null[i]?.getD false ≤ null'[i]?.getD false := by
  induction h generalizing i with
  | nil => exact Bool.le_refl _
  | cons hab _ ih =>
    cases i with
    | zero => exact hab
    | succ i => exact ih i

theorem nullRef_mono (h : Below null null') (n : String) : nullRef names null n ≤ nullRef names null' n := by
  unfold nullRef
  cases names.lookup n with
  | none => exact Bool.le_refl _
  | some i => exact h.getD i

mutual

theorem nullable_mono (h : Below null null') : ∀ e : Expr, nullable names null e ≤ nullable names null' e
  | .ref n => nullRef_mono h n
  | .lit _ _ => Bool.le_refl _
  | .any => Bool.le_refl _
  | .class_ _ _ => Bool.le_refl _
  | .seq es => allNullable_mono h es
  | .choice es => anyNullable_mono h es
  | .optional _ => Bool.le_refl _
  | .predicate _ _ => Bool.le_refl _
  | .repeat_ _ false => Bool.le_refl _
  | .repeat_ e true => nullable_mono h e

theorem allNullable_mono (h : Below null null') : ∀ es : List Expr,
    allNullable names null es ≤ allNullable names null' es
  | [] => Bool.le_refl _
  | e :: es => by
    have he := nullable_mono h e
    have hes := allNullable_mono h es
    unfold allNullable
    revert he hes
    cases nullable names null e <;> cases nullable names null' e <;> simp

theorem anyNullable_mono (h : Below null null') : ∀ es : List Expr,
    anyNullable names null es ≤ anyNullable names null' es
  | [] => Bool.le_refl _
  | e :: es => by
    have he := nullable_mono h e
    have hes := anyNullable_mono h es
    unfold anyNullable
    revert he hes
    cases nullable names null e <;> cases nullable names null' e <;> simp

end

theorem nullStep_mono (h : Below null null') (rules : List Rule) :
    Below (nullStep names rules null) (nullStep names rules null') := by
  unfold nullStep
  induction rules with
  | nil => exact .nil
  | cons r rules ih => exact .cons (nullable_mono h r.expr) ih

theorem below_of_false : ∀ null : List Bool, Below (replicate null.length false) null
  | [] => .nil
  | _ :: null => .cons (Bool.false_le _) (below_of_false null)

theorem count_le (h : Below null null') : null.count true ≤ null'.count true := by
  induction h with
  | nil => exact Nat.le_refl _
  | @cons x y _ _ hxy _ ih =>
    have hbit : (if x == true then 1 else 0) ≤ if y == true then 1 else 0 := by
      revert hxy
      cases x <;> cases y <;> decide
    rw [count_cons, count_cons]
    omega

/-- One more rule is nullable. -/
theorem count_lt (h : Below null null') (hne : null' ≠ null) : null.count true < null'.count true := by
  induction h with
  | nil => exact absurd rfl hne
  | @cons x y xs ys hxy hrest ih =>
    rw [count_cons, count_cons]
    by_cases heq : y = x
    · subst heq
      have hlt := ih fun he => hne (by rw [he])
      omega
    · have hle := count_le hrest
      have hbit : (if x == true then 1 else 0) < if y == true then 1 else 0 := by
        revert hxy heq
        cases x <;> cases y <;> decide
      omega

/-- **The nullability loop ends**: every turn but the last makes one more rule nullable. -/
theorem nulls_loops (names : Names) (rules : List Rule) : ∃ n, n ≤ rules.length + 1 ∧
    Worklist.Loops (nullStep names rules) n (replicate rules.length false) (nulls names rules) := by
  have hlen : ∀ null, (nullStep names rules null).length = rules.length := fun _ => length_map ..
  have hstart := below_of_false (nullStep names rules (replicate rules.length false))
  rw [hlen] at hstart
  have hstep : ∀ null, null.length = rules.length ∧ Below null (nullStep names rules null) →
      nullStep names rules null ≠ null →
      ((nullStep names rules null).length = rules.length ∧
        Below (nullStep names rules null) (nullStep names rules (nullStep names rules null))) ∧
      null.count true < (nullStep names rules null).count true :=
    fun null hnull hne => ⟨⟨hlen null, nullStep_mono hnull.2 rules⟩, count_lt hnull.2 hne⟩
  have hbound : ∀ null : List Bool, null.length = rules.length ∧ Below null (nullStep names rules null) →
      null.count true ≤ rules.length := fun null hnull => hnull.1 ▸ count_le_length
  obtain ⟨n, hn, hloops⟩ := Worklist.fixFrom_loops hstep hbound (rules.length + 1)
    ⟨length_replicate, hstart⟩ (by omega)
  exact ⟨n, by omega, hloops⟩

/-- The loop ends in a solution of the equations. -/
theorem nulls_fixed (names : Names) (rules : List Rule) :
    nullStep names rules (nulls names rules) = nulls names rules := by
  obtain ⟨_, _, hloops⟩ := nulls_loops names rules
  exact hloops.fixed

/-- It stays below every solution of the equations, from the start on. -/
theorem nulls_least (hlen : null.length = rules.length) (hfixed : nullStep names rules null = null) :
    Below (nulls names rules) null := by
  obtain ⟨_, _, hloops⟩ := nulls_loops names rules
  refine hloops.invariant (P := fun null' => Below null' null) (fun null' hbelow => ?_) ?_
  · have hstep : Below (nullStep names rules null') (nullStep names rules null) := nullStep_mono hbelow rules
    rwa [hfixed] at hstep
  · rw [← hlen]
    exact below_of_false null

/-! ## Matches of the empty string -/

/-- What may match without reading anything. -/
def nullTask (names : Names) (null : List Bool) : Task → Bool
  | .expr e => nullable names null e
  | .rule i => null[i]?.getD false
  | .all es => allNullable names null es
  | .any es => anyNullable names null es
  | .more _ => true

/-- **An expression that matches without reading anything is nullable.** -/
theorem Eval.nullable (hfixed : nullStep names rules null = null) {task : Task} {t : List Event}
    {r : Outcome} (h : Eval rules names d task c t r) :
    ∀ {m : Cursor × List Node}, r = some m → m.1.rest.length = c.rest.length → nullTask names null task = true := by
  induction h with
  | @terminal _ e c _ he =>
    intro m hm hlen
    obtain ⟨c', hc', rfl⟩ := Option.map_eq_some_iff.1 hm
    cases e with
    | lit s insensitive =>
      cases he
      have hread := (matchText_reaches hc').2
      have hempty : s.toList = [] := length_eq_zero_iff.1 (by simp only at hlen; omega)
      show decide (s = "") = true
      exact decide_eq_true (String.toList_inj.1 hempty)
    | class_ ranges negated | any =>
      cases he
      have hread := (matchChar_reaches hc').2
      simp only at hlen
      omega
    | _ => cases he
  | @ref _ n i _ _ _ hn _ ih =>
    intro m hm hlen
    show nullRef names null n = true
    unfold nullRef
    rw [hn]
    exact ih hm hlen
  | seq _ ih | choice _ ih => exact ih
  | optional _ _ | predicate _ _ | allNil | moreDone _ _ | moreAgain _ _ _ _ => exact fun _ _ => rfl
  | @repeatNone _ _ one _ _ _ _ =>
    intro m hm _
    cases one with
    | true => cases hm
    | false => rfl
  | @repeatSome _ e one _ _ _ _ _ _ h1 h2 ih _ =>
    intro m hm hlen
    cases one with
    | false => rfl
    | true =>
      obtain ⟨m', rfl, rfl⟩ := Option.map_eq_some_iff.1 hm
      have hle := (h1.reaches rfl).length_le
      have hle' := (h2.reaches rfl).length_le
      simp only [behind] at hlen hle hle'
      exact ih rfl (by simp only; omega)
  | @rule _ i rule _ _ _ hi _ ih =>
    intro m hm hlen
    obtain ⟨m', rfl, rfl⟩ := Option.map_eq_some_iff.1 hm
    show null[i]?.getD false = true
    rw [← hfixed]
    unfold nullStep
    rw [getElem?_map, hi]
    exact ih rfl hlen
  | allFail _ _ | anyNil =>
    intro m hm
    cases hm
  | @allCons _ e es _ _ _ _ _ _ h1 h2 ih ih' =>
    intro m hm hlen
    obtain ⟨m', rfl, rfl⟩ := Option.map_eq_some_iff.1 hm
    have hle := (h1.reaches rfl).length_le
    have hle' := (h2.reaches rfl).length_le
    simp only [behind] at hlen hle hle'
    have he := ih rfl (by simp only; omega)
    have hes := ih' rfl (by omega)
    show (Peg.nullable names null e && allNullable names null es) = true
    exact Bool.and_eq_true_iff.2 ⟨he, hes⟩
  | anyFirst _ ih =>
    intro m hm hlen
    exact Bool.or_eq_true_iff.2 (.inl (ih hm hlen))
  | anyNext _ _ _ ih' =>
    intro m hm hlen
    exact Bool.or_eq_true_iff.2 (.inr (ih' hm hlen))

/-- **The nullability loop computes the least solution, and it is sound.**  It ends within one turn more than
there are rules, in the least solution of the nullability equations, and what matches without reading anything
is nullable there. -/
theorem nullability_least_and_sound (names : Names) (rules : List Rule) :
    (∃ n, n ≤ rules.length + 1 ∧ Worklist.Loops (nullStep names rules) n
      (List.replicate rules.length false) (nulls names rules)) ∧
    nullStep names rules (nulls names rules) = nulls names rules ∧
    (∀ null, null.length = rules.length → nullStep names rules null = null →
      Below (nulls names rules) null) ∧
    (∀ i d c t ns, Eval rules names d (.rule i) c t (some (c, ns)) → (nulls names rules)[i]? = some true) ∧
    ∀ e d c t ns, Eval rules names d (.expr e) c t (some (c, ns)) →
      nullable names (nulls names rules) e = true := by
  have hfixed := nulls_fixed names rules
  refine ⟨nulls_loops names rules, hfixed, fun null => nulls_least, ?_, ?_⟩
  · intro i d c t ns h
    have hnull : (nulls names rules)[i]?.getD false = true := h.nullable hfixed rfl rfl
    cases hi : (nulls names rules)[i]? with
    | none =>
      rw [hi] at hnull
      cases hnull
    | some b =>
      rw [hi] at hnull
      rw [show b = true from hnull]
  · intro e d c t ns h
    exact h.nullable hfixed rfl rfl

/-! ## What `validate` has checked -/

/-- The names are those of the rules. -/
theorem nameRules_ok : ∀ {rules : List Rule} {i : Nat} {names names' : Names},
    nameRules i names rules = .ok names' → ∀ (n : String) (j : Nat),
      names'.lookup n = some j ↔
        names.lookup n = some j ∨ ∃ k rule, j = i + k ∧ rules[k]? = some rule ∧ rule.name = n
  | [], i, names, names', h, n, j => by
    cases h
    simp
  | rule :: rules, i, names, names', h, n, j => by
    unfold nameRules at h
    split at h
    · cases h
    rename_i hnew
    rw [nameRules_ok h n j]
    by_cases hn : n = rule.name
    · subst hn
      rw [AList.lookup_insert, AList.lookup_eq_none.2 hnew]
      constructor
      · rintro (hj | ⟨k, rule', rfl, hk, hname⟩)
        · cases hj
          exact .inr ⟨0, rule, rfl, rfl, rfl⟩
        · exact .inr ⟨k + 1, rule', by omega, hk, hname⟩
      · rintro (hj | ⟨k, rule', rfl, hk, hname⟩)
        · cases hj
        · cases k with
          | zero => exact .inl rfl
          | succ k => exact .inr ⟨k, rule', by omega, hk, hname⟩
    · rw [AList.lookup_insert_ne hn]
      refine or_congr_right ⟨?_, ?_⟩
      · rintro ⟨k, rule', rfl, hk, hname⟩
        exact ⟨k + 1, rule', by omega, hk, hname⟩
      · rintro ⟨k, rule', rfl, hk, hname⟩
        cases k with
        | zero =>
          cases hk
          exact absurd hname.symm hn
        | succ k => exact ⟨k, rule', by omega, hk, hname⟩

/-- The rules with their numbers, the last one first, as `names` holds them. -/
def numbered (rules : List Rule) (i : Nat) : List (Sigma fun _ : String => Nat) :=
  ((rules.zipIdx i).map fun p => ⟨p.1.name, p.2⟩).reverse

theorem nameRules_entries : ∀ {rules : List Rule} {i : Nat} {names names' : Names},
    nameRules i names rules = .ok names' → names'.entries = numbered rules i ++ names.entries
  | [], i, names, names', h => by
    cases h
    rfl
  | rule :: rules, i, names, names', h => by
    unfold nameRules at h
    split at h
    · cases h
    rename_i hnew
    rw [nameRules_entries h, AList.entries_insert_of_notMem hnew]
    simp [numbered, zipIdx_cons]

theorem validate_entries (h : validate rules = .ok names) : names.entries = numbered rules 0 := by
  unfold validate at h
  obtain ⟨names', hnames, h1⟩ := except_bind_ok.1 h
  obtain ⟨_, _, h2⟩ := except_bind_ok.1 h1
  obtain ⟨_, _, h3⟩ := except_bind_ok.1 h2
  obtain ⟨_, _, h4⟩ := except_bind_ok.1 h3
  cases h4
  rw [nameRules_entries hnames]
  exact append_nil _

/-- A rule that `recursive` clears does not lead back to itself. -/
theorem recursive_false {edges : List (List Nat)} {i : Nat} (h : recursive edges i = false) :
    ∀ j ∈ edgesOf edges i, ¬ Relation.ReflTransGen (fun a b => b ∈ edgesOf edges a) j i := by
  have hnodes : ∀ j, edgesOf edges j ≠ [] → j ∈ List.range edges.length := by
    intro j hj
    rw [mem_range]
    by_contra hge
    unfold edgesOf at hj
    rw [getElem?_eq_none (by omega)] at hj
    exact hj rfl
  have hsome := Worklist.search_isSome hnodes i
    ((edgesOf edges i).length + Worklist.cost (edgesOf edges) (range edges.length) [] + 1)
    [] (edgesOf edges i) (by omega)
  unfold recursive at h
  obtain ⟨found, hfound⟩ := Option.isSome_iff_exists.1 hsome
  rw [hfound] at h
  have hfalse : found = false := h
  subst hfalse
  intro j hj
  exact Worklist.search_false _ hfound (fun x hx => by cases hx) j (.inr hj)

theorem checkRecursion_ok {edges : List (List Nat)} : ∀ {rules : List Rule} {i : Nat},
    checkRecursion edges i rules = .ok () → ∀ k, k < rules.length → recursive edges (i + k) = false
  | [], _, _, k, hk => by cases hk
  | rule :: rules, i, h, k, hk => by
    unfold checkRecursion at h
    split at h
    · cases h
    rename_i hi
    cases k with
    | zero => exact Bool.eq_false_iff.2 hi
    | succ k =>
      have hrest := checkRecursion_ok h k (Nat.lt_of_succ_lt_succ hk)
      rwa [Nat.add_assoc, Nat.add_comm 1 k] at hrest

/-- A grammar that `validate` accepts. -/
structure Validated (rules : List Rule) (names : Names) (null : List Bool) : Prop where
  named : ∀ (n : String) (i : Nat), names.lookup n = some i ↔ ∃ rule, rules[i]? = some rule ∧ rule.name = n
  defined : ∀ rule ∈ rules, walk (checkDefined names) rule.expr = .ok ()
  fixed : nullStep names rules null = null
  repeats : ∀ rule ∈ rules, walk (checkRepeat names null rule) rule.expr = .ok ()
  acyclic : ∀ i, i < rules.length →
    ∀ j ∈ edgesOf (rules.map fun rule => prefixes names null rule.expr) i,
      ¬ Relation.ReflTransGen
        (fun a b => b ∈ edgesOf (rules.map fun rule => prefixes names null rule.expr) a) j i

theorem validated_of_validate (h : validate rules = .ok names) : Validated rules names (nulls names rules) := by
  unfold validate at h
  obtain ⟨names', hnames, h1⟩ := except_bind_ok.1 h
  obtain ⟨_, hdefined, h2⟩ := except_bind_ok.1 h1
  obtain ⟨_, hrepeats, h3⟩ := except_bind_ok.1 h2
  obtain ⟨_, hrecursion, h4⟩ := except_bind_ok.1 h3
  cases h4
  constructor
  · intro n i
    rw [nameRules_ok hnames]
    simp
  · exact forM_ok.1 hdefined
  · exact nulls_fixed names rules
  · exact forM_ok.1 hrepeats
  · intro i hi
    have hclear := checkRecursion_ok hrecursion i hi
    rw [Nat.zero_add] at hclear
    exact recursive_false hclear

theorem checkDefined_ref {n : String} : checkDefined names (.ref n) = .ok () ↔ n ∈ names := by
  simp only [checkDefined]
  split <;> simp_all

theorem checkRepeat_repeat {rule : Rule} {e : Expr} {one : Bool} :
    checkRepeat names null rule (.repeat_ e one) = .ok () ↔ nullable names null e = false := by
  simp only [checkRepeat]
  split <;> simp_all

/-! ## Totality -/

/-- The rule matches or fails here, at any depth. -/
def RuleTotal (rules : List Rule) (names : Names) (i : Nat) (c : Cursor) : Prop :=
  ∀ d, ∃ t r, Eval rules names d (.rule i) c t r

/-- Every rule matches or fails wherever less of the input is left. -/
def ShorterTotal (rules : List Rule) (names : Names) (c : Cursor) : Prop :=
  ∀ c' : Cursor, c'.rest.length < c.rest.length → ∀ n i, names.lookup n = some i →
    RuleTotal rules names i c'

theorem ShorterTotal.mono (h : ShorterTotal rules names c) (hle : c'.rest.length ≤ c.rest.length) :
    ShorterTotal rules names c' :=
  fun c'' hlt => h c'' (Nat.lt_of_lt_of_le hlt hle)

mutual

theorem prefixes_named {j : Nat} : ∀ {e : Expr}, j ∈ prefixes names null e → ∃ n, names.lookup n = some j
  | .ref n, h => ⟨n, by simpa [prefixes] using h⟩
  | .seq es, h => seqPrefixes_named (show j ∈ seqPrefixes names null es from h)
  | .choice es, h => choicePrefixes_named (show j ∈ choicePrefixes names null es from h)
  | .optional e, h => prefixes_named (e := e) h
  | .repeat_ e _, h => prefixes_named (e := e) h
  | .predicate e _, h => prefixes_named (e := e) h
  | .lit _ _, h => by cases h
  | .class_ _ _, h => by cases h
  | .any, h => by cases h

theorem seqPrefixes_named {j : Nat} : ∀ {es : List Expr}, j ∈ seqPrefixes names null es →
    ∃ n, names.lookup n = some j
  | [], h => by cases h
  | e :: es, h => by
    unfold seqPrefixes at h
    rcases mem_append.1 h with h | h
    · exact prefixes_named h
    · split at h
      · exact seqPrefixes_named h
      · cases h

theorem choicePrefixes_named {j : Nat} : ∀ {es : List Expr}, j ∈ choicePrefixes names null es →
    ∃ n, names.lookup n = some j
  | [], h => by cases h
  | e :: es, h => by
    unfold choicePrefixes at h
    rcases mem_append.1 h with h | h
    · exact prefixes_named h
    · exact choicePrefixes_named h

end

theorem Eval.consumes {d : Nat} {e : Expr} {c c' : Cursor} {t : List Event} {ns : List Node}
    (h : Eval rules names d (.expr e) c t (some (c', ns))) (hfixed : nullStep names rules null = null)
    (hnull : Peg.nullable names null e = false) : c'.rest.length < c.rest.length := by
  refine Nat.lt_of_le_of_ne (h.reaches rfl).length_le fun hlen => ?_
  have hyes : Peg.nullable names null e = true := h.nullable hfixed rfl hlen
  rw [hnull] at hyes
  cases hyes

/-- A repetition ends: each turn reads something. -/
theorem more_total (hfixed : nullStep names rules null = null) {e : Expr}
    (hnull : nullable names null e = false) (n : Nat) : ∀ {c : Cursor}, c.rest.length < n →
    (∀ c' : Cursor, c'.rest.length ≤ c.rest.length → ∀ d, ∃ t r, Eval rules names d (.expr e) c' t r) →
    ∀ d, ∃ t r, Eval rules names d (.more e) c t r := by
  induction n with
  | zero =>
    intro c hlt
    cases hlt
  | succ n ih =>
    intro c hlt htotal d
    obtain ⟨t, r, h⟩ := htotal c (Nat.le_refl _) d
    cases r with
    | none => exact ⟨t, _, .moreDone h⟩
    | some m =>
      obtain ⟨c', ns⟩ := m
      have hlt := h.consumes hfixed hnull
      obtain ⟨t', r', h'⟩ := ih (c := c') (by omega) (fun c'' hc'' => htotal c'' (by omega)) d
      exact ⟨t ++ t', _, .moreAgain h h'⟩

mutual

/-- **An expression is total here if the rules it may call here are, and all rules are further on.** -/
theorem expr_total (hfixed : nullStep names rules null = null) {rule : Rule} : ∀ (e : Expr) {c : Cursor},
    walk (checkDefined names) e = .ok () → walk (checkRepeat names null rule) e = .ok () →
    (∀ j ∈ prefixes names null e, RuleTotal rules names j c) → ShorterTotal rules names c →
    ∀ d, ∃ t r, Eval rules names d (.expr e) c t r
  | .ref n, c, hdefined, _, hpre, _, d => by
    obtain ⟨i, hi⟩ := Option.isSome_iff_exists.1 (AList.lookup_isSome.2 (checkDefined_ref.1 hdefined))
    obtain ⟨t, r, h⟩ := hpre i (by simp [prefixes, hi]) (d + 1)
    exact ⟨_, r, .ref hi h⟩
  | .lit s insensitive, c, _, _, _, _, d => ⟨_, _, .terminal rfl⟩
  | .class_ ranges negated, c, _, _, _, _, d => ⟨_, _, .terminal rfl⟩
  | .any, c, _, _, _, _, d => ⟨_, _, .terminal rfl⟩
  | .seq es, c, hdefined, hrepeats, hpre, hshort, d => by
    obtain ⟨_, _, hdefined⟩ := except_bind_ok.1 hdefined
    obtain ⟨_, _, hrepeats⟩ := except_bind_ok.1 hrepeats
    obtain ⟨t, r, h⟩ := all_total hfixed es hdefined hrepeats hpre hshort (d + 1)
    exact ⟨_, r, .seq h⟩
  | .choice es, c, hdefined, hrepeats, hpre, hshort, d => by
    obtain ⟨_, _, hdefined⟩ := except_bind_ok.1 hdefined
    obtain ⟨_, _, hrepeats⟩ := except_bind_ok.1 hrepeats
    obtain ⟨t, r, h⟩ := any_total hfixed es hdefined hrepeats hpre hshort (d + 1)
    exact ⟨_, r, .choice h⟩
  | .optional e, c, hdefined, hrepeats, hpre, hshort, d => by
    obtain ⟨_, _, hdefined⟩ := except_bind_ok.1 hdefined
    obtain ⟨_, _, hrepeats⟩ := except_bind_ok.1 hrepeats
    obtain ⟨t, r, h⟩ := expr_total hfixed e hdefined hrepeats hpre hshort (d + 1)
    exact ⟨_, _, .optional h⟩
  | .predicate e positive, c, hdefined, hrepeats, hpre, hshort, d => by
    obtain ⟨_, _, hdefined⟩ := except_bind_ok.1 hdefined
    obtain ⟨_, _, hrepeats⟩ := except_bind_ok.1 hrepeats
    obtain ⟨t, r, h⟩ := expr_total hfixed e hdefined hrepeats hpre hshort (d + 1)
    exact ⟨_, _, .predicate h⟩
  | .repeat_ e one, c, hdefined, hrepeats, hpre, hshort, d => by
    obtain ⟨_, _, hdefined⟩ := except_bind_ok.1 hdefined
    obtain ⟨_, hrepeat, hrepeats⟩ := except_bind_ok.1 hrepeats
    have hnull := checkRepeat_repeat.1 hrepeat
    obtain ⟨t, r, h⟩ := expr_total hfixed e hdefined hrepeats hpre hshort (d + 1)
    cases r with
    | none => exact ⟨_, _, .repeatNone h⟩
    | some m =>
      obtain ⟨c', ns⟩ := m
      have hlt := h.consumes hfixed hnull
      have hmore : ∀ c'' : Cursor, c''.rest.length ≤ c'.rest.length →
          ∀ d, ∃ t r, Eval rules names d (.expr e) c'' t r := by
        intro c'' hc''
        refine expr_total hfixed e hdefined hrepeats (fun j hj => ?_) (hshort.mono (by omega))
        obtain ⟨n, hn⟩ := prefixes_named hj
        exact hshort c'' (by omega) n j hn
      obtain ⟨t', r', h'⟩ := more_total hfixed hnull (c'.rest.length + 1) (by omega) hmore (d + 1)
      exact ⟨_, _, .repeatSome h h'⟩

theorem all_total (hfixed : nullStep names rules null = null) {rule : Rule} :
    ∀ (es : List Expr) {c : Cursor},
    walkAll (checkDefined names) es = .ok () → walkAll (checkRepeat names null rule) es = .ok () →
    (∀ j ∈ seqPrefixes names null es, RuleTotal rules names j c) → ShorterTotal rules names c →
    ∀ d, ∃ t r, Eval rules names d (.all es) c t r
  | [], c, _, _, _, _, d => ⟨_, _, .allNil⟩
  | e :: es, c, hdefined, hrepeats, hpre, hshort, d => by
    obtain ⟨_, hdefinedE, hdefined⟩ := except_bind_ok.1 hdefined
    obtain ⟨_, hrepeatsE, hrepeats⟩ := except_bind_ok.1 hrepeats
    unfold seqPrefixes at hpre
    obtain ⟨t, r, h⟩ := expr_total hfixed e hdefinedE hrepeatsE (fun j hj => hpre j (mem_append_left _ hj)) hshort d
    cases r with
    | none => exact ⟨t, _, .allFail h⟩
    | some m =>
      obtain ⟨c', ns⟩ := m
      have hreaches : c.Reaches c' := h.reaches rfl
      have hle := hreaches.length_le
      have hpre' : ∀ j ∈ seqPrefixes names null es, RuleTotal rules names j c' := by
        intro j hj
        by_cases hlen : c'.rest.length = c.rest.length
        · -- nothing was read, so the element is nullable and the next one is still at the start
          have hyes : nullable names null e = true := h.nullable hfixed rfl hlen
          rw [hreaches.eq_of_length hlen]
          exact hpre j (mem_append_right _ (by rw [if_pos hyes]; exact hj))
        · obtain ⟨n, hn⟩ := seqPrefixes_named hj
          exact hshort c' (by omega) n j hn
      obtain ⟨t', r', h'⟩ := all_total hfixed es hdefined hrepeats hpre' (hshort.mono hle) d
      exact ⟨_, _, .allCons h h'⟩

theorem any_total (hfixed : nullStep names rules null = null) {rule : Rule} :
    ∀ (es : List Expr) {c : Cursor},
    walkAll (checkDefined names) es = .ok () → walkAll (checkRepeat names null rule) es = .ok () →
    (∀ j ∈ choicePrefixes names null es, RuleTotal rules names j c) → ShorterTotal rules names c →
    ∀ d, ∃ t r, Eval rules names d (.any es) c t r
  | [], c, _, _, _, _, d => ⟨_, _, .anyNil⟩
  | e :: es, c, hdefined, hrepeats, hpre, hshort, d => by
    obtain ⟨_, hdefinedE, hdefined⟩ := except_bind_ok.1 hdefined
    obtain ⟨_, hrepeatsE, hrepeats⟩ := except_bind_ok.1 hrepeats
    unfold choicePrefixes at hpre
    obtain ⟨t, r, h⟩ := expr_total hfixed e hdefinedE hrepeatsE (fun j hj => hpre j (mem_append_left _ hj)) hshort d
    cases r with
    | some m => exact ⟨t, _, .anyFirst h⟩
    | none =>
      obtain ⟨t', r', h'⟩ := any_total hfixed es hdefined hrepeats
        (fun j hj => hpre j (mem_append_right _ hj)) hshort d
      exact ⟨_, _, .anyNext h h'⟩

end

/-- The prefix graph of a validated grammar has no infinite path. -/
theorem Validated.wellFounded (h : Validated rules names null) : WellFounded fun j i : Fin rules.length =>
      j.val ∈ edgesOf (rules.map fun rule => prefixes names null rule.expr) i.val := by
  have hgen : ∀ {j i : Fin rules.length}, Relation.TransGen (fun j i : Fin rules.length =>
      j.val ∈ edgesOf (rules.map fun rule => prefixes names null rule.expr) i.val) j i →
      ∃ k ∈ edgesOf (rules.map fun rule => prefixes names null rule.expr) i.val,
        Relation.ReflTransGen
          (fun a b => b ∈ edgesOf (rules.map fun rule => prefixes names null rule.expr) a) k j.val := by
    intro j i hji
    induction hji with
    | single hedge => exact ⟨_, hedge, .refl⟩
    | tail _ hedge ih =>
      obtain ⟨k, hk, hreach⟩ := ih
      exact ⟨_, hedge, .head hk hreach⟩
  have hwf : WellFounded (Relation.TransGen fun j i : Fin rules.length =>
      j.val ∈ edgesOf (rules.map fun rule => prefixes names null rule.expr) i.val) := by
    refine @Finite.wellFounded_of_trans_of_irrefl _ _ _ ⟨fun _ _ _ => .trans⟩ ⟨fun i hi => ?_⟩
    obtain ⟨k, hk, hreach⟩ := hgen hi
    exact h.acyclic i.val i.isLt k hk hreach
  exact Subrelation.wf (fun hedge => .single hedge) hwf

/-- Every rule is total at every cursor with so much left. -/
theorem Validated.rule_total (h : Validated rules names null) (n : Nat) : ∀ {c : Cursor},
    c.rest.length < n → ∀ i : Fin rules.length, RuleTotal rules names i c := by
  induction n with
  | zero =>
    intro c hlt
    cases hlt
  | succ n ih =>
    intro c hlt i
    have hshort : ShorterTotal rules names c := by
      intro c' hc' name j hj
      obtain ⟨rule, hrule, _⟩ := (h.named name j).1 hj
      exact ih (by omega) ⟨j, lt_of_get hrule⟩
    -- down the prefix graph, at the same cursor
    induction i using h.wellFounded.induction with
    | _ i ihi =>
      intro d
      have hrule : rules[i.val]? = some (rules.get i) := getElem?_eq_getElem i.isLt
      have hmem : rules.get i ∈ rules := get_mem ..
      have hpre : ∀ j ∈ prefixes names null (rules.get i).expr, RuleTotal rules names j c := by
        intro j hj
        obtain ⟨name, hname⟩ := prefixes_named hj
        obtain ⟨rule, hr, _⟩ := (h.named name j).1 hname
        refine ihi ⟨j, lt_of_get hr⟩ ?_
        show j ∈ edgesOf _ i.val
        unfold edgesOf
        rw [getElem?_map, hrule]
        exact hj
      obtain ⟨t, r, heval⟩ := expr_total h.fixed (rules.get i).expr (h.defined _ hmem) (h.repeats _ hmem)
        hpre hshort (d + 1)
      exact ⟨_, _, .rule hrule heval⟩

/-- **Validated grammars are total.**  Every rule matches or fails at every position of every input, in
one way. -/
theorem validated_grammar_is_total (h : validate rules = .ok names) {i : Nat} (hi : i < rules.length)
    (c : Cursor) : ∃ t r, Eval rules names 0 (.rule i) c t r ∧
      ∀ t' r', Eval rules names 0 (.rule i) c t' r' → t' = t ∧ r' = r := by
  obtain ⟨t, r, heval⟩ := (validated_of_validate h).rule_total (c.rest.length + 1) (Nat.lt_succ_self _)
    ⟨i, hi⟩ 0
  exact ⟨t, r, heval, fun t' r' => eval_unique heval⟩

/-- The grammar `Root <- 'a' Root / '';`. -/
def exampleRules : List Rule :=
  [⟨"Root", .choice [.seq [.lit "a" false, .ref "Root"], .lit "" false]⟩]

theorem example_grammar_is_total : ∃ t r,
    Eval exampleRules (AList.singleton "Root" 0) 0 (.rule 0) (.start "aab") t r := by
  have hvalid : validate exampleRules = .ok (AList.singleton "Root" 0) := rfl
  obtain ⟨t, r, heval, _⟩ := validated_grammar_is_total hvalid (show 0 < 1 by decide) (.start "aab")
  exact ⟨t, r, heval⟩

end ChiliDB.Peg

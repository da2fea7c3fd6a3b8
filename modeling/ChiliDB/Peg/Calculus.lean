import ChiliDB.Peg.Agreement

/-!
# A calculus of matches

The semantics without the calls it counts: `Matches task c r` says that a task has this outcome at a cursor.
One equivalence for each form of expression, so that a match of a concrete grammar is taken apart, or put
together, by rewriting.

* `Matches.of_eval` — the depth at which a call starts does not matter.
* `Matches.unique` — outcomes are unique.
* `matches_seq`, `matches_choice`, … — the equivalences.
* `matches_ref` — a reference, in a grammar whose names are those of its rules.
-/

namespace ChiliDB.Peg

variable {rules : List Rule} {names : Names}

/-- The task has this outcome, at whatever depth it is called. -/
def Matches (rules : List Rule) (names : Names) (task : Task) (c : Cursor) (r : Outcome) : Prop :=
  ∀ d, ∃ t, Eval rules names d task c t r

/-- The task matches the whole of a text. -/
def Whole (rules : List Rule) (names : Names) (task : Task) (s : String) : Prop :=
  ∃ pos ns, Matches rules names task (.start s) (some (⟨pos, []⟩, ns))

variable {d : Nat} {task : Task} {c c' : Cursor} {t : List Event} {r : Outcome} {e : Expr} {es : List Expr}
  {task' task'' : Task} {c'' : Cursor} {r' r'' : Outcome}

/-- A task that makes one call, `k` levels deeper. -/
theorem Matches.lift (k : Nat) (h : Matches rules names task c r)
    (hcall : ∀ {d t}, Eval rules names (d + k) task c t r → ∃ t', Eval rules names d task' c' t' r') :
    Matches rules names task' c' r' := by
  intro d
  obtain ⟨t, h⟩ := h (d + k)
  exact hcall h

/-- A task that makes two calls. -/
theorem Matches.lift₂ (k : Nat) (h : Matches rules names task c r) (h' : Matches rules names task' c' r')
    (hcall : ∀ {d t t'}, Eval rules names (d + k) task c t r → Eval rules names (d + k) task' c' t' r' →
      ∃ t'', Eval rules names d task'' c'' t'' r'') : Matches rules names task'' c'' r'' := by
  intro d
  obtain ⟨t, h⟩ := h (d + k)
  obtain ⟨t', h'⟩ := h' (d + k)
  exact hcall h h'

/-- **The depth of a call does not change its outcome.** -/
theorem Matches.of_eval (h : Eval rules names d task c t r) : Matches rules names task c r := by
  induction h with
  | terminal he => exact fun d => ⟨_, .terminal he⟩
  | ref hn _ ih => exact ih.lift 1 fun h => ⟨_, .ref hn h⟩
  | seq _ ih => exact ih.lift 1 fun h => ⟨_, .seq h⟩
  | choice _ ih => exact ih.lift 1 fun h => ⟨_, .choice h⟩
  | optional _ ih => exact ih.lift 1 fun h => ⟨_, .optional h⟩
  | repeatNone _ ih => exact ih.lift 1 fun h => ⟨_, .repeatNone h⟩
  | repeatSome _ _ ih ih' => exact ih.lift₂ 1 ih' fun h h' => ⟨_, .repeatSome h h'⟩
  | predicate _ ih => exact ih.lift 1 fun h => ⟨_, .predicate h⟩
  | rule hi _ ih => exact ih.lift 1 fun h => ⟨_, .rule hi h⟩
  | allNil => exact fun d => ⟨_, .allNil⟩
  | allFail _ ih => exact ih.lift 0 fun h => ⟨_, .allFail h⟩
  | allCons _ _ ih ih' => exact ih.lift₂ 0 ih' fun h h' => ⟨_, .allCons h h'⟩
  | anyNil => exact fun d => ⟨_, .anyNil⟩
  | anyFirst _ ih => exact ih.lift 0 fun h => ⟨_, .anyFirst h⟩
  | anyNext _ _ ih ih' => exact ih.lift₂ 0 ih' fun h h' => ⟨_, .anyNext h h'⟩
  | moreDone _ ih => exact ih.lift 0 fun h => ⟨_, .moreDone h⟩
  | moreAgain _ _ ih ih' => exact ih.lift₂ 0 ih' fun h h' => ⟨_, .moreAgain h h'⟩

theorem Matches.unique (h : Matches rules names task c r) (h' : Matches rules names task c r') : r' = r := by
  obtain ⟨t, h⟩ := h 0
  obtain ⟨t', h'⟩ := h' 0
  exact (eval_unique h h').2

/-- A match ends behind the characters it has read. -/
theorem Matches.reaches {m : Cursor × List Node} (h : Matches rules names task c (some m)) : c.Reaches m.1 := by
  obtain ⟨t, h⟩ := h 0
  exact h.reaches rfl

/-! ## Terminals -/

theorem matches_terminal {m : Cursor → Option Cursor} (he : e.terminal = some m) :
    Matches rules names (.expr e) c r ↔ r = (m c).map fun c' => (c', []) := by
  constructor
  · intro h
    exact Matches.unique (fun d => ⟨_, .terminal he⟩) h
  · rintro rfl
    exact fun d => ⟨_, .terminal he⟩

/-! ## Sequences -/

theorem matches_seq : Matches rules names (.expr (.seq es)) c r ↔ Matches rules names (.all es) c r := by
  constructor
  · intro hm
    obtain ⟨t, h⟩ := hm 0
    cases h with
    | terminal he => cases he
    | seq h => exact .of_eval h
  · exact fun h => h.lift 1 fun h => ⟨_, .seq h⟩

theorem matches_all_nil : Matches rules names (.all []) c r ↔ r = some (c, []) := by
  constructor
  · intro hm
    obtain ⟨t, h⟩ := hm 0
    cases h
    rfl
  · rintro rfl
    exact fun d => ⟨_, .allNil⟩

theorem matches_all_cons : Matches rules names (.all (e :: es)) c r ↔
    (Matches rules names (.expr e) c none ∧ r = none) ∨
      ∃ c' ns r', Matches rules names (.expr e) c (some (c', ns)) ∧ Matches rules names (.all es) c' r' ∧
        r = r'.map (behind ns) := by
  constructor
  · intro hm
    obtain ⟨t, h⟩ := hm 0
    cases h with
    | allFail h => exact .inl ⟨.of_eval h, rfl⟩
    | allCons h h' => exact .inr ⟨_, _, _, .of_eval h, .of_eval h', rfl⟩
  · rintro (⟨h, rfl⟩ | ⟨c', ns, r', h, h', rfl⟩)
    · exact h.lift 0 fun h => ⟨_, .allFail h⟩
    · exact h.lift₂ 0 h' fun h h' => ⟨_, .allCons h h'⟩

/-! ## Choices -/

theorem matches_choice : Matches rules names (.expr (.choice es)) c r ↔ Matches rules names (.any es) c r := by
  constructor
  · intro hm
    obtain ⟨t, h⟩ := hm 0
    cases h with
    | terminal he => cases he
    | choice h => exact .of_eval h
  · exact fun h => h.lift 1 fun h => ⟨_, .choice h⟩

theorem matches_any_nil : Matches rules names (.any []) c r ↔ r = none := by
  constructor
  · intro hm
    obtain ⟨t, h⟩ := hm 0
    cases h
    rfl
  · rintro rfl
    exact fun d => ⟨_, .anyNil⟩

theorem matches_any_cons : Matches rules names (.any (e :: es)) c r ↔
    (∃ m, Matches rules names (.expr e) c (some m) ∧ r = some m) ∨
      Matches rules names (.expr e) c none ∧ Matches rules names (.any es) c r := by
  constructor
  · intro hm
    obtain ⟨t, h⟩ := hm 0
    cases h with
    | anyFirst h => exact .inl ⟨_, .of_eval h, rfl⟩
    | anyNext h h' => exact .inr ⟨.of_eval h, .of_eval h'⟩
  · rintro (⟨m, h, rfl⟩ | ⟨h, h'⟩)
    · exact h.lift 0 fun h => ⟨_, .anyFirst h⟩
    · exact h.lift₂ 0 h' fun h h' => ⟨_, .anyNext h h'⟩

/-! ## Options, repetitions, predicates -/

theorem matches_optional : Matches rules names (.expr (.optional e)) c r ↔
    ∃ r', Matches rules names (.expr e) c r' ∧ r = some (r'.getD (c, [])) := by
  constructor
  · intro hm
    obtain ⟨t, h⟩ := hm 0
    cases h with
    | terminal he => cases he
    | optional h => exact ⟨_, .of_eval h, rfl⟩
  · rintro ⟨r', h, rfl⟩
    exact h.lift 1 fun h => ⟨_, .optional h⟩

theorem matches_more : Matches rules names (.more e) c r ↔
    (Matches rules names (.expr e) c none ∧ r = some (c, [])) ∨
      ∃ c' ns r', Matches rules names (.expr e) c (some (c', ns)) ∧ Matches rules names (.more e) c' r' ∧
        r = r'.map (behind ns) := by
  constructor
  · intro hm
    obtain ⟨t, h⟩ := hm 0
    cases h with
    | moreDone h => exact .inl ⟨.of_eval h, rfl⟩
    | moreAgain h h' => exact .inr ⟨_, _, _, .of_eval h, .of_eval h', rfl⟩
  · rintro (⟨h, rfl⟩ | ⟨c', ns, r', h, h', rfl⟩)
    · exact h.lift 0 fun h => ⟨_, .moreDone h⟩
    · exact h.lift₂ 0 h' fun h h' => ⟨_, .moreAgain h h'⟩

theorem matches_repeat {one : Bool} : Matches rules names (.expr (.repeat_ e one)) c r ↔
    (Matches rules names (.expr e) c none ∧ r = if one then none else some (c, [])) ∨
      ∃ c' ns r', Matches rules names (.expr e) c (some (c', ns)) ∧ Matches rules names (.more e) c' r' ∧
        r = r'.map (behind ns) := by
  constructor
  · intro hm
    obtain ⟨t, h⟩ := hm 0
    cases h with
    | terminal he => cases he
    | repeatNone h => exact .inl ⟨.of_eval h, rfl⟩
    | repeatSome h h' => exact .inr ⟨_, _, _, .of_eval h, .of_eval h', rfl⟩
  · rintro (⟨h, rfl⟩ | ⟨c', ns, r', h, h', rfl⟩)
    · exact h.lift 1 fun h => ⟨_, .repeatNone h⟩
    · exact h.lift₂ 1 h' fun h h' => ⟨_, .repeatSome h h'⟩

theorem matches_many : Matches rules names (.expr (.repeat_ e false)) c r ↔ Matches rules names (.more e) c r := by
  rw [matches_more, matches_repeat]
  rfl

theorem matches_predicate {positive : Bool} : Matches rules names (.expr (.predicate e positive)) c r ↔
    ∃ r' : Outcome, Matches rules names (.expr e) c r' ∧
      r = if r'.isSome = positive then some (c, []) else none := by
  constructor
  · intro hm
    obtain ⟨t, h⟩ := hm 0
    cases h with
    | terminal he => cases he
    | predicate h => exact ⟨_, .of_eval h, rfl⟩
  · rintro ⟨r', h, rfl⟩
    exact h.lift 1 fun h => ⟨_, .predicate h⟩

/-! ## Rules -/

variable {i : Nat} {rule : Rule} {null : List Bool}

theorem matches_rule (hi : rules[i]? = some rule) :
    Matches rules names (.rule i) c r ↔
      ∃ r', Matches rules names (.expr rule.expr) c r' ∧ r = r'.map (rule.close c) := by
  constructor
  · intro hm
    obtain ⟨t, h⟩ := hm 0
    cases h with
    | rule hi' h =>
      rw [hi] at hi'
      cases hi'
      exact ⟨_, .of_eval h, rfl⟩
  · rintro ⟨r', h, rfl⟩
    exact h.lift 1 fun h => ⟨_, .rule hi h⟩

theorem matches_ref_rule {n : String} (hn : names.lookup n = some i) :
    Matches rules names (.expr (.ref n)) c r ↔ Matches rules names (.rule i) c r := by
  constructor
  · intro hm
    obtain ⟨t, h⟩ := hm 0
    cases h with
    | terminal he => cases he
    | ref hn' h =>
      rw [hn] at hn'
      cases hn'
      exact .of_eval h
  · exact fun h => h.lift 1 fun h => ⟨_, .ref hn h⟩

/-- A reference to a rule of the grammar. -/
theorem matches_ref (h : Validated rules names null) (hi : rules[i]? = some rule) :
    Matches rules names (.expr (.ref rule.name)) c r ↔
      ∃ r', Matches rules names (.expr rule.expr) c r' ∧ r = r'.map (rule.close c) := by
  rw [matches_ref_rule ((h.named rule.name i).2 ⟨rule, hi, rfl⟩), matches_rule hi]

/-! ## Parses -/

/-- The parser has hit one of its limits. -/
def ParseError.IsLimit (error : ParseError) : Prop :=
  error.expected = [recursionLimit] ∨ error.expected = [workLimit]

theorem spend_error {lim : String × Nat} : ∀ {t : List Event} {fuel : Nat}, spend fuel t = .error lim →
    lim.1 = recursionLimit ∨ lim.1 = workLimit
  | [], _, h => by cases h
  | event :: t, fuel, h => by
    unfold spend at h
    split at h
    · cases h
      exact .inl rfl
    · split at h
      · split at h
        · cases h
          exact .inr rfl
        · exact spend_error h
      · exact spend_error h

/-- **A parse that hits no limit says whether the rule matches the whole input.** -/
theorem parseRule_cases (debug : Debug) (h : Validated rules names null) (hi : rules[i]? = some rule)
    (input : String) :
    (∃ error, parseRule debug rules names rule.name input = .error error ∧ error.IsLimit) ∨
    (∃ pos ns, Matches rules names (.rule i) (.start input) (some (⟨pos, []⟩, ns)) ∧
      parseRule debug rules names rule.name input = .ok (root rule.name input ns)) ∨
    (∃ error r, parseRule debug rules names rule.name input = .error error ∧ error.Ordinary ∧
      Matches rules names (.rule i) (.start input) r ∧ ∀ pos ns, r ≠ some (⟨pos, []⟩, ns)) := by
  obtain ⟨hlt, _⟩ := List.getElem?_eq_some_iff.1 hi
  obtain ⟨t, r, heval⟩ := h.rule_total _ (Nat.lt_succ_self (Cursor.start input).rest.length) ⟨i, hlt⟩ 0
  have hready : Ready 513 0 (.start input) (.start input) := ⟨rfl, by decide, rfl, rfl, rfl⟩
  have hanswers : Answers rule.name input (spend 1000000 t) r (parseRule debug rules names rule.name input) := by
    unfold parseRule
    rw [h.findIdx hi]
    exact answers_of_follows heval.reaches (run_follows heval hready)
  generalize hspend : spend 1000000 t = budget at hanswers
  generalize parseRule debug rules names rule.name input = answer at hanswers
  cases hanswers with
  | limit =>
    refine .inl ⟨_, rfl, ?_⟩
    rcases spend_error hspend with hm | hm
    · exact .inl (congrArg (fun m => [m]) hm)
    · exact .inr (congrArg (fun m => [m]) hm)
  | tree => exact .inr (.inl ⟨_, _, .of_eval heval, rfl⟩)
  | trailing hrest hordinary =>
    refine .inr (.inr ⟨_, _, rfl, hordinary, .of_eval heval, fun pos ns he => hrest ?_⟩)
    cases he
    rfl
  | mismatch hordinary =>
    exact .inr (.inr ⟨_, _, rfl, hordinary, .of_eval heval, fun pos ns he => by cases he⟩)

/-- What a parse that succeeds has matched. -/
theorem matches_of_parseRule {debug : Debug} (h : Validated rules names null) (hi : rules[i]? = some rule)
    {input : String} {node : Node} (hparse : parseRule debug rules names rule.name input = .ok node) :
    ∃ pos ns, Matches rules names (.rule i) (.start input) (some (⟨pos, []⟩, ns)) ∧
      node = root rule.name input ns := by
  rcases parseRule_cases debug h hi input with ⟨e, he, _⟩ | ⟨pos, ns, hm, hr⟩ | ⟨e, _, he, _⟩
  · rw [hparse] at he
    cases he
  · rw [hparse] at hr
    cases hr
    exact ⟨pos, ns, hm, rfl⟩
  · rw [hparse] at he
    cases he

/-- A match of the whole input is parsed, or a limit is hit. -/
theorem parseRule_of_matches (debug : Debug) (h : Validated rules names null) (hi : rules[i]? = some rule)
    {input : String} {pos : Nat} {ns : List Node}
    (hm : Matches rules names (.rule i) (.start input) (some (⟨pos, []⟩, ns))) :
    parseRule debug rules names rule.name input = .ok (root rule.name input ns) ∨
      ∃ error, parseRule debug rules names rule.name input = .error error ∧ error.IsLimit := by
  rcases parseRule_cases debug h hi input with hlimit | ⟨pos', ns', hm', hr⟩ | ⟨e, r, _, _, hm', hne⟩
  · exact .inr hlimit
  · cases hm.unique hm'
    exact .inl hr
  · exact absurd (hm.unique hm') (hne pos ns)

end ChiliDB.Peg

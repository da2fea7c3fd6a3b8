import ChiliDB.Peg.Calculus
import ChiliDB.Peg.Text

/-!
# Furthest failures

The error of a generated parser is an accumulator that is updated while the parser backtracks.  Here the
failures of a parse are a relation of the semantics.

* `Reports`, `Next`, `Failed` — a call that fails of itself, the calls that a call makes outside of predicates,
  and the failures that are reached by them.
* `Furthest F error` — the error is the furthest of the failures in `F`, with all expectations there.
* `Collects F s s'` — between the two states the parser has recorded the failures in `F`.
* `run_gathers` — every generated function records the failures of its call.

Principal result: `errors_are_furthest_failures`.
-/

namespace ChiliDB.Peg

/-! ## Failures -/

variable (debug : Debug) (rules : List Rule) (names : Names)

/-- A literal, a class or `.` that does not match here, or a predicate that does not hold. -/
def Reports : Task → Cursor → Nat × String → Prop
  | .expr (.predicate e positive), c, f => f = (c.pos, (Expr.predicate e positive).expectation debug) ∧
      Matches rules names (.expr (.predicate e positive)) c none
  | .expr e, c, f => f = (c.pos, e.expectation debug) ∧ ∃ m, e.terminal = some m ∧ m c = none
  | _, _, _ => False

/-- The second task is tried for the first.  No task is tried for a predicate. -/
def Next : Task → Cursor → Task → Cursor → Prop
  | .expr (.ref n), c, task, c' => (∃ i, names.lookup n = some i ∧ task = .rule i) ∧ c' = c
  | .rule i, c, task, c' => (∃ rule, rules[i]? = some rule ∧ task = .expr rule.expr) ∧ c' = c
  | .expr (.seq es), c, task, c' => task = .all es ∧ c' = c
  | .expr (.choice es), c, task, c' => task = .any es ∧ c' = c
  | .expr (.optional e), c, task, c' => task = .expr e ∧ c' = c
  | .expr (.repeat_ e _), c, task, c' => task = .more e ∧ c' = c
  | .all (e :: es), c, task, c' => (task = .expr e ∧ c' = c) ∨
      (task = .all es ∧ ∃ ns, Matches rules names (.expr e) c (some (c', ns)))
  | .any (e :: es), c, task, c' => (task = .expr e ∧ c' = c) ∨
      (task = .any es ∧ c' = c ∧ Matches rules names (.expr e) c none)
  | .more e, c, task, c' => (task = .expr e ∧ c' = c) ∨
      (task = .more e ∧ ∃ ns, Matches rules names (.expr e) c (some (c', ns)))
  | _, _, _, _ => False

/-- A failure outside of predicates: where, and what was expected there. -/
inductive Failed : Task → Cursor → Nat × String → Prop where
  | here {task : Task} {c : Cursor} {f : Nat × String} : Reports debug rules names task c f → Failed task c f
  | next {task task' : Task} {c c' : Cursor} {f : Nat × String} :
      Next rules names task c task' c' → Failed task' c' f → Failed task c f

variable {debug rules names} {d : Nat} {task : Task} {c c' : Cursor} {t t' : List Event} {r : Outcome} {e : Expr}
  {es : List Expr} {ns : List Node} {task1 task2 : Task} {c1 c2 : Cursor} {f : Nat × String}
  {F G : Nat × String → Prop} {s s' s'' : State} {left : Nat}

theorem failed_iff : Failed debug rules names task c f ↔ Reports debug rules names task c f ∨
    ∃ task' c', Next rules names task c task' c' ∧ Failed debug rules names task' c' f := by
  constructor
  · intro h
    cases h with
    | here h => exact .inl h
    | next hn h => exact .inr ⟨_, _, hn, h⟩
  · rintro (h | ⟨task', c', hn, h⟩)
    · exact .here h
    · exact .next hn h

theorem Matches.iff_eq (h : Matches rules names task c r) (r' : Outcome) : Matches rules names task c r' ↔ r' = r :=
  ⟨h.unique, fun he => he ▸ h⟩

/-! ## The furthest failures -/

structure Furthest (F : Nat × String → Prop) (error : ParseError) : Prop where
  nodup : error.expected.Nodup
  bound : ∀ f, F f → f.1 ≤ error.offset
  mem_iff : ∀ x, x ∈ error.expected ↔ F (error.offset, x)
  initial : error.expected = [] → error.offset = 0

variable {error : ParseError}

theorem Furthest.congr (h : Furthest F error) (hG : ∀ f, G f ↔ F f) : Furthest G error := by
  obtain rfl : G = F := funext fun f => propext (hG f)
  exact h

theorem Furthest.expected_ne_nil (h : Furthest F error) (hf : F f) : error.expected ≠ [] := by
  intro hnil
  have hpos : f.1 = error.offset := by
    have hle := h.bound f hf
    have hzero := h.initial hnil
    omega
  have hmem : f.2 ∈ error.expected := (h.mem_iff _).2 (hpos ▸ hf)
  simp [hnil] at hmem

theorem furthest_add (h : Furthest F error) (x : String) :
    Furthest (fun f => F f ∨ f = (error.offset, x)) (error.add x) := by
  have hbound : ∀ f, F f ∨ f = (error.offset, x) → f.1 ≤ error.offset := by
    rintro f (hf | rfl)
    · exact h.bound f hf
    · exact Nat.le_refl _
  unfold ParseError.add
  split
  · rename_i hx
    refine ⟨h.nodup, hbound, fun y => ?_, h.initial⟩
    rw [h.mem_iff, Prod.mk.injEq, iff_self_or]
    rintro ⟨_, rfl⟩
    exact (h.mem_iff y).1 hx
  · rename_i hx
    refine ⟨?_, hbound, fun y => ?_, by simp⟩
    · exact List.nodup_append.2 ⟨h.nodup, List.nodup_singleton x,
        by simpa using fun a ha => ne_of_mem_of_not_mem ha hx⟩
    · rw [List.mem_append, h.mem_iff, List.mem_singleton, Prod.mk.injEq]
      simp

theorem furthest_advance (h : Furthest F error) {pos : Nat} (hle : error.offset ≤ pos)
    (x : String) : Furthest (fun f => F f ∨ f = (pos, x)) ((error.advance pos).add x) := by
  unfold ParseError.advance
  split
  · rename_i hlt
    refine ⟨List.nodup_singleton x, ?_, fun y => ?_, by simp [ParseError.add]⟩
    · rintro f (hf | rfl)
      · exact Nat.le_trans (h.bound f hf) hle
      · exact Nat.le_refl _
    · have hnot : ¬F (pos, y) := fun hf => absurd (h.bound _ hf) (by simp; omega)
      simp [ParseError.add, hnot]
  · obtain rfl : pos = error.offset := by omega
    exact furthest_add h x

/-- A predicate has its failures suppressed. -/
structure Collects (F : Nat × String → Prop) (s s' : State) : Prop where
  suppressed : s.suppressedErrors ≠ 0 → s'.error = s.error
  furthest : s.suppressedErrors = 0 → ∀ {G : Nat × String → Prop}, Furthest G s.error →
    Furthest (fun f => G f ∨ F f) s'.error

theorem Collects.nothing (h : s'.error = s.error) (hF : ∀ f, ¬F f) : Collects F s s' := by
  refine ⟨fun _ => h, fun _ G hG => ?_⟩
  simpa [h, hF] using hG

theorem Collects.congr (h : Collects F s s') (hG : ∀ f, G f ↔ F f) : Collects G s s' := by
  obtain rfl : G = F := funext fun f => propext (hG f)
  exact h

theorem Collects.trans (h : Collects F s s') (hs : s'.suppressedErrors = s.suppressedErrors)
    (h' : Collects G s' s'') : Collects (fun f => F f ∨ G f) s s'' := by
  constructor
  · intro hne
    rw [h'.suppressed (hs ▸ hne), h.suppressed hne]
  · intro hzero H hH
    have hall := h'.furthest (hs ▸ hzero) (h.furthest hzero hH)
    simpa only [or_assoc] using hall

/-- A task that tries one other. -/
theorem Collects.one (h : Collects (Failed debug rules names task1 c1) s s')
    (hreports : ∀ f, ¬Reports debug rules names task c f)
    (hnext : ∀ task' c', Next rules names task c task' c' ↔ task' = task1 ∧ c' = c1) :
    Collects (Failed debug rules names task c) s s' :=
  h.congr fun f => by
    rw [failed_iff]
    simp [hreports, hnext]

/-- A task that tries two others. -/
theorem Collects.two
    (h : Collects (fun f => Failed debug rules names task1 c1 f ∨ Failed debug rules names task2 c2 f) s s')
    (hreports : ∀ f, ¬Reports debug rules names task c f)
    (hnext : ∀ task' c', Next rules names task c task' c' ↔ task' = task1 ∧ c' = c1 ∨ task' = task2 ∧ c' = c2) :
    Collects (Failed debug rules names task c) s s' :=
  h.congr fun f => by
    rw [failed_iff]
    simp [hreports, hnext, or_and_right, exists_or]

theorem collects_expect (hlimited : s.limited = false) (x : String) :
    Collects (fun f => f = (s.cursor.pos, x)) s (s.expect x) := by
  unfold State.expect
  constructor
  · intro hne
    rw [if_pos (by simp; omega)]
  · intro hzero G hG
    split
    · rename_i hskip
      have hlt : s.cursor.pos < s.error.offset := by simpa [hlimited, hzero] using hskip
      refine ⟨hG.nodup, ?_, fun y => ?_, hG.initial⟩
      · rintro f (hf | rfl)
        · exact hG.bound f hf
        · exact Nat.le_of_lt hlt
      · have hne : ¬(s.error.offset = s.cursor.pos ∧ y = x) := by omega
        simp [hG.mem_iff, hne]
    · rename_i hskip
      have hle : s.error.offset ≤ s.cursor.pos := by
        simp only [hlimited, hzero] at hskip
        simpa using hskip
      exact furthest_advance hG hle x

/-! ## Generated functions -/

/-- What the function of a task has recorded. -/
def Gathers (debug : Debug) (rules : List Rule) (names : Names) (levels : Nat) (s : State)
    (F : Nat × String → Prop) : Task → Prop
  | .expr e => Collects F s (run debug rules names levels (.expr e) s).2
  | .rule i => Collects F s (run debug rules names levels (.rule i) s).2
  | .all es => Collects F s (seqBody (run debug rules names levels) es s).2
  | .any es => Collects F s (choiceBody (run debug rules names levels) es s).2
  | .more e => ∀ {turns : Nat}, s.fuel < turns → Collects F s (loop (run debug rules names levels) e turns s).2

theorem Ready.gathers_expr {levels : Nat} (h : Ready levels d c s)
    (hspend : spend s.fuel (⟨true, d, c.pos⟩ :: t) = .ok left)
    (hbody : ∀ {levels : Nat} {s' : State}, Ready levels (d + 1) c s' → spend s'.fuel t = .ok left →
      Collects F s' (body debug names (run debug rules names levels) e s'.cursor s'.nodes.length s').2) :
    Collects F s (run debug rules names levels (.expr e) s).2 := by
  obtain ⟨hlevels, hroom, rfl, rfl, hlimited⟩ := h
  obtain ⟨levels, rfl⟩ : ∃ n, levels = n + 1 := ⟨levels - 1, by omega⟩
  simp only [spend, ↓reduceIte] at hspend
  split at hspend
  · cases hspend
  rename_i hdepth
  split at hspend
  · cases hspend
  rename_i hfuel
  have hready : Ready levels (s.depth + 1) s.cursor { s with fuel := s.fuel - 1, depth := s.depth + 1 } :=
    ⟨by omega, by omega, rfl, rfl, hlimited⟩
  have h := hbody hready hspend
  show Collects F s (exprFn debug names (run debug rules names levels) e s).2
  rw [exprFn, if_neg (by simp [hlimited]), if_neg hdepth, if_neg hfuel]
  generalize body debug names (run debug rules names levels) e _ _ _ = out at h ⊢
  obtain ⟨ok, s'⟩ := out
  cases ok <;> exact ⟨h.suppressed, h.furthest⟩

theorem Ready.gathers_rule {levels i : Nat} {rule : Rule} (hi : rules[i]? = some rule) (h : Ready levels d c s)
    (hspend : spend s.fuel (⟨false, d, c.pos⟩ :: t) = .ok left)
    (hcall : ∀ {levels : Nat} {s' : State}, Ready levels (d + 1) c s' → spend s'.fuel t = .ok left →
      Collects F s' (run debug rules names levels (.expr rule.expr) s').2) :
    Collects F s (run debug rules names levels (.rule i) s).2 := by
  obtain ⟨hlevels, hroom, rfl, rfl, hlimited⟩ := h
  obtain ⟨levels, rfl⟩ : ∃ n, levels = n + 1 := ⟨levels - 1, by omega⟩
  simp only [spend, Bool.false_eq_true, ↓reduceIte] at hspend
  split at hspend
  · cases hspend
  rename_i hdepth
  have hready : Ready levels (s.depth + 1) s.cursor { s with depth := s.depth + 1 } :=
    ⟨by omega, by omega, rfl, rfl, hlimited⟩
  have h := hcall hready hspend
  simp only [run, hi]
  rw [ruleFn, if_neg (by simp [hlimited]), if_neg hdepth]
  generalize run debug rules names levels (.expr rule.expr) _ = out at h ⊢
  obtain ⟨ok, s'⟩ := out
  cases ok with
  | false => exact ⟨h.suppressed, h.furthest⟩
  | true =>
    unfold closeRule
    dsimp only
    split <;> exact ⟨h.suppressed, h.furthest⟩

/-- The state after a call within the limits. -/
theorem Eval.called (h : Eval rules names d (.expr e) c t r) {levels : Nat} (hready : Ready levels d c s)
    (hspend : spend s.fuel t = .ok left) (hgathers : Gathers debug rules names levels s F (.expr e)) :
    ∃ s', run debug rules names levels (.expr e) s = (r.isSome, s') ∧ Kept s left s' ∧
      s'.cursor = (r.map Prod.fst).getD c ∧ Collects F s s' := by
  have hret : Returned s left r (run debug rules names levels (.expr e) s) := (run_follows h hready).returned hspend
  refine ⟨_, Prod.ext hret.ok rfl, hret.toKept, ?_, hgathers⟩
  cases r with
  | none => exact (hret.restored rfl).1.trans hready.cursor
  | some m => exact (hret.matched rfl).1

theorem collects_terminal {call : Calls} {m : Cursor → Option Cursor} {start : Cursor} {mark : Nat}
    (hlimited : s.limited = false) (he : e.terminal = some m) :
    Collects (Failed debug rules names (.expr e) s.cursor) s (body debug names call e start mark s).2 := by
  have hfailed (f) : Failed debug rules names (.expr e) s.cursor f ↔
      f = (s.cursor.pos, e.expectation debug) ∧ m s.cursor = none := by
    rw [failed_iff]
    cases e <;> cases he <;> simp [Reports, Next, Expr.terminal]
  refine .congr ?_ hfailed
  rw [body_terminal he]
  cases m s.cursor with
  | some c => exact .nothing rfl (by simp)
  | none => simpa using collects_expect hlimited (e.expectation debug)

theorem predicateEnd_state {positive matched : Bool} (h : s.limited = false) :
    (predicateEnd positive matched s).2 = if matched = positive then s
      else s.expect (if positive then "positive predicate" else "negative predicate") := by
  unfold predicateEnd
  by_cases hm : matched = positive <;> simp [hm, h]

/-- The failures of the body are dropped; the predicate reports its own. -/
theorem collects_predicate {call : Calls} {positive : Bool}
    (hcall : call (.expr e) { s with suppressedErrors := s.suppressedErrors + 1 } = (r.isSome, s'))
    (hkept : Kept { s with suppressedErrors := s.suppressedErrors + 1 } left s')
    (h : Collects F { s with suppressedErrors := s.suppressedErrors + 1 } s')
    (hmatches : Matches rules names (.expr e) s.cursor r) :
    Collects (Failed debug rules names (.expr (.predicate e positive)) s.cursor) s
      (predicateBody call e positive s.cursor s.nodes.length s).2 := by
  have herror : s'.error = s.error := h.suppressed (by simp)
  have hsuppressed : s'.suppressedErrors - 1 = s.suppressedErrors := by
    rw [show s'.suppressedErrors = s.suppressedErrors + 1 from hkept.suppressed, Nat.add_sub_cancel]
  have hfailed (f) : Failed debug rules names (.expr (.predicate e positive)) s.cursor f ↔
      f = (s.cursor.pos, (Expr.predicate e positive).expectation debug) ∧ r.isSome ≠ positive := by
    rw [failed_iff]
    simp [Reports, Next, matches_predicate, hmatches.iff_eq]
  refine .congr ?_ hfailed
  rw [predicateBody, hcall]
  dsimp only
  rw [predicateEnd_state (by exact hkept.limited)]
  by_cases hm : r.isSome = positive
  · rw [if_pos hm]
    exact .nothing herror (by simp [hm])
  · rw [if_neg hm]
    have hexpect := collects_expect (s := { s' with
      suppressedErrors := s'.suppressedErrors - 1, cursor := s.cursor, nodes := s'.nodes.take s.nodes.length })
      hkept.limited ((Expr.predicate e positive).expectation debug)
    simp only [hm, ne_eq, not_false_eq_true, and_true]
    refine ⟨fun hne => ?_, fun hzero G hG => ?_⟩
    · exact (hexpect.suppressed (hsuppressed ▸ hne)).trans herror
    · exact hexpect.furthest (hsuppressed.trans hzero) (herror ▸ hG)

/-- A call within the limits, and what is called next. -/
theorem Eval.followed (h : Eval rules names d (.expr e) c t r) {levels : Nat} (hready : Ready levels d c s)
    (hspend : spend s.fuel (t ++ t') = .ok left)
    (hgathers : ∀ {left}, spend s.fuel t = .ok left → Gathers debug rules names levels s F (.expr e)) :
    ∃ s', run debug rules names levels (.expr e) s = (r.isSome, s') ∧
      Ready levels d ((r.map Prod.fst).getD c) s' ∧ spend s'.fuel t' = .ok left ∧ s'.fuel < s.fuel ∧
      ∀ {G s''}, Collects G s' s'' → Collects (fun f => F f ∨ G f) s s'' := by
  rw [spend_append] at hspend
  obtain ⟨between, hspend1, hspend2⟩ := Effect.except_bind_ok.1 hspend
  obtain ⟨s', hrun, hkept, hcursor, hfirst⟩ := h.called hready hspend1 (hgathers hspend1)
  refine ⟨s', hrun, hready.next hkept hcursor, hkept.fuel ▸ hspend2, hkept.fuel ▸ h.expr_spends hspend1, ?_⟩
  exact fun hrest => hfirst.trans hkept.suppressed hrest

/-- **Every generated function records the failures of its call**, if no limit is hit. -/
theorem run_gathers (h : Eval rules names d task c t r) : ∀ {levels left : Nat} {s : State}, Ready levels d c s →
    spend s.fuel t = .ok left → Gathers debug rules names levels s (Failed debug rules names task c) task := by
  induction h with
  | terminal he =>
    intro levels left s hready hspend
    refine hready.gathers_expr hspend fun hready' _ => ?_
    rw [← hready'.cursor]
    exact collects_terminal hready'.limited he
  | ref hn _ ih =>
    intro levels left s hready hspend
    refine hready.gathers_expr hspend fun hready' hspend' => ?_
    simp only [body, hn]
    exact (ih hready' hspend').one (by simp [Reports, Expr.terminal]) (by simp [Next, hn])
  | seq _ ih | choice _ ih | optional _ ih =>
    intro levels left s hready hspend
    exact hready.gathers_expr hspend fun hready' hspend' =>
      (ih hready' hspend').one (by simp [Reports, Expr.terminal]) fun _ _ => .rfl
  | @repeatNone _ e _ c _ h ih =>
    intro levels left s hready hspend
    refine hready.gathers_expr hspend fun hready' hspend' => ?_
    obtain ⟨s1, hrun, _, _, hfirst⟩ := h.called hready' hspend' (ih hready' hspend')
    have hmore : Collects (Failed debug rules names (.more e) c) _ s1 :=
      hfirst.one (by simp [Reports]) (by simp [Next, (Matches.of_eval h).iff_eq])
    simp only [body, loop_false hrun]
    exact hmore.one (by simp [Reports, Expr.terminal]) fun _ _ => .rfl
  | @repeatSome _ e _ c _ _ _ _ _ h _ ih ih' =>
    intro levels left s hready hspend
    refine hready.gathers_expr hspend fun hready' hspend' => ?_
    obtain ⟨s1, hrun, hready1, hspend1, hlt, hthen⟩ := h.followed hready' hspend' (ih hready')
    have hmore : Collects (Failed debug rules names (.more e) c) _ _ :=
      (hthen (ih' hready1 hspend1 hlt)).two (by simp [Reports]) (by simp [Next, (Matches.of_eval h).iff_eq])
    simp only [body, loop_true hrun]
    exact hmore.one (by simp [Reports, Expr.terminal]) fun _ _ => .rfl
  | predicate h ih =>
    intro levels left s hready hspend
    refine hready.gathers_expr hspend fun {levels s} hready' hspend' => ?_
    have hready1 : Ready levels _ _ { s with suppressedErrors := s.suppressedErrors + 1 } :=
      ⟨hready'.levels, hready'.room, hready'.cursor, hready'.depth, hready'.limited⟩
    obtain ⟨s1, hrun, hkept, _, hfirst⟩ := h.called hready1 hspend' (ih hready1 hspend')
    rw [← hready'.cursor]
    exact collects_predicate hrun hkept hfirst (by rw [hready'.cursor]; exact .of_eval h)
  | rule hi _ ih =>
    intro levels left s hready hspend
    exact hready.gathers_rule hi hspend fun hready' hspend' =>
      (ih hready' hspend').one (by simp [Reports]) (by simp [Next, hi])
  | allNil | anyNil => exact fun _ _ => .nothing rfl fun f => by rw [failed_iff]; simp [Reports, Next]
  | allFail h ih | anyFirst h ih =>
    intro levels left s hready hspend
    obtain ⟨s1, hrun, _, _, hfirst⟩ := h.called hready hspend (ih hready hspend)
    simp only [Gathers, seqBody, choiceBody, hrun]
    exact hfirst.one (by simp [Reports]) (by simp [Next, (Matches.of_eval h).iff_eq])
  | allCons h _ ih ih' | anyNext h _ ih ih' =>
    intro levels left s hready hspend
    obtain ⟨s1, hrun, hready1, hspend1, _, hthen⟩ := h.followed hready hspend (ih hready)
    simp only [Gathers, seqBody, choiceBody, hrun]
    exact (hthen (ih' hready1 hspend1)).two (by simp [Reports]) (by simp [Next, (Matches.of_eval h).iff_eq])
  | moreDone h ih =>
    intro levels left s hready hspend turns hturns
    obtain ⟨turns, rfl⟩ := Nat.exists_eq_add_one.2 (Nat.zero_lt_of_lt hturns)
    obtain ⟨s1, hrun, _, _, hfirst⟩ := h.called hready hspend (ih hready hspend)
    rw [loop_false hrun]
    exact hfirst.one (by simp [Reports]) (by simp [Next, (Matches.of_eval h).iff_eq])
  | moreAgain h _ ih ih' =>
    intro levels left s hready hspend turns hturns
    obtain ⟨turns, rfl⟩ := Nat.exists_eq_add_one.2 (Nat.zero_lt_of_lt hturns)
    obtain ⟨s1, hrun, hready1, hspend1, hlt, hthen⟩ := h.followed hready hspend (ih hready)
    rw [loop_true hrun]
    exact (hthen (ih' hready1 hspend1 (by omega))).two (by simp [Reports])
      (by simp [Next, (Matches.of_eval h).iff_eq])

/-! ## Positions -/

theorem Reports.pos (h : Reports debug rules names task c f) : f.1 = c.pos := by
  unfold Reports at h
  split at h
  · rw [h.1]
  · rw [h.1]
  · cases h

theorem Next.reaches (h : Next rules names task c task1 c1) : c.Reaches c1 := by
  unfold Next at h
  split at h
  all_goals grind [Cursor.Reaches.refl, → Matches.reaches]

theorem Failed.reaches (h : Failed debug rules names task c f) : ∃ c', c.Reaches c' ∧ f.1 = c'.pos := by
  induction h with
  | here h => exact ⟨_, .refl _, h.pos⟩
  | next hn _ ih =>
    obtain ⟨c', hc', hpos⟩ := ih
    exact ⟨c', hn.reaches.trans hc', hpos⟩

/-! ## Alternatives -/

def Task.Alternatives : Task → Prop
  | .expr e | .more e => Grammar.Alternatives e
  | .rule _ => True
  | .all es => walkAll Grammar.checkAlternatives es = .ok ()
  | .any es => es ≠ [] ∧ walkAll Grammar.checkAlternatives es = .ok ()

/-- **A task that does not match has failed somewhere.** -/
theorem Eval.failed (hrules : ∀ rule ∈ rules, Grammar.Alternatives rule.expr)
    (h : Eval rules names d task c t r) (hr : r = none) (htask : task.Alternatives) :
    ∃ f, Failed debug rules names task c f := by
  have next {task1 task2 c1 c2} (hn : Next rules names task1 c1 task2 c2)
      (hf : ∃ f, Failed debug rules names task2 c2 f) : ∃ f, Failed debug rules names task1 c1 f :=
    hf.imp fun _ => .next hn
  induction h with
  | @terminal _ e _ _ he =>
    cases e <;> cases he <;> exact ⟨_, .here ⟨rfl, _, rfl, Option.map_eq_none_iff.1 hr⟩⟩
  | ref hn _ ih => exact next ⟨⟨_, hn, rfl⟩, rfl⟩ (ih hr trivial)
  | seq _ ih => exact next ⟨rfl, rfl⟩ (ih hr htask)
  | @choice _ es _ _ _ _ ih =>
    cases es with
    | nil => cases htask
    | cons => exact next ⟨rfl, rfl⟩ (ih hr ⟨List.cons_ne_nil _ _, htask⟩)
  | optional | allNil | anyFirst | moreDone => cases hr
  | repeatNone _ ih => exact next ⟨rfl, rfl⟩ (next (.inl ⟨rfl, rfl⟩) (ih rfl htask))
  | repeatSome h _ _ ih =>
    exact next ⟨rfl, rfl⟩ (next (.inr ⟨rfl, _, .of_eval h⟩) (ih (Option.map_eq_none_iff.1 hr) htask))
  | predicate h => exact ⟨_, .here ⟨rfl, hr ▸ .of_eval (.predicate h)⟩⟩
  | rule hi _ ih =>
    exact next ⟨⟨_, hi, rfl⟩, rfl⟩ (ih (Option.map_eq_none_iff.1 hr) (hrules _ (List.mem_of_getElem? hi)))
  | allFail _ ih =>
    obtain ⟨_, he, _⟩ := Effect.except_bind_ok.1 htask
    exact next (.inl ⟨rfl, rfl⟩) (ih rfl he)
  | allCons h _ _ ih =>
    obtain ⟨_, _, hes⟩ := Effect.except_bind_ok.1 htask
    exact next (.inr ⟨rfl, _, .of_eval h⟩) (ih (Option.map_eq_none_iff.1 hr) hes)
  | anyNil => exact absurd rfl htask.1
  | anyNext _ _ ih _ =>
    obtain ⟨_, he, _⟩ := Effect.except_bind_ok.1 htask.2
    exact next (.inl ⟨rfl, rfl⟩) (ih rfl he)
  | moreAgain h _ _ ih => exact next (.inr ⟨rfl, _, .of_eval h⟩) (ih (Option.map_eq_none_iff.1 hr) htask)

/-! ## Parses -/

/-- A failure of a parse: outside of predicates, or where the input should have ended. -/
def ParseFailed (debug : Debug) (rules : List Rule) (names : Names) (i : Nat) (input : String)
    (f : Nat × String) : Prop :=
  Failed debug rules names (.rule i) (.start input) f ∨ ∃ m : Cursor × List Node,
    Matches rules names (.rule i) (.start input) (some m) ∧ m.1.rest ≠ [] ∧ f = (m.1.pos, "end of input")

variable {null : List Bool} {i : Nat} {rule : Rule} {input : String} {error : ParseError}

theorem furthest_of_parseRule (hvalid : Validated rules names null) (hi : rules[i]? = some rule)
    (herror : parseRule debug rules names rule.name input = .error error) (hlimit : ¬error.IsLimit) :
    Furthest (ParseFailed debug rules names i input) error := by
  obtain ⟨hlt, _⟩ := List.getElem?_eq_some_iff.1 hi
  obtain ⟨t, r, heval⟩ := hvalid.rule_total _ (Nat.lt_succ_self (Cursor.start input).rest.length) ⟨i, hlt⟩ 0
  have hready : Ready 513 0 (.start input) (.start input) := ⟨rfl, by decide, rfl, rfl, rfl⟩
  have hfollows : Follows (.start input) t r (run debug rules names 513 (.rule i) (.start input)) :=
    run_follows heval hready
  have hmatches := (Matches.of_eval heval).iff_eq
  unfold parseRule at herror
  rw [hvalid.findIdx hi] at herror
  dsimp only at herror
  cases hspend : spend 1000000 t with
  | error lim =>
    have hstopped := hfollows.stopped hspend
    rw [if_pos (by simp [hstopped.limited]), hstopped.error] at herror
    cases herror
    exact absurd (by simpa [ParseError.IsLimit] using spend_error hspend) hlimit
  | ok left =>
    have hret := hfollows.returned hspend
    have hgathers : Collects _ (.start input) (run debug rules names 513 (.rule i) (.start input)).2 :=
      run_gathers heval hready hspend
    have hfurthest := hgathers.furthest rfl (G := fun _ => False)
      ⟨.nil, by simp, by simp [State.start], fun _ => rfl⟩
    cases r with
    | none =>
      rw [if_pos (by simp [hret.ok])] at herror
      cases herror
      exact hfurthest.congr fun f => by simp [ParseFailed, hmatches]
    | some m =>
      obtain ⟨hcursor, _⟩ := hret.matched rfl
      rw [if_neg (by simp [hret.ok, hret.limited])] at herror
      split at herror
      · rename_i hpos
        cases herror
        have hrest : m.1.rest ≠ [] := by rwa [hcursor, ne_eq, (heval.reaches rfl).pos_eq_iff] at hpos
        have hall := (collects_expect hret.limited "end of input").furthest hret.suppressed hfurthest
        exact hall.congr fun f => by simp [ParseFailed, hmatches, hcursor, hrest]
      · cases herror

theorem ParseFailed.reaches (h : ParseFailed debug rules names i input f) :
    ∃ c, (Cursor.start input).Reaches c ∧ f.1 = c.pos := by
  rcases h with h | ⟨m, hm, _, rfl⟩
  · exact h.reaches
  · exact ⟨m.1, hm.reaches, rfl⟩

/-- **A parse that does not return a tree has failed somewhere.** -/
theorem parseFailed_of_error (hvalid : Validated rules names null) (hi : rules[i]? = some rule)
    (hrules : ∀ rule ∈ rules, Grammar.Alternatives rule.expr)
    (herror : parseRule debug rules names rule.name input = .error error) (hlimit : ¬error.IsLimit) :
    ∃ f, ParseFailed debug rules names i input f := by
  rcases parseRule_cases debug hvalid hi input with ⟨e, he, hl⟩ | ⟨_, _, _, he⟩ | ⟨e, r, he, _, hm, hr⟩
  · rw [herror] at he
    cases he
    exact absurd hl hlimit
  · rw [herror] at he
    cases he
  · cases r with
    | none =>
      obtain ⟨t, heval⟩ := hm 0
      exact (heval.failed hrules rfl trivial).imp fun _ => .inl
    | some m =>
      refine ⟨_, .inr ⟨m, hm, fun hrest => hr m.1.pos m.2 ?_, rfl⟩⟩
      rw [← hrest]

/-- **Diagnostics are furthest-failure diagnostics.**  The error of a parse is at a character of the input, no
failure outside of predicates is behind it, and the expectations are those of the failures that are there. -/
theorem errors_are_furthest_failures (isWhitespace : Char → Bool) (debug : Debug) {text : String}
    (hread : Grammar.read isWhitespace text = .ok rules) (hvalid : validate rules = .ok names)
    (hi : rules[i]? = some rule) (herror : parseRule debug rules names rule.name input = .error error)
    (hlimit : ¬error.IsLimit) :
    error.offset ≤ bytes input.toList ∧
    (∃ before after, input.toList = before ++ after ∧ error.offset = bytes before) ∧
    (∃ x, ParseFailed debug rules names i input (error.offset, x)) ∧
    (∀ f, ParseFailed debug rules names i input f → f.1 ≤ error.offset) ∧
    error.expected ≠ [] ∧ error.expected.Nodup ∧
    ∀ x, x ∈ error.expected ↔ ParseFailed debug rules names i input (error.offset, x) := by
  have h : Furthest (ParseFailed debug rules names i input) error :=
    furthest_of_parseRule (validated_of_validate hvalid) hi herror hlimit
  obtain ⟨f, hf⟩ := parseFailed_of_error (validated_of_validate hvalid) hi (Grammar.read_alternatives hread) herror
    hlimit
  have hne := h.expected_ne_nil hf
  obtain ⟨x, hx⟩ := List.exists_mem_of_ne_nil _ hne
  obtain ⟨c, ⟨before, hrest, hpos⟩, hoffset⟩ := ((h.mem_iff x).1 hx).reaches
  have hbefore : error.offset = bytes before := by
    rw [show error.offset = c.pos from hoffset, hpos]
    exact Nat.zero_add _
  refine ⟨?_, ⟨before, c.rest, hrest, hbefore⟩, ⟨x, (h.mem_iff x).1 hx⟩, h.bound, hne, h.nodup, h.mem_iff⟩
  rw [hbefore, show input.toList = before ++ c.rest from hrest, bytes_append]
  exact Nat.le_add_right _ _

def predicateRules : List Rule := [⟨"R", .seq [.lit "a" false, .predicate (.lit "b" false) true]⟩]

/-- `'b'` fails in a predicate, which is reported in its place. -/
theorem errors_are_furthest_failures_predicate : ∃ names,
    Grammar.read (· = ' ') "R <- 'a' &'b';" = .ok predicateRules ∧ validate predicateRules = .ok names ∧
    parseRule ⟨Char.toString, Char.toString⟩ predicateRules names "R" "ac" = .error ⟨1, ["positive predicate"]⟩ ∧
    ∀ f, ParseFailed ⟨Char.toString, Char.toString⟩ predicateRules names 0 "ac" f → f.1 ≤ 1 := by
  have hread : Grammar.read (· = ' ') "R <- 'a' &'b';" = .ok predicateRules := rfl
  have hvalid : validate predicateRules = .ok _ := rfl
  have hfurthest := errors_are_furthest_failures _ ⟨Char.toString, Char.toString⟩ hread hvalid (i := 0) rfl
    (rfl : parseRule _ predicateRules _ "R" "ac" = .error ⟨1, ["positive predicate"]⟩)
    (by unfold ParseError.IsLimit; decide)
  exact ⟨_, hread, hvalid, rfl, hfurthest.2.2.2.1⟩

end ChiliDB.Peg

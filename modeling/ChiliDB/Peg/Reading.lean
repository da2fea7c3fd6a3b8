import ChiliDB.Peg.Calculus

/-!
# Expressions that make no nodes

A lexical rule only takes characters off the input.  `Reads task f` says that it takes them as the function
`f` does: `f s` is what is left of `s`, or nothing if the rule does not match.  One lemma for each form of
expression composes the functions, so that a lexical rule gets its function without a look at cursors.

* `Reads.matches_iff` — the outcomes of a task with a reading.
* `reads_cons`, `reads_choice`, `reads_many`, … — the compositions; `exhaust` is the greedy repetition.
* `Reads.silent`, `Reads.leaf` — a rule around such an expression.
-/

namespace ChiliDB.Peg

/-- The cursor with this rest, further on in the same input. -/
def Cursor.to (c : Cursor) (rest : List Char) : Cursor := ⟨c.pos + (bytes c.rest - bytes rest), rest⟩

@[simp] theorem Cursor.to_rest (c : Cursor) (rest : List Char) : (c.to rest).rest = rest := rfl

@[simp] theorem Cursor.to_self (c : Cursor) : c.to c.rest = c := by
  unfold Cursor.to
  rw [Nat.sub_self, Nat.add_zero]

theorem Cursor.Reaches.eq_to {c c' : Cursor} (h : c.Reaches c') : c' = c.to c'.rest := by
  obtain ⟨cs, hrest, hpos⟩ := h
  unfold Cursor.to
  rw [hrest, bytes_append, Nat.add_sub_cancel, ← hpos]

/-- The text of what was read. -/
theorem Cursor.text_of_rest {c c' : Cursor} {cs : List Char} (h : c.rest = cs ++ c'.rest) :
    c.text c' = String.ofList cs := by
  unfold Cursor.text
  rw [h, List.length_append, Nat.add_sub_cancel, List.take_left]

variable {rules : List Rule} {names : Names} {task : Task} {c c' : Cursor} {r : Outcome} {e : Expr}
  {es : List Expr} {ns : List Node} {f g : List Char → Option (List Char)}

/-- The task takes characters as `f` does. -/
def Reads (rules : List Rule) (names : Names) (task : Task) (f : List Char → Option (List Char)) : Prop :=
  ∀ c, Matches rules names task c ((f c.rest).map fun rest => (c.to rest, []))

namespace Reads

section

variable (h : Reads rules names task f)

include h

theorem matches_iff : Matches rules names task c r ↔ r = (f c.rest).map fun rest => (c.to rest, []) := by
  constructor
  · exact fun hm => (h c).unique hm
  · rintro rfl
    exact h c

theorem ok_iff : Matches rules names task c (some (c', ns)) ↔
    f c.rest = some c'.rest ∧ c' = c.to c'.rest ∧ ns = [] := by
  rw [h.matches_iff, eq_comm, Option.map_eq_some_iff]
  constructor
  · rintro ⟨rest, hf, heq⟩
    cases heq
    exact ⟨hf, rfl, rfl⟩
  · rintro ⟨hf, hc, rfl⟩
    exact ⟨_, hf, by rw [← hc]⟩

theorem fail_iff : Matches rules names task c none ↔ f c.rest = none := by
  rw [h.matches_iff, eq_comm, Option.map_eq_none_iff]

theorem ok {rest : List Char} (hf : f c.rest = some rest) : Matches rules names task c (some (c.to rest, [])) := by
  rw [h.matches_iff, hf]
  rfl

/-- What is left is a part of what was there. -/
theorem suffix {s rest : List Char} (hf : f s = some rest) : rest <:+ s := by
  obtain ⟨cs, hrest, _⟩ := (h.ok (c := ⟨0, s⟩) hf).reaches
  exact ⟨cs, hrest.symm⟩

theorem congr (hfg : ∀ s, g s = f s) : Reads rules names task g := by
  intro c
  rw [hfg]
  exact h c

/-- The task matches the whole of a text if it takes everything. -/
theorem whole {s : String} : Whole rules names task s ↔ f s.toList = some [] := by
  constructor
  · rintro ⟨pos, ns, hm⟩
    exact (h.ok_iff.1 hm).1
  · intro hf
    exact ⟨_, _, h.ok (c := .start s) hf⟩

end

/-- Two reads in a row. -/
theorem to_to {task' : Task} (h : Reads rules names task f) (h' : Reads rules names task' g)
    {rest rest' : List Char} (hf : f c.rest = some rest) (hg : g rest = some rest') :
    (c.to rest).to rest' = c.to rest' :=
  ((h.ok hf).reaches.trans (h'.ok (c := c.to rest) hg).reaches).eq_to

end Reads

/-! ## Terminals -/

/-- What is behind the characters of a literal. -/
def dropText (insensitive : Bool) : List Char → List Char → Option (List Char)
  | [], s => some s
  | _ :: _, [] => none
  | a :: as, b :: s => if sameChar insensitive a b then dropText insensitive as s else none

def dropChar (p : Char → Bool) : List Char → Option (List Char)
  | [] => none
  | c :: s => if p c then some s else none

theorem matchText_rest (insensitive : Bool) : ∀ (as : List Char) (c : Cursor),
    (matchText insensitive as c).map Cursor.rest = dropText insensitive as c.rest
  | [], _ => rfl
  | _ :: _, ⟨_, []⟩ => rfl
  | a :: as, ⟨pos, b :: s⟩ => by
    unfold matchText dropText
    split
    · exact matchText_rest insensitive as _
    · rfl

theorem matchChar_rest (p : Char → Bool) : ∀ c : Cursor, (matchChar p c).map Cursor.rest = dropChar p c.rest
  | ⟨_, []⟩ => rfl
  | ⟨_, c :: s⟩ => by
    simp only [matchChar, dropChar]
    split <;> rfl

/-- A terminal takes the characters it stops behind. -/
theorem reads_terminal {m : Cursor → Option Cursor} (he : e.terminal = some m)
    (hm : ∀ c, (m c).map Cursor.rest = f c.rest) : Reads rules names (.expr e) f := by
  intro c
  rw [matches_terminal he, ← hm]
  cases hc : m c with
  | none => rfl
  | some c' => rw [Option.map_some, Option.map_some, Option.map_some, ← (terminal_reaches he hc).eq_to]

theorem reads_lit {text : String} {insensitive : Bool} :
    Reads rules names (.expr (.lit text insensitive)) (dropText insensitive text.toList) :=
  reads_terminal rfl (matchText_rest _ _)

theorem reads_class {ranges : List (Char × Char)} {negated : Bool} :
    Reads rules names (.expr (.class_ ranges negated)) (dropChar (inClass ranges negated)) :=
  reads_terminal rfl (matchChar_rest _)

theorem reads_any : Reads rules names (.expr .any) (dropChar fun _ => true) :=
  reads_terminal rfl (matchChar_rest _)

/-! ## Sequences and choices -/

theorem reads_nil : Reads rules names (.all []) some := by
  intro c
  rw [matches_all_nil, Option.map_some, Cursor.to_self]

theorem reads_cons (h : Reads rules names (.expr e) f) (h' : Reads rules names (.all es) g) :
    Reads rules names (.all (e :: es)) fun s => (f s).bind g := by
  intro c
  beta_reduce
  rw [matches_all_cons]
  cases hf : f c.rest with
  | none => exact .inl ⟨h.fail_iff.2 hf, rfl⟩
  | some rest =>
    refine .inr ⟨_, _, _, h.ok hf, h' (c.to rest), ?_⟩
    rw [Cursor.to_rest, Option.bind_some]
    cases hg : g rest with
    | none => rfl
    | some rest' => simp only [Option.map_some, behind, h.to_to h' hf hg, List.nil_append]

theorem reads_seq (h : Reads rules names (.all es) f) : Reads rules names (.expr (.seq es)) f := by
  intro c
  rw [matches_seq]
  exact h c

theorem reads_none : Reads rules names (.any []) fun _ => none := by
  intro c
  rw [matches_any_nil]
  rfl

theorem reads_or (h : Reads rules names (.expr e) f) (h' : Reads rules names (.any es) g) :
    Reads rules names (.any (e :: es)) fun s => (f s).or (g s) := by
  intro c
  beta_reduce
  rw [matches_any_cons]
  cases hf : f c.rest with
  | none => exact .inr ⟨h.fail_iff.2 hf, h' c⟩
  | some rest => exact .inl ⟨_, h.ok hf, rfl⟩

theorem reads_choice (h : Reads rules names (.any es) f) : Reads rules names (.expr (.choice es)) f := by
  intro c
  rw [matches_choice]
  exact h c

/-! ## Options, predicates, repetitions -/

theorem reads_optional (h : Reads rules names (.expr e) f) :
    Reads rules names (.expr (.optional e)) fun s => some ((f s).getD s) := by
  intro c
  beta_reduce
  rw [matches_optional]
  refine ⟨_, h c, ?_⟩
  cases f c.rest with
  | none => rw [Option.map_some, Option.getD_none, Cursor.to_self]; rfl
  | some rest => rfl

theorem reads_not (h : Reads rules names (.expr e) f) :
    Reads rules names (.expr (.predicate e false)) fun s => if (f s).isSome then none else some s := by
  intro c
  beta_reduce
  rw [matches_predicate]
  refine ⟨_, h c, ?_⟩
  rw [Option.isSome_map]
  cases f c.rest with
  | none => simp
  | some rest => rfl

/-- As often as the reading matches; it never does so without taking a character. -/
def exhaust (f : List Char → Option (List Char)) (s : List Char) : List Char :=
  match f s with
  | some rest => if rest.length < s.length then exhaust f rest else rest
  | none => s
termination_by s.length

theorem exhaust_none {s : List Char} (h : f s = none) : exhaust f s = s := by
  unfold exhaust
  rw [h]

theorem exhaust_some {s rest : List Char} (h : f s = some rest) (hlt : rest.length < s.length) :
    exhaust f s = exhaust f rest := by
  conv_lhs => unfold exhaust
  rw [h]
  exact if_pos hlt

/-- A reading that takes something whenever it matches. -/
def Progress (f : List Char → Option (List Char)) : Prop :=
  ∀ s rest, f s = some rest → rest.length < s.length

theorem reads_more (h : Reads rules names (.expr e) f) (hf : Progress f) :
    Reads rules names (.more e) fun s => some (exhaust f s) := by
  intro c
  beta_reduce
  -- induction on what is left; a turn takes something
  induction hlen : c.rest.length using Nat.strongRecOn generalizing c with
  | ind len ih =>
    rw [matches_more]
    cases hs : f c.rest with
    | none =>
      refine .inl ⟨h.fail_iff.2 hs, ?_⟩
      rw [exhaust_none hs, Option.map_some, Cursor.to_self]
    | some rest =>
      have hlt := hf _ _ hs
      have hmore := ih rest.length (by rw [← hlen]; exact hlt) (c.to rest) rfl
      refine .inr ⟨_, _, _, h.ok hs, hmore, ?_⟩
      rw [exhaust_some hs hlt]
      have hto : (c.to rest).to (exhaust f rest) = c.to (exhaust f rest) :=
        ((h.ok hs).reaches.trans hmore.reaches).eq_to
      simp only [Option.map_some, behind, Cursor.to_rest, hto, List.nil_append]

theorem reads_many (h : Reads rules names (.expr e) f) (hf : Progress f) :
    Reads rules names (.expr (.repeat_ e false)) fun s => some (exhaust f s) := by
  intro c
  beta_reduce
  rw [matches_many]
  exact reads_more h hf c

theorem reads_some (h : Reads rules names (.expr e) f) (hf : Progress f) :
    Reads rules names (.expr (.repeat_ e true)) fun s => (f s).map (exhaust f) := by
  intro c
  beta_reduce
  rw [matches_repeat]
  cases hs : f c.rest with
  | none => exact .inl ⟨h.fail_iff.2 hs, rfl⟩
  | some rest =>
    refine .inr ⟨_, _, _, h.ok hs, reads_more h hf (c.to rest), ?_⟩
    simp only [Option.map_some, behind, h.to_to (reads_more h hf) hs rfl, Cursor.to_rest, List.nil_append]

/-! ## Rules -/

section

variable {null : List Bool} {i : Nat} {n : String}

/-- A silent rule takes what its expression takes. -/
theorem Reads.silent (hv : Validated rules names null) (hi : rules[i]? = some ⟨n, e⟩)
    (hn : Rule.silent ⟨n, e⟩ = true) (h : Reads rules names (.expr e) f) :
    Reads rules names (.expr (.ref n)) f := by
  intro c
  rw [matches_ref hv hi]
  refine ⟨_, h c, ?_⟩
  cases f c.rest with
  | none => rfl
  | some rest => simp only [Option.map_some, Rule.close, hn, if_true]

/-- A rule that is not silent makes a leaf of what its expression takes. -/
theorem Reads.leaf (hv : Validated rules names null) (hi : rules[i]? = some ⟨n, e⟩)
    (hn : Rule.silent ⟨n, e⟩ = false) (h : Reads rules names (.expr e) f) :
    Matches rules names (.expr (.ref n)) c r ↔ r = (f c.rest).map fun rest =>
      (c.to rest, [⟨n, c.text (c.to rest), c.pos, (c.to rest).pos, []⟩]) := by
  rw [matches_ref hv hi]
  constructor
  · rintro ⟨r', hr', rfl⟩
    rw [h.matches_iff.1 hr', Option.map_map]
    simp only [Rule.close, hn, Function.comp_def, Bool.false_eq_true, if_false]
  · rintro rfl
    refine ⟨_, h c, ?_⟩
    rw [Option.map_map]
    simp only [Rule.close, hn, Function.comp_def, Bool.false_eq_true, if_false]

/-- A lexical rule matches the whole of a text if it takes everything. -/
theorem Reads.whole_iff (hv : Validated rules names null) (hi : rules[i]? = some ⟨n, e⟩)
    (h : Reads rules names (.expr e) f) {s : String} :
    Whole rules names (.expr (.ref n)) s ↔ f s.toList = some [] := by
  constructor
  · rintro ⟨pos, ns, hm⟩
    obtain ⟨r', hm', hr⟩ := (matches_ref hv hi).1 hm
    obtain ⟨⟨c', ns'⟩, rfl, hclose⟩ := Option.map_eq_some_iff.1 hr.symm
    have hc : c'.rest = [] := congrArg (fun m => m.1.rest) hclose
    rw [← hc]
    exact (h.ok_iff.1 hm').1
  · intro hf
    exact ⟨_, _, (matches_ref hv hi).2 ⟨_, h.ok (c := .start s) hf, rfl⟩⟩

/-- **A parse of a lexical rule** that hits no limit succeeds if the rule takes everything. -/
theorem Reads.parseRule_iff {debug : Debug} (hv : Validated rules names null) (hi : rules[i]? = some ⟨n, e⟩)
    (h : Reads rules names (.expr e) f) {input : String}
    (hlimit : ∀ error, parseRule debug rules names n input = .error error → ¬ error.IsLimit) :
    (∃ node, parseRule debug rules names n input = .ok node) ↔ f input.toList = some [] := by
  have hn : names.lookup n = some i := (hv.named n i).2 ⟨_, hi, rfl⟩
  rw [← h.whole_iff hv hi]
  constructor
  · rintro ⟨node, hparse⟩
    obtain ⟨pos, ns, hm, _⟩ := matches_of_parseRule hv hi hparse
    exact ⟨pos, ns, (matches_ref_rule hn).2 hm⟩
  · rintro ⟨pos, ns, hm⟩
    rcases parseRule_of_matches debug hv hi ((matches_ref_rule hn).1 hm) with hparse | ⟨error, hparse, hlim⟩
    · exact ⟨_, hparse⟩
    · exact absurd hlim (hlimit error hparse)

end

end ChiliDB.Peg

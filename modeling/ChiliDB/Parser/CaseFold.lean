import ChiliDB.Peg.Recoding
import ChiliDB.Parser.Congruence
import ChiliDB.Parser.Sql

/-!
# Letters outside quotes have no case

No literal of the grammar that holds letters is compared exactly and every class holds a letter in both cases,
so the parser makes the same calls for a text and for its lower case; and no recogniser of the transform tells
the leaves of the two trees apart, quotes excepted.

* `caseless` — the terminals that do not see case; `rules_blind` — all of the grammar's.
* `leaf_folds` — the recognisers on a leaf and on its lower case.

Principal result: `sql_ignores_case`.
-/

namespace ChiliDB.Sql

open Effect Grammar Transform List
open Peg
open Char (toLower isDigit)

/-! ## The grammar -/

variable (c : Char)

theorem toLower_toLower : c.toLower.toLower = c.toLower := toLower_congr (by decide) c

/-- A character that is no letter is the lower case of itself only. -/
theorem toLower_eq_iff {x : Char} (hx : x.isAlpha = false) (c : Char) : c.toLower = x ↔ c = x := by
  rcases toLower_cases c with hc | hc
  · rw [hc]
  · have hletters : upperLetters.all Char.isAlpha = true := by decide
    have halpha : c.isAlpha = true := all_eq_true.1 hletters c hc
    constructor
    · rintro rfl
      rw [isAlpha_toLower, halpha] at hx
      cases hx
    · rintro rfl
      rw [halpha] at hx
      cases hx

/-- A terminal that does not see case. -/
def caseless : Peg.Expr → Bool
  | .lit text insensitive => insensitive || text.toList.all fun a => !a.isAlpha
  | .class_ ranges negated =>
    upperLetters.all fun c => inClass ranges negated c.toLower == inClass ranges negated c
  | _ => true

theorem sameChar_toLower {insensitive : Bool} {a : Char} (h : insensitive = true ∨ a.isAlpha = false) (b : Char) :
    sameChar insensitive a b.toLower = sameChar insensitive a b := by
  unfold sameChar
  cases insensitive with
  | true => simp only [if_true, toLower_toLower]
  | false =>
    have ha : a.isAlpha = false := h.resolve_left (by simp)
    simp only [Bool.false_eq_true, if_false, eq_comm (a := a), toLower_eq_iff ha]

theorem terminal_blind {e : Peg.Expr} (h : caseless e = true) {m : Cursor → Option Cursor}
    (hm : e.terminal = some m) (c : Cursor) :
    m (c.map toLower) = (m c).map (Cursor.map toLower) := by
  cases e with
  | lit text insensitive =>
    cases hm
    refine matchText_map utf8Size_toLower (fun a ha b => sameChar_toLower ?_ b) c
    simp only [caseless, Bool.or_eq_true, all_eq_true] at h
    exact h.imp id fun hall => by simpa using hall a ha
  | class_ ranges negated =>
    cases hm
    exact matchChar_map utf8Size_toLower (toLower_congr h) c
  | any =>
    cases hm
    exact matchChar_map utf8Size_toLower (fun _ => rfl) c
  | _ => cases hm

theorem rules_caseless : (rules.all fun rule => rule.expr.terminals.all caseless) = true := by decide +kernel

theorem rules_blind : ∀ rule ∈ rules, rule.expr.Blind toLower := by
  intro rule hrule t ht m hm c
  have h := all_eq_true.1 (all_eq_true.1 rules_caseless rule hrule) t ht
  exact terminal_blind h hm c

/-- The tree of the lower case is the lower case of the tree. -/
theorem parse_lowercase (debug : Debug) (input : String) :
    parse debug (lowercase input) = (parse debug input).map (Node.map toLower) :=
  parseRule_map utf8Size_toLower rules_blind "Root" input

/-! ## White space and words -/

theorem toList_lowercase (s : String) : (lowercase s).toList = lower s.toList := String.toList_ofList

theorem head_lower {x : Char} (hx : x.isAlpha = false) (s : List Char) :
    (lower s).head? = some x ↔ s.head? = some x := by
  cases s with
  | nil => simp [lower]
  | cons a s => simp [lower, toLower_eq_iff hx]

theorem afterComment_lower : ∀ s : List Char, afterComment (lower s) = (afterComment s).map lower
  | [] => rfl
  | a :: s => by
    rw [show lower (a :: s) = a.toLower :: lower s from rfl, afterComment_cons, afterComment_cons,
      afterComment_lower s]
    simp only [toLower_eq_iff (x := '*') rfl, head_lower (x := '/') rfl]
    split
    · rw [Option.map_some, lower, lower, map_tail]
    · rfl

theorem dropText_lower {insensitive : Bool} : ∀ {w : List Char},
    w.all (fun a => insensitive || !a.isAlpha) = true → ∀ s,
    dropText insensitive w (lower s) = (dropText insensitive w s).map lower
  | [], _, _ => rfl
  | _ :: _, _, [] => rfl
  | a :: w, h, b :: s => by
    rw [all_cons, Bool.and_eq_true, Bool.or_eq_true, Bool.not_eq_true'] at h
    rw [show lower (b :: s) = b.toLower :: lower s from rfl]
    simp only [dropText, sameChar_toLower h.1]
    split
    · exact dropText_lower h.2 s
    · rfl

variable (s : List Char)

theorem lineComment_lower : lineComment (lower s) = (lineComment s).map lower := by
  have hfold : (fun s => ((lower s).dropWhile (· ≠ '\n')).tail) = fun s => lower (s.dropWhile (· ≠ '\n')).tail := by
    funext s
    rw [lower, lower, dropWhile_map, map_tail]
    simp only [Function.comp_def, ne_eq, toLower_eq_iff (x := '\n') rfl]
  rw [lineComment_eq, lineComment_eq, dropText_lower (by decide), Option.map_map, Option.map_map]
  exact congrArg (fun g => (dropText false ['-', '-'] s).map g) hfold

theorem blockComment_lower : blockComment (lower s) = (blockComment s).map lower := by
  rw [blockComment_eq, blockComment_eq, dropText_lower (by decide), Option.bind_map, Option.map_bind]
  congr 1
  funext s
  exact afterComment_lower s

theorem isSpace_toLower : isSpace c.toLower = isSpace c := toLower_congr (by decide) c

variable {p : Char → Bool}

theorem dropChar_lower (hp : ∀ c, p c.toLower = p c) : ∀ s : List Char,
    dropChar p (lower s) = (dropChar p s).map lower
  | [] => rfl
  | c :: s => by
    rw [show lower (c :: s) = c.toLower :: lower s from rfl]
    simp only [dropChar, hp]
    split <;> rfl

theorem wsChunk_lower : wsChunk (lower s) = (wsChunk s).map lower := by
  unfold wsChunk
  rw [dropChar_lower isSpace_toLower, lineComment_lower, blockComment_lower, Option.map_or, Option.map_or]

theorem skipTrivia_lower : skipTrivia (lower s) = (skipTrivia s).map lower := by
  induction hlen : s.length using Nat.strongRecOn generalizing s with
  | ind len ih =>
    rw [skipTrivia_step, skipTrivia_step s, wsChunk_lower]
    cases hs : wsChunk s with
    | none =>
      have hopens : opensComment (lower s) = opensComment s := by
        rw [opensComment_eq, opensComment_eq, dropText_lower (by decide), Option.isSome_map]
      simp only [Option.map_none, hopens]
      split <;> rfl
    | some rest => exact ih _ (by rw [← hlen]; exact wsChunk_progress _ _ hs) rest rfl

theorem trivia_lower : trivia (lower s) = trivia s := by
  unfold trivia
  rw [skipTrivia_lower]
  cases skipTrivia s with
  | none => rfl
  | some rest => cases rest <;> rfl

theorem stripWord_lower (w : String) (s : List Char) : stripWord w (lower s) = (stripWord w s).map lower := by
  rw [stripWord_eq, stripWord_eq, dropText_lower (by simp)]

theorem isIdentChar_toLower : isIdentChar c.toLower = isIdentChar c := toLower_congr (by decide) c

theorem head_any_lower (hp : ∀ c, p c.toLower = p c) (s : List Char) : (lower s).head?.any p = s.head?.any p := by
  cases s with
  | nil => rfl
  | cons c s => exact hp c

/-! ## Leaves -/

/-- Spellings that differ in case only. -/
def SameCase (s s' : String) : Prop := lowercase s = lowercase s'

theorem lowercase_lowercase (s : String) : lowercase (lowercase s) = lowercase s := by
  unfold lowercase
  simp only [String.toList_ofList, map_map, Function.comp_def, toLower_toLower]

theorem sameCase_lowercase (s : String) : SameCase s (lowercase s) := (lowercase_lowercase s).symm

section

variable {α : Type} {V : α → α → Prop} (n : Node)

theorem error_folds (expected : String) : Near (· = ·) V (error n expected) (error (n.map toLower) expected) :=
  .error (Node.map_start toLower n).symm

theorem leaf_folds : Near (· = ·) (fun s s' => s = n.text ∧ s' = lowercase n.text) (leaf n)
    (leaf (n.map toLower)) := by
  rw [leaf_eq, leaf_eq]
  refine .ite (by simp) (fun _ => .ok ⟨rfl, ?_⟩) fun _ => error_folds n _
  rw [Node.map_text]
  rfl

theorem token_folds (choices : List (String × α)) :
    Near (· = ·) (· = ·) (token n choices) (token (n.map toLower) choices) := by
  refine .bind (leaf_folds n) ?_
  rintro _ _ ⟨rfl, rfl⟩
  have hfind : ∀ w : String, (stripWord w (lowercase n.text).toList).any trivia =
      (stripWord w n.text.toList).any trivia := by
    intro w
    rw [toList_lowercase, stripWord_lower]
    cases stripWord w n.text.toList with
    | none => rfl
    | some rest => exact trivia_lower rest
  simp only [hfind]
  split
  · exact .ok rfl
  · exact error_folds n _

theorem keywordsFrom_folds : ∀ (first : Bool) (words : List String) (s : List Char),
    Near (· = ·) (fun s s' => s' = lower s) (keywordsFrom n first words s)
      (keywordsFrom (n.map toLower) first words (lower s))
  | _, [], _ => .ok rfl
  | first, word :: words, s => by
    unfold keywordsFrom
    have hskip : (if first then some (lower s) else skipTrivia (lower s)) =
        (if first then some s else skipTrivia s).map lower := by
      rw [skipTrivia_lower]
      split <;> rfl
    rw [hskip]
    cases (if first then some s else skipTrivia s) with
    | none => exact error_folds n _
    | some s =>
      simp only [Option.map_some, pure_bind, stripWord_lower]
      cases stripWord word s with
      | none => exact error_folds n _
      | some rest =>
        exact .ite (by rw [head_any_lower isIdentChar_toLower]) (fun _ => error_folds n _)
          fun _ => keywordsFrom_folds false words rest

theorem keywordSequence_folds (words : List String) :
    Near (· = ·) (· = ·) (keywordSequence n words) (keywordSequence (n.map toLower) words) := by
  have hfrom := keywordsFrom_folds n true words n.text.toList
  rw [← toList_lowercase] at hfrom
  unfold keywordSequence
  rw [Node.map_text]
  refine .bind hfrom ?_
  rintro s _ rfl
  exact .ite (by rw [trivia_lower]) (fun _ => .ok rfl) fun _ => error_folds n _

theorem isReserved_lower : isReserved (lower s) = isReserved s := by
  unfold isReserved eqIgnoreAsciiCase lower
  simp only [map_map, Function.comp_def, toLower_toLower]

theorem bareIdentifier_folds : Near (· = ·) (· = ·) (bareIdentifier n) (bareIdentifier (n.map toLower)) := by
  refine .bind (leaf_folds n) ?_
  rintro _ _ ⟨rfl, rfl⟩
  have hstart : ∀ c : Char, (c.toLower.isAlpha || c.toLower = '_') = (c.isAlpha || c = '_') :=
    toLower_congr (f := fun c => c.isAlpha || c = '_') (by decide)
  have hall : (lower n.text.toList).all isIdentChar = n.text.toList.all isIdentChar := by
    rw [lower, all_map]
    congr 1
    funext c
    exact isIdentChar_toLower c
  simp only [toList_lowercase, head_any_lower (p := fun c => c.isAlpha || c = '_') hstart, hall, isReserved_lower]
  exact .ite Iff.rfl (fun _ => error_folds n _) fun _ =>
    .ite Iff.rfl (fun _ => error_folds n _) fun _ => .ok (lowercase_lowercase _).symm

/-- A text without the quote is not quoted, in any case. -/
theorem unquote_folds {quote : Char} (hquote : quote.isAlpha = false) (h : quote ∉ n.text.toList) :
    Near (· = ·) (· = ·) (unquote n quote) (unquote (n.map toLower) quote) := by
  have hnone : ∀ s : List Char, quote ∉ s → stripQuotes quote s = none := by
    intro s hs
    cases s with
    | nil => rfl
    | cons c s =>
      refine if_neg ?_
      rintro ⟨rfl, _⟩
      exact hs mem_cons_self
  refine .bind (leaf_folds n) ?_
  rintro _ _ ⟨rfl, rfl⟩
  rw [hnone _ h, toList_lowercase, hnone (lower n.text.toList)]
  · exact error_folds n _
  · intro hmem
    obtain ⟨c, hc, hcq⟩ := mem_map.1 hmem
    rw [toLower_eq_iff hquote] at hcq
    exact h (hcq ▸ hc)

theorem isDigit_toLower : c.toLower.isDigit = c.isDigit := toLower_congr (by decide) c

theorem digits_lower : digits (lower s) = lower (digits s) := by
  unfold digits lower
  rw [dropWhile_map]
  congr 2
  funext c
  exact isDigit_toLower c

theorem exponent_lower : exponent (lower s) = exponent s := by
  cases s with
  | nil => rfl
  | cons c s =>
    have he : (c.toLower = 'e' ∨ c.toLower = 'E') ↔ (c = 'e' ∨ c = 'E') := by
      have h := toLower_congr (f := fun c => decide (c = 'e' ∨ c = 'E')) (by decide) c
      simpa only [decide_eq_decide] using h
    have htail : ∀ t : List Char, ((lower t).head?.any isDigit && (digits (lower t)).isEmpty) =
        (t.head?.any isDigit && (digits t).isEmpty) := by
      intro t
      rw [head_any_lower isDigit_toLower, digits_lower]
      cases digits t <;> rfl
    rw [show lower (c :: s) = c.toLower :: lower s from rfl]
    simp only [exponent, he]
    split
    · cases s with
      | nil => rfl
      | cons d s =>
        have hd : (d.toLower = '+' ∨ d.toLower = '-') ↔ (d = '+' ∨ d = '-') := by
          rw [toLower_eq_iff rfl, toLower_eq_iff rfl]
        rw [show lower (d :: s) = d.toLower :: lower s from rfl]
        simp only [hd]
        split
        · exact htail s
        · exact htail (d :: s)
    · rfl

theorem number_eq : number s =
    if (digits s).head? = some '.' then (digits s).tail.head?.any isDigit && exponent (digits (digits s).tail)
    else s.head?.any isDigit && exponent (digits s) := by
  unfold number
  split
  · rename_i heq
    rw [heq]
    rfl
  · rename_i hne
    rw [if_neg]
    intro hhead
    obtain ⟨rest, hrest⟩ := head?_eq_some_iff.1 hhead
    exact hne rest hrest

theorem number_lower : number (lower s) = number s := by
  have htail : (lower (digits s)).tail = lower (digits s).tail := map_tail.symm
  rw [number_eq, number_eq]
  simp only [digits_lower, head_lower (x := '.') rfl, htail, head_any_lower isDigit_toLower, exponent_lower]

theorem literal_folds (hn : n.rule = "Number") :
    Near (· = ·) (Literal.Upto SameCase) (Literal.parse n) (Literal.parse (n.map toLower)) := by
  unfold Literal.parse
  simp only [Node.map_rule, hn]
  refine .bind (leaf_folds n) ?_
  rintro _ _ ⟨rfl, rfl⟩
  refine .ite ?_ (fun _ => .ok (.number (sameCase_lowercase n.text))) fun _ => error_folds n _
  rw [toList_lowercase, number_lower]

theorem sameDigits_lowercase (s : String) : SameDigits s (lowercase s) := by
  have hempty : lowercase s = "" ↔ s = "" := by
    rw [← String.toList_eq_nil_iff, ← String.toList_eq_nil_iff, toList_lowercase, lower, map_eq_nil_iff]
  have hall : (lower s.toList).all isDigit = s.toList.all isDigit := by
    rw [lower, all_map]
    congr 1
    funext c
    exact isDigit_toLower c
  refine ⟨by rw [hempty, toList_lowercase, hall], fun h => ?_⟩
  have hdigits : s.toList.all isDigit = true := by simpa using (not_or.1 h).2
  rw [← String.toList_inj, toList_lowercase, lower]
  refine (map_congr_left fun c hc => ?_).trans (map_id _)
  refine (toLower_cases c).resolve_right fun hupper => ?_
  have hletters : upperLetters.all (fun c => !c.isDigit) = true := by decide
  have hletter := all_eq_true.1 hletters c hupper
  rw [all_eq_true.1 hdigits c hc] at hletter
  cases hletter

end

/-- A text without quotes. -/
def Unquoted (s : List Char) : Prop := '\'' ∉ s ∧ '"' ∉ s

theorem leafAlike_lowercase {n : Node} (h : Unquoted n.text.toList) :
    LeafAlike (· = ·) SameCase n (n.map toLower) where
  rule := Node.map_rule ..
  start := (Node.map_start ..).symm
  token choices _ := token_folds n choices
  keywords words _ := keywordSequence_folds n words
  bare _ := bareIdentifier_folds n
  quoted _ := unquote_folds n rfl h.2
  string _ := unquote_folds n rfl h.1
  number hn := literal_folds n hn
  digits _ := by
    rw [Node.map_text]
    exact sameDigits_lowercase n.text

/-- A tree without quotes and its lower case. -/
theorem treeAlike_lowercase {cs : List Char} (hcs : Unquoted cs) (n : Node) (h : n.Within cs) :
    TreeAlike (· = ·) SameCase n (n.map toLower) := by
  have hself := h n (.self n)
  refine .mk (leafAlike_lowercase ⟨fun hq => hcs.1 (hself hq), fun hq => hcs.2 (hself hq)⟩) ?_
  rw [Node.map_children, forall₂_map_right_iff, forall₂_same]
  exact fun m hm => treeAlike_lowercase hcs m fun k hk => h k (.child hm hk)
termination_by sizeOf n
decreasing_by exact sizeOf_child hm

theorem parse_within {debug : Debug} {input : String} {root : Node}
    (h : parse debug input = .ok root) : root.Within input.toList := by
  obtain ⟨_, hmatch, _⟩ := matches_of_parse h
  exact hmatch.within root mem_cons_self

/-- **SQL without quotes has no case**: a text and its lower case are both rejected at the same position, or have
the same statements but for the case of numbers. -/
theorem sql_ignores_case (debug : Debug) (s : String) (hsingle : '\'' ∉ s.toList) (hdouble : '"' ∉ s.toList) :
    (∃ e e', parseSql debug s = .error e ∧ parseSql debug (lowercase s) = .error e' ∧ e.offset = e'.offset) ∨
    ∃ list list', parseSql debug s = .ok list ∧ parseSql debug (lowercase s) = .ok list' ∧
      List.Forall₂ (Statement.Upto SameCase) list list' := by
  have hnear : Near (· = ·) (List.Forall₂ (Statement.Upto SameCase)) (parseSql debug s)
      (parseSql debug (lowercase s)) := by
    unfold parseSql
    rw [parse_lowercase]
    cases hparse : Grammar.parse debug s with
    | error e => exact .error rfl
    | ok root => exact statements_alike (treeAlike_lowercase ⟨hsingle, hdouble⟩ root (parse_within hparse))
  generalize parseSql debug s = x, parseSql debug (lowercase s) = x' at hnear ⊢
  cases hnear with
  | error h => exact .inl ⟨_, _, rfl, rfl, h⟩
  | ok h => exact .inr ⟨_, _, rfl, rfl, h⟩

theorem selectNumber_ignores_case : ∃ list list', parseSql printable "SELECT A, 1E2" = .ok list ∧
    parseSql printable "select a, 1e2" = .ok list' ∧ List.Forall₂ (Statement.Upto SameCase) list list' := by
  have hok : (parseSql printable "SELECT A, 1E2").toBool = true := by
    unfold parseSql Grammar.parse
    rw [names_eq_table]
    decide +kernel
  obtain ⟨list, hlist⟩ := exists_of_toBool hok
  rcases sql_ignores_case printable "SELECT A, 1E2" (by decide) (by decide) with ⟨e, _, he, _⟩ | h
  · cases hlist.symm.trans he
  · rwa [show lowercase "SELECT A, 1E2" = "select a, 1e2" by decide] at h

end ChiliDB.Sql

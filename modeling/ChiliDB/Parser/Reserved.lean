import ChiliDB.Parser.Lexical
import Mathlib.Data.List.TakeWhile

/-!
# Reserved words

The grammar and the transform keep a list of reserved words each.  The lists are the same, but the rule
`_reserved` is an ordered choice: it takes the first word that the text starts with, and the boundary behind
it decides.  A word that has an earlier one as its start is never reached.

* `reservedWord_isSome` — which identifiers `_reserved` matches: the reserved words without `ORDER`, `ASC`
  and `NULLS`.

Principal result: `grammar_and_transform_agree_on_reserved`.
-/

namespace ChiliDB.Sql.Grammar

open Peg List
open Transform (isIdentChar isReserved identifier)
open Effect

/-- `[A-Za-z_][A-Za-z_0-9]*`. -/
def IdentifierForm (s : String) : Prop :=
  ∃ a cs, s.toList = a :: cs ∧ isIdentStart a = true ∧ cs.all isIdentChar = true

/-- An `Identifier` over a leaf `BareIdentifier`. -/
def bareNode (s : String) (start stop : Nat) : Node :=
  ⟨"Identifier", s, start, stop, [⟨"BareIdentifier", s, start, stop, []⟩]⟩

/-- `parse_rule` accepts all of the text as a `BareIdentifier`. -/
def MatchesBare (debug : Debug) (s : String) : Prop :=
  ∃ node, parseRule debug rules names "BareIdentifier" s = .ok node

/-- The conversion accepts the text. -/
def AcceptsBare (s : String) (start stop : Nat) : Prop :=
  ∃ name, identifier (bareNode s start stop) = .ok name

/-- The reserved words that start with another one before them in the list. -/
def shadowed : List String := ["ORDER", "ASC", "NULLS"]

/-! ## Words without their case -/

/-- `_reserved` without the boundary, on a text in lower case. -/
def firstLower (l : List Char) : Option (List Char) :=
  reserved.findSome? fun w => dropText false (lower w.toList) l

theorem firstWord_lower (s : List Char) : (firstWord reserved s).map lower = firstLower (lower s) := by
  unfold firstWord firstLower
  generalize reserved = words
  induction words with
  | nil => rfl
  | cons w words ih =>
    rw [findSome?_cons, findSome?_cons, ← dropText_insensitive]
    cases dropText true w.toList s with
    | none => exact ih
    | some rest => rfl

/-- The first word with which a text starts is the text itself: so it is for the reserved words that are not
shadowed. -/
theorem firstLower_nil {l : List Char} : firstLower l = some [] ↔
    l ∈ reserved.map (fun w => lower w.toList) ∧ l ∉ shadowed.map fun w => lower w.toList := by
  constructor
  · intro h
    have hshadowed : ∀ l ∈ shadowed.map (fun w => lower w.toList), firstLower l ≠ some [] := by decide +kernel
    obtain ⟨w, hw, hdrop⟩ := exists_of_findSome?_eq_some h
    refine ⟨mem_map.2 ⟨w, hw, ?_⟩, fun hl => hshadowed l hl h⟩
    rw [dropText_eq_some.1 hdrop, append_nil]
  · rintro ⟨hl, hne⟩
    have hall : ∀ l ∈ reserved.map (fun w => lower w.toList),
        l ∉ shadowed.map (fun w => lower w.toList) → firstLower l = some [] := by decide +kernel
    exact hall l hl hne

/-! ## The grammar -/

theorem identNext_eq_false {s : List Char} (hs : s.all isIdentChar = true) : identNext s = false ↔ s = [] := by
  cases s with
  | nil => simp [identNext]
  | cons c s =>
    have hc : isIdentChar c = true := by
      rw [all_cons, Bool.and_eq_true] at hs
      exact hs.1
    simp [identNext, hc]

/-- **Which identifiers `_reserved` matches.** -/
theorem reservedWord_isSome {s : List Char} (hs : s.all isIdentChar = true) : (reservedWord s).isSome = true ↔
    lower s ∈ reserved.map (fun w => lower w.toList) ∧ lower s ∉ shadowed.map fun w => lower w.toList := by
  rw [← firstLower_nil, ← firstWord_lower]
  unfold reservedWord
  cases hfirst : firstWord reserved s with
  | none => simp
  | some rest =>
    obtain ⟨cs, rfl⟩ := (reads_firstWord reserved).suffix hfirst
    have hrest : rest.all isIdentChar = true := by
      rw [all_append, Bool.and_eq_true] at hs
      exact hs.2
    rw [Option.bind_some]
    cases hnext : identNext rest with
    | false =>
      have hnil := (identNext_eq_false hrest).1 hnext
      simp [hnil, lower]
    | true =>
      have hne : rest ≠ [] := fun h => by
        rw [h] at hnext
        cases hnext
      simp [hne, lower]

variable {s : String}

theorem IdentifierForm.all (h : IdentifierForm s) : s.toList.all isIdentChar = true := by
  obtain ⟨a, cs, hs, ha, hcs⟩ := h
  rw [hs, all_cons, hcs, Bool.and_true]
  unfold isIdentStart at ha
  unfold isIdentChar Char.isAlphanum
  cases hal : a.isAlpha <;> simp_all

theorem bareIdentifier_eq (h : IdentifierForm s) :
    bareIdentifier s.toList = if (reservedWord s.toList).isSome then none else some [] := by
  obtain ⟨a, cs, hs, ha, hcs⟩ := h
  unfold bareIdentifier
  congr 1
  have hrest : cs.dropWhile isIdentChar = [] := dropWhile_eq_nil_iff.2 (all_eq_true.1 hcs)
  rw [hs, dropChar, if_pos ha, Option.map_some, hrest]

/-- **The grammar accepts an identifier that `_reserved` does not match.** -/
theorem matchesBare_iff {debug : Debug} {s : String} (h : IdentifierForm s)
    (hlimit : ∀ error, parseRule debug rules names "BareIdentifier" s = .error error → ¬ error.IsLimit) :
    MatchesBare debug s ↔ ¬ (reservedWord s.toList).isSome = true := by
  refine (reads_bareIdentifier.parseRule_iff valid (i := 81) rfl hlimit).trans ?_
  rw [bareIdentifier_eq h]
  cases (reservedWord s.toList).isSome <;> simp

/-! ## The transform -/

theorem isReserved_iff (s : List Char) : isReserved s = true ↔ lower s ∈ reserved.map fun w => lower w.toList := by
  have hlists : Transform.reserved = reserved := rfl
  unfold isReserved
  rw [hlists, any_eq_true, mem_map]
  constructor
  · rintro ⟨w, hw, heq⟩
    exact ⟨w, hw, of_decide_eq_true heq⟩
  · rintro ⟨w, hw, heq⟩
    exact ⟨w, hw, decide_eq_true heq⟩

/-- **The conversion accepts an identifier that is not reserved.** -/
theorem acceptsBare_iff (h : IdentifierForm s) (start stop : Nat) :
    AcceptsBare s start stop ↔ ¬ isReserved s.toList = true := by
  have hall := h.all
  obtain ⟨a, cs, hs, ha, _⟩ := h
  have hstart : (s.toList.head?.any fun c => c.isAlpha || c = '_') = true := by
    rw [hs]
    exact ha
  have heq : identifier (bareNode s start stop) = if isReserved s.toList then
      Transform.error ⟨"BareIdentifier", s, start, stop, []⟩ "nonreserved identifier"
    else pure (Transform.lowercase s) := by
    change Transform.bareIdentifier ⟨"BareIdentifier", s, start, stop, []⟩ = _
    unfold Transform.bareIdentifier
    change (if _ then _ else _) = _
    rw [if_neg]
    rw [hstart, hall]
    decide
  unfold AcceptsBare
  rw [heq]
  cases isReserved s.toList with
  | true => simp [Transform.error]
  | false => exact ⟨fun _ h => (by cases h), fun _ => ⟨_, rfl⟩⟩

/-! ## Both -/

/-- The grammar's rule, the conversion and the list of reserved words agree on this text. -/
def AgreeOn (debug : Debug) (s : String) (start stop : Nat) : Prop :=
  (MatchesBare debug s ↔ AcceptsBare s start stop) ∧ (AcceptsBare s start stop ↔ ¬ isReserved s.toList = true)

/-- **Where the grammar and the transform agree on reserved words**: on every identifier but the shadowed
words. -/
theorem grammar_and_transform_agree_on_reserved (debug : Debug) (s : String) (start stop : Nat)
    (hform : IdentifierForm s)
    (hlimit : ∀ error, parseRule debug rules names "BareIdentifier" s = .error error → ¬ error.IsLimit) :
    AgreeOn debug s start stop ↔ ∀ w ∈ shadowed, eqIgnoreAsciiCase w.toList s.toList = false := by
  have hshadowed : (∀ w ∈ shadowed, eqIgnoreAsciiCase w.toList s.toList = false) ↔
      lower s.toList ∉ shadowed.map fun w => lower w.toList := by
    rw [mem_map]
    constructor
    · rintro h ⟨w, hw, heq⟩
      exact of_decide_eq_false (h w hw) heq
    · exact fun h w hw => decide_eq_false fun heq => h ⟨w, hw, heq⟩
  -- every shadowed word is reserved, so the conversion rejects it
  have hsub : ∀ l ∈ shadowed.map (fun w => lower w.toList), l ∈ reserved.map fun w => lower w.toList := by
    decide +kernel
  unfold AgreeOn
  rw [hshadowed, matchesBare_iff hform hlimit, acceptsBare_iff hform, reservedWord_isSome hform.all,
    isReserved_iff]
  constructor
  · rintro ⟨hagree, _⟩ hmem
    exact hagree.1 (fun h => h.2 hmem) (hsub _ hmem)
  · intro hnot
    refine ⟨⟨fun h hmem => h ⟨hmem, hnot⟩, fun h hmem => h hmem.1⟩, Iff.rfl⟩

theorem order_isIdentifier : IdentifierForm "ORDER" := ⟨'O', "RDER".toList, rfl, rfl, rfl⟩

/-- The grammar takes `ORDER` for an identifier, which the conversion rejects. -/
theorem order_divides : IdentifierForm "ORDER" ∧ MatchesBare printable "ORDER" ∧ ¬ AcceptsBare "ORDER" 0 5 := by
  refine ⟨order_isIdentifier, ?_, ?_⟩
  · unfold MatchesBare
    rw [names_eq_table]
    exact exists_of_toBool (by decide +kernel)
  · rw [acceptsBare_iff order_isIdentifier]
    decide +kernel

theorem price_agrees : AgreeOn printable "price" 0 5 := by
  refine (grammar_and_transform_agree_on_reserved printable "price" 0 5 ⟨'p', "rice".toList, rfl, rfl, rfl⟩
    ?_).2 (by decide +kernel)
  rw [names_eq_table]
  obtain ⟨node, hparse⟩ := exists_of_toBool
    (x := parseRule printable rules table "BareIdentifier" "price") (by decide +kernel)
  rw [hparse]
  exact fun error h => by cases h

end ChiliDB.Sql.Grammar

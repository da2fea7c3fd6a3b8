import ChiliDB.Parser.Literals

/-!
# Quoted texts and their values

A value is quoted by doubling the quotes in it.  The rules `String` and `QuotedIdentifier` match exactly the quoted
values, and `unquote` of `transform.rs` gives the value back.

* `quoted` — the literal of a value; `undouble_doubleQuotes`, `doubleQuotes_undouble` — doubling and its inverse.
* `unquote_eq_ok` — the texts that `unquote` accepts; `stringRead_iff`, `quotedIdentifierRead_iff` — those that the
  rules match.

Principal result: `quoted_text_round_trips`.
-/

namespace ChiliDB.Sql.Grammar

open Peg (Node dropText Whole)
open Transform (doubled undouble stripQuotes unquote identifier)

/-! ## Doubling -/

/-- A value with its quotes doubled. -/
def doubleQuotes (q : Char) (v : List Char) : List Char := v.flatMap fun c => if c = q then [q, q] else [c]

/-- The literal of a value. -/
def quoted (q : Char) (v : String) : String := String.ofList (q :: (doubleQuotes q v.toList ++ [q]))

theorem doubleQuotes_quote (q : Char) (v : List Char) : doubleQuotes q (q :: v) = q :: q :: doubleQuotes q v := by
  simp [doubleQuotes]

variable {q c : Char}

theorem doubleQuotes_other (h : c ≠ q) (v : List Char) : doubleQuotes q (c :: v) = c :: doubleQuotes q v := by
  simp [doubleQuotes, h]

theorem doubled_other (h : c ≠ q) (s : List Char) : doubled q (c :: s) = doubled q s := by
  cases s <;> simp [doubled, h]

theorem undouble_other (h : c ≠ q) (s : List Char) : undouble q (c :: s) = c :: undouble q s := by
  cases s <;> simp [undouble, h]

theorem doubled_doubleQuotes (q : Char) (v : List Char) : doubled q (doubleQuotes q v) = true := by
  induction v with
  | nil => rfl
  | cons c v ih =>
    by_cases hc : c = q
    · rw [hc, doubleQuotes_quote]
      simpa [doubled] using ih
    · rwa [doubleQuotes_other hc, doubled_other hc]

theorem undouble_doubleQuotes (q : Char) (v : List Char) : undouble q (doubleQuotes q v) = v := by
  induction v with
  | nil => rfl
  | cons c v ih =>
    by_cases hc : c = q
    · rw [hc, doubleQuotes_quote]
      simpa [undouble] using ih
    · rw [doubleQuotes_other hc, undouble_other hc, ih]

/-- Quotes that are all doubled are those of a value. -/
theorem doubleQuotes_undouble {body : List Char} (h : doubled q body = true) :
    doubleQuotes q (undouble q body) = body := by
  fun_induction doubled q body with
  | case1 => rfl
  | case2 c =>
    have hc : c ≠ q := of_decide_eq_true h
    rw [undouble_other hc, doubleQuotes_other hc]
    rfl
  | case3 d s ih =>
    obtain ⟨hd, hs⟩ := (Bool.and_eq_true _ _).mp h
    have hd : d = q := of_decide_eq_true hd
    subst hd
    have hundouble : undouble d (d :: d :: s) = d :: undouble d s := by simp [undouble]
    rw [hundouble, doubleQuotes_quote, ih hs]
  | case4 c d s hc ih => rw [undouble_other hc, doubleQuotes_other hc, ih h]

/-- `contains` only saves the copy. -/
theorem unquoted_eq (q : Char) (body : List Char) : unquoted q body = undouble q body := by
  unfold unquoted
  split
  · rfl
  · rename_i hq
    induction body with
    | nil => rfl
    | cons c body ih =>
      obtain ⟨hc, hbody⟩ := not_or.1 (mt List.mem_cons.2 hq)
      rw [undouble_other (Ne.symm hc), ← ih hbody]

theorem quoted_injective {v v' : String} (h : quoted q v = quoted q v') : v = v' := by
  have hbody := (List.append_left_inj [q]).1 (List.tail_eq_of_cons_eq (String.ofList_injective h))
  rw [← String.toList_inj, ← undouble_doubleQuotes q v.toList, hbody, undouble_doubleQuotes]

/-! ## The transform -/

theorem stripQuotes_eq_some {s inner : List Char} : stripQuotes q s = some inner ↔ s = q :: (inner ++ [q]) := by
  constructor
  · intro h
    cases s with
    | nil => cases h
    | cons c s =>
      simp only [stripQuotes] at h
      split at h
      · rename_i hquotes
        obtain ⟨rfl, hlast⟩ := hquotes
        cases h
        rw [List.dropLast_append_getLast? _ hlast]
      · cases h
  · rintro rfl
    simp [stripQuotes]

/-- A text in quotes, with those inside doubled, is the literal of a value. -/
theorem eq_quoted {s : String} {body : List Char} (h : s.toList = q :: (body ++ [q]))
    (hbody : doubled q body = true) : s = quoted q (.ofList (undouble q body)) := by
  rw [← String.toList_inj, h, quoted, String.toList_ofList, String.toList_ofList, doubleQuotes_undouble hbody]

/-- **What `unquote` accepts are the literals of values**, and it returns the value. -/
theorem unquote_eq_ok {n : Node} {v : String} : unquote n q = .ok v ↔ n.children = [] ∧ n.text = quoted q v := by
  constructor
  · intro h
    unfold unquote at h
    rw [Transform.leaf_eq] at h
    split at h
    · rename_i hleaf
      simp only [bind, Except.bind] at h
      split at h
      · cases h
      · rename_i inner hinner
        split at h
        · rename_i hdoubled
          cases h
          refine ⟨hleaf, ?_⟩
          change n.text = quoted q (.ofList (unquoted q inner))
          rw [unquoted_eq]
          exact eq_quoted (stripQuotes_eq_some.1 hinner) hdoubled
        · cases h
    · cases h
  · rintro ⟨hleaf, htext⟩
    have hbody : n.text.toList = q :: (doubleQuotes q v.toList ++ [q]) := by rw [htext, quoted, String.toList_ofList]
    rw [unquote_ok hleaf hbody (doubled_doubleQuotes q _), unquoted_eq, undouble_doubleQuotes, String.ofList_toList]

/-! ## The rules -/

theorem closeQuote_other (hc : c ≠ q) {s : List Char} (hs : s ≠ []) : closeQuote q (c :: s) = closeQuote q s := by
  cases s with
  | nil => exact absurd rfl hs
  | cons d s => simp [closeQuote, hc]

theorem closeQuote_doubleQuotes (q : Char) (v : List Char) : closeQuote q (doubleQuotes q v ++ [q]) = some [] := by
  induction v with
  | nil => simp [doubleQuotes, closeQuote]
  | cons c v ih =>
    by_cases hc : c = q
    · rw [hc, doubleQuotes_quote]
      simpa [closeQuote] using ih
    · rw [doubleQuotes_other hc, List.cons_append, closeQuote_other hc (by simp), ih]

theorem stringRead_iff (s : String) : stringRead s.toList = some [] ↔ ∃ v, s = quoted '\'' v := by
  constructor
  · intro h
    obtain ⟨body, htext, hbody⟩ := stringRead_text (k := []) (by rwa [List.append_nil])
    exact ⟨_, eq_quoted htext hbody⟩
  · rintro ⟨v, rfl⟩
    rw [quoted, String.toList_ofList]
    exact closeQuote_doubleQuotes '\'' v.toList

theorem quotedIdentifierRead_iff (s : String) :
    quotedIdentifierRead s.toList = some [] ↔ ∃ v, v ≠ "" ∧ s = quoted '"' v := by
  constructor
  · intro h
    obtain ⟨body, htext, hbody, hne⟩ := quotedIdentifierRead_text (k := []) (by rwa [List.append_nil])
    refine ⟨_, fun hnil => hne ?_, eq_quoted htext hbody⟩
    rw [← doubleQuotes_undouble hbody, String.ofList_injective (hnil.trans String.ofList_nil.symm)]
    rfl
  · rintro ⟨v, hv, rfl⟩
    have hchunk : (quoteChunk '"' (doubleQuotes '"' v.toList ++ ['"'])).isSome = true := by
      cases hs : v.toList with
      | nil => exact absurd (String.toList_eq_nil_iff.1 hs) hv
      | cons c s =>
        by_cases hc : c = '"'
        · rw [hc, doubleQuotes_quote]
          rfl
        · rw [doubleQuotes_other hc, List.cons_append]
          simp [quoteChunk, hc]
    rw [quoted, String.toList_ofList]
    exact (if_pos hchunk).trans (closeQuote_doubleQuotes '"' v.toList)

/-- **Quoted texts round-trip.**  The rules match the literals of the values, which are not empty for identifiers,
and `unquote` accepts the literals of the values; each is the literal of one value, and that is what it returns. -/
theorem quoted_text_round_trips :
    (∀ v, Whole rules names (.expr (.ref "String")) (quoted '\'' v)) ∧
    (∀ s, Whole rules names (.expr (.ref "String")) s → ∃ v, s = quoted '\'' v) ∧
    (∀ v, v ≠ "" → Whole rules names (.expr (.ref "QuotedIdentifier")) (quoted '"' v)) ∧
    (∀ s, Whole rules names (.expr (.ref "QuotedIdentifier")) s → ∃ v, v ≠ "" ∧ s = quoted '"' v) ∧
    (∀ q, q = '\'' ∨ q = '"' →
      (∀ v v', quoted q v = quoted q v' → v = v') ∧
      ∀ (n : Node) v, unquote n q = .ok v ↔ n.children = [] ∧ n.text = quoted q v) ∧
    ∀ n child : Node, n.rule = "Identifier" → n.children = [child] → child.rule = "QuotedIdentifier" → ∀ v,
      (identifier n = .ok v ↔ child.children = [] ∧ child.text = quoted '"' v ∧ v ≠ "") := by
  have hstring (s : String) : Whole rules names (.expr (.ref "String")) s ↔ ∃ v, s = quoted '\'' v := by
    rw [← stringRead_iff]
    exact Peg.Reads.whole_iff valid (i := 75) rfl reads_string
  have hidentifier (s : String) :
      Whole rules names (.expr (.ref "QuotedIdentifier")) s ↔ ∃ v, v ≠ "" ∧ s = quoted '"' v := by
    rw [← quotedIdentifierRead_iff]
    exact Peg.Reads.whole_iff valid (i := 80) rfl reads_quotedIdentifier
  refine ⟨fun v => (hstring _).2 ⟨v, rfl⟩, fun s => (hstring s).1, fun v hv => (hidentifier _).2 ⟨v, hv, rfl⟩,
    fun s => (hidentifier s).1, fun q _ => ⟨fun v v' => quoted_injective, fun n v => unquote_eq_ok⟩, ?_⟩
  intro n child hrule hchildren hchild v
  simp only [identifier, hrule, hchildren, hchild, ne_eq, not_true_eq_false, if_false]
  rw [Effect.except_bind_ok]
  constructor
  · rintro ⟨value, hvalue, h⟩
    obtain ⟨hleaf, htext⟩ := unquote_eq_ok.1 hvalue
    split at h
    · cases h
    · rename_i hne
      cases h
      exact ⟨hleaf, htext, hne⟩
  · rintro ⟨hleaf, htext, hne⟩
    exact ⟨v, unquote_eq_ok.2 ⟨hleaf, htext⟩, if_neg hne⟩

end ChiliDB.Sql.Grammar

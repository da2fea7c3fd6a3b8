import ChiliDB.Parser.Lexical
import Mathlib.Data.List.TakeWhile

/-!
# The texts of leaves

What the lexical rules have taken, `transform.rs` looks at once more.  A text that a rule has taken is
accepted: the recognisers of the transform stop where the rule has stopped.

* `skipWs_append`, `skipWs_inside` — white space that ends before other text is white space on its own.
* `keywordSequence_iff` — the transform takes a text word by word as the grammar does.
* `trivia_is_whiteSpace` — **the transform and the rule `_ws` agree on what is skipped**.
-/

namespace ChiliDB.Sql.Grammar

open Peg List
open Transform (isSpace isIdentChar afterComment skipTrivia skipToKeyword trivia stripWord)

/-! ## White space before other text -/

/-- A comment ends at its first `*/`, whatever is behind it. -/
theorem afterComment_eq_some : ∀ {s rest : List Char}, afterComment s = some rest →
    ∃ p, s = p ++ '*' :: '/' :: rest ∧ ∀ x, afterComment (p ++ '*' :: '/' :: x) = some x
  | [], _, h => by cases h
  | c :: s, rest, h => by
    unfold afterComment at h
    split at h
    · rename_i heq
      cases h
      exact ⟨[], heq, fun _ => rfl⟩
    · rename_i hne heq
      cases heq
      obtain ⟨p, rfl, hp⟩ := afterComment_eq_some h
      refine ⟨c :: p, rfl, fun x => ?_⟩
      rw [cons_append]
      unfold afterComment
      split
      · rename_i heq
        cases p with
        | nil => cases heq
        | cons b p =>
          cases heq
          exact (hne _ rfl rfl).elim
      · rename_i heq
        cases heq
        exact hp x
      · rename_i heq
        cases heq
    · rename_i heq
      cases heq

variable {s rest b k t : List Char}

/-- A line comment ends at its first line feed, or takes everything. -/
theorem tail_dropWhile_eq (h : (s.dropWhile (· ≠ '\n')).tail = rest) (hne : rest ≠ []) :
    ∃ p, s = p ++ '\n' :: rest ∧ ∀ x, ((p ++ '\n' :: x).dropWhile (· ≠ '\n')).tail = x := by
  have hhead := head?_dropWhile_not (fun c => decide (c ≠ '\n')) s
  have hsplit := takeWhile_append_dropWhile (p := fun c => decide (c ≠ '\n')) (l := s)
  cases hs : s.dropWhile (fun c => decide (c ≠ '\n')) with
  | nil =>
    rw [hs] at h
    exact absurd h.symm hne
  | cons c s' =>
    rw [hs] at h hhead hsplit
    have hc : c = '\n' := by simpa using hhead
    have hs' : s' = rest := h
    subst hc hs'
    refine ⟨s.takeWhile fun c => decide (c ≠ '\n'), hsplit.symm, fun x => ?_⟩
    rw [dropWhile_append_of_pos fun a ha =>
      mem_takeWhile_imp (p := fun c => decide (c ≠ '\n')) ha]
    rfl

theorem lineComment_eq_some (h : lineComment s = some rest) :
    ∃ s', s = '-' :: '-' :: s' ∧ (s'.dropWhile (· ≠ '\n')).tail = rest := by
  unfold lineComment at h
  split at h
  · cases h
    exact ⟨_, rfl, rfl⟩
  · cases h

theorem blockComment_eq_some (h : blockComment s = some rest) :
    ∃ s', s = '/' :: '*' :: s' ∧ afterComment s' = some rest := by
  unfold blockComment at h
  split at h
  · exact ⟨_, rfl, h⟩
  · cases h

theorem dropChar_eq_some {p : Char → Bool} : dropChar p s = some rest ↔ ∃ a, s = a :: rest ∧ p a = true := by
  cases s with
  | nil => simp [dropChar]
  | cons a s =>
    simp only [dropChar]
    by_cases ha : p a = true
    · simp [ha]
    · simp [ha]

/-- A turn of `_ws` before other text takes the same whatever the text is. -/
theorem wsChunk_extends {b' : List Char} (h : wsChunk (b ++ k) = some (b' ++ k)) (hk : k ≠ []) (m : List Char) :
    wsChunk (b ++ m) = some (b' ++ m) := by
  have hne : b' ++ k ≠ [] := by simp [hk]
  unfold wsChunk at h
  rcases Option.or_eq_some_iff.1 h with h | ⟨_, h⟩
  · obtain ⟨a, hb, ha⟩ := dropChar_eq_some.1 h
    have hb' : b = a :: b' := (append_left_inj k).1 hb
    rw [hb']
    exact wsChunk_space ha _
  · rcases Option.or_eq_some_iff.1 h with h | ⟨_, h⟩
    · obtain ⟨s, hb, hrest⟩ := lineComment_eq_some h
      obtain ⟨p, rfl, hp⟩ := tail_dropWhile_eq hrest hne
      have hb' : b = '-' :: '-' :: (p ++ '\n' :: b') := by
        apply (append_left_inj k).1
        rw [hb]
        simp
      rw [hb']
      simp only [cons_append, append_assoc]
      rw [wsChunk_line, hp]
    · obtain ⟨s, hb, hrest⟩ := blockComment_eq_some h
      obtain ⟨p, rfl, hp⟩ := afterComment_eq_some hrest
      have hb' : b = '/' :: '*' :: (p ++ '*' :: '/' :: b') := by
        apply (append_left_inj k).1
        rw [hb]
        simp
      rw [hb']
      simp only [cons_append, append_assoc]
      rw [wsChunk_block, hp]

/-- White space before other text is skipped whatever the text is. -/
theorem skipWs_append (h : skipWs (b ++ k) = k) (hk : k ≠ []) (m : List Char) : skipWs (b ++ m) = skipWs m := by
  induction hlen : b.length using Nat.strongRecOn generalizing b with
  | ind len ih =>
    cases hchunk : wsChunk (b ++ k) with
    | none =>
      rw [skipWs_none hchunk] at h
      have hb : b = [] := (append_left_inj k).1 h
      rw [hb, nil_append]
    | some rest =>
      rw [skipWs_some hchunk] at h
      obtain ⟨b', rfl⟩ : k <:+ rest := by
        conv_lhs => rw [← h]
        exact reads_ws.suffix rfl
      have hlt := wsChunk_progress _ _ hchunk
      rw [length_append, length_append] at hlt
      rw [skipWs_some (wsChunk_extends hchunk hk m)]
      exact ih b'.length (by omega) h rfl

/-- What starts with white space does so whatever is behind it. -/
theorem wsChunk_append (h : wsChunk s = some rest) (m : List Char) : wsChunk (s ++ m) ≠ none := by
  unfold wsChunk at h
  rcases Option.or_eq_some_iff.1 h with h | ⟨_, h⟩
  · obtain ⟨a, rfl, ha⟩ := dropChar_eq_some.1 h
    simp [wsChunk_space ha]
  · rcases Option.or_eq_some_iff.1 h with h | ⟨_, h⟩
    · obtain ⟨s, rfl, _⟩ := lineComment_eq_some h
      simp [wsChunk_line]
    · obtain ⟨s, rfl, hs⟩ := blockComment_eq_some h
      obtain ⟨p, rfl, hp⟩ := afterComment_eq_some hs
      simp [wsChunk_block, hp]

/-- White space before the end of a text is skipped in the text on its own. -/
theorem skipWs_inside (h : skipWs (b ++ k) = t ++ k) : skipWs b = t := by
  by_cases hk : k = []
  · simpa [hk] using h
  obtain ⟨p, hp⟩ : t ++ k <:+ b ++ k := by
    rw [← h]
    exact reads_ws.suffix rfl
  have hb : b = p ++ t := by
    apply (append_left_inj k).1
    rw [← hp, append_assoc]
  have ht : wsChunk t = none := by
    have hnone : wsChunk (t ++ k) = none := h ▸ wsChunk_skipWs (b ++ k)
    cases hchunk : wsChunk t with
    | none => rfl
    | some rest => exact absurd hnone (wsChunk_append hchunk k)
  rw [hb, append_assoc] at h
  rw [hb, skipWs_append h (by simp [hk]) t]
  exact skipWs_none ht

theorem trivia_iff (s : List Char) : trivia s = true ↔ skipWs s = [] := by
  rw [trivia, skipTrivia_eq]
  cases hopen : opensComment (skipWs s) with
  | true => simpa using fun hs => by simp [hs, opensComment] at hopen
  | false => simp

/-! ## Tokens -/

theorem stripWord_eq (w : String) (s : List Char) : stripWord w s = dropText true w.toList s := by
  have h := matchText_rest true w.toList ⟨0, s⟩
  rw [matchText_eq] at h
  rw [← h]
  unfold stripWord
  cases splitBytes (bytes w.toList) s with
  | none => rfl
  | some r =>
    obtain ⟨part, rest⟩ := r
    change (if eqIgnoreAsciiCase part w.toList then some rest else none) =
      Option.map Cursor.rest (if eqIgnoreAsciiCase part w.toList then _ else none)
    split <;> rfl

/-- The text is the word, but for white space behind it. -/
def Accepts (w : String) (t : List Char) : Prop := (stripWord w t).any trivia = true

variable {w : String} {ws : List String}

theorem accepts_of {a : List Char} (ha : lower a = lower w.toList) (hb : skipWs b = []) : Accepts w (a ++ b) := by
  unfold Accepts
  rw [stripWord_eq, dropText_lower_eq_some.2 ⟨a, rfl, ha⟩]
  exact (trivia_iff b).2 hb

/-- A word before the end of a text is a word of the text on its own. -/
theorem word_inside (h : word w (t ++ k) = some (rest ++ k)) : word w t = some rest := by
  obtain ⟨s, hdrop, hs⟩ := Option.bind_eq_some_iff.1 h
  split at hs
  · cases hs
  rename_i hnext
  have hws : skipWs s = rest ++ k := Option.some.inj hs
  obtain ⟨b, rfl⟩ : k <:+ s := (suffix_append rest k).trans (hws ▸ reads_ws.suffix rfl)
  obtain ⟨a, ht, ha⟩ := dropText_lower_eq_some.1 hdrop
  have ht' : t = a ++ b := by
    apply (append_left_inj k).1
    rw [ht, append_assoc]
  have hb : identNext b = false := by
    cases b with
    | nil => rfl
    | cons c b => simpa [identNext] using hnext
  simp [word, dropText_lower_eq_some.2 ⟨a, ht', ha⟩, hb, skipWs_inside hws]

theorem word_accepts (h : word w (t ++ k) = some k) : Accepts w t := by
  have hword : word w t = some [] := word_inside (k := k) h
  obtain ⟨s, hdrop, hs⟩ := Option.bind_eq_some_iff.1 hword
  split at hs
  · cases hs
  · rw [Accepts, stripWord_eq, hdrop]
    exact (trivia_iff s).2 (Option.some.inj hs)

/-- One of these symbols, and white space. -/
def symbols (ws : List String) (s : List Char) : Option (List Char) :=
  (ws.findSome? fun w => dropText false w.toList s).map skipWs

theorem reads_symbols (ws : List String) :
    Reads (.expr (.seq [.choice (ws.map fun w => .lit w false), .ref "_ws"])) (symbols ws) := by
  have hchoice : ∀ ws : List String, Reads (.any (ws.map fun w => .lit w false))
      fun s => ws.findSome? fun w => dropText false w.toList s := by
    intro ws
    induction ws with
    | nil => exact reads_none
    | cons w ws ih =>
      refine (reads_or reads_lit ih).congr fun s => ?_
      rw [findSome?_cons]
      cases dropText false w.toList s <;> rfl
  refine (reads_seq (reads_cons (reads_choice (hchoice ws)) (reads_cons reads_ws reads_nil))).congr fun s => ?_
  unfold symbols
  cases ws.findSome? fun w => dropText false w.toList s <;> rfl

theorem symbols_accepts (h : symbols ws (t ++ k) = some k) : ∃ w ∈ ws, Accepts w t := by
  obtain ⟨rest, hfind, hws⟩ := Option.map_eq_some_iff.1 h
  obtain ⟨w, hw, hdrop⟩ := exists_of_findSome?_eq_some hfind
  obtain ⟨b, rfl⟩ : k <:+ rest := by
    rw [← hws]
    exact reads_ws.suffix rfl
  have ht : t = w.toList ++ b := by
    apply (append_left_inj k).1
    rw [dropText_eq_some.1 hdrop, append_assoc]
  rw [ht]
  exact ⟨w, hw, accepts_of rfl (skipWs_inside (t := []) hws)⟩

/-- One of these words, the end of the word, and white space. -/
def oneWord (ws : List String) (s : List Char) : Option (List Char) :=
  (firstWord ws s).bind fun rest => if identNext rest then none else some (skipWs rest)

theorem reads_oneWord (ws : List String) : Reads (.expr (.seq [.choice (ws.map fun w => .lit w true),
    .predicate (.ref "_ident_rest") false, .ref "_ws"])) (oneWord ws) := by
  refine (reads_seq (reads_cons (reads_choice (reads_firstWord ws))
    (reads_cons reads_boundary (reads_cons reads_ws reads_nil)))).congr fun s => ?_
  unfold oneWord
  congr 1
  funext rest
  cases identNext rest <;> rfl

theorem oneWord_accepts (h : oneWord ws (t ++ k) = some k) : ∃ w ∈ ws, Accepts w t := by
  unfold oneWord at h
  obtain ⟨rest, hfirst, hrest⟩ := Option.bind_eq_some_iff.1 h
  obtain ⟨w, hw, hdrop⟩ := exists_of_findSome?_eq_some hfirst
  have hword : word w (t ++ k) = some k := by
    unfold word
    rw [hdrop]
    exact hrest
  exact ⟨w, hw, word_accepts hword⟩

/-! ## Keyword sequences -/

/-- These words, one after the other. -/
def wordsRead : List String → List Char → Option (List Char)
  | [], s => some s
  | w :: ws, s => (word w s).bind (wordsRead ws)

/-- A word that starts with a letter. -/
def lettered (w : String) : Bool := w.toList.head?.any Char.isAlpha

theorem suffix_of_word (h : word w s = some rest) : rest <:+ s :=
  (reads_keyword w).suffix h

theorem suffix_of_wordsRead : ∀ {ws : List String} {s rest : List Char}, wordsRead ws s = some rest → rest <:+ s
  | [], s, rest, h => by
    cases h
    exact suffix_refl _
  | w :: ws, s, rest, h => by
    obtain ⟨s', hword, hrest⟩ := Option.bind_eq_some_iff.1 h
    exact (suffix_of_wordsRead hrest).trans (suffix_of_word hword)

/-- A text that the words take up to some end is taken on its own. -/
theorem wordsRead_inside : ∀ {ws : List String} {t : List Char}, wordsRead ws (t ++ k) = some k →
    wordsRead ws t = some []
  | [], t, h => by simpa [wordsRead] using h
  | w :: ws, t, h => by
    obtain ⟨rest, hword, hrest⟩ := Option.bind_eq_some_iff.1 h
    obtain ⟨t', rfl⟩ := suffix_of_wordsRead hrest
    exact Option.bind_eq_some_iff.2 ⟨t', word_inside hword, wordsRead_inside hrest⟩

/-- No word starts with the `/` of a comment that is not closed. -/
theorem wordsRead_comment (hopen : opensComment s = true) (hs : wsChunk s = none)
    (hws : ∀ v ∈ ws, v.toList.head? ≠ some '/') : wordsRead ws s ≠ some [] := by
  obtain ⟨s, rfl⟩ : ∃ s', s = '/' :: s' := by
    unfold opensComment at hopen
    split at hopen
    · exact ⟨_, rfl⟩
    · cases hopen
  induction ws with
  | nil => simp [wordsRead]
  | cons w ws ih =>
    obtain ⟨hw, hws⟩ := forall_mem_cons.1 hws
    intro h
    obtain ⟨rest, hword, hrest⟩ := Option.bind_eq_some_iff.1 h
    unfold word at hword
    generalize w.toList = cs at hw hword
    cases cs with
    | nil =>
      -- an empty word stays before the comment
      obtain rfl : '/' :: s = rest := by
        simpa [dropText, show identNext ('/' :: s) = false from rfl, skipWs_none hs] using hword
      exact ih hws hrest
    | cons c cs =>
      have hlower : (c.toLower == '/') = (c == '/') := toLower_congr (f := (· == '/')) (by decide) c
      have hc : c.toLower ≠ '/' := by
        rw [← beq_eq_false_iff_ne, hlower]
        simpa using hw
      simp [dropText, sameChar, show '/'.toLower = '/' from rfl, hc] at hword

open Transform (keywordsFrom keywordSequence)

/-- Before a later word is what the first word would have there. -/
theorem keywordsFrom_later (n : Node) (s : List Char) : keywordsFrom n false (w :: ws) s = match skipTrivia s with
    | some s => keywordsFrom n true (w :: ws) s
    | none => Transform.error n "closed comment" := by
  unfold keywordsFrom
  cases skipTrivia s <;> rfl

theorem keywordsFrom_first (n : Node) (s : List Char) : keywordsFrom n true (w :: ws) s =
    match dropText true w.toList s with
    | some rest => if identNext rest then Transform.error n "keyword boundary" else keywordsFrom n false ws rest
    | none => Transform.error n "keyword sequence" := by
  rw [← stripWord_eq]
  rfl

/-- The words are read and the rest is trivia. -/
def Sequence (n : Node) (first : Bool) (ws : List String) (s : List Char) : Prop :=
  ∃ rest, keywordsFrom n first ws s = .ok rest ∧ trivia rest = true

theorem sequence_first {n : Node}
    (h : ∀ s, Sequence n false ws s ↔ wordsRead ws (skipWs s) = some []) (s : List Char) :
    Sequence n true (w :: ws) s ↔ wordsRead (w :: ws) s = some [] := by
  unfold Sequence wordsRead word
  rw [keywordsFrom_first]
  cases dropText true w.toList s with
  | none => simp [Transform.error]
  | some rest =>
    cases hnext : identNext rest with
    | true => simp [Transform.error, hnext]
    | false => simpa [hnext, Sequence] using h rest

/-- **The transform finds the later words where the grammar finds them.** -/
theorem sequence_later {n : Node} : ∀ {ws : List String}, (∀ v ∈ ws, v.toList.head? ≠ some '/') →
    ∀ s, Sequence n false ws s ↔ wordsRead ws (skipWs s) = some []
  | [], _, s => by simp [Sequence, keywordsFrom, wordsRead, trivia_iff, pure, Except.pure]
  | w :: ws, hws, s => by
    have hrest := sequence_later (n := n) (forall_mem_cons.1 hws).2
    unfold Sequence
    rw [keywordsFrom_later, skipTrivia_eq]
    cases hopen : opensComment (skipWs s) with
    | true => simpa [Transform.error] using wordsRead_comment hopen (wsChunk_skipWs s) hws
    | false => exact sequence_first hrest (skipWs s)

theorem keywordSequence_iff {n : Node} (hws : ∀ v ∈ w :: ws, v.toList.head? ≠ some '/') :
    keywordSequence n (w :: ws) = .ok () ↔ wordsRead (w :: ws) n.text.toList = some [] := by
  rw [← sequence_first (n := n) (sequence_later (forall_mem_cons.1 hws).2)]
  unfold keywordSequence
  rw [Effect.except_bind_ok]
  refine exists_congr fun rest => and_congr_right fun _ => ?_
  cases trivia rest <;> simp [Transform.error, pure, Except.pure]

/-- **A text that the grammar has taken word by word is a keyword sequence.** -/
theorem keywordSequence_ok {n : Node} (hws : ∀ v ∈ w :: ws, lettered v = true)
    (h : wordsRead (w :: ws) (n.text.toList ++ k) = some k) : keywordSequence n (w :: ws) = .ok () := by
  refine (keywordSequence_iff fun v hv hslash => ?_).2 (wordsRead_inside h)
  have hv := hws v hv
  rw [lettered, hslash] at hv
  cases hv

/-! ## Trivia against the grammar -/

/-- `w1 !_ident_rest _ws w2 !_ident_rest _ws …`, the words in any case. -/
def keywordParts (ws : List String) : List Peg.Expr :=
  ws.flatMap fun w => [.lit w true, .predicate (.ref "_ident_rest") false, .ref "_ws"]

theorem reads_keywordParts : ∀ ws : List String, Reads (.all (keywordParts ws)) (wordsRead ws)
  | [] => reads_nil
  | w :: ws => by
    refine (reads_cons reads_lit (reads_cons reads_boundary
      (reads_cons reads_ws (reads_keywordParts ws)))).congr fun s => ?_
    show (word w s).bind (wordsRead ws) = _
    unfold word
    cases dropText true w.toList s with
    | none => rfl
    | some rest => cases hnext : identNext rest <;> simp [hnext]

/-- **The recognisers of white space and comments agree.**  `trivia` accepts the texts that `_ws` takes whole; the
loop between two keywords skips what `trivia` skips; and a keyword sequence is a text that the rules of the
grammar take whole, word by word.  Of the words it is only asked that none starts with `/`, as no letter does. -/
theorem trivia_is_whiteSpace :
    (∀ s : String, trivia s.toList = true ↔ Whole rules names (.expr (.ref "_ws")) s) ∧
    (∀ s, skipToKeyword s = skipTrivia s) ∧
    ∀ (n : Node) (w : String) (ws : List String), (∀ v ∈ w :: ws, v.toList.head? ≠ some '/') →
      (keywordSequence n (w :: ws) = .ok () ↔
        Whole rules names (.expr (.seq (keywordParts (w :: ws)))) n.text) := by
  refine ⟨fun s => ?_, skipToKeyword_eq, fun n w ws hws => ?_⟩
  · rw [trivia_iff, Reads.whole reads_ws, Option.some_inj]
  · rw [keywordSequence_iff hws, Reads.whole (reads_seq (reads_keywordParts _))]

end ChiliDB.Sql.Grammar

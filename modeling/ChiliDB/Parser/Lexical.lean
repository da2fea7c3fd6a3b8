import ChiliDB.Parser.Grammar
import ChiliDB.Parser.Transform
import ChiliDB.Peg.Reading

/-!
# The lexical rules of the SQL grammar

White space and comments, words and identifiers: what the rules take off the input, as functions on lists of
characters.  The same functions say what `transform.rs` skips when it looks at the text of a node again.

* `skipWs` — the rule `_ws`; `skipTrivia_eq` — the transform skips the same, but for a comment that is not
  closed.
* `word` — a keyword with the white space behind it.
* `bareIdentifier` — the rule `BareIdentifier`, with `reservedWord` in front of it.
-/

namespace ChiliDB.Sql.Grammar

open Peg List
open Transform (isSpace isIdentChar afterComment skipTrivia skipToKeyword trivia stripWord)

/-- The outcomes of the SQL grammar. -/
abbrev Matches := Peg.Matches rules names

/-- The readings of the SQL grammar. -/
abbrev Reads := Peg.Reads rules names

theorem valid : Validated rules names (nulls names rules) := validated_of_validate rules_valid

/-! ## Characters -/

/-- A literal is taken if it is there. -/
theorem dropText_eq_some : ∀ {as s rest : List Char}, dropText false as s = some rest ↔ s = as ++ rest
  | [], s, rest => by simp [dropText]
  | a :: as, [], rest => by simp [dropText]
  | a :: as, b :: s, rest => by
    by_cases hab : a = b
    · simp [dropText, sameChar, hab, dropText_eq_some]
    · simp [dropText, sameChar, hab, Ne.symm hab]

@[simp] theorem dropText_two (a b : Char) (s : List Char) : dropText false [a, b] (a :: b :: s) = some s :=
  dropText_eq_some.2 rfl

theorem progress_dropChar (p : Char → Bool) : Progress (dropChar p)
  | [], _, h => by cases h
  | c :: s, rest, h => by
    simp only [dropChar] at h
    split at h
    · cases h
      simp
    · cases h

theorem exhaust_dropChar (p : Char → Bool) : ∀ s : List Char, exhaust (dropChar p) s = s.dropWhile p
  | [] => exhaust_none rfl
  | c :: s => by
    by_cases hc : p c = true
    · have hdrop : dropChar p (c :: s) = some s := if_pos hc
      rw [exhaust_some hdrop (by simp), exhaust_dropChar p s, dropWhile_cons_of_pos hc]
    · have hdrop : dropChar p (c :: s) = none := if_neg hc
      rw [exhaust_none hdrop, dropWhile_cons_of_neg hc]

theorem inRange_one (a c : Char) : decide (a ≤ c ∧ c ≤ a) = decide (c = a) := by
  rw [decide_eq_decide]
  constructor
  · exact fun h => Char.le_antisymm h.2 h.1
  · rintro rfl
    exact ⟨Char.le_refl c, Char.le_refl c⟩

variable (c : Char)

theorem inRange_lower : decide ('a' ≤ c ∧ c ≤ 'z') = c.isLower := (inRange_eq ('a', 'z') c).symm

theorem inRange_upper : decide ('A' ≤ c ∧ c ≤ 'Z') = c.isUpper := (inRange_eq ('A', 'Z') c).symm

theorem inRange_digit : decide ('0' ≤ c ∧ c ≤ '9') = c.isDigit := (inRange_eq ('0', '9') c).symm

theorem isAlpha_eq : c.isAlpha = (c.isUpper || c.isLower) := rfl

theorem isIdentChar_eq : inClass [('a', 'z'), ('A', 'Z'), ('_', '_'), ('0', '9')] false = isIdentChar := by
  funext c
  simp only [inClass, any_cons, any_nil, inRange_one, inRange_lower, inRange_upper, inRange_digit,
    isIdentChar, Char.isAlphanum, isAlpha_eq]
  cases c.isUpper <;> cases c.isLower <;> cases c.isDigit <;> cases decide (c = '_') <;> rfl

theorem reads_identRest : Reads (.expr (.ref "_ident_rest")) (dropChar isIdentChar) := by
  refine .silent valid (i := 82) rfl rfl ?_
  rw [← isIdentChar_eq]
  exact reads_class

/-- The text goes on with a character of identifiers. -/
def identNext (s : List Char) : Bool := s.head?.any isIdentChar

theorem isSome_dropChar (p : Char → Bool) (s : List Char) : (dropChar p s).isSome = s.head?.any p := by
  cases s with
  | nil => rfl
  | cons c s =>
    simp only [dropChar, head?_cons, Option.any_some]
    cases p c <;> rfl

theorem reads_boundary : Reads (.expr (.predicate (.ref "_ident_rest") false))
    fun s => if identNext s then none else some s := by
  refine (reads_not reads_identRest).congr fun s => ?_
  rw [isSome_dropChar]
  rfl

/-! ## White space -/

/-- `_line_comment`. -/
def lineComment : List Char → Option (List Char)
  | '-' :: '-' :: s => some (s.dropWhile (· ≠ '\n')).tail
  | _ => none

/-- `_block_comment`. -/
def blockComment : List Char → Option (List Char)
  | '/' :: '*' :: s => afterComment s
  | _ => none

/-- Any character but one. -/
theorem reads_other {text : String} {q : Char} (hq : text.toList = [q]) :
    Reads (.expr (.seq [.predicate (.lit text false) false, .any])) (dropChar fun c => c ≠ q) := by
  refine (reads_seq (reads_cons (reads_not reads_lit) (reads_cons reads_any reads_nil))).congr fun s => ?_
  rw [hq]
  cases s with
  | nil => rfl
  | cons c s =>
    by_cases hc : c = q
    · simp [hc, dropChar, dropText, sameChar]
    · simp [hc, Ne.symm hc, dropChar, dropText, sameChar]

/-- A line feed, or the end of the input. -/
def endOfLine : List Char → Option (List Char)
  | [] => some []
  | c :: s => if c = '\n' then some s else none

theorem reads_endOfLine : Reads (.expr (.choice [.lit "\n" false, .predicate .any false])) endOfLine := by
  refine (reads_choice (reads_or reads_lit (reads_or (reads_not reads_any) reads_none))).congr fun s => ?_
  have hnewline : "\n".toList = ['\n'] := rfl
  rw [hnewline]
  cases s with
  | nil => rfl
  | cons c s =>
    by_cases hc : c = '\n'
    · simp [hc, endOfLine, dropText, sameChar]
    · simp [hc, Ne.symm hc, endOfLine, dropText, dropChar, sameChar]

theorem endOfLine_dropWhile (s : List Char) :
    endOfLine (s.dropWhile (· ≠ '\n')) = some (s.dropWhile (· ≠ '\n')).tail := by
  have hhead := head?_dropWhile_not (fun c => decide (c ≠ '\n')) s
  generalize s.dropWhile (fun c => decide (c ≠ '\n')) = rest at hhead ⊢
  cases rest with
  | nil => rfl
  | cons c rest =>
    have hc : c = '\n' := by simpa using hhead
    simp [hc, endOfLine]

theorem reads_lineComment : Reads (.expr (.ref "_line_comment")) lineComment := by
  refine .silent valid (i := 135) rfl rfl ((reads_seq (reads_cons reads_lit
    (reads_cons (reads_many (reads_other (q := '\n') rfl) (progress_dropChar _))
      (reads_cons reads_endOfLine reads_nil)))).congr fun s => ?_)
  have hdash : "--".toList = ['-', '-'] := rfl
  rw [hdash]
  cases hs : dropText false ['-', '-'] s with
  | none =>
    unfold lineComment
    split
    · rw [dropText_two] at hs
      cases hs
    · rfl
  | some rest =>
    obtain rfl := dropText_eq_some.1 hs
    rw [Option.bind_some, Option.bind_some, exhaust_dropChar, endOfLine_dropWhile]
    rfl

/-- A character that does not start `*/`. -/
def commentChar : List Char → Option (List Char)
  | '*' :: '/' :: _ => none
  | _ :: s => some s
  | [] => none

theorem commentChar_progress : Progress commentChar
  | [], _, h => by cases h
  | c :: s, rest, h => by
    unfold commentChar at h
    split at h
    · cases h
    · rename_i heq
      cases heq
      cases h
      simp
    · cases h

theorem reads_commentChar : Reads (.expr (.seq [.predicate (.lit "*/" false) false, .any])) commentChar := by
  refine (reads_seq (reads_cons (reads_not reads_lit) (reads_cons reads_any reads_nil))).congr fun s => ?_
  have hstar : "*/".toList = ['*', '/'] := rfl
  rw [hstar]
  unfold commentChar
  split
  · rw [dropText_two]
    rfl
  · rename_i c s hne
    cases hs : dropText false ['*', '/'] (c :: s) with
    | none => rfl
    | some rest =>
      cases dropText_eq_some.1 hs
      exact (hne _ rfl rfl).elim
  · rfl

theorem dropText_exhaust_comment : ∀ s : List Char,
    dropText false ['*', '/'] (exhaust commentChar s) = afterComment s
  | [] => by
    rw [exhaust_none rfl]
    rfl
  | c :: s => by
    unfold afterComment
    split
    · rename_i heq
      rw [heq, exhaust_none rfl, dropText_two]
    · rename_i hne heq
      cases heq
      have hchar : commentChar (c :: s) = some s := by
        unfold commentChar
        split
        · rename_i heq
          cases heq
          exact (hne _ rfl rfl).elim
        · rename_i heq
          cases heq
          rfl
        · rename_i heq
          cases heq
      rw [exhaust_some hchar (by simp), dropText_exhaust_comment s]
    · rename_i heq
      cases heq

theorem reads_blockComment : Reads (.expr (.ref "_block_comment")) blockComment := by
  refine .silent valid (i := 136) rfl rfl ((reads_seq (reads_cons reads_lit
    (reads_cons (reads_many reads_commentChar commentChar_progress)
      (reads_cons reads_lit reads_nil)))).congr fun s => ?_)
  have hopen : "/*".toList = ['/', '*'] := rfl
  have hclose : "*/".toList = ['*', '/'] := rfl
  rw [hopen, hclose]
  cases hs : dropText false ['/', '*'] s with
  | none =>
    unfold blockComment
    split
    · rw [dropText_two] at hs
      cases hs
    · rfl
  | some rest =>
    obtain rfl := dropText_eq_some.1 hs
    simp [blockComment, dropText_exhaust_comment]

/-- One turn of `_ws`. -/
def wsChunk (s : List Char) : Option (List Char) :=
  (dropChar isSpace s).or ((lineComment s).or (blockComment s))

theorem isSpace_eq : inClass [(' ', ' '), ('\t', '\t'), ('\r', '\r'), ('\n', '\n')] false = isSpace := by
  funext c
  simp only [inClass, any_cons, any_nil, inRange_one, isSpace]
  cases decide (c = ' ') <;> cases decide (c = '\t') <;> cases decide (c = '\r') <;> cases decide (c = '\n') <;> rfl

variable {s rest : List Char}

theorem lineComment_length (h : lineComment s = some rest) : rest.length < s.length := by
  unfold lineComment at h
  split at h
  · rename_i s
    cases h
    have := (dropWhile_suffix (fun c => decide (c ≠ '\n')) (l := s)).length_le
    simp only [length_tail, length_cons]
    omega
  · cases h

theorem blockComment_length (h : blockComment s = some rest) : rest.length < s.length := by
  unfold blockComment at h
  split at h
  · have := Transform.afterComment_length h
    simp only [length_cons]
    omega
  · cases h

theorem wsChunk_progress : Progress wsChunk := by
  intro s rest h
  unfold wsChunk at h
  rcases Option.or_eq_some_iff.1 h with h | ⟨_, h⟩
  · exact progress_dropChar _ _ _ h
  · rcases Option.or_eq_some_iff.1 h with h | ⟨_, h⟩
    · exact lineComment_length h
    · exact blockComment_length h

/-- What is behind white space and comments. -/
def skipWs (s : List Char) : List Char := exhaust wsChunk s

theorem reads_ws : Reads (.expr (.ref "_ws")) fun s => some (skipWs s) := by
  refine .silent valid (i := 134) rfl rfl (reads_many ?_ wsChunk_progress)
  rw [show wsChunk = fun s => (dropChar isSpace s).or ((lineComment s).or ((blockComment s).or none)) by
    funext s
    rw [Option.or_none]
    rfl]
  rw [← isSpace_eq]
  exact reads_choice (reads_or reads_class (reads_or reads_lineComment (reads_or reads_blockComment reads_none)))

theorem skipWs_none (h : wsChunk s = none) : skipWs s = s := exhaust_none h

theorem skipWs_some (h : wsChunk s = some rest) : skipWs s = skipWs rest :=
  exhaust_some h (wsChunk_progress _ _ h)

/-- White space is skipped as a whole. -/
theorem wsChunk_skipWs (s : List Char) : wsChunk (skipWs s) = none := by
  induction hlen : s.length using Nat.strongRecOn generalizing s with
  | ind len ih =>
    cases hs : wsChunk s with
    | none => rwa [skipWs_none hs]
    | some rest =>
      rw [skipWs_some hs]
      exact ih _ (by rw [← hlen]; exact wsChunk_progress _ _ hs) rest rfl

/-! ## White space in the transform -/

/-- The text starts a block comment. -/
def opensComment : List Char → Bool
  | '/' :: '*' :: _ => true
  | _ => false

theorem afterComment_cons (a : Char) (s : List Char) : afterComment (a :: s) =
    if a = '*' ∧ s.head? = some '/' then some s.tail else afterComment s := by
  cases s with
  | nil => simp [afterComment]
  | cons b s =>
    by_cases h : a = '*' ∧ b = '/'
    · obtain ⟨rfl, rfl⟩ := h
      rfl
    · rw [if_neg (by simpa using h)]
      conv_lhs => unfold afterComment
      split
      · rename_i heq
        cases heq
        exact absurd ⟨rfl, rfl⟩ h
      · rename_i heq
        cases heq
        rfl
      · rename_i heq
        cases heq

theorem dropText_pair_none {x y : Char} (h : ∀ t, s = x :: y :: t → False) : dropText false [x, y] s = none := by
  cases hs : dropText false [x, y] s with
  | none => rfl
  | some t => exact (h t (dropText_eq_some.1 hs)).elim

theorem lineComment_eq (s : List Char) : lineComment s =
    (dropText false ['-', '-'] s).map fun s => (s.dropWhile (· ≠ '\n')).tail := by
  unfold lineComment
  split
  · rw [dropText_two]
    rfl
  · rename_i hne
    rw [dropText_pair_none hne]
    rfl

theorem blockComment_eq (s : List Char) : blockComment s = (dropText false ['/', '*'] s).bind afterComment := by
  unfold blockComment
  split
  · rw [dropText_two]
    rfl
  · rename_i hne
    rw [dropText_pair_none hne]
    rfl

theorem opensComment_eq (s : List Char) : opensComment s = (dropText false ['/', '*'] s).isSome := by
  unfold opensComment
  split
  · rw [dropText_two]
    rfl
  · rename_i hne
    rw [dropText_pair_none hne]
    rfl

theorem skipTrivia_match (s : List Char) : skipTrivia s = match s.dropWhile isSpace with
    | '-' :: '-' :: rest => skipTrivia (rest.dropWhile (· ≠ '\n'))
    | '/' :: '*' :: rest => (afterComment rest).bind skipTrivia
    | rest => some rest := by
  conv_lhs => unfold skipTrivia
  split
  · rename_i h
    simp only [h]
  · rename_i rest h
    simp only [h]
    split
    · rename_i hc
      rw [hc, Option.bind_some]
    · rename_i hc
      rw [hc, Option.bind_none]
  · rename_i hline hblock
    split
    · rename_i h
      exact (hline _ h).elim
    · rename_i h
      exact (hblock _ h).elim
    · rfl

/-- Block comments first or line comments first: no text starts with both. -/
theorem skipToKeyword_eq (s : List Char) : skipToKeyword s = skipTrivia s := by
  fun_induction skipToKeyword s with
  | case1 s rest h rest' hc ih => simp [ih, skipTrivia_match s, h, hc]
  | case2 s rest h hc => simp [skipTrivia_match s, h, hc]
  | case3 s rest h ih => simp only [ih, skipTrivia_match s, h]
  | case4 s hblock hline =>
    rw [skipTrivia_match]
    split
    · rename_i h
      exact (hline _ h).elim
    · rename_i h
      exact (hblock _ h).elim
    · rfl

theorem skipTrivia_space {a : Char} (ha : isSpace a = true) (s : List Char) :
    skipTrivia (a :: s) = skipTrivia s := by
  rw [skipTrivia_match, skipTrivia_match s, dropWhile_cons_of_pos ha]

/-- The line feed that ends a comment is white space. -/
theorem skipTrivia_endOfLine (s : List Char) :
    skipTrivia (s.dropWhile (· ≠ '\n')) = skipTrivia (s.dropWhile (· ≠ '\n')).tail := by
  have hhead := head?_dropWhile_not (fun c => decide (c ≠ '\n')) s
  generalize s.dropWhile (fun c => decide (c ≠ '\n')) = rest at hhead ⊢
  cases rest with
  | nil => rfl
  | cons c rest =>
    have hc : c = '\n' := by simpa using hhead
    rw [hc]
    exact skipTrivia_space rfl rest

theorem wsChunk_line (s : List Char) : wsChunk ('-' :: '-' :: s) = some (s.dropWhile (· ≠ '\n')).tail := rfl

theorem wsChunk_block (s : List Char) : wsChunk ('/' :: '*' :: s) = afterComment s := rfl

theorem wsChunk_space {a : Char} (ha : isSpace a = true) (s : List Char) : wsChunk (a :: s) = some s := by
  simp [wsChunk, dropChar, ha]

/-- A turn of the transform's loop is a turn of `_ws`. -/
theorem skipTrivia_step (s : List Char) : skipTrivia s = match wsChunk s with
    | some rest => skipTrivia rest
    | none => if opensComment s then none else some s := by
  match s with
  | [] =>
    rw [skipTrivia_match]
    rfl
  | a :: s =>
    by_cases ha : isSpace a = true
    · rw [wsChunk_space ha, skipTrivia_space ha]
    · rw [skipTrivia_match, dropWhile_cons_of_neg ha]
      split
      · rename_i heq
        rw [heq, wsChunk_line, skipTrivia_endOfLine]
      · rename_i rest heq
        rw [heq, wsChunk_block]
        cases afterComment rest <;> rfl
      · rename_i hline hblock
        have hlineNone : lineComment (a :: s) = none := by
          unfold lineComment
          split
          · rename_i heq
            exact (hline _ heq).elim
          · rfl
        have hblockNone : blockComment (a :: s) = none ∧ opensComment (a :: s) = false := by
          unfold blockComment opensComment
          split
          · rename_i heq
            exact (hblock _ heq).elim
          · exact ⟨rfl, rfl⟩
        have hchunk : wsChunk (a :: s) = none := by simp [wsChunk, dropChar, ha, hlineNone, hblockNone.1]
        simp [hchunk, hblockNone.2]

/-- **The transform skips what `_ws` skips**, but for a comment that is not closed. -/
theorem skipTrivia_eq (s : List Char) :
    skipTrivia s = if opensComment (skipWs s) then none else some (skipWs s) := by
  induction hlen : s.length using Nat.strongRecOn generalizing s with
  | ind len ih =>
    rw [skipTrivia_step]
    cases hs : wsChunk s with
    | none => rw [skipWs_none hs]
    | some rest =>
      rw [skipWs_some hs]
      exact ih _ (by rw [← hlen]; exact wsChunk_progress _ _ hs) rest rfl

/-! ## Words -/

def upperLetters : List Char := (List.range' 65 26).map Char.ofNat

theorem mem_upperLetters {c : Char} (h : c.isUpper = true) : c ∈ upperLetters := by
  refine mem_map.2 ⟨c.toNat, ?_, Char.ofNat_toNat c⟩
  rw [mem_range'_1]
  have hlow : 65 ≤ c.toNat := (of_decide_eq_true h).1
  have hhigh : c.toNat ≤ 90 := (of_decide_eq_true h).2
  omega

/-- A character is its own lower case, or one of the capital letters. -/
theorem toLower_cases : c.toLower = c ∨ c ∈ upperLetters := by
  by_cases h : c.isUpper = true
  · exact .inr (mem_upperLetters h)
  · left
    unfold Char.toLower
    rw [dif_neg]
    intro hc
    exact h (decide_eq_true hc)

/-- What holds of the capital letters and their lower case is checked letter by letter. -/
theorem toLower_congr {α : Type} [BEq α] [LawfulBEq α] {f : Char → α}
    (h : upperLetters.all (fun c => f c.toLower == f c) = true) (c : Char) : f c.toLower = f c := by
  rcases toLower_cases c with hc | hc
  · rw [hc]
  · exact eq_of_beq (all_eq_true.1 h c hc)

theorem isAlpha_toLower : c.toLower.isAlpha = c.isAlpha := toLower_congr (by decide) c

def lower (s : List Char) : List Char := s.map Char.toLower

theorem dropText_insensitive : ∀ (w s : List Char),
    (dropText true w s).map lower = dropText false (lower w) (lower s)
  | [], s => rfl
  | _ :: _, [] => rfl
  | a :: w, b :: s => by
    by_cases hab : a.toLower = b.toLower
    · have hs := dropText_insensitive w s
      simpa [dropText, sameChar, lower, hab] using hs
    · simp [dropText, sameChar, lower, hab]

/-- A word is taken if it is there, in any case. -/
theorem dropText_lower_eq_some : ∀ {w s rest : List Char},
    dropText true w s = some rest ↔ ∃ a, s = a ++ rest ∧ lower a = lower w
  | [], s, rest => by simp [dropText, lower]
  | a :: w, [], rest => by
    constructor
    · intro h
      cases h
    · rintro ⟨b, hb, hlower⟩
      rw [(append_eq_nil_iff.1 hb.symm).1] at hlower
      cases hlower
  | a :: w, b :: s, rest => by
    simp only [dropText, sameChar, if_true, decide_eq_true_eq]
    split
    · rename_i hab
      rw [dropText_lower_eq_some]
      constructor
      · rintro ⟨x, rfl, hx⟩
        refine ⟨b :: x, rfl, ?_⟩
        simp only [lower, map_cons] at hx ⊢
        rw [hx, hab]
      · rintro ⟨x, hs, hx⟩
        cases x with
        | nil => cases hx
        | cons x xs =>
          cases hs
          simp only [lower, map_cons, cons.injEq] at hx
          exact ⟨xs, rfl, hx.2⟩
    · rename_i hab
      constructor
      · intro h
        cases h
      · rintro ⟨x, hs, hx⟩
        cases x with
        | nil => cases hx
        | cons x xs =>
          cases hs
          simp only [lower, map_cons, cons.injEq] at hx
          exact absurd hx.1.symm hab

/-- A keyword, the end of the word, and white space. -/
def word (w : String) (s : List Char) : Option (List Char) :=
  (dropText true w.toList s).bind fun rest => if identNext rest then none else some (skipWs rest)

theorem reads_keyword (w : String) : Reads (.expr (keyword w)) (word w) := by
  refine (reads_seq (reads_cons reads_lit (reads_cons reads_boundary
    (reads_cons reads_ws reads_nil)))).congr fun s => ?_
  unfold word
  congr 1
  funext rest
  cases identNext rest <;> rfl

/-- What is behind the first of the words that the text starts with. -/
def firstWord (words : List String) (s : List Char) : Option (List Char) :=
  words.findSome? fun w => dropText true w.toList s

theorem reads_firstWord : ∀ words : List String,
    Reads (.any (words.map fun w => .lit w true)) (firstWord words)
  | [] => reads_none
  | w :: words => by
    refine (reads_or reads_lit (reads_firstWord words)).congr fun s => ?_
    simp only [firstWord, findSome?_cons]
    cases dropText true w.toList s <;> rfl

/-- `_reserved`. -/
def reservedWord (s : List Char) : Option (List Char) :=
  (firstWord reserved s).bind fun rest => if identNext rest then none else some rest

theorem reads_reserved : Reads (.expr (.ref "_reserved")) reservedWord := by
  refine .silent valid (i := 83) rfl rfl ((reads_seq (reads_cons
    (reads_choice (reads_firstWord reserved)) (reads_cons reads_boundary reads_nil))).congr fun s => ?_)
  unfold reservedWord
  congr 1
  funext rest
  cases identNext rest <;> rfl

/-- The first character of a bare identifier. -/
def isIdentStart (c : Char) : Bool := c.isAlpha || c = '_'

theorem isIdentStart_eq : inClass [('a', 'z'), ('A', 'Z'), ('_', '_')] false = isIdentStart := by
  funext c
  simp only [inClass, any_cons, any_nil, inRange_one, inRange_lower, inRange_upper, isIdentStart, isAlpha_eq]
  cases c.isUpper <;> cases c.isLower <;> cases decide (c = '_') <;> rfl

/-- `BareIdentifier`. -/
def bareIdentifier (s : List Char) : Option (List Char) :=
  if (reservedWord s).isSome then none else (dropChar isIdentStart s).map (List.dropWhile isIdentChar)

theorem reads_bareIdentifier : Reads (.expr (.seq [.predicate (.ref "_reserved") false,
    .class_ [('a', 'z'), ('A', 'Z'), ('_', '_')] false, .repeat_ (.ref "_ident_rest") false])) bareIdentifier := by
  refine (reads_seq (reads_cons (reads_not reads_reserved) (reads_cons reads_class
    (reads_cons (reads_many reads_identRest (progress_dropChar _)) reads_nil)))).congr fun s => ?_
  rw [isIdentStart_eq]
  unfold bareIdentifier
  cases (reservedWord s).isSome with
  | true => rfl
  | false =>
    simp only [Bool.false_eq_true, if_false, Option.bind_some, exhaust_dropChar]
    cases dropChar isIdentStart s <;> rfl

end ChiliDB.Sql.Grammar

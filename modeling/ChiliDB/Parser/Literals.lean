import ChiliDB.Parser.Leaves
import ChiliDB.Parser.TransformSpec

/-!
# Numbers and quoted texts

The leaves with a value: digits, numbers, strings and quoted identifiers.  What the grammar takes, and that
`transform.rs` accepts it.

* `digitsRead`, `numberRead` — digits and numbers; `number_text` — the transform's check of numbers.
* `closeQuote` — what is behind a quoted text; `unquote_ok` — the transform takes the quotes off.
-/

namespace ChiliDB.Sql.Grammar

open Peg List
open Transform (isIdentChar digits exponent number doubled undouble stripQuotes)
open Char (isDigit)

/-! ## Digits -/

/-- One digit or more. -/
def digitsRead (s : List Char) : Option (List Char) := (dropChar Char.isDigit s).map (List.dropWhile Char.isDigit)

theorem isDigit_eq : inClass [('0', '9')] false = isDigit := by
  funext c
  simp only [inClass, any_cons, any_nil, inRange_digit]
  cases c.isDigit <;> rfl

theorem reads_digits : Reads (.expr (.repeat_ digit true)) digitsRead := by
  have hdigit : Reads (.expr digit) (dropChar isDigit) := by
    rw [← isDigit_eq]
    exact reads_class
  refine (reads_some hdigit (progress_dropChar _)).congr fun s => ?_
  unfold digitsRead
  congr 1
  funext s
  rw [exhaust_dropChar]

/-- A text of digits. -/
structure Digits (d : List Char) : Prop where
  ne_nil : d ≠ []
  all : d.all Char.isDigit = true

/-- The text does not go on with a digit. -/
def Undigited (s : List Char) : Prop := s.head?.any Char.isDigit = false

theorem dropWhile_isDigit (s : List Char) : ∃ d, s = d ++ s.dropWhile isDigit ∧ d.all isDigit = true ∧
    Undigited (s.dropWhile isDigit) := by
  refine ⟨s.takeWhile isDigit, takeWhile_append_dropWhile.symm, ?_, ?_⟩
  · rw [all_eq_true]
    exact fun c hc => mem_takeWhile_imp hc
  · have hhead := head?_dropWhile_not isDigit s
    unfold Undigited
    cases hs : (s.dropWhile isDigit).head? with
    | none => rfl
    | some c =>
      rw [hs] at hhead
      simpa using hhead

variable {s rest d : List Char}

theorem digitsRead_eq_some (h : digitsRead s = some rest) : ∃ d, s = d ++ rest ∧ Digits d ∧ Undigited rest := by
  obtain ⟨s', hdrop, rfl⟩ := Option.map_eq_some_iff.1 h
  obtain ⟨a, rfl, ha⟩ := dropChar_eq_some.1 hdrop
  obtain ⟨d, hd, hall, hend⟩ := dropWhile_isDigit s'
  refine ⟨a :: d, ?_, ⟨by simp, by simp [ha, hall]⟩, hend⟩
  rw [cons_append, ← hd]

/-- Digits are taken as a whole. -/
theorem digits_append (hd : d.all isDigit = true) (hs : Undigited s) : digits (d ++ s) = s := by
  unfold digits
  rw [dropWhile_append_of_pos (all_eq_true.1 hd)]
  cases s with
  | nil => rfl
  | cons c s =>
    have hc : ¬ c.isDigit = true := by
      rw [Bool.not_eq_true]
      exact hs
    exact dropWhile_cons_of_neg hc

theorem digits_all (hd : Digits d) : digits d = [] := by
  have h := digits_append hd.all (s := []) rfl
  rwa [append_nil] at h

theorem Digits.head (hd : Digits d) (s : List Char) : (d ++ s).head?.any isDigit = true := by
  obtain ⟨hne, hall⟩ := hd
  cases d with
  | nil => exact absurd rfl hne
  | cons c d =>
    rw [all_cons, Bool.and_eq_true] at hall
    exact hall.1

/-- `Offset`. -/
def offsetRead (s : List Char) : Option (List Char) :=
  (digitsRead s).bind fun rest => if identNext rest then none else some rest

theorem reads_offset :
    Reads (.expr (.seq [.repeat_ digit true, .predicate (.ref "_ident_rest") false])) offsetRead := by
  refine (reads_seq (reads_cons reads_digits (reads_cons reads_boundary reads_nil))).congr fun s => ?_
  unfold offsetRead
  congr 1
  funext rest
  cases identNext rest <;> rfl

/-! ## Numbers -/

def isExp (c : Char) : Bool := c = 'e' || c = 'E'

def isSign (c : Char) : Bool := c = '+' || c = '-'

def exponentRead (s : List Char) : Option (List Char) :=
  (dropChar isExp s).bind fun s => digitsRead ((dropChar isSign s).getD s)

def fractionRead (s : List Char) : Option (List Char) := (dropText false ['.'] s).bind digitsRead

/-- The digits of a number before its exponent. -/
def mantissaRead (s : List Char) : Option (List Char) :=
  ((digitsRead s).map fun s => (fractionRead s).getD s).or (fractionRead s)

/-- `Number`. -/
def numberRead (s : List Char) : Option (List Char) :=
  (mantissaRead s).bind fun s =>
    if identNext ((exponentRead s).getD s) then none else some ((exponentRead s).getD s)

theorem isExp_eq : inClass [('e', 'e'), ('E', 'E')] false = isExp := by
  funext c
  simp only [inClass, any_cons, any_nil, inRange_one, isExp]
  cases decide (c = 'e') <;> cases decide (c = 'E') <;> rfl

theorem isSign_eq : inClass [('+', '+'), ('-', '-')] false = isSign := by
  funext c
  simp only [inClass, any_cons, any_nil, inRange_one, isSign]
  cases decide (c = '+') <;> cases decide (c = '-') <;> rfl

theorem reads_exponent : Reads (.expr (.seq [.class_ [('e', 'e'), ('E', 'E')] false,
    .optional (.class_ [('+', '+'), ('-', '-')] false), .repeat_ digit true])) exponentRead := by
  refine (reads_seq (reads_cons reads_class (reads_cons (reads_optional reads_class)
    (reads_cons reads_digits reads_nil)))).congr fun s => ?_
  rw [isExp_eq, isSign_eq]
  unfold exponentRead
  congr 1
  funext s
  simp

theorem reads_fraction : Reads (.expr (.seq [.lit "." false, .repeat_ digit true])) fractionRead := by
  refine (reads_seq (reads_cons reads_lit (reads_cons reads_digits reads_nil))).congr fun s => ?_
  unfold fractionRead
  congr 1
  funext s
  simp

theorem reads_mantissa : Reads (.expr (.choice [.seq [.repeat_ digit true, .optional (.seq [.lit "." false,
    .repeat_ digit true])], .seq [.lit "." false, .repeat_ digit true]])) mantissaRead := by
  refine (reads_choice (reads_or (reads_seq (reads_cons reads_digits
    (reads_cons (reads_optional reads_fraction) reads_nil)))
    (reads_or reads_fraction reads_none))).congr fun s => ?_
  unfold mantissaRead
  rw [Option.or_none]
  cases digitsRead s <;> rfl

theorem reads_number : Reads (.expr (.seq [.choice [.seq [.repeat_ digit true, .optional (.seq [.lit "." false,
    .repeat_ digit true])], .seq [.lit "." false, .repeat_ digit true]], .optional (.seq [.class_ [('e', 'e'),
    ('E', 'E')] false, .optional (.class_ [('+', '+'), ('-', '-')] false), .repeat_ digit true]),
    .predicate (.ref "_ident_rest") false])) numberRead := by
  refine (reads_seq (reads_cons reads_mantissa (reads_cons (reads_optional reads_exponent)
    (reads_cons reads_boundary reads_nil)))).congr fun s => ?_
  unfold numberRead
  congr 1
  funext s
  simp

/-- The text of an exponent, or nothing. -/
inductive ExponentText : List Char → Prop where
  | none : ExponentText []
  | some {e : Char} {d : List Char} (sign : List Char) : isExp e = true → Digits d →
      (sign = [] ∨ ∃ c, sign = [c] ∧ isSign c = true) → ExponentText (e :: (sign ++ d))

theorem exponentRead_eq_some (h : exponentRead s = some rest) : ∃ x, s = x ++ rest ∧ ExponentText x := by
  obtain ⟨s', hdrop, hrest⟩ := Option.bind_eq_some_iff.1 h
  obtain ⟨e, rfl, he⟩ := dropChar_eq_some.1 hdrop
  obtain ⟨d, hd, hdigits, _⟩ := digitsRead_eq_some hrest
  cases hsign : dropChar isSign s' with
  | none =>
    rw [hsign, Option.getD_none] at hd
    exact ⟨e :: ([] ++ d), by rw [hd]; rfl, .some [] he hdigits (.inl rfl)⟩
  | some s'' =>
    rw [hsign, Option.getD_some] at hd
    obtain ⟨c, rfl, hc⟩ := dropChar_eq_some.1 hsign
    exact ⟨e :: ([c] ++ d), by rw [hd]; rfl, .some [c] he hdigits (.inr ⟨c, rfl, hc⟩)⟩

theorem isExp_cases {e : Char} (h : isExp e = true) : e = 'e' ∨ e = 'E' := by simpa [isExp] using h

theorem isSign_cases {c : Char} (h : isSign c = true) : c = '+' ∨ c = '-' := by simpa [isSign] using h

variable {x t k : List Char}

theorem ExponentText.ok (h : ExponentText x) : exponent x = true ∧ Undigited x ∧ ∀ s, x ≠ '.' :: s := by
  cases h with
  | none => exact ⟨rfl, rfl, fun _ h => by cases h⟩
  | @some e d sign he hd hsign =>
    have hexp := isExp_cases he
    refine ⟨?_, ?_, fun s hs => ?_⟩
    · simp only [exponent, hexp, if_true]
      rcases hsign with rfl | ⟨c, rfl, hc⟩
      · -- a digit is no sign
        obtain ⟨hne, hall⟩ := hd
        cases d with
        | nil => exact absurd rfl hne
        | cons c d =>
          have hc : ¬ (c = '+' ∨ c = '-') := by rintro (rfl | rfl) <;> simp at hall
          simp only [nil_append, hc, if_false]
          rw [digits_all ⟨hne, hall⟩]
          simp only [all_cons, Bool.and_eq_true] at hall
          simp [hall.1]
      · have hhead := hd.head []
        rw [append_nil] at hhead
        simp only [cons_append, nil_append, isSign_cases hc, if_true, digits_all hd, hhead]
        rfl
    · rcases hexp with rfl | rfl <;> rfl
    · rcases hexp with rfl | rfl <;> cases hs

/-- The transform's check of a number, digits first. -/
theorem number_digits (hd : Digits d) (hx : ExponentText x) : number (d ++ x) = true := by
  obtain ⟨hexp, hundig, hdot⟩ := hx.ok
  unfold number
  rw [digits_append hd.all hundig]
  split
  · exact absurd rfl (hdot _)
  · rw [hd.head x, hexp]
    rfl

/-- The transform's check of a number with a fraction. -/
theorem number_fraction {d' : List Char} (hd : d.all isDigit = true) (hd' : Digits d')
    (hx : ExponentText x) : number (d ++ '.' :: (d' ++ x)) = true := by
  obtain ⟨hexp, hundig, _⟩ := hx.ok
  unfold number
  have hdot : Undigited ('.' :: (d' ++ x)) := rfl
  rw [digits_append hd hdot]
  simp only
  rw [hd'.head x, digits_append hd'.all hundig, hexp]
  rfl

theorem fractionRead_eq_some (h : fractionRead s = some rest) : ∃ d, s = '.' :: (d ++ rest) ∧ Digits d := by
  obtain ⟨s', hdrop, hrest⟩ := Option.bind_eq_some_iff.1 h
  obtain ⟨d, rfl, hd, _⟩ := digitsRead_eq_some hrest
  exact ⟨d, dropText_eq_some.1 hdrop, hd⟩

/-- What is before an exponent. -/
theorem mantissaRead_eq_some (h : mantissaRead s = some rest) :
    ∃ m, s = m ++ rest ∧ ∀ x, ExponentText x → number (m ++ x) = true := by
  rcases Option.or_eq_some_iff.1 h with h | ⟨_, h⟩
  · obtain ⟨s', hdigits, hrest⟩ := Option.map_eq_some_iff.1 h
    obtain ⟨d, rfl, hd, _⟩ := digitsRead_eq_some hdigits
    cases hfrac : fractionRead s' with
    | none =>
      rw [hfrac] at hrest
      cases hrest
      exact ⟨d, rfl, fun x hx => number_digits hd hx⟩
    | some s'' =>
      rw [hfrac] at hrest
      cases hrest
      obtain ⟨d', rfl, hd'⟩ := fractionRead_eq_some hfrac
      refine ⟨d ++ '.' :: d', by simp, fun x hx => ?_⟩
      rw [append_assoc]
      exact number_fraction hd.all hd' hx
  · obtain ⟨d, rfl, hd⟩ := fractionRead_eq_some h
    exact ⟨'.' :: d, rfl, fun x hx => number_fraction (d := []) rfl hd hx⟩

/-- **The transform accepts the numbers of the grammar.** -/
theorem number_text (h : numberRead (t ++ k) = some k) : number t = true := by
  obtain ⟨s, hm, hs⟩ := Option.bind_eq_some_iff.1 h
  obtain ⟨m, ht, hnumber⟩ := mantissaRead_eq_some hm
  split at hs
  · cases hs
  have hk := Option.some.inj hs
  cases hexp : exponentRead s with
  | none =>
    rw [hexp] at hk
    have htm : t = m := (append_left_inj k).1 (by rw [ht, ← hk]; rfl)
    have := hnumber [] .none
    rwa [append_nil, ← htm] at this
  | some s' =>
    rw [hexp] at hk
    obtain ⟨x, hx, htext⟩ := exponentRead_eq_some hexp
    have htm : t = m ++ x := by
      apply (append_left_inj k).1
      rw [ht, hx, ← hk, append_assoc]
      rfl
    rw [htm]
    exact hnumber x htext

/-! ## Quotes -/

/-- A character that is no quote, or a doubled quote. -/
def quoteChunk (q : Char) : List Char → Option (List Char)
  | [] => none
  | a :: s => if a = q then dropChar (fun b => b = q) s else some s

theorem quoteChunk_progress (q : Char) : Progress (quoteChunk q)
  | [], _, h => by cases h
  | a :: s, rest, h => by
    simp only [quoteChunk] at h
    split at h
    · have := progress_dropChar _ _ _ h
      simp only [length_cons]
      omega
    · cases h
      simp

variable {q : Char}

theorem reads_quoteChunk {one two : String} (hone : one.toList = [q]) (htwo : two.toList = [q, q]) :
    Reads (.expr (.choice [.lit two false, .seq [.predicate (.lit one false) false, .any]])) (quoteChunk q) := by
  refine (reads_choice (reads_or reads_lit (reads_or (reads_other hone) reads_none))).congr fun s => ?_
  rw [htwo, Option.or_none]
  match s with
  | [] => rfl
  | [a] =>
    by_cases ha : a = q
    · simp [quoteChunk, dropText, dropChar, sameChar, ha]
    · simp [quoteChunk, dropText, dropChar, sameChar, ha, Ne.symm ha]
  | a :: b :: s =>
    by_cases ha : a = q
    · by_cases hb : b = q
      · simp [quoteChunk, dropText, dropChar, sameChar, ha, hb]
      · simp [quoteChunk, dropText, dropChar, sameChar, ha, hb, Ne.symm hb]
    · simp [quoteChunk, dropText, dropChar, sameChar, ha, Ne.symm ha]

/-- What is behind the quote that closes a text. -/
def closeQuote (q : Char) : List Char → Option (List Char)
  | [] => none
  | [a] => if a = q then some [] else none
  | a :: b :: s => if a = q then if b = q then closeQuote q s else some (b :: s) else closeQuote q (b :: s)

theorem closeQuote_eq (q : Char) (s : List Char) :
    dropText false [q] (exhaust (quoteChunk q) s) = closeQuote q s := by
  fun_induction closeQuote q s with
  | case1 =>
    rw [exhaust_none rfl]
    rfl
  | case2 =>
    rw [exhaust_none (by simp [quoteChunk, dropChar])]
    exact dropText_eq_some.2 rfl
  | case3 a ha =>
    have hchunk : quoteChunk q [a] = some [] := by simp [quoteChunk, ha]
    rw [exhaust_some hchunk (by simp), exhaust_none rfl]
    rfl
  | case4 s ih =>
    have hchunk : quoteChunk q (q :: q :: s) = some s := by simp [quoteChunk, dropChar]
    rw [exhaust_some hchunk (quoteChunk_progress q _ _ hchunk), ih]
  | case5 b s hb =>
    rw [exhaust_none (by simp [quoteChunk, dropChar, hb])]
    exact dropText_eq_some.2 rfl
  | case6 a b s ha ih =>
    have hchunk : quoteChunk q (a :: b :: s) = some (b :: s) := by simp [quoteChunk, ha]
    rw [exhaust_some hchunk (by simp), ih]

/-- A quoted text ends at the first quote that is not doubled, whatever is behind it. -/
theorem closeQuote_eq_some (h : closeQuote q s = some rest) :
    ∃ body, s = body ++ q :: rest ∧ doubled q body = true ∧ rest.head? ≠ some q ∧
      ∀ x : List Char, x.head? ≠ some q → closeQuote q (body ++ q :: x) = some x := by
  have hclose : ∀ x : List Char, x.head? ≠ some q → closeQuote q (q :: x) = some x := by
    intro x hx
    cases x with
    | nil => simp [closeQuote]
    | cons b x =>
      have hb : b ≠ q := fun hb => hx (by rw [hb]; rfl)
      simp [closeQuote, hb]
  fun_induction closeQuote q s with
  | case1 => cases h
  | case2 =>
    cases h
    exact ⟨[], rfl, rfl, by simp, hclose⟩
  | case3 => cases h
  | case4 s ih =>
    obtain ⟨body, rfl, hdoubled, hrest, hx⟩ := ih h
    refine ⟨q :: q :: body, rfl, by simp [doubled, hdoubled], hrest, fun x hne => ?_⟩
    simp [closeQuote, hx x hne]
  | case5 b s hb =>
    cases h
    exact ⟨[], rfl, rfl, by simpa using hb, hclose⟩
  | case6 a b s ha ih =>
    obtain ⟨body, hbody, hdoubled, hrest, hx⟩ := ih h
    refine ⟨a :: body, by rw [hbody]; rfl, ?_, hrest, fun x hne => ?_⟩
    · cases body with
      | nil => simp [doubled, ha]
      | cons c body => simp [doubled, ha, hdoubled]
    · have hstep : ∀ t : List Char, t ≠ [] → closeQuote q (a :: t) = closeQuote q t := by
        intro t ht
        cases t with
        | nil => exact absurd rfl ht
        | cons c t => simp [closeQuote, ha]
      rw [cons_append, hstep _ (by simp), hx x hne]

/-- `String`. -/
def stringRead (s : List Char) : Option (List Char) := (dropText false ['\''] s).bind (closeQuote '\'')

/-- `QuotedIdentifier`, which is not empty. -/
def quotedIdentifierRead (s : List Char) : Option (List Char) :=
  (dropText false ['"'] s).bind fun s => if (quoteChunk '"' s).isSome then closeQuote '"' s else none

theorem reads_string : Reads (.expr (.seq [.lit "'" false, .repeat_ (.choice [.lit "''" false, .seq
    [.predicate (.lit "'" false) false, .any]]) false, .lit "'" false])) stringRead := by
  refine (reads_seq (reads_cons reads_lit (reads_cons (reads_many
    (reads_quoteChunk rfl rfl) (quoteChunk_progress '\'')) (reads_cons reads_lit reads_nil)))).congr fun s => ?_
  have hquote : "'".toList = ['\''] := rfl
  rw [hquote]
  unfold stringRead
  congr 1
  funext s
  rw [Option.bind_some, closeQuote_eq, Option.bind_fun_some]

theorem reads_quotedIdentifier : Reads (.expr (.seq [.lit "\"" false, .repeat_ (.choice [.lit "\"\"" false, .seq
    [.predicate (.lit "\"" false) false, .any]]) true, .lit "\"" false])) quotedIdentifierRead := by
  refine (reads_seq (reads_cons reads_lit (reads_cons (reads_some
    (reads_quoteChunk rfl rfl) (quoteChunk_progress '"')) (reads_cons reads_lit reads_nil)))).congr fun s => ?_
  have hquote : "\"".toList = ['"'] := rfl
  rw [hquote]
  unfold quotedIdentifierRead
  congr 1
  funext s
  cases hs : quoteChunk '"' s with
  | none => rfl
  | some rest =>
    rw [← closeQuote_eq, exhaust_some hs (quoteChunk_progress _ _ _ hs)]
    simp

/-- A quoted text without its quotes. -/
def unquoted (q : Char) (body : List Char) : List Char := if q ∈ body then undouble q body else body

/-- The transform takes the quotes off a quoted text. -/
theorem unquote_ok {n : Node} {body : List Char} (hn : n.children = [])
    (htext : n.text.toList = q :: (body ++ [q])) (hbody : doubled q body = true) :
    Transform.unquote n q = .ok (.ofList (unquoted q body)) := by
  have hstrip : stripQuotes q (q :: (body ++ [q])) = some body := by simp [stripQuotes]
  unfold Transform.unquote
  rw [Transform.leaf_ok hn]
  simp only [bind, Except.bind, htext, hstrip, hbody, if_true]
  rfl

theorem stringRead_text (h : stringRead (t ++ k) = some k) :
    ∃ body, t = '\'' :: (body ++ ['\'']) ∧ doubled '\'' body = true := by
  obtain ⟨s, hdrop, hclose⟩ := Option.bind_eq_some_iff.1 h
  obtain ⟨body, rfl, hdoubled, _⟩ := closeQuote_eq_some hclose
  refine ⟨body, ?_, hdoubled⟩
  apply (append_left_inj k).1
  rw [dropText_eq_some.1 hdrop]
  simp

theorem quotedIdentifierRead_text (h : quotedIdentifierRead (t ++ k) = some k) :
    ∃ body, t = '"' :: (body ++ ['"']) ∧ doubled '"' body = true ∧ body ≠ [] := by
  obtain ⟨s, hdrop, hs⟩ := Option.bind_eq_some_iff.1 h
  split at hs
  · rename_i hchunk
    obtain ⟨body, rfl, hdoubled, hk, _⟩ := closeQuote_eq_some hs
    refine ⟨body, ?_, hdoubled, ?_⟩
    · apply (append_left_inj k).1
      rw [dropText_eq_some.1 hdrop]
      simp
    · -- an empty text would be a doubled quote
      rintro rfl
      cases k with
      | nil => cases hchunk
      | cons b k =>
        have hb : b ≠ '"' := fun hb => hk (by rw [hb]; rfl)
        simp [quoteChunk, dropChar, hb] at hchunk
  · cases hs

theorem unquoted_ne_nil {body : List Char} (h : body ≠ []) : unquoted q body ≠ [] := by
  unfold unquoted
  split
  · match body with
    | [] => exact absurd rfl h
    | [a] => simp [undouble]
    | a :: b :: s =>
      unfold undouble
      split <;> simp
  · exact h

end ChiliDB.Sql.Grammar

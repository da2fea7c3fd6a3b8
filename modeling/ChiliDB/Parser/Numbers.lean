import ChiliDB.Parser.Literals
import ChiliDB.Binder.Expression
import ChiliDB.Lib.Utf8

/-!
# Three recognisers of numbers

A numeric token is recognised by the rule `Number`, by `number` of `crates/parser/src/transform.rs`, which cuts
a slice of bytes shorter and shorter, and by `valid_number` of `crates/binder/src/expression.rs`, which moves an
index over the bytes.  `Transform.number` and `Binder.validNumber` are the two on characters.

* `numberBytes`, `validNumberBytes` — the two on bytes, as in the source; `validNumberBytes_eq`.
* `numberBytes_encode` — bytes and characters; `number_eq_validNumber` — the two on characters.
* `numberRead_iff` — the rule.

Principal result: `number_recognisers_agree`.
-/

namespace ChiliDB.Sql.Transform

/-- `u8::is_ascii_digit`. -/
def isAsciiDigit (b : UInt8) : Bool := '0'.toUInt8 ≤ b && b ≤ '9'.toUInt8

/-- The closure `digits`: how many there are, and the slice behind them. -/
def digitsBytes (b : List UInt8) : Nat × List UInt8 :=
  let count := (b.takeWhile isAsciiDigit).length
  (count, b.drop count)

/-- A byte `e` or `E`. -/
def isExpByte (b : UInt8) : Bool := b = 'e'.toUInt8 || b = 'E'.toUInt8

/-- A byte `+` or `-`. -/
def isSignByte (b : UInt8) : Bool := b = '+'.toUInt8 || b = '-'.toUInt8

/-- `number` up to the exponent; `none` is the early `false`. -/
def mantissaBytes (b : List UInt8) : Option (List UInt8) :=
  let whole := digitsBytes b
  if whole.2.head?.any (· = '.'.toUInt8) then
    let fraction := digitsBytes (whole.2.drop 1)
    if fraction.1 = 0 then none else some fraction.2
  else if whole.1 = 0 then none
  else some whole.2

/-- The exponent. -/
def exponentBytes (b : List UInt8) : Option (List UInt8) :=
  if b.head?.any isExpByte then
    let b := b.drop 1
    let b := if b.head?.any isSignByte then b.drop 1 else b
    let exponent := digitsBytes b
    if exponent.1 = 0 then none else some exponent.2
  else
    some b

/-- `number`. -/
def numberBytes (b : List UInt8) : Bool := ((mantissaBytes b).bind exponentBytes).any List.isEmpty

end ChiliDB.Sql.Transform

namespace ChiliDB.Binder

open Sql.Transform (isAsciiDigit isExpByte isSignByte digitsBytes mantissaBytes exponentBytes numberBytes)
open List

/-- `while i < bytes.len() && bytes[i].is_ascii_digit() { i += 1 }`. -/
def skipDigits (bytes : List UInt8) (i : Nat) : Nat :=
  if h : i < bytes.length then
    if isAsciiDigit bytes[i] then skipDigits bytes (i + 1) else i
  else
    i
termination_by bytes.length - i

/-- `valid_number` up to the exponent; `none` is the early `false`. -/
def mantissaAt (bytes : List UInt8) : Option Nat :=
  let i := skipDigits bytes 0
  let whole := i
  if bytes[i]?.any (· = '.'.toUInt8) then
    let start := i + 1
    let i := skipDigits bytes start
    if i = start then none else some i
  else if whole = 0 then none
  else some i

/-- The exponent. -/
def exponentAt (bytes : List UInt8) (i : Nat) : Option Nat :=
  if bytes[i]?.any isExpByte then
    let i := i + 1
    let i := if bytes[i]?.any isSignByte then i + 1 else i
    let start := i
    let i := skipDigits bytes start
    if i = start then none else some i
  else
    some i

/-- `valid_number`. -/
def validNumberBytes (bytes : List UInt8) : Bool :=
  ((mantissaAt bytes).bind (exponentAt bytes)).any (· = bytes.length)

/-! ## The index and the slice -/

section

variable {bytes : List UInt8} {i : Nat}

theorem getElem?_eq_head_drop : bytes[i]? = (bytes.drop i).head? := by rw [head?_drop]

theorem lt_of_any {p : UInt8 → Bool} (h : bytes[i]?.any p = true) : i < bytes.length := by
  cases hi : bytes[i]? with
  | none =>
    rw [hi] at h
    cases h
  | some b => exact (List.getElem?_eq_some_iff.1 hi).1

/-- The index moves over as many digits as the slice is cut. -/
theorem skipDigits_eq : skipDigits bytes i = i + (digitsBytes (bytes.drop i)).1 := by
  fun_induction skipDigits bytes i with
  | case1 i h hdigit ih =>
    rw [ih]
    simp only [digitsBytes]
    rw [drop_eq_getElem_cons h, takeWhile_cons, if_pos hdigit, length_cons]
    omega
  | case2 i h hdigit =>
    simp only [digitsBytes]
    rw [drop_eq_getElem_cons h, takeWhile_cons, if_neg hdigit]
    rfl
  | case3 i h =>
    simp only [digitsBytes]
    rw [drop_eq_nil_of_le (by omega)]
    rfl

theorem drop_skipDigits : bytes.drop (skipDigits bytes i) = (digitsBytes (bytes.drop i)).2 := by
  rw [skipDigits_eq, ← drop_drop]
  rfl

theorem skipDigits_le (h : i ≤ bytes.length) : skipDigits bytes i ≤ bytes.length := by
  have hle := (List.takeWhile_prefix isAsciiDigit (l := bytes.drop i)).length_le
  rw [length_drop] at hle
  rw [skipDigits_eq]
  simp only [digitsBytes]
  omega

/-- The digits at an index, as the loop and as the slice have them. -/
theorem digitsAt_eq : (if skipDigits bytes i = i then none else some (skipDigits bytes i)).map (bytes.drop ·) =
    if (digitsBytes (bytes.drop i)).1 = 0 then none else some (digitsBytes (bytes.drop i)).2 := by
  rw [← drop_skipDigits]
  have hzero : skipDigits bytes i = i ↔ (digitsBytes (bytes.drop i)).1 = 0 := by
    rw [skipDigits_eq]
    omega
  by_cases h : skipDigits bytes i = i
  · rw [if_pos h, if_pos (hzero.1 h)]
    rfl
  · rw [if_neg h, if_neg (mt hzero.2 h)]
    rfl

theorem mantissaAt_eq : (mantissaAt bytes).map (bytes.drop ·) = mantissaBytes bytes := by
  unfold mantissaAt mantissaBytes
  simp only
  rw [getElem?_eq_head_drop, drop_skipDigits, drop_zero]
  split
  · rw [digitsAt_eq, ← drop_drop, drop_skipDigits, drop_zero]
  · have hzero : skipDigits bytes 0 = (digitsBytes bytes).1 := by rw [skipDigits_eq, Nat.zero_add, drop_zero]
    have hdrop : bytes.drop (skipDigits bytes 0) = (digitsBytes bytes).2 := by rw [drop_skipDigits, drop_zero]
    rw [hzero]
    split
    · rfl
    · rw [← hzero, Option.map_some, hdrop]

theorem exponentAt_eq : (exponentAt bytes i).map (bytes.drop ·) = exponentBytes (bytes.drop i) := by
  unfold exponentAt exponentBytes
  simp only
  rw [getElem?_eq_head_drop, getElem?_eq_head_drop]
  split
  · have hdrop : bytes.drop (if (bytes.drop (i + 1)).head?.any isSignByte = true then i + 1 + 1 else i + 1) =
        if ((bytes.drop i).drop 1).head?.any isSignByte = true then ((bytes.drop i).drop 1).drop 1
        else (bytes.drop i).drop 1 := by
      rw [drop_drop, drop_drop]
      split <;> rfl
    rw [digitsAt_eq, hdrop]
  · rfl

theorem mantissaAt_le (h : mantissaAt bytes = some i) : i ≤ bytes.length := by
  unfold mantissaAt at h
  simp only at h
  split at h
  · rename_i hpoint
    split at h
    · cases h
    · cases h
      exact skipDigits_le (lt_of_any hpoint)
  · split at h
    · cases h
    · cases h
      exact skipDigits_le (Nat.zero_le _)

theorem exponentAt_le {j : Nat} (hi : i ≤ bytes.length) (h : exponentAt bytes i = some j) : j ≤ bytes.length := by
  unfold exponentAt at h
  simp only at h
  split at h
  · rename_i hexp
    generalize hstart : (if bytes[i + 1]?.any isSignByte = true then i + 1 + 1 else i + 1) = start at h
    have hle : start ≤ bytes.length := by
      rw [← hstart]
      split
      · rename_i hsign
        exact lt_of_any hsign
      · exact lt_of_any hexp
    split at h
    · cases h
    · cases h
      exact skipDigits_le hle
  · cases h
    exact hi

end

/-- **The index loop and the slice loop accept the same bytes.** -/
theorem validNumberBytes_eq (bytes : List UInt8) : validNumberBytes bytes = numberBytes bytes := by
  unfold validNumberBytes numberBytes
  rw [← mantissaAt_eq]
  cases hm : mantissaAt bytes with
  | none => rfl
  | some i =>
    rw [Option.bind_some, Option.map_some, Option.bind_some, ← exponentAt_eq]
    cases he : exponentAt bytes i with
    | none => rfl
    | some j =>
      have hle := exponentAt_le (mantissaAt_le hm) he
      rw [Option.any_some, Option.map_some, Option.any_some, Bool.eq_iff_iff, decide_eq_true_iff, List.isEmpty_iff,
        drop_eq_nil_iff]
      omega

end ChiliDB.Binder

namespace ChiliDB.Sql.Transform

open Binder (scanFraction scanExponent scanDecimal validNumber)
open List
open Utf8 (encode Ascii)
open Char (isDigit)

/-! ## Bytes and characters -/

theorem ascii_digit : Ascii isAsciiDigit isDigit := by
  refine .of_code (fun n => 48 ≤ n && n ≤ 57) (fun n hn => ?_) (fun b => rfl) (fun c => rfl)
  rw [Bool.and_eq_true, decide_eq_true_iff, decide_eq_true_iff] at hn
  omega

theorem ascii_exp : Ascii isExpByte Grammar.isExp := .or (.one (by decide)) (.one (by decide))

theorem ascii_sign : Ascii isSignByte Grammar.isSign := .or (.one (by decide)) (.one (by decide))

theorem digitsBytes_encode (cs : List Char) :
    digitsBytes (encode cs) = ((cs.takeWhile isDigit).length, encode (cs.dropWhile isDigit)) := by
  have hdrop (b : List UInt8) : b.drop (b.takeWhile isAsciiDigit).length = b.dropWhile isAsciiDigit := by
    have hsplit := takeWhile_append_dropWhile (p := isAsciiDigit) (l := b)
    conv_lhs => arg 2; rw [← hsplit]
    exact drop_left
  unfold digitsBytes
  simp only
  rw [hdrop, ascii_digit.takeWhile_encode, ascii_digit.dropWhile_encode]

/-- Without a point the digits in front are the whole mantissa. -/
theorem scanFraction_whole {whole rest : List Char} (h : rest.head?.any (· = '.') = false) :
    scanFraction whole rest = if whole = [] then none else some ([], rest) := by
  unfold scanFraction
  split
  · cases h
  · rfl

theorem mantissaBytes_encode (cs : List Char) : mantissaBytes (encode cs) =
    (scanFraction (cs.takeWhile isDigit) (cs.dropWhile isDigit)).map fun p => encode p.2 := by
  have hpoint : Ascii (fun b => b = '.'.toUInt8) (fun c => c = '.') := .one (by decide)
  unfold mantissaBytes
  simp only [digitsBytes_encode, hpoint.head_encode]
  generalize cs.takeWhile isDigit = whole
  generalize cs.dropWhile isDigit = rest
  by_cases h : rest.head?.any (· = '.') = true
  · rw [if_pos h, hpoint.drop_encode h, digitsBytes_encode]
    obtain ⟨c, cs, rfl⟩ : ∃ c cs, rest = c :: cs := by
      cases rest with
      | nil => cases h
      | cons c cs => exact ⟨c, cs, rfl⟩
    have hc : c = '.' := of_decide_eq_true h
    subst hc
    simp only [scanFraction, drop_one, tail_cons, length_eq_zero_iff]
    split <;> rfl
  · rw [Bool.not_eq_true] at h
    rw [h, scanFraction_whole h]
    simp only [Bool.false_eq_true, if_false, length_eq_zero_iff]
    split <;> rfl

/-- The sign of an exponent, and what is behind it. -/
theorem scanExponent_sign {e : Char} (cs : List Char) (he : Grammar.isExp e = true) :
    (scanExponent (e :: cs)).map Prod.snd =
      let rest := if cs.head?.any Grammar.isSign then cs.drop 1 else cs
      if rest.takeWhile isDigit = [] then none else some (rest.dropWhile isDigit) := by
  have hdigits (signed : Bool × List Char) : (if signed.2.takeWhile isDigit = [] then none
      else some (if signed.1 then -(Binder.digits (signed.2.takeWhile isDigit) : Int)
        else Binder.digits (signed.2.takeWhile isDigit), signed.2.dropWhile isDigit)).map Prod.snd =
      if signed.2.takeWhile isDigit = [] then none else some (signed.2.dropWhile isDigit) := by
    split <;> rfl
  unfold scanExponent
  dsimp only
  rw [if_pos (Grammar.isExp_cases he), hdigits]
  split
  · rfl
  · rfl
  · rename_i hplus hminus
    have hsign : cs.head?.any Grammar.isSign = false := by
      cases cs with
      | nil => rfl
      | cons c cs =>
        rw [head?_cons, Option.any_some, ← Bool.not_eq_true]
        intro hc
        rcases Grammar.isSign_cases hc with rfl | rfl
        · exact hplus cs rfl
        · exact hminus cs rfl
    rw [hsign]
    rfl

theorem scanExponent_none {cs : List Char} (h : cs.head?.any Grammar.isExp = false) :
    scanExponent cs = some (0, cs) := by
  cases cs with
  | nil => rfl
  | cons e cs => exact if_neg (by simpa [Grammar.isExp] using h)

theorem exponentBytes_encode (cs : List Char) :
    exponentBytes (encode cs) = (scanExponent cs).map fun p => encode p.2 := by
  unfold exponentBytes
  rw [ascii_exp.head_encode]
  by_cases he : cs.head?.any Grammar.isExp = true
  · rw [if_pos he, ascii_exp.drop_encode he]
    obtain ⟨e, cs, rfl⟩ : ∃ e cs', cs = e :: cs' := by
      cases cs with
      | nil => cases he
      | cons e cs => exact ⟨e, cs, rfl⟩
    have hscan := congrArg (Option.map encode) (scanExponent_sign cs he)
    rw [Option.map_map] at hscan
    refine .trans ?_ hscan.symm
    have hsign : (if (encode cs).head?.any isSignByte = true then (encode cs).drop 1 else encode cs) =
        encode (if cs.head?.any Grammar.isSign = true then cs.drop 1 else cs) := by
      rw [ascii_sign.head_encode]
      by_cases h : cs.head?.any Grammar.isSign = true
      · rw [if_pos h, if_pos h, ascii_sign.drop_encode h]
      · rw [if_neg h, if_neg h]
    simp only [drop_one, tail_cons] at hsign ⊢
    rw [hsign, digitsBytes_encode]
    simp only [length_eq_zero_iff]
    generalize (if cs.head?.any Grammar.isSign = true then cs.tail else cs) = rest
    by_cases h : rest.takeWhile isDigit = []
    · rw [if_pos h, if_pos h]
      rfl
    · rw [if_neg h, if_neg h]
      rfl
  · rw [if_neg he, scanExponent_none (eq_false_of_ne_true he)]
    rfl

variable (s : String)

/-- A token is valid if nothing is behind its exponent. -/
theorem validNumber_eq : validNumber s =
    ((scanFraction (s.toList.takeWhile isDigit) (s.toList.dropWhile isDigit)).bind fun p =>
      scanExponent p.2).any fun p => p.2.isEmpty := by
  unfold validNumber scanDecimal
  dsimp only
  cases scanFraction (s.toList.takeWhile isDigit) (s.toList.dropWhile isDigit) with
  | none => rfl
  | some p =>
    show _ = (scanExponent p.2).any _
    cases hexp : scanExponent p.2 with
    | none => simp [hexp]
    | some q =>
      simp only [Option.bind_eq_bind, Option.bind_some, hexp, Option.any_some]
      cases q.2 <;> rfl

/-- **The recogniser on bytes is the one on characters.** -/
theorem numberBytes_encode : numberBytes (encode s.toList) = validNumber s := by
  rw [validNumber_eq]
  unfold numberBytes
  rw [mantissaBytes_encode]
  cases scanFraction (s.toList.takeWhile isDigit) (s.toList.dropWhile isDigit) with
  | none => rfl
  | some p =>
    rw [Option.map_some, Option.bind_some, Option.bind_some, exponentBytes_encode]
    cases scanExponent p.2 with
    | none => rfl
    | some q =>
      rw [Option.map_some, Option.any_some, Option.any_some, Bool.eq_iff_iff, List.isEmpty_iff, List.isEmpty_iff]
      exact Utf8.encode_eq_nil

/-! ## The two on characters -/

theorem takeWhile_eq_nil_iff {cs : List Char} : cs.takeWhile isDigit = [] ↔ cs.head?.any isDigit = false := by
  cases cs with
  | nil => simp
  | cons c cs => simp [takeWhile_cons]

/-- Digits and nothing behind them. -/
theorem digits_any (cs : List Char) : (if cs.takeWhile isDigit = [] then none
    else some (cs.dropWhile isDigit)).any isEmpty = (cs.head?.any isDigit && (digits cs).isEmpty) := by
  by_cases h : cs.takeWhile isDigit = []
  · rw [if_pos h, takeWhile_eq_nil_iff.1 h]
    rfl
  · rw [if_neg h, eq_true_of_ne_false (mt takeWhile_eq_nil_iff.2 h)]
    rfl

theorem exponent_eq (cs : List Char) : exponent cs = (scanExponent cs).any fun p => p.2.isEmpty := by
  cases cs with
  | nil => rfl
  | cons e cs =>
    by_cases he : Grammar.isExp e = true
    · have hscan := congrArg (Option.any List.isEmpty) (scanExponent_sign cs he)
      rw [Option.any_map, digits_any] at hscan
      refine .trans ?_ hscan.symm
      simp only [exponent, Grammar.isExp_cases he, if_true]
      cases cs with
      | nil => rfl
      | cons c cs =>
        dsimp only
        have hsign : (c = '+' ∨ c = '-') ↔ (c :: cs).head?.any Grammar.isSign = true := by simp [Grammar.isSign]
        by_cases hc : c = '+' ∨ c = '-'
        · rw [if_pos hc, if_pos (hsign.1 hc)]
          rfl
        · rw [if_neg hc, if_neg (mt hsign.2 hc)]
    · have hnone : (e :: cs).head?.any Grammar.isExp = false := eq_false_of_ne_true he
      rw [scanExponent_none hnone]
      exact if_neg (by simpa [Grammar.isExp] using he)

/-- **The recognisers of the transform and of the binder accept the same characters.** -/
theorem number_eq_validNumber : number s.toList = validNumber s := by
  rw [validNumber_eq]
  unfold number digits
  split
  · rename_i rest hrest
    rw [hrest]
    simp only [scanFraction]
    by_cases h : rest.takeWhile isDigit = []
    · rw [if_pos h, takeWhile_eq_nil_iff.1 h]
      rfl
    · rw [if_neg h, eq_true_of_ne_false (mt takeWhile_eq_nil_iff.2 h), Option.bind_some, ← exponent_eq]
      rfl
  · rename_i hpoint
    have hrest : (s.toList.dropWhile isDigit).head?.any (· = '.') = false := by
      cases hs : s.toList.dropWhile isDigit with
      | nil => rfl
      | cons c cs =>
        rw [head?_cons, Option.any_some, decide_eq_false_iff_not]
        rintro rfl
        exact hpoint cs hs
    rw [scanFraction_whole hrest]
    by_cases h : s.toList.takeWhile isDigit = []
    · rw [if_pos h, takeWhile_eq_nil_iff.1 h]
      rfl
    · rw [if_neg h, eq_true_of_ne_false (mt takeWhile_eq_nil_iff.2 h), Option.bind_some, ← exponent_eq]
      rfl

end ChiliDB.Sql.Transform

namespace ChiliDB.Sql.Grammar

open Binder (scanFraction scanExponent validNumber validNumberBytes)
open Transform (numberBytes)
open Char (isDigit)

/-! ## The rule -/

theorem digitsRead_eq (cs : List Char) : digitsRead cs =
    if cs.takeWhile isDigit = [] then none else some (cs.dropWhile isDigit) := by
  cases cs with
  | nil => rfl
  | cons c cs =>
    cases hc : c.isDigit <;> simp [digitsRead, Peg.dropChar, hc]

theorem fractionRead_point (cs : List Char) : fractionRead ('.' :: cs) = digitsRead cs := by
  simp [fractionRead, Peg.dropText, Peg.sameChar]

variable {cs : List Char}

theorem fractionRead_none (h : cs.head?.any (· = '.') = false) : fractionRead cs = none := by
  cases hcs : fractionRead cs with
  | none => rfl
  | some rest =>
    obtain ⟨d, rfl, -⟩ := fractionRead_eq_some hcs
    cases h

/-- What the scan takes off before the exponent, the rule takes too. -/
theorem mantissaRead_of_scan {p : List Char × List Char}
    (h : scanFraction (cs.takeWhile isDigit) (cs.dropWhile isDigit) = some p) :
    mantissaRead cs = some p.2 := by
  unfold mantissaRead
  rw [digitsRead_eq]
  by_cases hpoint : (cs.dropWhile isDigit).head?.any (· = '.') = true
  · obtain ⟨rest, hrest⟩ : ∃ rest, cs.dropWhile isDigit = '.' :: rest := by
      cases hcs : cs.dropWhile isDigit with
      | nil =>
        rw [hcs] at hpoint
        cases hpoint
      | cons c rest =>
        rw [hcs] at hpoint
        exact ⟨rest, by rw [of_decide_eq_true hpoint]⟩
    rw [hrest] at h ⊢
    simp only [scanFraction] at h
    split at h
    · cases h
    · rename_i hdigits
      cases h
      have hfraction : fractionRead ('.' :: rest) = some (rest.dropWhile isDigit) := by
        rw [fractionRead_point, digitsRead_eq, if_neg hdigits]
      by_cases hwhole : cs.takeWhile isDigit = []
      · -- no digit in front: the second alternative of the rule
        have hcs := List.takeWhile_append_dropWhile (p := isDigit) (l := cs)
        rw [hwhole, hrest, List.nil_append] at hcs
        rw [if_pos hwhole, ← hcs]
        exact hfraction
      · rw [if_neg hwhole, Option.map_some, hfraction]
        rfl
  · rw [Transform.scanFraction_whole (eq_false_of_ne_true hpoint)] at h
    split at h
    · cases h
    · rename_i hwhole
      cases h
      rw [if_neg hwhole, Option.map_some, fractionRead_none (eq_false_of_ne_true hpoint)]
      rfl

theorem exponentRead_eq {e : Char} (he : isExp e = true) :
    exponentRead (e :: cs) = (scanExponent (e :: cs)).map Prod.snd := by
  have hsign : (Peg.dropChar isSign cs).getD cs = if cs.head?.any isSign = true then cs.drop 1 else cs := by
    cases cs with
    | nil => rfl
    | cons c cs => cases hc : isSign c <;> simp [Peg.dropChar, hc]
  rw [Transform.scanExponent_sign _ he]
  unfold exponentRead
  rw [show Peg.dropChar isExp (e :: cs) = some cs from if_pos he, Option.bind_some, hsign, digitsRead_eq]

/-- An exponent with nothing behind it is taken by the rule. -/
theorem exponentRead_of_scan {p : Int × List Char} (h : scanExponent cs = some p) (hp : p.2 = []) :
    (exponentRead cs).getD cs = [] := by
  by_cases he : cs.head?.any isExp = true
  · cases cs with
    | nil => cases he
    | cons e cs =>
      rw [exponentRead_eq he, h]
      exact hp
  · rw [Transform.scanExponent_none (eq_false_of_ne_true he)] at h
    cases h
    rw [show cs = [] from hp]
    rfl

/-- **The rule takes all of a text exactly if the recognisers accept it.** -/
theorem numberRead_iff (s : String) : numberRead s.toList = some [] ↔ validNumber s = true := by
  constructor
  · intro h
    rw [← Transform.number_eq_validNumber]
    exact number_text (k := []) (by rwa [List.append_nil])
  · intro h
    rw [Transform.validNumber_eq, Option.any_eq_true] at h
    obtain ⟨q, hq, hrest⟩ := h
    obtain ⟨p, hp, hexp⟩ := Option.bind_eq_some_iff.1 hq
    have hnil := exponentRead_of_scan hexp (List.isEmpty_iff.1 hrest)
    unfold numberRead
    rw [mantissaRead_of_scan hp, Option.bind_some, hnil]
    rfl

/-- **The three recognisers of numbers agree**: the slice loop of the transform, the index loop of the binder and
the rule `Number`, on every text. -/
theorem number_recognisers_agree (s : String) :
    (numberBytes s.toUTF8.data.toList = true ↔ Peg.Whole rules names (.expr (.ref "Number")) s) ∧
    (validNumberBytes s.toUTF8.data.toList = true ↔ Peg.Whole rules names (.expr (.ref "Number")) s) ∧
    numberBytes s.toUTF8.data.toList = Transform.number s.toList ∧
    validNumberBytes s.toUTF8.data.toList = validNumber s := by
  have hbytes : numberBytes s.toUTF8.data.toList = validNumber s := by
    rw [← Utf8.encode_toList, Transform.numberBytes_encode]
  have hrule : validNumber s = true ↔ Peg.Whole rules names (.expr (.ref "Number")) s := by
    rw [← numberRead_iff]
    exact (Peg.Reads.whole_iff valid (i := 74) rfl reads_number).symm
  rw [Binder.validNumberBytes_eq, hbytes, Transform.number_eq_validNumber]
  exact ⟨hrule, hrule, rfl, rfl⟩

end ChiliDB.Sql.Grammar

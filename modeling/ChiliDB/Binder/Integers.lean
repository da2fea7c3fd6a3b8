import ChiliDB.Binder.Expression
import Mathlib.Data.List.TakeWhile
import Mathlib.Data.Nat.Digits.Defs

/-!
# Integer literals

What `number` of `crates/binder/src/expression.rs` makes of a token of digits.

* `decimalValue` — the number that a token denotes; `digits_eq_decimalValue`.
* `numberChecked` — `number` in machine words, where an overflow is a panic; `numberChecked_eq` — there is none.
* `integer_literals_denote` — a token, with a minus sign or without, is its value in the narrowest type.
-/

namespace ChiliDB.Binder

open Effect
open ChiliDB.Bound (Expr)

variable {E : Type}

/-- The number that a token of digits denotes. -/
def decimalValue (s : String) : Nat := Nat.ofDigits 10 (s.toList.reverse.map fun c => c.toNat - '0'.toNat)

theorem digits_concat (cs : List Char) (c : Char) :
    digits (cs ++ [c]) = 10 * digits cs + (c.toNat - '0'.toNat) := by
  simp [digits]

theorem digits_eq_decimalValue (s : String) : digits s.toList = decimalValue s := by
  unfold decimalValue
  induction s.toList using List.reverseRecOn with
  | nil => rfl
  | append_singleton cs c ih =>
    rw [digits_concat, ih, List.reverse_append, List.reverse_singleton, List.singleton_append, List.map_cons,
      Nat.ofDigits_cons]
    simp [Nat.add_comm]

/-! ## Machine words -/

/-- `a + b`. -/
def addUInt64 (a b : UInt64) : BindResult E UInt64 :=
  if a.toNat + b.toNat < 2 ^ 64 then .ok (a + b) else .error (.panic .overflow)

/-- `-n`. -/
def negInt64 (n : Int64) : BindResult E Int64 :=
  if n = Int64.minValue then .error (.panic .overflow) else .ok (-n)

/-- `Option::ok_or`, which is how a failed conversion is reported. -/
def okOr {α : Type} (o : Option α) (e : BindError E) : BindResult E α := o.elim (.fail e) .ok

/-- The word with the sign. -/
def signedWord (magnitude : UInt64) (negative : Bool) (invalid : BindError E) : BindResult E Int64 :=
  if negative then do
    let minimum ← addUInt64 Int64.maxValue.toUInt64 1
    if magnitude = minimum then
      .ok Int64.minValue
    else do
      let n ← okOr (tryInt64 magnitude.toNat) invalid
      negInt64 n
  else
    okOr (tryInt64 magnitude.toNat) invalid

/-- `number`, in the words that it computes with. -/
def numberChecked (s : String) (negative : Bool) : BindResult E Expr :=
  let invalid := BindError.invalidNumber (if negative then "-" ++ s else s)
  if !validNumber s then
    .fail invalid
  else if s.toList.any fun c => c = '.' || c = 'e' || c = 'E' then
    let n := parseFloat s
    if !n.isFinite then .fail invalid
    else .ok (value .float64 (.float64 (if negative then n.neg else n)))
  else do
    let magnitude ← okOr (parseUInt64 s) invalid
    let n ← signedWord magnitude negative invalid
    .ok (integer n)

/-- The number with the sign. -/
def signed (negative : Bool) (n : Nat) : Int := if negative then -n else n

variable {i : Int} {n : Int64}

theorem tryInt64_eq_some : tryInt64 i = some n ↔ n.toInt = i := by
  unfold tryInt64
  constructor
  · intro h
    split at h
    · rename_i hfits
      cases h
      exact Int64.toInt_ofInt_of_le hfits.1 (Int.lt_of_le_of_lt hfits.2 (by decide))
    · cases h
  · rintro rfl
    rw [if_pos ⟨n.minValue_le_toInt, n.toInt_le⟩, Int64.ofInt_toInt]

theorem tryInt32_eq_some {n : Int32} : tryInt32 i = some n ↔ n.toInt = i := by
  unfold tryInt32
  constructor
  · intro h
    split at h
    · rename_i hfits
      cases h
      exact Int32.toInt_ofInt_of_le hfits.1 (Int.lt_of_le_of_lt hfits.2 (by decide))
    · cases h
  · rintro rfl
    rw [if_pos ⟨n.minValue_le_toInt, n.toInt_le⟩, Int32.ofInt_toInt]

theorem tryInt64_eq_none (h : i < -2 ^ 63 ∨ 2 ^ 63 ≤ i) : tryInt64 i = none := by
  have hmin : Int64.minValue.toInt = -2 ^ 63 := rfl
  have hmax : Int64.maxValue.toInt = 2 ^ 63 - 1 := rfl
  unfold tryInt64
  rw [if_neg (by omega)]

theorem tryInt32_eq_none (h : i < -2 ^ 31 ∨ 2 ^ 31 ≤ i) : tryInt32 i = none := by
  have hmin : Int32.minValue.toInt = -2 ^ 31 := rfl
  have hmax : Int32.maxValue.toInt = 2 ^ 31 - 1 := rfl
  unfold tryInt32
  rw [if_neg (by omega)]

/-- A word that fits the narrow type is a literal of it. -/
theorem integer_of_int32 {m : Int32} (h : m.toInt = n.toInt) : integer n = value .int32 (.int32 m) := by
  unfold integer
  rw [tryInt32_eq_some.2 h]

theorem integer_of_wide (h : n.toInt < -2 ^ 31 ∨ 2 ^ 31 ≤ n.toInt) : integer n = value .int64 (.int64 n) := by
  unfold integer
  rw [tryInt32_eq_none h]

/-- A word that is not negative has a negative. -/
theorem toInt_neg_of_nonneg (h : 0 ≤ n.toInt) : (-n).toInt = -n.toInt := by
  have hle := n.toInt_le
  have hmax : Int64.maxValue.toInt = 2 ^ 63 - 1 := rfl
  rw [Int64.toInt_neg]
  apply Int.bmod_eq_of_le <;> omega

theorem negInt64_of_nonneg (h : 0 ≤ n.toInt) : (negInt64 n : BindResult E _) = .ok (-n) := by
  apply if_neg
  rintro rfl
  exact absurd h (by decide)

/-- The conversion of a number to a word, then its negation, is the conversion of the negative: only the least
word has no counterpart. -/
theorem tryInt64_neg {n : Nat} (h : n ≠ 2 ^ 63) : tryInt64 (-n : Int) = (tryInt64 n).map (-·) := by
  by_cases hfits : n < 2 ^ 63
  · have hn : (Int64.ofInt n).toInt = n := Int64.toInt_ofInt_of_le (by omega) (by omega)
    have hneg : (-Int64.ofInt n).toInt = -(n : Int) := by rw [toInt_neg_of_nonneg (by omega), hn]
    rw [tryInt64_eq_some.2 hn, tryInt64_eq_some.2 hneg]
    rfl
  · rw [tryInt64_eq_none (by omega), tryInt64_eq_none (by omega)]
    rfl

theorem tryInt64_signed_eq_none (negative : Bool) {n : Nat} (h : 2 ^ 63 < n) :
    tryInt64 (signed negative n) = none := by
  apply tryInt64_eq_none
  cases negative <;> simp only [signed, Bool.false_eq_true, if_false, if_true] <;> omega

/-- **The word with the sign is the number with the sign, if that is a word**: no operation on the way panics. -/
theorem signedWord_eq (magnitude : UInt64) (negative : Bool) (invalid : BindError E) :
    signedWord magnitude negative invalid = okOr (tryInt64 (signed negative magnitude.toNat)) invalid := by
  cases negative with
  | false => rfl
  | true =>
    have hminimum : (addUInt64 Int64.maxValue.toUInt64 1 : BindResult E _) = .ok (.ofNat (2 ^ 63)) := rfl
    have hword : magnitude = UInt64.ofNat (2 ^ 63) ↔ magnitude.toNat = 2 ^ 63 := by
      rw [← UInt64.toNat_inj]
      rfl
    unfold signedWord signed
    rw [if_pos rfl, if_pos rfl, hminimum, Result.ok_bind]
    by_cases heq : magnitude.toNat = 2 ^ 63
    · rw [if_pos (hword.2 heq), heq]
      rfl
    · rw [if_neg (mt hword.1 heq), tryInt64_neg heq]
      cases hn : tryInt64 magnitude.toNat with
      | none => rfl
      | some n => exact negInt64_of_nonneg (by rw [tryInt64_eq_some.1 hn]; omega)

section

variable {s : String} (hvalid : validNumber s = true)
  (hinteger : (s.toList.any fun c => c = '.' || c = 'e' || c = 'E') = false) (negative : Bool)

include hvalid hinteger

/-- A token without a point and without an exponent is its value with the sign, if that is a word. -/
theorem number_eq : (number s negative : BindResult E _) =
    okOr (tryInt64 (signed negative (digits s.toList))) (.invalidNumber (if negative then "-" ++ s else s)) >>=
      fun n => .ok (integer n) := by
  unfold number
  simp only [hvalid, hinteger, Bool.not_true, Bool.false_eq_true, if_false]
  by_cases hbig : digits s.toList ≥ 2 ^ 64
  · rw [if_pos hbig, tryInt64_signed_eq_none negative (by omega)]
    rfl
  rw [if_neg hbig]
  cases negative with
  | false =>
    simp only [signed, Bool.false_eq_true, if_false]
    cases tryInt64 (digits s.toList) <;> rfl
  | true =>
    simp only [signed, if_true]
    by_cases hminimum : digits s.toList = 2 ^ 63
    · rw [if_pos hminimum, hminimum]
      rfl
    · rw [if_neg hminimum, tryInt64_neg hminimum]
      cases tryInt64 (digits s.toList) <;> rfl

theorem numberChecked_integer : (numberChecked s negative : BindResult E _) = number s negative := by
  rw [number_eq hvalid hinteger]
  unfold numberChecked parseUInt64
  simp only [hvalid, hinteger, Bool.not_true, Bool.false_eq_true, if_false, signedWord_eq]
  by_cases hbig : digits s.toList < 2 ^ 64
  · rw [if_pos hbig]
    show okOr (tryInt64 (signed negative (UInt64.ofNat (digits s.toList)).toNat)) _ >>= _ = _
    rw [UInt64.toNat_ofNat_of_lt' hbig]
  · rw [if_neg hbig, tryInt64_signed_eq_none negative (by omega)]
    rfl

end

/-- **`number` computes in machine words without an overflow.** -/
theorem numberChecked_eq (s : String) (negative : Bool) :
    (numberChecked s negative : BindResult E _) = number s negative := by
  by_cases hvalid : validNumber s = true
  · by_cases hinteger : (s.toList.any fun c => c = '.' || c = 'e' || c = 'E') = true
    · unfold numberChecked number
      simp only [hvalid, hinteger, Bool.not_true, Bool.false_eq_true, if_false, if_true]
    · exact numberChecked_integer hvalid (by simpa using hinteger) negative
  · unfold numberChecked number
    simp only [hvalid, Bool.not_false, if_true]

/-! ## Tokens of digits -/

section

variable {s : String} (hs : isDigits s = true)

include hs

theorem validNumber_of_isDigits : validNumber s = true := by
  unfold isDigits at hs
  obtain ⟨hne, hdigits⟩ := (Bool.and_eq_true _ _).mp hs
  rw [List.all_eq_true] at hdigits
  have htake : s.toList.takeWhile Char.isDigit = s.toList := List.takeWhile_eq_self_iff.2 hdigits
  have hdrop : s.toList.dropWhile Char.isDigit = [] := List.dropWhile_eq_nil_iff.2 hdigits
  unfold validNumber scanDecimal
  simp only [htake, hdrop]
  have hfraction : scanFraction s.toList [] = some ([], []) := by
    unfold scanFraction
    simpa using hne
  rw [hfraction]
  rfl

theorem not_float_of_isDigits : (s.toList.any fun c => c = '.' || c = 'e' || c = 'E') = false := by
  unfold isDigits at hs
  obtain ⟨-, hdigits⟩ := (Bool.and_eq_true _ _).mp hs
  rw [List.any_eq_false]
  intro c hc
  have hdigit := List.all_eq_true.mp hdigits c hc
  have hne (c' : Char) (h : c'.isDigit = false) : c ≠ c' := by
    rintro rfl
    rw [h] at hdigit
    cases hdigit
  simp [hne '.' rfl, hne 'e' rfl, hne 'E' rfl]

/-- **A token of digits is its value with the sign, in the narrowest type.** -/
theorem number_digits (negative : Bool) : (number s negative : BindResult E _) =
    okOr (tryInt64 (signed negative (decimalValue s))) (.invalidNumber (if negative then "-" ++ s else s)) >>=
      fun n => .ok (integer n) := by
  rw [number_eq (validNumber_of_isDigits hs) (not_float_of_isDigits hs), digits_eq_decimalValue]

theorem number_int32 (negative : Bool) {m : Int32} (hm : m.toInt = signed negative (decimalValue s)) :
    (number s negative : BindResult E _) = .ok (value .int32 (.int32 m)) := by
  have hword : m.toInt64.toInt = signed negative (decimalValue s) := by rw [Int32.toInt_toInt64, hm]
  rw [number_digits hs, tryInt64_eq_some.2 hword]
  show Except.ok (integer m.toInt64) = _
  rw [integer_of_int32 (Int32.toInt_toInt64 m).symm]

theorem number_int64 (negative : Bool) {n : Int64} (hn : n.toInt = signed negative (decimalValue s))
    (hwide : n.toInt < -2 ^ 31 ∨ 2 ^ 31 ≤ n.toInt) :
    (number s negative : BindResult E _) = .ok (value .int64 (.int64 n)) := by
  rw [number_digits hs, tryInt64_eq_some.2 hn]
  show Except.ok (integer n) = _
  rw [integer_of_wide hwide]

theorem number_invalid (negative : Bool)
    (h : signed negative (decimalValue s) < -2 ^ 63 ∨ 2 ^ 63 ≤ signed negative (decimalValue s)) :
    (number s negative : BindResult E _) = .fail (.invalidNumber (if negative then "-" ++ s else s)) := by
  rw [number_digits hs, tryInt64_eq_none h]
  rfl

end

/-- **Integer literals denote their value in the narrowest type.**  A token of digits, of any length and with
any leading zeros, is an `Int32` if its value is one, else an `Int64` if its value is one, else invalid; with a
minus sign in front of it so is the negative value.  No word on the way overflows. -/
theorem integer_literals_denote {s : String} (hs : isDigits s = true) (context : BindContext) (levels : Nat)
    (aggregates windows : Bool) :
    let v := decimalValue s
    let literal : BindResult E Expr :=
      bindExprInner context (levels + 1) aggregates windows (.literal (.number s))
    let negated : BindResult E Expr :=
      bindExprInner context (levels + 1) aggregates windows (.unary .minus (.literal (.number s)))
    (v < 2 ^ 31 → ∃ n : Int32, n.toInt = v ∧ literal = .ok (value .int32 (.int32 n))) ∧
    (2 ^ 31 ≤ v → v < 2 ^ 63 → ∃ n : Int64, n.toInt = v ∧ literal = .ok (value .int64 (.int64 n))) ∧
    (2 ^ 63 ≤ v → literal = .fail (.invalidNumber s)) ∧
    (v ≤ 2 ^ 31 → ∃ n : Int32, n.toInt = -v ∧ negated = .ok (value .int32 (.int32 n))) ∧
    (2 ^ 31 < v → v ≤ 2 ^ 63 → ∃ n : Int64, n.toInt = -v ∧ negated = .ok (value .int64 (.int64 n))) ∧
    (2 ^ 63 < v → negated = .fail (.invalidNumber ("-" ++ s))) ∧
    ∀ negative, (numberChecked s negative : BindResult E _) = number s negative ∧
      ∀ panic, (numberChecked s negative : BindResult E _) ≠ .error (.panic panic) := by
  intro v literal negated
  have hliteral : literal = number s false := rfl
  have hnegated : negated = number s true := rfl
  have hpositive : signed false (decimalValue s) = v := rfl
  have hnegative : signed true (decimalValue s) = -v := rfl
  rw [hliteral, hnegated]
  refine ⟨?_, ?_, ?_, ?_, ?_, ?_, ?_⟩
  · intro h
    have hn : (Int32.ofInt v).toInt = v := Int32.toInt_ofInt_of_le (by omega) (by omega)
    exact ⟨_, hn, number_int32 hs false hn⟩
  · intro hlo hhi
    have hn : (Int64.ofInt v).toInt = v := Int64.toInt_ofInt_of_le (by omega) (by omega)
    exact ⟨_, hn, number_int64 hs false hn (by omega)⟩
  · intro h
    exact number_invalid hs false (by omega)
  · intro h
    have hn : (Int32.ofInt (-v)).toInt = -v := Int32.toInt_ofInt_of_le (by omega) (by omega)
    exact ⟨_, hn, number_int32 hs true hn⟩
  · intro hlo hhi
    have hn : (Int64.ofInt (-v)).toInt = -v := Int64.toInt_ofInt_of_le (by omega) (by omega)
    exact ⟨_, hn, number_int64 hs true hn (by omega)⟩
  · intro h
    exact number_invalid hs true (by omega)
  · intro negative
    refine ⟨numberChecked_eq s negative, ?_⟩
    intro panic
    rw [numberChecked_eq, number_digits hs]
    cases tryInt64 (signed negative (decimalValue s)) <;> simp [okOr, Result.fail, Bind.bind, Except.bind]

/-- The least `Int64`, which has a literal only with its sign, and with a leading zero. -/
theorem integer_literals_denote_minimum : ∃ n : Int64, n.toInt = -2 ^ 63 ∧
    bindExprInner ⟨[]⟩ 256 false false (.unary .minus (.literal (.number "09223372036854775808")))
      = (.ok (value .int64 (.int64 n)) : BindResult Empty Expr) :=
  (integer_literals_denote (s := "09223372036854775808") (by decide +kernel) ⟨[]⟩ 255 false false).2.2.2.2.1
    (by decide +kernel) (by decide +kernel)

end ChiliDB.Binder

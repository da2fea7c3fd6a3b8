import Mathlib.Data.Nat.Log
import Mathlib.Data.BitVec

/-!
# Binary floating-point numbers

A number of an IEEE 754 binary interchange format, by its fields: what two numbers have in common if all
their bits agree is equality of the structure, what the operator `==` compares is `ieeeEq`.

* `Binary w m` — a sign, an exponent of `w` bits and a fraction of `m` bits.
* `Binary.ofRatio` — the nearest number to a ratio of naturals, to even in a tie, infinity if it is too large.
* `ieeeEq_iff` — on numbers the operator identifies the two zeros and nothing else.
-/

structure Binary (w m : Nat) where
  sign : Bool
  exponent : BitVec w
  fraction : BitVec m
  deriving DecidableEq

namespace Binary

variable {w m : Nat}

def isFinite (x : Binary w m) : Bool := x.exponent ≠ BitVec.allOnes w

def isNan (x : Binary w m) : Bool := x.exponent = BitVec.allOnes w && x.fraction ≠ 0

def isZero (x : Binary w m) : Bool := x.exponent = 0 && x.fraction = 0

def neg (x : Binary w m) : Binary w m := { x with sign := !x.sign }

/-- The operator `==`. -/
def ieeeEq (x y : Binary w m) : Bool :=
  !x.isNan && !y.isNan && (x = y || (x.isZero && y.isZero))

/-- The zeros have one representative, all other numbers are their own. -/
def canon (x : Binary w m) : Binary w m := if x.isZero then { x with sign := false } else x

theorem canon_of_not_zero {x : Binary w m} (h : x.isZero = false) : x.canon = x := by simp [canon, h]

theorem canon_zero {x y : Binary w m} (hx : x.isZero = true) (hy : y.isZero = true) : x.canon = y.canon := by
  obtain ⟨sx, ex, fx⟩ := x
  obtain ⟨sy, ey, fy⟩ := y
  simp only [isZero, Bool.and_eq_true, decide_eq_true_eq] at hx hy
  simp [canon, isZero, hx, hy]

theorem isZero_canon (x : Binary w m) : x.canon.isZero = x.isZero := by
  unfold canon
  split
  · rfl
  · rfl

theorem isNan_canon (x : Binary w m) : x.canon.isNan = x.isNan := by
  unfold canon
  split
  · rfl
  · rfl

/-- **What the operator compares is the number up to the sign of zero.** -/
theorem ieeeEq_iff {x y : Binary w m} : x.ieeeEq y = true ↔ x.canon = y.canon ∧ x.isNan = false := by
  constructor
  · intro h
    simp only [ieeeEq, Bool.and_eq_true, Bool.or_eq_true, Bool.not_eq_true', decide_eq_true_eq] at h
    obtain ⟨⟨hx, _⟩, heq | ⟨hzx, hzy⟩⟩ := h
    · exact ⟨congrArg canon heq, hx⟩
    · exact ⟨canon_zero hzx hzy, hx⟩
  · rintro ⟨heq, hx⟩
    have hy : y.isNan = false := by rw [← isNan_canon y, ← heq, isNan_canon, hx]
    have hzero : x.isZero = y.isZero := by rw [← isZero_canon x, heq, isZero_canon]
    cases hz : x.isZero with
    | true =>
      rw [hz] at hzero
      simp [ieeeEq, hx, hy, hz, ← hzero]
    | false =>
      rw [hz] at hzero
      rw [canon_of_not_zero hz, canon_of_not_zero hzero.symm] at heq
      simp [ieeeEq, hy, heq]

theorem not_nan_of_isFinite {x : Binary w m} (h : x.isFinite = true) : x.isNan = false := by
  simp only [isFinite, decide_eq_true_eq, ne_eq] at h
  simp [isNan, h]

@[simp] theorem isFinite_neg (x : Binary w m) : x.neg.isFinite = x.isFinite := rfl

/-! ## Rounding -/

/-- The quotient, rounded to the nearest natural and to even in a tie. -/
def divRound (a b : Nat) : Nat :=
  if 2 * (a % b) < b ∨ (2 * (a % b) = b ∧ a / b % 2 = 0) then a / b else a / b + 1

/-- The exponent of the leading binary digit of `num / den`. -/
def leading (num den : Nat) : Int :=
  let l : Int := Nat.log2 num - Nat.log2 den
  if den * 2 ^ l.toNat ≤ num * 2 ^ (-l).toNat then l else l - 1

/-- `num / den`, rounded.  The last place has the exponent `k`, which is at least that of the subnormal
numbers; a significand that is rounded up to the next power of two carries into the exponent. -/
def ofRatio (w m num den : Nat) : Binary w m :=
  if num = 0 then
    ⟨false, 0, 0⟩
  else
    let least : Int := 2 - 2 ^ (w - 1) - m
    let k : Int := max (leading num den - m) least
    let significand := divRound (num * 2 ^ (-k).toNat) (den * 2 ^ k.toNat)
    let magnitude := min ((k - least).toNat * 2 ^ m + significand) ((2 ^ w - 1) * 2 ^ m)
    ⟨false, BitVec.ofNat w (magnitude / 2 ^ m), BitVec.ofNat m magnitude⟩

/-- `n` times a power of ten. -/
def ofDecimal (w m n : Nat) (exponent : Int) : Binary w m :=
  ofRatio w m (n * 10 ^ exponent.toNat) (10 ^ (-exponent).toNat)

example : ofDecimal 11 52 1 (-1) = ⟨false, 1019, 0x999999999999A#52⟩ := by decide +kernel
example : (ofDecimal 11 52 1 309).isFinite = false := by decide +kernel

end Binary

abbrev Binary32 := Binary 8 23

abbrev Binary64 := Binary 11 52

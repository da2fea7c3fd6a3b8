import ChiliDB.Lib.Effect
import Mathlib.Algebra.GroupWithZero.Nat

/-!
# Byte strings: ranges and little-endian numbers

* `slice xs i n`, `splice xs i ys` — read or overwrite the range `i..i + n` of a list, and the
  checked form `Result.slice`, which panics outside the list.
* `leBytes w n`, `leNat bs` — little-endian numbers of `w` bytes.

The rules that proofs use: a range reads back what was written to it (`slice_splice_self`), a range
that does not meet the written one is unchanged (`slice_splice_of_disjoint`), and numbers below
`256 ^ w` round-trip (`leNat_leBytes`).
-/

namespace Effect

open List

variable {α ε : Type}

/-- `xs[i..i + n]`. -/
def slice (xs : List α) (i n : Nat) : List α := (xs.drop i).take n

/-- `xs` after `xs[i..i + ys.len()].copy_from_slice(ys)`. -/
def splice (xs : List α) (i : Nat) (ys : List α) : List α :=
  xs.take i ++ ys ++ xs.drop (i + ys.length)

section

variable {xs ys : List α} {i j n m : Nat}

theorem length_slice (h : i + n ≤ xs.length) : (slice xs i n).length = n := by
  simp only [slice, length_take, length_drop]
  omega

theorem length_splice (h : i + ys.length ≤ xs.length) : (splice xs i ys).length = xs.length := by
  simp only [splice, length_append, length_take, length_drop]
  omega

theorem getElem?_slice (k : Nat) : (slice xs i n)[k]? = if k < n then xs[i + k]? else none := by
  unfold slice
  rw [getElem?_take]
  split
  · rw [getElem?_drop]
  · rfl

theorem getElem?_splice (h : i + ys.length ≤ xs.length) (k : Nat) :
    (splice xs i ys)[k]? = if i ≤ k ∧ k < i + ys.length then ys[k - i]? else xs[k]? := by
  have hi : (xs.take i).length = i := by rw [length_take]; omega
  unfold splice
  rw [append_assoc]
  rcases Nat.lt_or_ge k i with hk | hk
  · rw [getElem?_append_left (by omega), getElem?_take, if_pos hk, if_neg (by omega)]
  · rw [getElem?_append_right (by omega), hi]
    rcases Nat.lt_or_ge (k - i) ys.length with hy | hy
    · rw [getElem?_append_left hy, if_pos (by omega)]
    · rw [getElem?_append_right hy, getElem?_drop, if_neg (by omega)]
      congr 1
      omega

theorem slice_congr {zs : List α} (h : ∀ k, k < n → xs[i + k]? = zs[j + k]?) : slice xs i n = slice zs j n := by
  apply ext_getElem?
  intro k
  rw [getElem?_slice, getElem?_slice]
  split
  · rename_i hk; exact h k hk
  · rfl

theorem slice_splice_self (h : i + ys.length ≤ xs.length) : slice (splice xs i ys) i ys.length = ys := by
  apply ext_getElem?
  intro k
  rw [getElem?_slice]
  split
  · rename_i hk
    rw [getElem?_splice h, if_pos (by omega)]
    congr 1
    omega
  · rename_i hk
    rw [getElem?_eq_none (by omega)]

theorem slice_splice_of_disjoint (h : i + ys.length ≤ xs.length)
    (hd : j + n ≤ i ∨ i + ys.length ≤ j) : slice (splice xs i ys) j n = slice xs j n := by
  apply slice_congr
  intro k hk
  rw [getElem?_splice h, if_neg (by omega)]

theorem slice_slice (h : j + m ≤ n) : slice (slice xs i n) j m = slice xs (i + j) m := by
  apply slice_congr
  intro k hk
  rw [getElem?_slice, if_pos (by omega)]
  congr 1
  omega

theorem slice_add (n m : Nat) : slice xs i (n + m) = slice xs i n ++ slice xs (i + n) m := by
  unfold slice
  rw [take_add, drop_drop]

theorem slice_left (hn : n = xs.length) : slice (xs ++ ys) 0 n = xs := by
  subst hn
  unfold slice
  rw [drop_zero, take_left]

theorem slice_right (hi : i = xs.length) (hn : n = ys.length) : slice (xs ++ ys) i n = ys := by
  subst hi hn
  unfold slice
  rw [drop_left, take_length]

theorem slice_replicate (a : α) (h : i + n ≤ m) : slice (replicate m a) i n = replicate n a := by
  unfold slice
  rw [drop_replicate, take_replicate]
  congr 1
  omega

end

/-! ## Blocks of one width -/

section

variable {w i : Nat} {block : List α}

theorem length_flatten_blocks : ∀ {blocks : List (List α)}, (∀ b ∈ blocks, b.length = w) →
    blocks.flatten.length = blocks.length * w
  | [], _ => by simp
  | b :: blocks, h => by
    have hb := h b (by simp)
    have hrest := length_flatten_blocks fun b' hb' => h b' (mem_cons_of_mem b hb')
    simp only [flatten_cons, length_append, length_cons, hb, hrest, Nat.succ_mul]
    omega

variable {blocks : List (List α)}

/-- A list of blocks around block number `i`. -/
theorem flatten_blocks_split (h : ∀ b ∈ blocks, b.length = w) (hi : blocks[i]? = some block) :
    blocks.flatten = (blocks.take i).flatten ++ block ++ (blocks.drop (i + 1)).flatten ∧
      (blocks.take i).flatten.length = i * w := by
  obtain ⟨hlt, rfl⟩ := List.getElem?_eq_some_iff.1 hi
  constructor
  · conv_lhs => rw [← take_append_drop i blocks, drop_eq_getElem_cons hlt]
    rw [flatten_append, flatten_cons, append_assoc]
  · rw [length_flatten_blocks fun b hb => h b (mem_of_mem_take hb), length_take]
    congr 1
    omega

theorem slice_flatten_blocks (h : ∀ b ∈ blocks, b.length = w) (hi : blocks[i]? = some block) :
    slice blocks.flatten (i * w) w = block := by
  obtain ⟨hsplit, hlen⟩ := flatten_blocks_split h hi
  have hw := h block (mem_of_getElem? hi)
  unfold slice
  rw [hsplit, append_assoc, ← hlen, drop_left, ← hw, take_left]

theorem splice_flatten_blocks {new : List α} (h : ∀ b ∈ blocks, b.length = w) (hi : i < blocks.length)
    (hnew : new.length = w) : splice blocks.flatten (i * w) new = (blocks.set i new).flatten := by
  obtain ⟨hsplit, hlen⟩ := flatten_blocks_split h (getElem?_eq_getElem hi)
  have hw := h blocks[i] (getElem_mem hi)
  have htail : i * w + w = ((blocks.take i).flatten ++ blocks[i]).length := by simp only [length_append, hlen, hw]
  unfold splice
  rw [hnew, htail, hsplit, drop_left, append_assoc (take i blocks).flatten, ← hlen,
    take_left, set_eq_take_append_cons_drop, if_pos hi]
  simp

end

namespace Result

/-- `&xs[i..i + n]`. -/
def slice (xs : List α) (i n : Nat) : Result ε (List α) :=
  if i + n ≤ xs.length then .ok (Effect.slice xs i n) else .error (.panic .bounds)

theorem slice_of_le {xs : List α} {i n : Nat} (h : i + n ≤ xs.length) :
    (slice xs i n : Result ε (List α)) = .ok (Effect.slice xs i n) :=
  if_pos h

end Result

/-! ## Little-endian numbers -/

/-- The `w` low bytes of `n`, least significant first. -/
def leBytes : Nat → Nat → List UInt8
  | 0, _ => []
  | w + 1, n => UInt8.ofNat n :: leBytes w (n / 256)

def leNat : List UInt8 → Nat
  | [] => 0
  | b :: bs => b.toNat + 256 * leNat bs

@[simp] theorem length_leBytes : ∀ w n : Nat, (leBytes w n).length = w
  | 0, _ => rfl
  | w + 1, n => by simp [leBytes, length_leBytes w]

theorem leNat_leBytes_mod : ∀ w n : Nat, leNat (leBytes w n) = n % 256 ^ w
  | 0, n => by simp [leBytes, leNat, Nat.mod_one]
  | w + 1, n => by
    have hb : (UInt8.ofNat n).toNat = n % 256 := UInt8.toNat_ofNat'
    rw [leBytes, leNat, leNat_leBytes_mod w, hb, Nat.pow_succ, Nat.mul_comm (256 ^ w) 256, Nat.mod_mul]

theorem leNat_leBytes {w n : Nat} (h : n < 256 ^ w) : leNat (leBytes w n) = n := by
  rw [leNat_leBytes_mod, Nat.mod_eq_of_lt h]

theorem leNat_lt : ∀ bs : List UInt8, leNat bs < 256 ^ bs.length
  | [] => by simp [leNat]
  | b :: bs => by
    have hb : b.toNat < 256 := b.toNat_lt
    have ih := leNat_lt bs
    rw [leNat, length_cons, Nat.pow_succ]
    omega

theorem leBytes_leNat : ∀ bs : List UInt8, leBytes bs.length (leNat bs) = bs
  | [] => rfl
  | b :: bs => by
    have hb : b.toNat < 256 := b.toNat_lt
    have hdiv : (b.toNat + 256 * leNat bs) / 256 = leNat bs := by omega
    rw [leNat, length_cons, leBytes, hdiv, leBytes_leNat bs]
    congr 1
    apply UInt8.toNat_inj.1
    rw [UInt8.toNat_ofNat']
    omega

end Effect

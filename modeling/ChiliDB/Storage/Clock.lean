import ChiliDB.Storage.Replacement
import Mathlib.Data.List.Basic

/-!
# Clock replacement is second chance

* `Over n clock` — a clock over `n` frames; every callback keeps it.
* `secondChance` — the rule, stated on the cyclic order from the hand: the first eligible frame without
  its reference bit, else the first eligible one; eligible frames passed over lose their bit.

Principal result: `victim_eq` — the two sweeps compute it.
-/

namespace ChiliDB

open Effect List

namespace ClockStrategy

/-- The state of a clock over `n` frames. -/
structure Over (n : Nat) (clock : State) : Prop where
  length : clock.referenced.length = n
  hand : 0 < n → clock.hand < n

variable {n : Nat} {clock : State}

theorem new_over {capacity : Nat} (h : new capacity = .ok clock) : Over capacity clock := by
  obtain ⟨_, _, hc⟩ := except_bind_ok.1 h
  cases hc
  exact ⟨length_replicate, id⟩

theorem access_over (h : Over n clock) {b : BufferId} (hb : b.get.toNat < n) :
    ∃ clock', access b clock = (.ok (), clock') ∧ Over n clock' := by
  have hset : (.setIndex clock.referenced b.get.toNat true : Result Empty (List Bool)) =
      .ok (clock.referenced.set b.get.toNat true) :=
    Result.setIndex_eq_ok.2 ⟨by rw [h.length]; exact hb, rfl⟩
  refine ⟨{ clock with referenced := clock.referenced.set b.get.toNat true }, ?_, ?_, h.hand⟩
  · unfold access
    simp only [Exec.bind_run, Exec.get_run, Exec.lift_run, hset, Exec.set_run]
  · show (clock.referenced.set _ _).length = n
    rw [length_set, h.length]

/-! ## The rule -/

/-- The `k`-th frame in cyclic order from the hand. -/
def State.turn (clock : State) (k : Nat) : Nat := (clock.hand + k) % clock.referenced.length

def State.bit (clock : State) (i : Nat) : Bool := clock.referenced.getD i false

def eligible (c : BufferId → Bool) (i : Nat) : Bool := c (.new (UInt32.ofNat i))

/-- The reference bits after `k` frames were passed over. -/
def cleared (c : BufferId → Bool) (clock : State) (k : Nat) : List Bool :=
  clock.referenced.mapIdx fun i bit =>
    bit && !(eligible c i && (List.range k).any fun j => clock.turn j == i)

/-- The frame a clock has to choose, and the clock afterwards.  If no eligible frame lacks its bit, all
frames have been passed over once. -/
def secondChance (c : BufferId → Bool) (clock : State) : Option BufferId × State :=
  let n := clock.referenced.length
  match (List.range n).find? fun k => eligible c (clock.turn k) && !clock.bit (clock.turn k),
    (List.range n).find? fun k => eligible c (clock.turn k) with
  | some k, _ => (some (.new (UInt32.ofNat (clock.turn k))),
      ⟨cleared c clock k, (clock.turn k + 1) % n⟩)
  | none, some k => (some (.new (UInt32.ofNat (clock.turn k))),
      ⟨cleared c clock n, (clock.turn k + 1) % n⟩)
  | none, none => (none, clock)

/-! ## The frames in cyclic order -/

section

variable (h : Over n clock)
include h

theorem turn_lt (hn : 0 < n) (k : Nat) : clock.turn k < n := by
  unfold State.turn
  rw [h.length]
  exact Nat.mod_lt _ hn

theorem turn_zero (hn : 0 < n) : clock.turn 0 = clock.hand := by
  unfold State.turn
  rw [h.length, Nat.add_zero, Nat.mod_eq_of_lt (h.hand hn)]

/-- A full turn later the same frame comes again. -/
theorem turn_add (k : Nat) : clock.turn (n + k) = clock.turn k := by
  unfold State.turn
  rw [h.length, show clock.hand + (n + k) = clock.hand + k + n by omega, Nat.add_mod_right]

theorem turn_injective {j k : Nat} (hj : j < k) (hk : k < n) : clock.turn j ≠ clock.turn k := by
  intro he
  unfold State.turn at he
  rw [h.length] at he
  have hhand := h.hand (by omega)
  -- both sums are below `2 * n`, so each is reduced at most once
  have hmod : ∀ m, m < n → (clock.hand + m) % n =
      if clock.hand + m < n then clock.hand + m else clock.hand + m - n := by
    intro m hm
    split
    · rename_i hlt
      exact Nat.mod_eq_of_lt hlt
    · rename_i hge
      rw [Nat.mod_eq_sub_mod (by omega), Nat.mod_eq_of_lt (by omega)]
  rw [hmod j (by omega), hmod k hk] at he
  split at he <;> split at he <;> omega

/-- Every frame comes once in a turn. -/
theorem exists_turn {i : Nat} (hi : i < n) : ∃ k, k < n ∧ clock.turn k = i := by
  have hhand := h.hand (by omega)
  unfold State.turn
  rw [h.length]
  by_cases hle : clock.hand ≤ i
  · exact ⟨i - clock.hand, by omega, by rw [show clock.hand + (i - clock.hand) = i by omega, Nat.mod_eq_of_lt hi]⟩
  · exact ⟨i + n - clock.hand, by omega, by
      rw [show clock.hand + (i + n - clock.hand) = i + n by omega, Nat.add_mod_right, Nat.mod_eq_of_lt hi]⟩

end

/-! ## One step of a sweep -/

/-- The frame under the hand is passed over. -/
def passOver (c : BufferId → Bool) (clock : State) : State :=
  ⟨if eligible c clock.hand then clock.referenced.set clock.hand false else clock.referenced,
    (clock.hand + 1) % clock.referenced.length⟩

theorem sweep_succ (c : BufferId → Bool) (h : clock.hand < clock.referenced.length)
    (m : Nat) :
    sweep c (m + 1) clock = if eligible c clock.hand && !clock.bit clock.hand then
        (.ok (some (.new (.ofNat clock.hand))), { clock with hand := (clock.hand + 1) % clock.referenced.length })
      else sweep c m (passOver c clock) := by
  have hget : clock.referenced[clock.hand]? = some (clock.bit clock.hand) := by
    unfold State.bit
    rw [getElem?_eq_getElem h, getD_eq_getElem?_getD, getElem?_eq_getElem h]
    rfl
  simp only [sweep, Exec.bind_run, Exec.get_run, Exec.set_run]
  cases he : eligible c clock.hand with
  | false =>
    have hc : c (.new (.ofNat clock.hand)) = false := he
    simp [hc, passOver, he]
  | true =>
    have hc : c (.new (.ofNat clock.hand)) = true := he
    simp only [hc, Bool.not_true, Bool.false_eq_true, if_false, Exec.bind_run, Exec.lift_run,
      Result.index_eq_ok.2 hget]
    cases hb : clock.bit clock.hand with
    | false => simp
    | true => simp [passOver, he, Exec.bind_run]

/-- The clock after `k` frames were passed over. -/
def passed (c : BufferId → Bool) (clock : State) (k : Nat) : State :=
  ⟨cleared c clock k, clock.turn k⟩

@[simp] theorem length_cleared (c : BufferId → Bool) (clock : State) (k : Nat) :
    (cleared c clock k).length = clock.referenced.length := by
  simp [cleared]

theorem getElem?_cleared (c : BufferId → Bool) (clock : State) (k i : Nat) :
    (cleared c clock k)[i]? = clock.referenced[i]?.map fun bit =>
      bit && !(eligible c i && (range k).any fun j => clock.turn j == i) := by
  simp [cleared, getElem?_mapIdx]

theorem passOver_passed (c : BufferId → Bool) (clock : State) (k : Nat) :
    passOver c (passed c clock k) = passed c clock (k + 1) := by
  have hhand : (clock.turn k + 1) % clock.referenced.length = clock.turn (k + 1) := by
    unfold State.turn
    rw [Nat.mod_add_mod, Nat.add_assoc]
  have hbits : (if eligible c (clock.turn k) then (cleared c clock k).set (clock.turn k) false
      else cleared c clock k) = cleared c clock (k + 1) := by
    apply ext_getElem?
    intro i
    by_cases hi : clock.turn k = i
    · subst hi
      cases he : eligible c (clock.turn k) with
      | false => simp [getElem?_cleared, he]
      | true =>
        simp only [if_true, getElem?_set_self', getElem?_cleared, he, range_succ]
        cases clock.referenced[clock.turn k]? <;> simp
    · have hsame : (cleared c clock (k + 1))[i]? = (cleared c clock k)[i]? := by
        simp [getElem?_cleared, range_succ, beq_false_of_ne hi]
      rw [hsame]
      split
      · rw [getElem?_set_ne hi]
      · rfl
  unfold passOver passed
  simp only [length_cleared, hhand, hbits]

section

variable {c : BufferId → Bool} (h : Over n clock) (hn : 0 < n)
include h hn

theorem passed_zero : passed c clock 0 = clock := by
  unfold passed
  rw [turn_zero h hn]
  have hbits : cleared c clock 0 = clock.referenced := by
    apply ext_getElem?
    intro i
    simp [getElem?_cleared]
  rw [hbits]

/-- The sweep stops at the `k`-th frame. -/
def stops (c : BufferId → Bool) (clock : State) (k : Nat) : Bool :=
  eligible c (clock.turn k) && !(passed c clock k).bit (clock.turn k)

variable {k : Nat}

theorem sweep_passed (hk : ∀ j, j < k → stops c clock j = false) (m : Nat) :
    sweep c (k + m) clock = sweep c m (passed c clock k) := by
  induction k generalizing m with
  | zero => rw [passed_zero h hn, Nat.zero_add]
  | succ k ih =>
    have hlt : (passed c clock k).hand < (passed c clock k).referenced.length := by
      show clock.turn k < (cleared c clock k).length
      rw [length_cleared, h.length]
      exact turn_lt h hn k
    have hstop : (eligible c (passed c clock k).hand &&
        !(passed c clock k).bit (passed c clock k).hand) = false := hk k (by omega)
    rw [show k + 1 + m = k + (m + 1) by omega, ih (fun j hj => hk j (by omega)), sweep_succ c hlt,
      hstop, passOver_passed]
    rfl

/-- The first stop decides. -/
theorem sweep_stops {k m : Nat} (hk : ∀ j, j < k → stops c clock j = false)
    (hstop : stops c clock k = true) (hm : k < m) :
    sweep c m clock = (.ok (some (.new (.ofNat (clock.turn k)))), ⟨cleared c clock k, (clock.turn k + 1) % n⟩) := by
  have hlt : (passed c clock k).hand < (passed c clock k).referenced.length := by
    show clock.turn k < (cleared c clock k).length
    rw [length_cleared, h.length]
    exact turn_lt h hn k
  obtain ⟨d, rfl⟩ : ∃ d, m = k + (d + 1) := ⟨m - k - 1, by omega⟩
  have hstop' : (eligible c (passed c clock k).hand &&
      !(passed c clock k).bit (passed c clock k).hand) = true := hstop
  rw [sweep_passed h hn hk, sweep_succ c hlt, hstop']
  simp [passed, h.length]

theorem bit_passed : (passed c clock k).bit (clock.turn k) =
    (clock.bit (clock.turn k) &&
      !(eligible c (clock.turn k) && (range k).any fun j => clock.turn j == clock.turn k)) := by
  have hlt : clock.turn k < clock.referenced.length := by
    rw [h.length]
    exact turn_lt h hn k
  unfold State.bit passed
  rw [getD_eq_getElem?_getD, getD_eq_getElem?_getD, getElem?_cleared, getElem?_eq_getElem hlt]
  rfl

/-- In the first turn nothing has been cleared under the hand yet. -/
theorem stops_first (hk : k < n) : stops c clock k = (eligible c (clock.turn k) && !clock.bit (clock.turn k)) := by
  have hany : ((range k).any fun j => clock.turn j == clock.turn k) = false := by
    rw [any_eq_false]
    intro j hj
    simpa using turn_injective h (mem_range.1 hj) hk
  unfold stops
  rw [bit_passed h hn, hany]
  simp

/-- In the second turn every eligible frame has been passed over. -/
theorem stops_second (k : Nat) : stops c clock (n + k) = eligible c (clock.turn k) := by
  have hany : ((range (n + k)).any fun j => clock.turn j == clock.turn (n + k)) = true := by
    rw [any_eq_true]
    exact ⟨k, mem_range.2 (by omega), by simp [turn_add h]⟩
  unfold stops
  rw [bit_passed h hn, hany, turn_add h]
  cases eligible c (clock.turn k) <;> simp

omit hn in
/-- After one turn no more bits are cleared. -/
theorem cleared_add (k : Nat) : cleared c clock (n + k) = cleared c clock n := by
  apply ext_getElem?
  intro i
  rw [getElem?_cleared, getElem?_cleared]
  cases hi : clock.referenced[i]? with
  | none => rfl
  | some bit =>
    have hlt : i < n := by
      rw [← h.length]
      exact lt_of_get hi
    obtain ⟨j, hj, hturn⟩ := exists_turn h hlt
    have hany : ∀ m, n ≤ m → ((range m).any fun j => clock.turn j == i) = true := by
      intro m hm
      rw [any_eq_true]
      exact ⟨j, mem_range.2 (by omega), by simp [hturn]⟩
    rw [hany n (Nat.le_refl n), hany (n + k) (by omega)]

/-- Two turns without an eligible frame change nothing. -/
theorem passed_round (hno : ∀ k, k < n → eligible c (clock.turn k) = false) : passed c clock (2 * n) = clock := by
  have hturn : clock.turn (2 * n) = clock.hand := by
    rw [Nat.two_mul, turn_add h, ← Nat.add_zero n, turn_add h, turn_zero h hn]
  have hbits : cleared c clock (2 * n) = clock.referenced := by
    apply ext_getElem?
    intro i
    rw [getElem?_cleared]
    cases hi : clock.referenced[i]? with
    | none => rfl
    | some bit =>
      obtain ⟨k, hk, hturn⟩ := exists_turn h (i := i) (by
        rw [← h.length]
        exact (lt_of_get hi))
      have he : eligible c i = false := by rw [← hturn]; exact hno k hk
      simp [he]
  unfold passed
  rw [hturn, hbits]

end

/-- **The two sweeps are the rule of second chance.** -/
theorem victim_eq (h : Over n clock) (c : BufferId → Bool) :
    victim c clock = (.ok (secondChance c clock).1, (secondChance c clock).2) := by
  show sweep c (2 * clock.referenced.length) clock = _
  unfold secondChance
  rw [h.length]
  rcases Nat.eq_zero_or_pos n with rfl | hn
  · rfl
  · dsimp only
    cases hfirst : (range n).find? fun k => eligible c (clock.turn k) && !clock.bit (clock.turn k) with
    | some k =>
      obtain ⟨hstop, hk, hbefore⟩ := find?_range_eq_some.1 hfirst
      have hk := mem_range.1 hk
      refine sweep_stops h hn (fun j hj => ?_) ?_ (by omega)
      · rw [stops_first h hn (by omega)]
        rw [← Bool.not_eq_true']
        exact hbefore j hj
      · rw [stops_first h hn hk]
        exact hstop
    | none =>
      have hnone : ∀ k, k < n → stops c clock k = false := by
        intro k hk
        rw [stops_first h hn hk]
        rw [← Bool.not_eq_true']
        exact find?_range_eq_none.1 hfirst k hk
      cases hsecond : (range n).find? fun k => eligible c (clock.turn k) with
      | some k =>
        obtain ⟨hstop, hk, hbefore⟩ := find?_range_eq_some.1 hsecond
        have hk := mem_range.1 hk
        have hrun := sweep_stops h hn (c := c) (k := n + k) (m := 2 * n) (fun j hj => ?_) ?_ (by omega)
        · rw [hrun, turn_add h, cleared_add h]
        · rcases Nat.lt_or_ge j n with hlt | hge
          · exact hnone j hlt
          · obtain ⟨d, rfl⟩ : ∃ d, j = n + d := ⟨j - n, by omega⟩
            rw [stops_second h hn]
            simpa using hbefore d (by omega)
        · rw [stops_second h hn]
          exact hstop
      | none =>
        -- nothing is eligible: the hand goes round twice
        have hno : ∀ k, k < n → eligible c (clock.turn k) = false := by
          intro k hk
          simpa using find?_range_eq_none.1 hsecond k hk
        have hrun := sweep_passed h hn (c := c) (k := 2 * n) (fun j hj => ?_) 0
        · rw [Nat.add_zero] at hrun
          rw [hrun, passed_round h hn hno]
          rfl
        · rcases Nat.lt_or_ge j n with hlt | hge
          · exact hnone j hlt
          · obtain ⟨d, rfl⟩ : ∃ d, j = n + d := ⟨j - n, by omega⟩
            rw [stops_second h hn]
            exact hno d (by omega)

theorem secondChance_none (h : Over n clock) {c : BufferId → Bool} :
    (secondChance c clock).1 = none ↔ ∀ i, i < n → eligible c i = false := by
  have hturn : (∀ i, i < n → eligible c i = false) ↔ ∀ k, k < n → eligible c (clock.turn k) = false := by
    refine ⟨fun hi k hk => hi _ (turn_lt h (by omega) k), fun hk i hi => ?_⟩
    obtain ⟨k, hlt, rfl⟩ := exists_turn h hi
    exact hk k hlt
  rw [hturn]
  unfold secondChance
  rw [h.length]
  dsimp only
  split
  · rename_i _ k hfirst
    obtain ⟨hstop, hk, _⟩ := find?_range_eq_some.1 hfirst
    refine ⟨fun he => (by cases he), fun hno => ?_⟩
    rw [hno k (mem_range.1 hk)] at hstop
    cases hstop
  · rename_i k _ hsecond
    obtain ⟨hstop, hk, _⟩ := find?_range_eq_some.1 hsecond
    refine ⟨fun he => (by cases he), fun hno => ?_⟩
    rw [hno k (mem_range.1 hk)] at hstop
    cases hstop
  · rename_i _ hsecond
    refine ⟨fun _ k hk => ?_, fun _ => rfl⟩
    simpa using find?_range_eq_none.1 hsecond k hk

/-- The chosen frame is an eligible one, and the clock is still over its frames. -/
theorem secondChance_over (h : Over n clock) (c : BufferId → Bool) :
    Over n (secondChance c clock).2 ∧ ∀ b, (secondChance c clock).1 = some b →
      ∃ i, i < n ∧ b = .new (.ofNat i) ∧ eligible c i = true := by
  have hchosen : ∀ k m, k < n → Over n ⟨cleared c clock m, (clock.turn k + 1) % n⟩ := by
    intro k m hk
    exact ⟨by rw [length_cleared, h.length], fun hn => Nat.mod_lt _ hn⟩
  unfold secondChance
  rw [h.length]
  dsimp only
  split
  · rename_i _ k hfirst
    obtain ⟨hstop, hk, _⟩ := find?_range_eq_some.1 hfirst
    have hk := mem_range.1 hk
    refine ⟨hchosen k k hk, fun b hb => ?_⟩
    cases hb
    simp only [Bool.and_eq_true] at hstop
    exact ⟨_, turn_lt h (by omega) k, rfl, hstop.1⟩
  · rename_i k _ hsecond
    obtain ⟨hstop, hk, _⟩ := find?_range_eq_some.1 hsecond
    have hk := mem_range.1 hk
    refine ⟨hchosen k n hk, fun b hb => ?_⟩
    cases hb
    exact ⟨_, turn_lt h (by omega) k, rfl, hstop⟩
  · exact ⟨h, fun b hb => (by cases hb)⟩

theorem victim_over (h : Over n clock) (c : BufferId → Bool) :
    ∃ r clock', victim c clock = (.ok r, clock') ∧ Over n clock' :=
  ⟨_, _, victim_eq h c, (secondChance_over h c).1⟩

end ClockStrategy

end ChiliDB

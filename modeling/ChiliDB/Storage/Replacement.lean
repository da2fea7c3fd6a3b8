import ChiliDB.Lib.Effect
import ChiliDB.Storage.Basic

/-!
# Replacement policies

`crates/storage/src/replacement.rs`.  A policy is untrusted: it may panic, and `victim` may answer
with any frame number at all.

* `VictimStrategy P` — the three callbacks over the policy's own state `P`.
* `ClockStrategy` — second chance, with a reference bit per frame and a hand.
-/

namespace ChiliDB

open Effect

structure VictimStrategy (P : Type) where
  access : BufferId → Exec Empty P Unit
  load : BufferId → Exec Empty P Unit
  victim : (BufferId → Bool) → Exec Empty P (Option BufferId)

/-- A policy whose callbacks all return. -/
structure VictimStrategy.Total {P : Type} (policy : VictimStrategy P) : Prop where
  access : ∀ b p, ∃ p', policy.access b p = (.ok (), p')
  load : ∀ b p, ∃ p', policy.load b p = (.ok (), p')
  victim : ∀ c p, ∃ r p', policy.victim c p = (.ok r, p')

namespace ClockStrategy

structure State where
  referenced : List Bool
  hand : Nat
  deriving DecidableEq, Repr

/-- `ClockStrategy::new`; a capacity beyond the `BufferId` space panics. -/
def new (capacity : Nat) : Result Empty State := do
  Result.assert (capacity == 0 || decide (capacity - 1 < 2 ^ 32))
  pure ⟨List.replicate capacity false, 0⟩

def access (buffer : BufferId) : Exec Empty State Unit := do
  let clock ← Exec.get
  let referenced ← Exec.lift (Result.setIndex clock.referenced buffer.get.toNat true)
  Exec.set { clock with referenced }

/-- `n` more frames of the sweep. -/
def sweep (canEvict : BufferId → Bool) : Nat → Exec Empty State (Option BufferId)
  | 0 => pure none
  | n + 1 => do
    let clock ← Exec.get
    let index := clock.hand
    Exec.set { clock with hand := (clock.hand + 1) % clock.referenced.length }
    let buffer := BufferId.new (UInt32.ofNat index)
    if !canEvict buffer then
      sweep canEvict n
    else
      let referenced ← Exec.lift (Result.index clock.referenced index)
      if !referenced then
        pure (some buffer)
      else
        Exec.modify fun clock => { clock with referenced := clock.referenced.set index false }
        sweep canEvict n

/-- The first sweep clears eligible reference bits, the second selects a frame. -/
def victim (canEvict : BufferId → Bool) : Exec Empty State (Option BufferId) := do
  let clock ← Exec.get
  sweep canEvict (2 * clock.referenced.length)

end ClockStrategy

/-- `impl VictimStrategy for ClockStrategy`; `load` is the trait's default. -/
def ClockStrategy : VictimStrategy ClockStrategy.State where
  access := ClockStrategy.access
  load := ClockStrategy.access
  victim := ClockStrategy.victim

end ChiliDB

import Mathlib.Logic.Relation
import Mathlib.Data.List.Basic
import Mathlib.Algebra.GroupWithZero.Nat

/-!
# Loops that run until nothing is left to do

* `fixFrom` — repeat a step until it changes nothing, with a bound on the turns; `Loops` — without one;
  `fixFrom_loops` — the bound is not met if the step climbs below it.
* `search` — look for a goal with a stack and the set of nodes seen; `search_isSome` — enough turns
  suffice; `search_false` — what it does not find the stack does not lead to.
-/

namespace Worklist

open List

variable {α : Type}

/-! ## Fixpoints -/

/-- `loop { if step(a) == a { break } a = step(a) }`: from `a` it ends in `b` after so many turns,
the last of which changes nothing. -/
inductive Loops (step : α → α) : Nat → α → α → Prop where
  | stop {a : α} : step a = a → Loops step 1 a a
  | turn {n : Nat} {a b : α} : step a ≠ a → Loops step n (step a) b → Loops step (n + 1) a b

variable {step : α → α} {n : Nat} {a b : α} {P : α → Prop}

/-- The loop ends in a fixpoint. -/
theorem Loops.fixed (h : Loops step n a b) : step b = b := by
  induction h with
  | stop hfixed => exact hfixed
  | turn _ _ ih => exact ih

/-- What every step keeps holds at the end. -/
theorem Loops.invariant (h : Loops step n a b) (hstep : ∀ a, P a → P (step a)) (ha : P a) : P b := by
  induction h with
  | stop _ => exact ha
  | turn _ _ ih => exact ih (hstep _ ha)

variable [DecidableEq α]

/-- The loop for at most so many turns. -/
def fixFrom (step : α → α) : Nat → α → α
  | 0, a => a
  | turns + 1, a => if step a = a then a else fixFrom step turns (step a)

/-- **A step that climbs below a bound reaches a fixpoint**, in one turn for each level that is left and one
that changes nothing. -/
theorem fixFrom_loops {height : α → Nat} {bound : Nat}
    (hstep : ∀ a, P a → step a ≠ a → P (step a) ∧ height a < height (step a))
    (hbound : ∀ a, P a → height a ≤ bound) (turns : Nat) : ∀ {a : α}, P a → bound < turns + height a →
    ∃ n, n + height a ≤ bound + 1 ∧ Loops step n a (fixFrom step turns a) := by
  induction turns with
  | zero =>
    intro a ha hturns
    have hle := hbound a ha
    omega
  | succ turns ih =>
    intro a ha hturns
    unfold fixFrom
    split
    · rename_i hfixed
      have hle := hbound a ha
      exact ⟨1, by omega, .stop hfixed⟩
    · rename_i hchanged
      obtain ⟨hnext, hlt⟩ := hstep a ha hchanged
      obtain ⟨n, hn, hloops⟩ := ih hnext (by omega)
      exact ⟨n + 1, by omega, .turn hchanged hloops⟩

/-! ## Search -/

variable {next : α → List α} {goal : α}

/-- `while let Some(x) = pending.pop()`; `none` if the turns do not suffice. -/
def search (next : α → List α) (goal : α) : Nat → List α → List α → Option Bool
  | 0, _, _ => none
  | _ + 1, _, [] => some false
  | turns + 1, seen, x :: pending =>
    if x = goal then
      some true
    else if x ∈ seen then
      search next goal turns seen pending
    else
      search next goal turns (x :: seen) (next x ++ pending)

/-- The edges out of the nodes that were not seen. -/
def cost (next : α → List α) (nodes seen : List α) : Nat :=
  (nodes.map fun x => if x ∈ seen then 0 else (next x).length).sum

theorem cost_cons_le (next : α → List α) (nodes seen : List α) (x : α) :
    cost next nodes (x :: seen) ≤ cost next nodes seen := by
  unfold cost
  induction nodes with
  | nil => exact Nat.le_refl _
  | cons y nodes ih =>
    simp only [map_cons, sum_cons]
    by_cases hy : y ∈ seen
    · rw [if_pos (mem_cons_of_mem _ hy), if_pos hy]
      omega
    · rw [if_neg hy]
      split <;> omega

variable {nodes : List α}

/-- A node that is seen for the first time has paid for its edges. -/
theorem cost_seen (next : α → List α) {seen : List α} {x : α} (hx : x ∈ nodes) (hseen : x ∉ seen) :
    (next x).length + cost next nodes (x :: seen) ≤ cost next nodes seen := by
  induction nodes with
  | nil => cases hx
  | cons y nodes ih =>
    by_cases hy : y = x
    · subst hy
      have hle := cost_cons_le next nodes seen y
      unfold cost at hle ⊢
      simp only [map_cons, sum_cons, mem_cons_self, if_true, if_neg hseen]
      omega
    · have hrest := ih ((mem_cons.1 hx).resolve_left (fun he => hy he.symm))
      unfold cost at hrest ⊢
      simp only [map_cons, sum_cons, mem_cons, hy, false_or] at hrest ⊢
      omega

/-- **As many turns suffice as there are nodes on the stack and edges out of unseen nodes.** -/
theorem search_isSome (hnodes : ∀ x, next x ≠ [] → x ∈ nodes) (goal : α) (turns : Nat) :
    ∀ seen pending : List α, pending.length + cost next nodes seen < turns →
      (search next goal turns seen pending).isSome := by
  induction turns with
  | zero =>
    intro seen pending h
    omega
  | succ turns ih =>
    intro seen pending h
    cases pending with
    | nil => rfl
    | cons x pending =>
      unfold search
      simp only [length_cons] at h
      split
      · rfl
      split
      · exact ih _ _ (by omega)
      · rename_i hseen
        apply ih
        rw [length_append]
        by_cases hx : x ∈ nodes
        · have hpaid := cost_seen next hx hseen
          omega
        · have hnone : next x = [] := not_not.1 fun hne => hx (hnodes x hne)
          have hle := cost_cons_le next nodes seen x
          simp only [hnone, length_nil]
          omega

/-- **A search that ends without the goal leads nowhere near it.** -/
theorem search_false (turns : Nat) : ∀ {seen pending : List α},
    search next goal turns seen pending = some false →
    (∀ x ∈ seen, x ≠ goal ∧ ∀ y ∈ next x, y ∈ seen ∨ y ∈ pending) →
    ∀ x, x ∈ seen ∨ x ∈ pending → ¬ Relation.ReflTransGen (fun a b => b ∈ next a) x goal := by
  induction turns with
  | zero =>
    intro seen pending h
    cases h
  | succ turns ih =>
    intro seen pending h hclosed x hx
    cases pending with
    | nil =>
      -- the seen nodes are closed under edges, and the goal is none of them
      have hx : x ∈ seen := hx.resolve_right (not_mem_nil)
      intro hreach
      have hgoal : ∀ {y}, Relation.ReflTransGen (fun a b => b ∈ next a) x y → y ∈ seen := by
        intro y hy
        induction hy with
        | refl => exact hx
        | tail _ hedge ihy => exact ((hclosed _ ihy).2 _ hedge).resolve_right (not_mem_nil)
      exact (hclosed _ (hgoal hreach)).1 rfl
    | cons z pending =>
      unfold search at h
      split at h
      · cases h
      rename_i hz
      split at h
      · rename_i hseen
        have hdrop : ∀ {y}, y ∈ seen ∨ y ∈ z :: pending → y ∈ seen ∨ y ∈ pending := by
          rintro y (hy | hy)
          · exact .inl hy
          · rcases mem_cons.1 hy with rfl | hy
            · exact .inl hseen
            · exact .inr hy
        exact ih h (fun y hy => ⟨(hclosed y hy).1, fun w hw => hdrop ((hclosed y hy).2 w hw)⟩) x (hdrop hx)
      · have hmove : ∀ {y}, y ∈ seen ∨ y ∈ z :: pending → y ∈ z :: seen ∨ y ∈ next z ++ pending := by
          rintro y (hy | hy)
          · exact .inl (mem_cons_of_mem _ hy)
          · rcases mem_cons.1 hy with rfl | hy
            · exact .inl (mem_cons_self ..)
            · exact .inr (mem_append_right _ hy)
        refine ih h (fun y hy => ?_) x (hmove hx)
        rcases mem_cons.1 hy with rfl | hy
        · exact ⟨hz, fun w hw => .inr (mem_append_left _ hw)⟩
        · exact ⟨(hclosed y hy).1, fun w hw => hmove ((hclosed y hy).2 w hw)⟩

end Worklist

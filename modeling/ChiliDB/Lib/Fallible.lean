import ChiliDB.Lib.Effect
import Mathlib.Data.List.Forall2

/-!
# Computations that may fail

What follows from the success of a loop, and which errors a computation can end with.

* `mapM_ok`, `option_mapM_ok`, `forM_ok` — a loop succeeds if every turn of it does; `exists_forall₂`.
* `FailsOnly E x` — `x` succeeds or fails with an error in `E`; `FailsOnly.bind` and the rules for loops.
* `Alike E V x x'` — two computations succeed together or fail together; `Alike.bind` and the same rules.
-/

namespace Effect

open List

variable {ε α β : Type}
  {x : Except ε α} {R : α → β → Prop} {xs : List α} {ys : List β}

theorem exists_of_toBool (h : x.toBool = true) : ∃ a, x = .ok a := by
  cases x with
  | error e => cases h
  | ok a => exact ⟨a, rfl⟩

theorem exists_of_any {p : α → Bool} (h : x.toOption.any p = true) : ∃ a, x = .ok a ∧ p a = true := by
  cases x with
  | error e => cases h
  | ok a => exact ⟨a, rfl, h⟩

theorem eq_ok_of_toBool {default : α} (h : x.toBool = true) : x = .ok (x.toOption.getD default) := by
  cases x with
  | error e => cases h
  | ok a => rfl

theorem seq_ok {x : Except ε Unit} {f : Unit → Except ε α} {a : α} :
    (x >>= f) = .ok a ↔ x = .ok () ∧ f () = .ok a := by
  rw [except_bind_ok]
  exact ⟨fun ⟨_, hx, hf⟩ => ⟨hx, hf⟩, fun ⟨hx, hf⟩ => ⟨(), hx, hf⟩⟩

theorem mapM_ok {f : α → Except ε β} : ∀ {xs : List α} {ys : List β},
    xs.mapM f = .ok ys ↔ Forall₂ (fun x y => f x = .ok y) xs ys
  | [], ys => by
    rw [mapM_nil, forall₂_nil_left_iff]
    constructor
    · intro h
      cases h
      rfl
    · rintro rfl
      rfl
  | x :: xs, ys => by
    rw [mapM_cons, except_bind_ok, forall₂_cons_left_iff]
    constructor
    · rintro ⟨y, hy, h⟩
      obtain ⟨ys', hys, h⟩ := except_bind_ok.1 h
      cases h
      exact ⟨y, ys', hy, mapM_ok.1 hys, rfl⟩
    · rintro ⟨y, ys', hy, hys, rfl⟩
      refine ⟨y, hy, ?_⟩
      rw [mapM_ok.2 hys]
      rfl

theorem getElem?_of_forall₂ (h : Forall₂ R xs ys) {i : Nat} {x : α} (hx : xs[i]? = some x) :
    ∃ y, ys[i]? = some y ∧ R x y := by
  induction h generalizing i with
  | nil => cases hx
  | cons hxy _ ih =>
    cases i with
    | zero =>
      cases hx
      exact ⟨_, rfl, hxy⟩
    | succ i => exact ih hx

theorem exists_of_forall₂ (h : Forall₂ R xs ys) : ∀ y ∈ ys, ∃ x ∈ xs, R x y := by
  induction h with
  | nil => simp
  | cons hxy _ ih =>
    intro y hy
    rcases mem_cons.1 hy with rfl | hy
    · exact ⟨_, mem_cons_self, hxy⟩
    · obtain ⟨x, hx, hxy⟩ := ih y hy
      exact ⟨x, mem_cons_of_mem _ hx, hxy⟩

/-- A list whose elements all have a value has a list of values. -/
theorem exists_forall₂ : ∀ {xs : List α}, (∀ x ∈ xs, ∃ y, R x y) → ∃ ys, Forall₂ R xs ys
  | [], _ => ⟨[], .nil⟩
  | x :: xs, h => by
    obtain ⟨⟨y, hy⟩, hxs⟩ := forall_mem_cons.1 h
    obtain ⟨ys, hys⟩ := exists_forall₂ hxs
    exact ⟨y :: ys, .cons hy hys⟩

theorem option_mapM_ok {f : α → Except ε β} {o : Option α} {o' : Option β} :
    o.mapM f = .ok o' ↔ (o = none ∧ o' = none) ∨ ∃ x y, o = some x ∧ o' = some y ∧ f x = .ok y := by
  cases o with
  | none =>
    simp only [Option.mapM_none, true_and, reduceCtorEq, false_and, exists_false, or_false]
    constructor
    · intro h
      cases h
      rfl
    · rintro rfl
      rfl
  | some x =>
    simp only [Option.mapM_some, reduceCtorEq, false_and, Option.some.injEq, false_or]
    constructor
    · intro h
      obtain ⟨y, hy, h⟩ := except_bind_ok.1 h
      cases h
      exact ⟨x, y, rfl, rfl, hy⟩
    · rintro ⟨_, y, rfl, rfl, hy⟩
      rw [hy]
      rfl

theorem forM_cons (x : α) (xs : List α) (f : α → Except ε Unit) :
    (x :: xs).forM f = (f x >>= fun _ => xs.forM f) := rfl

theorem forM_ok {f : α → Except ε Unit} : ∀ {xs : List α}, xs.forM f = .ok () ↔ ∀ x ∈ xs, f x = .ok ()
  | [] => by simp [pure, Except.pure]
  | x :: xs => by
    rw [forM_cons, except_bind_ok, forall_mem_cons]
    simp only [forM_ok, exists_and_right]
    constructor
    · rintro ⟨⟨_, hx⟩, hxs⟩
      exact ⟨hx, hxs⟩
    · rintro ⟨hx, hxs⟩
      exact ⟨⟨(), hx⟩, hxs⟩

/-! ## Errors -/

/-- The errors that a computation can end with are in `E`. -/
def FailsOnly (E : ε → Prop) (x : Except ε α) : Prop := ∀ e, x = .error e → E e

namespace FailsOnly

variable {E : ε → Prop}

theorem ok (a : α) : FailsOnly E (.ok a) := by
  intro e h
  cases h

theorem error {e : ε} (h : E e) : FailsOnly E (.error e : Except ε α) := by
  intro e' he
  cases he
  exact h

variable {f : α → Except ε β}

theorem bind {x : Except ε α} (hx : FailsOnly E x) (hf : ∀ a, x = .ok a → FailsOnly E (f a)) :
    FailsOnly E (x >>= f) := by
  cases x with
  | error e => exact error (hx e rfl)
  | ok a => exact hf a rfl

theorem mapM {f : α → Except ε β} : ∀ {xs : List α}, (∀ x ∈ xs, FailsOnly E (f x)) → FailsOnly E (xs.mapM f)
  | [], _ => ok []
  | x :: xs, h => by
    rw [mapM_cons]
    apply bind (h x mem_cons_self)
    intro y _
    apply bind (mapM fun x' hx' => h x' (mem_cons_of_mem _ hx'))
    exact fun ys _ => ok _

theorem option_mapM {o : Option α} (h : ∀ x ∈ o.toList, FailsOnly E (f x)) : FailsOnly E (o.mapM f) := by
  cases o with
  | none => exact ok none
  | some x =>
    rw [Option.mapM_some]
    exact bind (h x (by simp)) fun y _ => ok _

theorem forM {f : α → Except ε Unit} : ∀ {xs : List α}, (∀ x ∈ xs, FailsOnly E (f x)) → FailsOnly E (xs.forM f)
  | [], _ => ok ()
  | x :: xs, h => by
    rw [forM_cons]
    exact bind (h x mem_cons_self) fun _ _ => forM fun x' hx' => h x' (mem_cons_of_mem _ hx')

theorem foldlM {f : β → α → Except ε β} : ∀ {xs : List α} {b : β}, (∀ b, ∀ x ∈ xs, FailsOnly E (f b x)) →
    FailsOnly E (xs.foldlM f b)
  | [], b, _ => ok b
  | x :: xs, b, h => by
    rw [foldlM_cons]
    exact bind (h b x mem_cons_self) fun b' _ =>
      foldlM fun b' x' hx' => h b' x' (mem_cons_of_mem _ hx')

end FailsOnly

/-! ## Two computations -/

/-- Both succeed with values in `V`, or both fail with errors in `E`. -/
inductive Alike {α' : Type} (E : ε → ε → Prop) (V : α → α' → Prop) : Except ε α → Except ε α' → Prop where
  | ok {a : α} {a' : α'} : V a a' → Alike E V (.ok a) (.ok a')
  | error {e e' : ε} : E e e' → Alike E V (.error e) (.error e')

namespace Alike

variable {α' β' : Type} {E : ε → ε → Prop} {V : α → α' → Prop} {W : β → β' → Prop}
  {x : Except ε α} {x' : Except ε α'} {f : α → Except ε β} {f' : α' → Except ε β'}

theorem bind (hx : Alike E V x x') (hf : ∀ a a', V a a' → Alike E W (f a) (f' a')) :
    Alike E W (x >>= f) (x' >>= f') := by
  cases hx with
  | ok h => exact hf _ _ h
  | error h => exact .error h

theorem bind_eq {x' : Except ε α} {f' : α → Except ε β'} (hx : Alike E (· = ·) x x')
    (hf : ∀ a, Alike E W (f a) (f' a)) : Alike E W (x >>= f) (x' >>= f') :=
  hx.bind fun a _ ha => ha ▸ hf a

theorem bind_pair {γ γ' : Type} {U : γ → γ' → Prop} {x : Except ε (α × β)} {x' : Except ε (α' × β')}
    {f : α × β → Except ε γ} {f' : α' × β' → Except ε γ'}
    (hx : Alike E (fun p p' => V p.1 p'.1 ∧ W p.2 p'.2) x x')
    (hf : ∀ {a b a' b'}, V a a' → W b b' → Alike E U (f (a, b)) (f' (a', b'))) :
    Alike E U (x >>= f) (x' >>= f') :=
  hx.bind fun _ _ hp => hf hp.1 hp.2

theorem mono {V' : α → α' → Prop} (h : Alike E V x x') (hV : ∀ a a', x = .ok a → V a a' → V' a a') :
    Alike E V' x x' := by
  cases h with
  | ok h => exact .ok (hV _ _ rfl h)
  | error h => exact .error h

theorem toBool_eq (h : Alike E V x x') : x'.toBool = x.toBool := by cases h <;> rfl

theorem ite {p p' : Prop} [Decidable p] [Decidable p'] {y : Except ε α} {y' : Except ε α'} (hp : p' ↔ p)
    (hx : p → Alike E V x x') (hy : ¬p → Alike E V y y') :
    Alike E V (if p then x else y) (if p' then x' else y') := by
  by_cases h : p
  · rw [if_pos h, if_pos (hp.2 h)]
    exact hx h
  · rw [if_neg h, if_neg (mt hp.1 h)]
    exact hy h

theorem mapM {xs : List α} {xs' : List α'} (h : Forall₂ (fun x x' => Alike E W (f x) (f' x')) xs xs') :
    Alike E (Forall₂ W) (xs.mapM f) (xs'.mapM f') := by
  induction h with
  | nil => exact .ok .nil
  | cons hx _ ih =>
    rw [mapM_cons, mapM_cons]
    exact bind hx fun _ _ hy => bind ih fun _ _ hys => .ok (.cons hy hys)

theorem option_mapM {o : Option α} {o' : Option α'} (h : Option.Rel (fun x x' => Alike E W (f x) (f' x')) o o') :
    Alike E (Option.Rel W) (o.mapM f) (o'.mapM f') := by
  cases h with
  | none => exact .ok .none
  | some hx =>
    rw [Option.mapM_some, Option.mapM_some]
    exact bind hx fun _ _ hy => .ok (.some hy)

end Alike

end Effect

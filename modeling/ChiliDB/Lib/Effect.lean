import Mathlib.Data.List.Basic

/-!
# Computations with a mutable state, returned errors and panics

A computation runs over a state that **persists when it stops early**: a `?` that leaves a
function does not undo what the function did before it.  It ends with a value, with an error it
returns, or with a panic (an index out of range, a failed assertion, an arithmetic underflow).

* `Result ε α` — the outcome without the state.
* `Exec ε σ α` — the stateful computation, a function `σ → Result ε α × σ`.
* `Exec.bracket` — a resource that is released on every way out of its scope; `Exec.unwind` — one
  that is released only if the computation stops early.
* `Exec.zoom`, `Exec.foreign`, `Exec.attempt` — a part of the state, the caller's own code, an error
  as a value.
* `Exec.Ensures m s Q E` — from state `s` the computation `m` ends in `Q` with a value or in `E`
  with a fault.  `Ensures.bind`, `Ensures.mono` and `Ensures.bracket` are the rules proofs use.
* `Exec.Maintains I bad m` — the computation keeps `I` and never ends in a fault of this kind;
  `Exec.Avoids bad m` — the latter alone; `Exec.Preserves view m` — it never changes this view of the state.
-/

namespace Effect

theorem except_bind_ok {ε α β : Type} {x : Except ε α} {f : α → Except ε β} {b : β} :
    (x >>= f) = .ok b ↔ ∃ a, x = .ok a ∧ f a = .ok b := by
  cases x with
  | error e | ok a => simp [bind, Except.bind]

theorem ok_then {ε α β : Type} {x : Except ε α} {f : α → Except ε β} {a : α} {b : β} (hx : x = .ok a)
    (hf : f a = .ok b) : (x >>= f) = .ok b :=
  except_bind_ok.2 ⟨a, hx, hf⟩

theorem lt_of_get {α : Type} {xs : List α} {i : Nat} {a : α} (h : xs[i]? = some a) : i < xs.length :=
  (List.getElem?_eq_some_iff.1 h).1

/-- What a panic comes from. -/
inductive Panic where
  /-- An index or a range outside its array. -/
  | bounds
  /-- An arithmetic overflow that the build checks. -/
  | overflow
  /-- A failed `assert!`. -/
  | assertion
  /-- Code handed in by the caller. -/
  | foreign
  deriving DecidableEq, Repr

/-- Why a computation stopped. -/
inductive Fault (ε : Type) where
  | error (e : ε)
  | panic (p : Panic)
  deriving DecidableEq, Repr

def Fault.map {ε ε' : Type} (f : ε → ε') : Fault ε → Fault ε'
  | .error e => .error (f e)
  | .panic p => .panic p

abbrev Result (ε α : Type) := Except (Fault ε) α

namespace Result

variable {ε ε' α β : Type}

/-- A returned error. -/
def fail (e : ε) : Result ε α := .error (.error e)

/-- `xs[i]`. -/
def index (xs : List α) (i : Nat) : Result ε α :=
  match xs[i]? with
  | some a => .ok a
  | none => .error (.panic .bounds)

/-- `xs[i] = a`. -/
def setIndex (xs : List α) (i : Nat) (a : α) : Result ε (List α) :=
  if i < xs.length then .ok (xs.set i a) else .error (.panic .bounds)

/-- `a - b` with the overflow check. -/
def sub (a b : Nat) : Result ε Nat := if b ≤ a then .ok (a - b) else .error (.panic .overflow)

/-- `assert!(b)`. -/
def assert (b : Bool) : Result ε Unit := if b then .ok () else .error (.panic .assertion)

/-- `unwrap`. -/
def unwrap : Option α → Result ε α
  | some a => .ok a
  | none => .error (.panic .assertion)

/-- The returned error as a value; a panic still stops the caller. -/
def attempt : Result ε α → Result ε' (Except ε α)
  | .ok a => .ok (.ok a)
  | .error (.error e) => .ok (.error e)
  | .error (.panic p) => .error (.panic p)

/-- A result without panics. -/
def ofExcept : Except ε α → Result ε α
  | .ok a => .ok a
  | .error e => .error (.error e)

/-- `map_err`: only returned errors are translated. -/
def mapErr (f : ε → ε') : Result ε α → Result ε' α
  | .ok a => .ok a
  | .error e => .error (e.map f)

variable {xs : List α} {i : Nat} {a : α} {b : β}

theorem index_eq_ok : (index xs i : Result ε α) = .ok a ↔ xs[i]? = some a := by
  unfold index
  split <;> simp_all

theorem setIndex_eq_ok {ys : List α} :
    (setIndex xs i a : Result ε (List α)) = .ok ys ↔ i < xs.length ∧ ys = xs.set i a := by
  unfold setIndex
  split
  · rename_i h; simp [h, eq_comm]
  · rename_i h; simp [h]

theorem sub_eq_ok {a b c : Nat} : (sub a b : Result ε Nat) = .ok c ↔ b ≤ a ∧ c = a - b := by
  unfold sub
  split
  · rename_i h; simp [h, eq_comm]
  · rename_i h; simp [h]

theorem ok_bind (a : α) (f : α → Result ε β) : (.ok a >>= f : Result ε β) = f a := rfl

variable {f : α → Result ε β}

theorem index_bind_ok : (index xs i >>= f) = .ok b ↔ ∃ a, xs[i]? = some a ∧ f a = .ok b := by
  simp only [except_bind_ok, index_eq_ok]

theorem of_setIndex {f : List α → Result ε β} (h : (setIndex xs i a >>= f) = .ok b) : f (xs.set i a) = .ok b := by
  obtain ⟨_, hxs, hf⟩ := except_bind_ok.1 h
  obtain ⟨_, rfl⟩ := setIndex_eq_ok.1 hxs
  exact hf

theorem unwrap_eq_ok {o : Option α} : (unwrap o : Result ε α) = .ok a ↔ o = some a := by cases o <;> simp [unwrap]

end Result

/-- A computation over a state `σ` that keeps its state when it stops early. -/
def Exec (ε σ α : Type) : Type := σ → Result ε α × σ

namespace Exec

variable {ε ε' σ α β : Type}

instance : Monad (Exec ε σ) where
  pure a := fun s => (.ok a, s)
  bind m f := fun s =>
    match m s with
    | (.ok a, s') => f a s'
    | (.error e, s') => (.error e, s')

/-- The current state. -/
def get : Exec ε σ σ := fun s => (.ok s, s)

def set (s : σ) : Exec ε σ Unit := fun _ => (.ok (), s)

def modify (f : σ → σ) : Exec ε σ Unit := fun s => (.ok (), f s)

/-- Return an error. -/
def fail (e : ε) : Exec ε σ α := fun s => (.error (.error e), s)

/-- A computation that does not touch the state. -/
def lift (r : Result ε α) : Exec ε σ α := fun s => (r, s)

/-- `map_err`. -/
def mapErr (f : ε → ε') (m : Exec ε σ α) : Exec ε' σ α :=
  fun s => ((m s).1.mapErr f, (m s).2)

/-- A computation over a part of the state. -/
def zoom {τ : Type} (view : σ → τ) (put : τ → σ → σ) (m : Exec ε τ α) : Exec ε σ α :=
  fun s => ((m (view s)).1, put (m (view s)).2 s)

/-- Code handed in by the caller: it has no error of ours to return, and its panics are its own. -/
def foreign (m : Exec Empty σ α) : Exec ε σ α := fun s =>
  match m s with
  | (.ok a, s') => (.ok a, s')
  | (.error (.error e), _) => e.elim
  | (.error (.panic _), s') => (.error (.panic .foreign), s')

/-- The returned error as a value. -/
def attempt (m : Exec ε σ α) : Exec ε' σ (Except ε α) := fun s => ((m s).1.attempt, (m s).2)

/-- What a lock guard does when its holder panics. -/
def onPanic (m : Exec ε σ α) (f : σ → σ) : Exec ε σ α := fun s =>
  match m s with
  | (.error (.panic p), s') => (.error (.panic p), f s')
  | r => r

/-- Run `cleanup` if the computation stops early; a panic of its own wins. -/
def unwind (m : Exec ε σ α) (cleanup : Exec ε σ Unit) : Exec ε σ α := fun s =>
  match m s with
  | (.ok a, s') => (.ok a, s')
  | (.error e, s') =>
    match cleanup s' with
    | (.ok _, s₂) => (.error e, s₂)
    | (.error e', s₂) => (.error e', s₂)

/-- Acquire a resource, use it and release it, whether or not the use succeeds; the release runs
last and its own panic wins. -/
def bracket (acquire : Exec ε σ α) (use : α → Exec ε σ β) (release : α → Exec ε σ Unit) :
    Exec ε σ β := fun s =>
  match acquire s with
  | (.error e, s₁) => (.error e, s₁)
  | (.ok a, s₁) =>
    match release a (use a s₁).2 with
    | (.ok _, s₂) => ((use a s₁).1, s₂)
    | (.error e, s₂) => (.error e, s₂)

@[simp] theorem pure_run (a : α) (s : σ) : (pure a : Exec ε σ α) s = (.ok a, s) := rfl
@[simp] theorem get_run (s : σ) : (get : Exec ε σ σ) s = (.ok s, s) := rfl
@[simp] theorem set_run (t s : σ) : (set t : Exec ε σ Unit) s = (.ok (), t) := rfl
@[simp] theorem modify_run (f : σ → σ) (s : σ) : (modify f : Exec ε σ Unit) s = (.ok (), f s) := rfl
@[simp] theorem fail_run (e : ε) (s : σ) : (fail e : Exec ε σ α) s = (.error (.error e), s) := rfl
@[simp] theorem lift_run (r : Result ε α) (s : σ) : (lift r : Exec ε σ α) s = (r, s) := rfl

theorem bind_run (m : Exec ε σ α) (f : α → Exec ε σ β) (s : σ) : (m >>= f) s = match m s with
      | (.ok a, s') => f a s'
      | (.error e, s') => (.error e, s') := rfl

variable {s' : σ} {a : α}

theorem bind_ok {m : Exec ε σ α} {s : σ} (h : m s = (.ok a, s')) (f : α → Exec ε σ β) : (m >>= f) s = f a s' := by
  rw [bind_run, h]

/-! ## Pre- and postconditions -/

/-- Run from `s`, the computation ends in `Q` with a value or in `E` with a fault. -/
def Ensures (m : Exec ε σ α) (s : σ) (Q : α → σ → Prop) (E : Fault ε → σ → Prop) : Prop :=
  match m s with
  | (.ok a, s') => Q a s'
  | (.error e, s') => E e s'

variable {m : Exec ε σ α} {s : σ} {Q : α → σ → Prop} {E : Fault ε → σ → Prop}

theorem ensures_iff : Ensures m s Q E ↔
    (∀ a s', m s = (.ok a, s') → Q a s') ∧ (∀ e s', m s = (.error e, s') → E e s') := by
  unfold Ensures
  split
  · rename_i a s' h
    refine ⟨fun hq => ⟨fun a' t ht => ?_, fun e t ht => ?_⟩, fun hq => hq.1 a s' h⟩
    · rw [h] at ht; cases ht; exact hq
    · rw [h] at ht; cases ht
  · rename_i e s' h
    refine ⟨fun hq => ⟨fun a' t ht => ?_, fun e' t ht => ?_⟩, fun hq => hq.2 e s' h⟩
    · rw [h] at ht; cases ht
    · rw [h] at ht; cases ht; exact hq

theorem Ensures.ok (h : Ensures m s Q E) (hm : m s = (.ok a, s')) : Q a s' :=
  (ensures_iff.1 h).1 a s' hm

theorem Ensures.error (h : Ensures m s Q E) {e : Fault ε} (hm : m s = (.error e, s')) : E e s' :=
  (ensures_iff.1 h).2 e s' hm

variable {Q' : α → σ → Prop} {E' : Fault ε → σ → Prop} {f : σ → σ}

theorem Ensures.mono (h : Ensures m s Q E) (hQ : ∀ a s', Q a s' → Q' a s') (hE : ∀ e s', E e s' → E' e s') :
    Ensures m s Q' E' :=
  ensures_iff.2 ⟨fun a s' hm => hQ a s' (h.ok hm), fun e s' hm => hE e s' (h.error hm)⟩

theorem Ensures.and (h : Ensures m s Q E) (h' : Ensures m s Q' E') :
    Ensures m s (fun a s' => Q a s' ∧ Q' a s') (fun e s' => E e s' ∧ E' e s') :=
  ensures_iff.2 ⟨fun _ _ hm => ⟨h.ok hm, h'.ok hm⟩, fun _ _ hm => ⟨h.error hm, h'.error hm⟩⟩

/-- A computation that cannot fail returns. -/
theorem Ensures.returns (h : Ensures m s Q (fun _ _ => False)) : ∃ a s', m s = (.ok a, s') ∧ Q a s' := by
  rcases hm : m s with ⟨r, s'⟩
  cases r with
  | ok a => exact ⟨a, s', rfl, h.ok hm⟩
  | error e => exact (h.error hm).elim

theorem Ensures.fails (h : Ensures m s (fun _ _ => False) E) : ∃ e s', m s = (.error e, s') ∧ E e s' := by
  unfold Ensures at h
  rcases hm : m s with ⟨a, s'⟩
  rw [hm] at h
  cases a with
  | ok a => exact h.elim
  | error e => exact ⟨e, s', rfl, h⟩

theorem ensures_true (m : Exec ε σ α) (s : σ) : Ensures m s (fun _ _ => True) (fun _ _ => True) :=
  ensures_iff.2 ⟨fun _ _ _ => trivial, fun _ _ _ => trivial⟩

theorem ensures_of_ok (hm : m s = (.ok a, s')) (h : Q a s') : Ensures m s Q E := by
  unfold Ensures
  rw [hm]
  exact h

@[simp] theorem ensures_pure : Ensures (pure a) s Q E ↔ Q a s := .rfl
@[simp] theorem ensures_fail {e : ε} : Ensures (fail e) s Q E ↔ E (.error e) s := .rfl
@[simp] theorem ensures_get {Q : σ → σ → Prop} : Ensures get s Q E ↔ Q s s := .rfl

theorem Ensures.get {Q : σ → σ → Prop} (h : Q s s) : Ensures get s Q E := h

@[simp] theorem ensures_set {t : σ} {Q : Unit → σ → Prop} : Ensures (set t) s Q E ↔ Q () t := .rfl

@[simp] theorem ensures_modify {Q : Unit → σ → Prop} : Ensures (modify f) s Q E ↔ Q () (f s) := .rfl

/-- The rule of sequence. -/
theorem Ensures.bind {f : α → Exec ε σ β} {Q : β → σ → Prop}
    (h : Ensures m s (fun a s' => Ensures (f a) s' Q E) E) : Ensures (m >>= f) s Q E := by
  unfold Ensures at *
  rw [bind_run]
  rcases hm : m s with ⟨r, s'⟩
  rw [hm] at h
  cases r <;> exact h

theorem Ensures.zoom {τ : Type} {view : σ → τ} {put : τ → σ → σ} {m : Exec ε τ α}
    (h : Ensures m (view s) (fun a t => Q a (put t s)) (fun e t => E e (put t s))) :
    Ensures (zoom view put m) s Q E := by
  unfold Ensures Exec.zoom at *
  rcases hm : m (view s) with ⟨r, t⟩
  rw [hm] at h
  cases r <;> exact h

theorem Ensures.mapErr {f : ε → ε'} {E : Fault ε' → σ → Prop} (h : Ensures m s Q (fun e s' => E (e.map f) s')) :
    Ensures (mapErr f m) s Q E := by
  unfold Ensures Exec.mapErr at *
  rcases hm : m s with ⟨r, s'⟩
  rw [hm] at h
  cases r <;> exact h

/-- A computation that does not panic. -/
theorem ensures_attempt {Q : Except ε α → σ → Prop} {E : Fault ε' → σ → Prop}
    (h : Ensures m s (fun a s' => Q (.ok a) s') (fun e s' => ∃ x, e = .error x ∧ Q (.error x) s')) :
    Ensures (attempt m) s Q E := by
  unfold Ensures attempt at *
  rcases hm : m s with ⟨r, s'⟩
  rw [hm] at h
  rcases r with e | a
  · obtain ⟨x, rfl, hx⟩ := h
    exact hx
  · exact h

theorem Ensures.foreign {m : Exec Empty σ α}
    (h : Ensures m s Q (fun _ s' => E (.panic .foreign) s')) : Ensures (foreign m) s Q E := by
  unfold Ensures Exec.foreign at *
  rcases hm : m s with ⟨r, s'⟩
  rw [hm] at h
  rcases r with (e | p) | a
  · exact e.elim
  · exact h
  · exact h

/-- A postcondition for faults, with `f` applied to the state a panic leaves. -/
def afterPanic (f : σ → σ) (E : Fault ε → σ → Prop) : Fault ε → σ → Prop
  | .error e, s => E (.error e) s
  | .panic p, s => E (.panic p) (f s)

theorem Ensures.onPanic (h : Ensures m s Q (afterPanic f E)) : Ensures (onPanic m f) s Q E := by
  unfold Ensures Exec.onPanic at *
  rcases hm : m s with ⟨r, s'⟩
  rw [hm] at h
  rcases r with (e | p) | a <;> exact h

theorem Ensures.unwind {cleanup : Exec ε σ Unit}
    (h : Ensures m s Q (fun e s' => Ensures cleanup s' (fun _ s2 => E e s2) E)) :
    Ensures (unwind m cleanup) s Q E := by
  unfold Ensures Exec.unwind at *
  rcases hm : m s with ⟨r, s'⟩
  rw [hm] at h
  cases r with
  | ok a => exact h
  | error e =>
    simp only at h ⊢
    rcases hc : cleanup s' with ⟨rc, s2⟩
    rw [hc] at h
    cases rc <;> exact h

theorem ensures_lift {r : Result ε α} :
    Ensures (lift r) s Q E ↔ (∀ a, r = .ok a → Q a s) ∧ (∀ e, r = .error e → E e s) := by
  unfold Ensures
  cases r <;> simp

/-- The scoped resource is released after a use that succeeded and after one that failed. -/
theorem Ensures.bracket {use : α → Exec ε σ β} {release : α → Exec ε σ Unit} {Q : β → σ → Prop}
    (h : Ensures m s
      (fun a s1 => Ensures (use a) s1 (fun b s2 => Ensures (release a) s2 (fun _ s3 => Q b s3) E)
        (fun e s2 => Ensures (release a) s2 (fun _ s3 => E e s3) E)) E) :
    Ensures (bracket m use release) s Q E := by
  rcases hm : m s with ⟨r, s1⟩
  cases r with
  | error e =>
    have := h.error hm
    simpa [Ensures, Exec.bracket, hm] using this
  | ok a =>
    have h1 := h.ok hm
    rcases hu : use a s1 with ⟨ru, s2⟩
    rcases hr : release a s2 with ⟨rr, s3⟩
    cases ru with
    | ok b =>
      have h2 := h1.ok hu
      cases rr with
      | ok _ => simpa [Ensures, Exec.bracket, hm, hu, hr] using h2.ok hr
      | error e => simpa [Ensures, Exec.bracket, hm, hu, hr] using h2.error hr
    | error e =>
      have h2 := h1.error hu
      cases rr with
      | ok _ => simpa [Ensures, Exec.bracket, hm, hu, hr] using h2.ok hr
      | error e' => simpa [Ensures, Exec.bracket, hm, hu, hr] using h2.error hr

/-! ## Invariants, and faults a computation never ends in -/

/-- From every state with `I` the computation ends in one, and not in a fault of this kind. -/
def Maintains (I : σ → Prop) (bad : Fault ε → Prop) (m : Exec ε σ α) : Prop :=
  ∀ s, I s → Ensures m s (fun _ s' => I s') (fun e s' => ¬ bad e ∧ I s')

/-- From no state does the computation end in a fault of this kind. -/
abbrev Avoids (bad : Fault ε → Prop) (m : Exec ε σ α) : Prop := Maintains (fun _ => True) bad m

section

variable {I : σ → Prop} {bad : Fault ε → Prop} {m : Exec ε σ α}

theorem Maintains.pure (a : α) : Maintains I bad (pure a : Exec ε σ α) := fun _ hs => hs

theorem Maintains.get : Maintains I bad (get : Exec ε σ σ) := fun _ hs => hs

variable {f : σ → σ} {r : Result ε α}

theorem Maintains.modify (h : ∀ s, I s → I (f s)) : Maintains I bad (modify f : Exec ε σ Unit) :=
  h

theorem Maintains.fail {e : ε} (h : ¬ bad (.error e)) : Maintains I bad (fail e : Exec ε σ α) :=
  fun _ hs => ⟨h, hs⟩

theorem Maintains.lift (h : ∀ e, r = .error e → ¬ bad e) : Maintains I bad (lift r : Exec ε σ α) :=
  fun _ hs => ensures_lift.2 ⟨fun _ _ => hs, fun e he => ⟨h e he, hs⟩⟩

theorem Maintains.bind {f : α → Exec ε σ β} (h : Maintains I bad m) (hf : ∀ a, Maintains I bad (f a)) :
    Maintains I bad (m >>= f) :=
  fun s hs => Ensures.bind ((h s hs).mono (fun a s' hs' => hf a s' hs') (fun _ _ he => he))

theorem Maintains.zoom {τ : Type} {view : σ → τ} {put : τ → σ → σ} {J : τ → Prop} {m : Exec ε τ α}
    (h : Maintains J bad m) (hview : ∀ s, I s → J (view s)) (hput : ∀ t s, J t → I s → I (put t s)) :
    Maintains I bad (zoom view put m) :=
  fun s hs => .zoom ((h (view s) (hview s hs)).mono (fun _ t ht => hput t s ht hs)
    (fun _ t ht => ⟨ht.1, hput t s ht.2 hs⟩))

theorem Maintains.mapErr {f : ε → ε'} {bad' : Fault ε' → Prop} (h : Maintains I bad m)
    (hbad : ∀ e, bad' (e.map f) → bad e) : Maintains I bad' (mapErr f m) :=
  fun s hs => .mapErr ((h s hs).mono (fun _ _ hs' => hs') (fun e _ he => ⟨fun hb => he.1 (hbad e hb), he.2⟩))

theorem Maintains.foreign {m : Exec Empty σ α} (hm : ∀ s, I s → I (m s).2)
    (h : ¬ bad (.panic .foreign)) : Maintains I bad (foreign m) := by
  intro s hs
  have hs' := hm s hs
  refine .foreign (ensures_iff.2 ⟨fun a t ht => ?_, fun e t ht => ⟨h, ?_⟩⟩)
  all_goals
    rw [ht] at hs'
    exact hs'

theorem Maintains.onPanic (h : Maintains I bad m) (hf : ∀ s, I s → I (f s)) : Maintains I bad (onPanic m f) := by
  intro s hs
  refine .onPanic ((h s hs).mono (fun _ _ hs' => hs') ?_)
  intro e s' he
  cases e with
  | error x => exact he
  | panic p => exact ⟨he.1, hf s' he.2⟩

theorem Maintains.unwind {cleanup : Exec ε σ Unit} (h : Maintains I bad m)
    (hc : Maintains I bad cleanup) : Maintains I bad (unwind m cleanup) :=
  fun s hs => .unwind ((h s hs).mono (fun _ _ hs' => hs') fun _ s' he =>
    (hc s' he.2).mono (fun _ _ hs' => ⟨he.1, hs'⟩) (fun _ _ he' => he'))

theorem Maintains.result (h : Maintains I bad m) (hs : I s) (hm : m s = (r, s')) :
    (∀ e, r = .error e → ¬ bad e) ∧ I s' := by
  have h' := h s hs
  unfold Ensures at h'
  rw [hm] at h'
  cases r with
  | ok a => exact ⟨fun _ he => (by cases he), h'⟩
  | error e =>
    refine ⟨fun e' he => ?_, h'.2⟩
    cases he
    exact h'.1

/-- The errors that `attempt` returns as values are not bad either. -/
theorem Maintains.attempt (h : Maintains I bad m) (hs : I s) :
    Ensures (attempt m : Exec ε' σ (Except ε α)) s
      (fun r s' => (∀ x, r = .error x → ¬ bad (.error x)) ∧ I s') (fun _ s' => I s') := by
  rcases hm : m s with ⟨r, s'⟩
  obtain ⟨herr, hs'⟩ := h.result hs hm
  unfold Ensures Exec.attempt
  rw [hm]
  rcases r with (x | p) | a
  · refine ⟨fun x' hx => ?_, hs'⟩
    cases hx
    exact herr _ rfl
  · exact hs'
  · exact ⟨fun _ hx => (by cases hx), hs'⟩

end

/-! ## Parts of the state a computation never changes -/

/-- Whatever the outcome, this view of the state is as before. -/
def Preserves {τ : Type} (view : σ → τ) (m : Exec ε σ α) : Prop := ∀ s, view (m s).2 = view s

section

variable {τ : Type} {view : σ → τ} {m : Exec ε σ α}

theorem Preserves.ensures (h : Preserves view m) (s : σ) :
    Ensures m s (fun _ s' => view s' = view s) (fun _ s' => view s' = view s) := by
  have hs := h s
  refine ensures_iff.2 ⟨fun a s' hm => ?_, fun e s' hm => ?_⟩
  all_goals
    rw [hm] at hs
    exact hs

theorem Preserves.pure (a : α) : Preserves view (pure a : Exec ε σ α) := fun _ => rfl

theorem Preserves.get : Preserves view (get : Exec ε σ σ) := fun _ => rfl

theorem Preserves.fail (e : ε) : Preserves view (fail e : Exec ε σ α) := fun _ => rfl

theorem Preserves.lift (r : Result ε α) : Preserves view (lift r : Exec ε σ α) := fun _ => rfl

variable {f : σ → σ}

theorem Preserves.modify (h : ∀ s, view (f s) = view s) : Preserves view (modify f : Exec ε σ Unit) :=
  h

theorem Preserves.bind {f : α → Exec ε σ β} (h : Preserves view m) (hf : ∀ a, Preserves view (f a)) :
    Preserves view (m >>= f) := by
  intro s
  have hs := h s
  rw [bind_run]
  rcases hm : m s with ⟨r, s'⟩
  rw [hm] at hs
  cases r with
  | ok a => exact (hf a s').trans hs
  | error e => exact hs

theorem Preserves.onPanic (h : Preserves view m) (hf : ∀ s, view (f s) = view s) :
    Preserves view (onPanic m f) := by
  intro s
  have hs := h s
  unfold Exec.onPanic
  rcases hm : m s with ⟨r, s'⟩
  rw [hm] at hs
  rcases r with (e | p) | a
  · exact hs
  · exact (hf s').trans hs
  · exact hs

theorem Preserves.unwind {cleanup : Exec ε σ Unit} (h : Preserves view m)
    (hc : Preserves view cleanup) : Preserves view (unwind m cleanup) := by
  intro s
  have hs := h s
  unfold Exec.unwind
  rcases hm : m s with ⟨r, s'⟩
  rw [hm] at hs
  cases r with
  | ok a => exact hs
  | error e =>
    have hcs := hc s'
    simp only
    rcases hcm : cleanup s' with ⟨rc, s2⟩
    rw [hcm] at hcs
    cases rc <;> exact hcs.trans hs

theorem Preserves.bracket {use : α → Exec ε σ β} {release : α → Exec ε σ Unit}
    (h : Preserves view m) (hu : ∀ a, Preserves view (use a)) (hr : ∀ a, Preserves view (release a)) :
    Preserves view (bracket m use release) := by
  intro s
  have hs := h s
  unfold Exec.bracket
  rcases hm : m s with ⟨r, s1⟩
  rw [hm] at hs
  cases r with
  | error e => exact hs
  | ok a =>
    have hrel := hr a (use a s1).2
    have hend : view (release a (use a s1).2).2 = view s := (hrel.trans (hu a s1)).trans hs
    simp only
    rcases hc : release a (use a s1).2 with ⟨rc, s2⟩
    rw [hc] at hend
    cases rc <;> exact hend

end

end Exec

end Effect

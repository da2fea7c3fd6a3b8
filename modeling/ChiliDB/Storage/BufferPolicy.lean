import ChiliDB.Storage.BufferRuns
import ChiliDB.Storage.Clock
import Mathlib.Logic.Relation

/-!
# What the pool asks of its policy

A call consults the policy about frames of the pool only, so a policy that returns on these never makes
the pool panic; it need not return on every frame number.

* `VictimStrategy.Moves` — one callback; `SafeAt n p` — from state `p` on, every callback about frames
  below `n` returns.
* `Watched` — a computation of the pool moves the policy by callbacks only, and panics through the
  policy only if it is not safe.
* `watched_pin`, `watched_newPage` — the two calls that consult the policy.
* `ClockStrategy.safeAt` — the clock is safe for the pool it was made for.
-/

namespace ChiliDB

open Effect BufferPool

variable {S P α β : Type} {store : PageStore S} {policy : VictimStrategy P}
  {pool pool' : BufferPool S P} {n : Nat} {p p' : P}

namespace VictimStrategy

/-- One callback, about a frame below `n`. -/
inductive Moves (policy : VictimStrategy P) (n : Nat) : P → P → Prop where
  | access {b : BufferId} {p p' : P} {r : Result Empty Unit} : b.get.toNat < n →
      policy.access b p = (r, p') → Moves policy n p p'
  | load {b : BufferId} {p p' : P} {r : Result Empty Unit} : b.get.toNat < n →
      policy.load b p = (r, p') → Moves policy n p p'
  | victim {c : BufferId → Bool} {p p' : P} {r : Result Empty (Option BufferId)} :
      policy.victim c p = (r, p') → Moves policy n p p'

/-- Every callback about a frame below `n` returns. -/
structure ReturnsAt (policy : VictimStrategy P) (n : Nat) (p : P) : Prop where
  access : ∀ b : BufferId, b.get.toNat < n → ∃ p', policy.access b p = (.ok (), p')
  load : ∀ b : BufferId, b.get.toNat < n → ∃ p', policy.load b p = (.ok (), p')
  victim : ∀ c : BufferId → Bool, ∃ r p', policy.victim c p = (.ok r, p')

/-- Now and after any callbacks. -/
def SafeAt (policy : VictimStrategy P) (n : Nat) (p : P) : Prop :=
  ∀ p', Relation.ReflTransGen (policy.Moves n) p p' → policy.ReturnsAt n p'

theorem SafeAt.moved (h : policy.SafeAt n p) (hm : Relation.ReflTransGen (policy.Moves n) p p') :
    policy.SafeAt n p' :=
  fun _ hm' => h _ (hm.trans hm')

theorem SafeAt.returns (h : policy.SafeAt n p) : policy.ReturnsAt n p := h p .refl

/-- An invariant of the policy's state under which callbacks return. -/
theorem safeAt_of_invariant {I : P → Prop} (hmoves : ∀ p p', I p → policy.Moves n p p' → I p')
    (hreturns : ∀ p, I p → policy.ReturnsAt n p) (hp : I p) : policy.SafeAt n p := by
  intro p' hm
  apply hreturns
  induction hm with
  | refl => exact hp
  | tail _ hmove ih => exact hmoves _ _ ih hmove

end VictimStrategy

/-! ## Computations that only consult the policy -/

/-- The pool has the same frames in number, and the policy was only consulted about them. -/
structure Attends (policy : VictimStrategy P) (pool pool' : BufferPool S P) : Prop where
  length : pool'.frames.length = pool.frames.length
  moved : Relation.ReflTransGen (policy.Moves pool.frames.length) pool.strategy pool'.strategy

theorem Attends.refl (pool : BufferPool S P) : Attends policy pool pool := ⟨rfl, .refl⟩

theorem Attends.of_eq (hl : pool'.frames.length = pool.frames.length)
    (hs : pool'.strategy = pool.strategy) : Attends policy pool pool' :=
  ⟨hl, by rw [hs]⟩

theorem Attends.trans {pool'' : BufferPool S P} (h : Attends policy pool pool')
    (h' : Attends policy pool' pool'') : Attends policy pool pool'' := by
  have hm := h'.moved
  rw [h.length] at hm
  exact ⟨h'.length.trans h.length, h.moved.trans hm⟩

theorem Attends.safeAt (h : Attends policy pool pool')
    (hs : policy.SafeAt pool.frames.length pool.strategy) :
    policy.SafeAt pool'.frames.length pool'.strategy := by
  rw [h.length]
  exact hs.moved h.moved

/-- A fault of a computation that only consults the policy. -/
structure Excused (policy : VictimStrategy P) (pool : BufferPool S P) (e : Fault BufferError)
    (pool' : BufferPool S P) : Prop where
  attends : Attends policy pool pool'
  blame : e = .panic .foreign → ¬ policy.SafeAt pool.frames.length pool.strategy

/-- The computation only consults the policy, and ends in `Q`. -/
def Watched (policy : VictimStrategy P) (m : PoolM S P α)
    (pool : BufferPool S P) (Q : α → BufferPool S P → Prop) : Prop :=
  Exec.Ensures m pool (fun a pool' => Attends policy pool pool' ∧ Q a pool')
    (fun e pool' => Excused policy pool e pool')

section

variable {m : PoolM S P α} {Q : α → BufferPool S P → Prop}

theorem watched_bind {f : α → PoolM S P β} {Q' : β → BufferPool S P → Prop} (h : Watched policy m pool Q)
    (hf : ∀ a pool', pool'.frames.length = pool.frames.length → Q a pool' →
      Watched policy (f a) pool' Q') : Watched policy (m >>= f) pool Q' := by
  refine .bind (.mono h ?_ (fun _ _ he => he))
  rintro a pool1 ⟨hatt, hq⟩
  refine .mono (hf a pool1 hatt.length hq) ?_ ?_
  · rintro b pool2 ⟨hatt', hq'⟩
    exact ⟨hatt.trans hatt', hq'⟩
  · rintro e pool2 ⟨hatt', hblame⟩
    exact ⟨hatt.trans hatt', fun he hs => hblame he (hatt.safeAt hs)⟩

theorem watched_pure {a : α} (h : Q a pool) : Watched policy (pure a) pool Q :=
  ⟨.refl pool, h⟩

theorem watched_fail {e : BufferError} : Watched policy (.fail e) pool Q :=
  ⟨.refl pool, fun he => by cases he⟩

/-- A step on the pool's own data. -/
theorem watched_lift {r : Result BufferError α} (hok : ∀ a, r = .ok a → Q a pool)
    (herr : r ≠ .error (.panic .foreign)) : Watched policy (.lift r) pool Q := by
  refine Exec.ensures_lift.2 ⟨fun a ha => ⟨.refl pool, hok a ha⟩, fun e he => ⟨.refl pool, ?_⟩⟩
  rintro rfl
  exact absurd he herr

variable {f : BufferPool S P → BufferPool S P} {i : Nat}

theorem watched_modify {Q : Unit → BufferPool S P → Prop} (hl : (f pool).frames.length = pool.frames.length)
    (hs : (f pool).strategy = pool.strategy) (hq : Q () (f pool)) : Watched policy (.modify f) pool Q :=
  ⟨.of_eq hl hs, hq⟩

theorem watched_io {f : S → Except IoError α × S} (hq : ∀ a s, Q a { pool with store := s }) :
    Watched policy (io f) pool Q := by
  refine ensures_io (fun a s _ => ⟨.of_eq rfl rfl, hq a s⟩) (fun e s _ => ⟨.of_eq rfl rfl, ?_⟩)
  intro he
  cases he

/-- Reading a descriptor finds a frame of the pool. -/
theorem watched_desc {Q : Frame → BufferPool S P → Prop} (hq : ∀ frame, i < pool.frames.length → Q frame pool) :
    Watched policy (desc i) pool Q := by
  show Watched policy (.lift (.index pool.frames i)) pool Q
  refine watched_lift (fun frame hf => ?_) ?_
  · exact hq frame (lt_of_get (Result.index_eq_ok.1 hf))
  · unfold Result.index
    split <;> simp

theorem watched_update {f : Frame → Frame} {Q : Unit → BufferPool S P → Prop}
    (hq : ∀ frame, i < pool.frames.length → Q () (setFrame i frame pool)) :
    Watched policy (update i f) pool Q := by
  refine watched_bind (Q := fun frame q => pool = q ∧ i < pool.frames.length)
    (watched_desc fun frame hi => ⟨rfl, hi⟩) ?_
  rintro frame _ _ ⟨rfl, hi⟩
  exact watched_modify (by simp [setFrame]) rfl (hq _ hi)

theorem watched_consult {m : Exec Empty P α}
    (hmove : ∀ r p', m pool.strategy = (r, p') → policy.Moves pool.frames.length pool.strategy p')
    (hsafe : policy.SafeAt pool.frames.length pool.strategy → ∃ a p', m pool.strategy = (.ok a, p'))
    (hq : ∀ a p', Q a { pool with strategy := p' }) : Watched policy (consult m) pool Q := by
  have hatt : ∀ r p', m pool.strategy = (r, p') → Attends policy pool { pool with strategy := p' } :=
    fun r p' hm => ⟨rfl, .single (hmove r p' hm)⟩
  refine .foreign (.zoom (Exec.ensures_iff.2 ⟨?_, ?_⟩))
  · intro a p' hm
    exact ⟨hatt _ p' hm, hq a p'⟩
  · intro e p' hm
    refine ⟨hatt _ p' hm, fun _ hs => ?_⟩
    obtain ⟨a, p'', hok⟩ := hsafe hs
    rw [hok] at hm
    cases hm

theorem watched_onPanic (hl : ∀ q, (f q).frames.length = q.frames.length)
    (hs : ∀ q, (f q).strategy = q.strategy) (h : Watched policy m pool Q) :
    Watched policy (.onPanic m f) pool Q := by
  refine .onPanic (.mono h (fun _ _ hq => hq) ?_)
  rintro (e | q) pool' he
  · exact he
  · exact ⟨he.attends.trans (.of_eq (hl _) (hs _)), he.blame⟩

theorem watched_unwind {cleanup : PoolM S P Unit} (h : Watched policy m pool Q)
    (hc : ∀ pool', Watched policy cleanup pool' (fun _ _ => True)) :
    Watched policy (.unwind m cleanup) pool Q := by
  refine .unwind (.mono h (fun _ _ hq => hq) ?_)
  intro e pool' he
  refine .mono (hc pool') ?_ ?_
  · rintro _ pool'' ⟨hatt, _⟩
    exact ⟨he.attends.trans hatt, he.blame⟩
  · rintro e' pool'' he'
    exact ⟨he.attends.trans he'.attends, fun hf hs => he'.blame hf (he.attends.safeAt hs)⟩

theorem watched_bracket {use : α → PoolM S P β} {release : α → PoolM S P Unit} (h : Watched policy m pool Q)
    (hu : ∀ a pool', Watched policy (use a) pool' (fun _ _ => True))
    (hr : ∀ a pool', Watched policy (release a) pool' (fun _ _ => True)) :
    Watched policy (.bracket m use release) pool (fun _ _ => True) := by
  refine .bracket (.mono h ?_ (fun _ _ he => he))
  rintro a pool1 ⟨hatt, _⟩
  have hafter : ∀ {e : Fault BufferError} {pool2 pool3 : BufferPool S P}, Attends policy pool1 pool2 →
      Excused policy pool2 e pool3 → Excused policy pool e pool3 := by
    intro e pool2 pool3 hatt' he
    exact ⟨(hatt.trans hatt').trans he.attends, fun hf hs => he.blame hf (hatt'.safeAt (hatt.safeAt hs))⟩
  refine .mono (hu a pool1) ?_ ?_
  · rintro b pool2 ⟨hatt', _⟩
    refine .mono (hr a pool2) ?_ (fun _ _ he => hafter hatt' he)
    rintro _ pool3 ⟨hatt'', _⟩
    exact ⟨(hatt.trans hatt').trans hatt'', trivial⟩
  · intro e pool2 he
    refine .mono (hr a pool2) ?_ (fun _ _ he' => hafter he.attends he')
    rintro _ pool3 ⟨hatt'', _⟩
    exact ⟨(hatt.trans he.attends).trans hatt'', fun hf hs => he.blame hf (hatt.safeAt hs)⟩

/-- Under the metadata mutex. -/
theorem watched_locked (h : Watched policy m pool Q) : Watched policy (locked m) pool Q := by
  refine watched_bind (Q := fun q q' => pool = q ∧ pool = q') ⟨.refl pool, rfl, rfl⟩ ?_
  rintro _ _ _ ⟨rfl, rfl⟩
  split
  · exact watched_fail
  · exact watched_onPanic (fun _ => rfl) (fun _ => rfl) h

theorem watched_check : Watched policy (check i) pool (fun _ pool' => pool = pool' ∧ i < pool.frames.length) := by
  refine watched_bind (Q := fun q q' => pool = q ∧ pool = q') ⟨.refl pool, rfl, rfl⟩ ?_
  rintro _ _ _ ⟨rfl, rfl⟩
  split
  · exact watched_fail
  · refine watched_bind (Q := fun _ q => pool = q ∧ i < pool.frames.length)
      (watched_desc fun frame hi => ⟨rfl, hi⟩) ?_
    rintro frame _ _ ⟨rfl, hi⟩
    split
    · exact watched_fail
    · exact watched_pure ⟨rfl, hi⟩

/-- Under a frame's exclusive latch. -/
theorem watched_latched (h : Watched policy m pool Q) : Watched policy (latched i m) pool Q := by
  refine watched_bind (Q := fun _ q => pool = q) (watched_desc fun _ _ => rfl) ?_
  rintro frame _ _ rfl
  split
  · exact watched_fail
  · refine watched_onPanic (fun q => by simp [poisonFrame]) (fun _ => rfl) ?_
    refine watched_bind watched_check ?_
    rintro _ _ _ ⟨rfl, _⟩
    exact h

end

/-! ## The calls of the pool -/

theorem watched_victim (pool : BufferPool S P) :
    Watched policy (victim policy) pool (fun i pool' => i < pool'.frames.length) := by
  refine watched_bind (Q := fun q q' => pool = q ∧ pool = q') ⟨.refl pool, rfl, rfl⟩ ?_
  rintro _ _ _ ⟨rfl, rfl⟩
  split
  · rename_i hlt
    exact watched_pure hlt
  · refine watched_bind (Q := fun _ pool' => pool'.frames = pool.frames)
      (watched_consult (fun r p' hm => .victim hm) (fun hs => hs.returns.victim _) fun _ _ => rfl) ?_
    intro answer pool' _ hframes
    cases answer with
    | none => exact watched_fail
    | some buffer =>
      show Watched policy (if !canEvict pool.frames buffer then _ else _) pool' _
      split
      · exact watched_fail
      · rename_i he
        obtain ⟨frame, hget, _⟩ := canEvict_iff.1 (by simpa using he)
        refine watched_pure ?_
        rw [hframes]
        exact lt_of_get hget

theorem watched_drop (pin : PinnedBuffer) (pool : BufferPool S P) :
    Watched policy pin.drop pool (fun _ _ => True) := by
  refine watched_bind (Q := fun _ q => pool = q) (watched_desc fun _ _ => rfl) ?_
  rintro frame _ _ rfl
  refine watched_bind (Q := fun _ _ => True) (watched_modify (by simp [setFrame]) rfl trivial) ?_
  intro _ pool' _ _
  refine watched_lift (fun _ _ => trivial) ?_
  unfold Result.assert
  split <;> simp

variable {i : Nat}

theorem bufferId_lt (h : i < n) : (bufferId i).get.toNat < n := by
  show (UInt32.ofNat i).toNat < n
  rw [UInt32.toNat_ofNat']
  exact Nat.lt_of_le_of_lt (Nat.mod_le _ _) h

theorem watched_loadedPin (hi : i < pool.frames.length) (page : PageId) :
    Watched policy (loadedPin policy i page) pool (fun _ _ => True) := by
  refine watched_bind (Q := fun _ _ => True) (watched_unwind ?_ (watched_drop _)) ?_
  · exact watched_consult (fun r p' hm => .load (bufferId_lt hi) hm) (fun hs => by
        obtain ⟨p', hok⟩ := hs.returns.load _ (bufferId_lt hi)
        exact ⟨(), p', hok⟩) fun _ _ => trivial
  · intro _ _ _ _
    exact watched_pure trivial

theorem watched_residentPin (recordAccess : Bool) (page : PageId) (pool : BufferPool S P) :
    Watched policy (residentPin policy recordAccess page) pool (fun _ _ => True) := by
  refine watched_bind (Q := fun q q' => pool = q ∧ pool = q') ⟨.refl pool, rfl, rfl⟩ ?_
  rintro _ _ _ ⟨rfl, rfl⟩
  split
  · exact watched_pure trivial
  · rename_i i _
    refine watched_bind (Q := fun _ q => pool = q ∧ i < pool.frames.length) (watched_desc fun _ hi => ⟨rfl, hi⟩) ?_
    rintro frame _ _ ⟨rfl, hi⟩
    split
    · refine watched_bind (Q := fun _ q => q.frames.length = pool.frames.length)
        (watched_modify (by simp [setFrame]) rfl (by simp [setFrame])) ?_
      intro _ pool1 _ hlen
      refine watched_bind (Q := fun _ _ => True) (watched_unwind ?_ (watched_drop _)) ?_
      · have hi1 : i < pool1.frames.length := by rw [hlen]; exact hi
        split
        · exact watched_consult (fun r p' hm => .access (bufferId_lt hi1) hm) (fun hs => by
              obtain ⟨p', hok⟩ := hs.returns.access _ (bufferId_lt hi1)
              exact ⟨(), p', hok⟩) fun _ _ => trivial
        · exact watched_pure trivial
      · intro _ _ _ _
        exact watched_pure trivial
    · exact watched_fail

theorem watched_flushVictim (i : Nat) (pool : BufferPool S P) :
    Watched policy (flushVictim store i) pool (fun _ _ => True) := by
  refine watched_bind (Q := fun _ q => pool = q) (watched_desc fun _ _ => rfl) ?_
  rintro frame _ _ rfl
  split
  · exact watched_io fun _ _ => trivial
  · exact watched_pure trivial

theorem watched_install (i : Nat) (page : PageId) (pool : BufferPool S P) :
    Watched policy (install i page) pool (fun _ _ => True) := by
  refine watched_bind (Q := fun _ _ => True) ?_ ?_
  · refine watched_bind (Q := fun _ q => pool = q) (watched_desc fun _ _ => rfl) ?_
    rintro frame _ _ rfl
    split
    · exact watched_modify rfl rfl trivial
    · refine watched_bind (Q := fun _ _ => True) ⟨.refl pool, trivial⟩ ?_
      intro _ _ _ _
      refine watched_lift (fun _ _ => trivial) ?_
      unfold Result.assert
      split <;> simp
  · intro _ pool1 _ _
    refine watched_bind (Q := fun _ _ => True) (watched_update fun _ _ => trivial) ?_
    intro _ _ _ _
    exact watched_modify rfl rfl trivial

theorem watched_publish (i : Nat) (page : PageId) (data : Page) (pool : BufferPool S P) :
    Watched policy (publish i page data) pool (fun _ _ => True) := by
  refine watched_bind (Q := fun _ _ => True) (watched_update fun _ _ => trivial) ?_
  intro _ pool1 _ _
  refine watched_bind (watched_install i page pool1) ?_
  intro _ pool2 _ _
  exact watched_update fun _ _ => trivial

theorem watched_withVictim {m : PoolM S P α} {Q : α → BufferPool S P → Prop}
    (h : Watched policy m pool Q) : Watched policy (withVictim i m) pool Q := by
  refine watched_bind (Q := fun _ q => pool = q) (watched_desc fun _ _ => rfl) ?_
  rintro frame _ _ rfl
  refine watched_bind (Q := fun _ q => pool = q) (watched_lift (fun _ _ => rfl) ?_) ?_
  · unfold Result.assert
    split <;> simp
  · rintro _ _ _ rfl
    exact watched_latched h

/-- **`pin`** consults the policy about frames of the pool only. -/
theorem watched_pin (store : PageStore S) (page : PageId) (pool : BufferPool S P) :
    Watched policy (pin store policy page) pool (fun _ _ => True) := by
  refine watched_locked (watched_bind (watched_residentPin true page pool) ?_)
  intro resident pool1 _ _
  cases resident with
  | some pin => exact watched_pure trivial
  | none =>
    refine watched_bind (watched_victim pool1) fun i pool2 _ hi => ?_
    refine watched_bind watched_check ?_
    rintro _ _ _ ⟨rfl, _⟩
    refine watched_bind (Q := fun _ q => i < q.frames.length) (watched_io fun _ _ => hi) ?_
    intro data pool3 _ hi3
    refine watched_bind (Q := fun _ _ => True) (watched_withVictim
      (watched_bind (watched_flushVictim i pool3) fun _ pool4 _ _ => watched_publish i page data pool4))
      ?_
    intro _ pool5 hlen _
    exact watched_loadedPin (by rw [hlen]; exact hi3) page

/-- **`newPage`** likewise. -/
theorem watched_newPage (store : PageStore S) (pool : BufferPool S P) :
    Watched policy (newPage store policy) pool (fun _ _ => True) := by
  refine watched_locked (watched_bind (watched_victim pool) fun i pool1 _ hi => ?_)
  refine watched_bind watched_check ?_
  rintro _ _ _ ⟨rfl, _⟩
  refine watched_bind (Q := fun _ _ => True) (watched_withVictim
    (watched_bind (watched_flushVictim i pool1) fun _ pool2 _ _ => ?_)) ?_
  · refine watched_bind (Q := fun _ _ => True) (watched_io fun _ _ => trivial) ?_
    intro page pool3 _ _
    refine watched_bind (watched_publish i page Page.zero pool3) ?_
    intro _ _ _ _
    exact watched_pure trivial
  · intro page pool4 hlen _
    exact watched_loadedPin (by rw [hlen]; exact hi) page

theorem watched_flushPage (store : PageStore S) (page : PageId) (pool : BufferPool S P) :
    Watched policy (flushPage store policy page) pool (fun _ _ => True) := by
  refine watched_bracket (watched_locked (watched_residentPin false page pool)) ?_ ?_
  · rintro (_ | pin) pool1
    · exact watched_pure trivial
    · refine watched_bind (Q := fun _ _ => True) ?_ fun _ _ _ _ => watched_pure trivial
      refine watched_bind (Q := fun _ _ => True) (watched_desc fun _ _ => trivial) ?_
      intro frame pool2 _ _
      split
      · exact watched_fail
      · refine watched_bind watched_check fun _ pool3 _ _ => ?_
        refine watched_bind (Q := fun _ _ => True) (watched_desc fun _ _ => trivial) ?_
        intro frame pool4 _ _
        split
        · exact watched_bind (Q := fun _ _ => True) (watched_io fun _ _ => trivial)
            fun _ _ _ _ => watched_update fun _ _ => trivial
        · exact watched_pure trivial
  · rintro (_ | pin) pool1
    · exact watched_pure trivial
    · exact watched_drop pin pool1

/-- **`flushAll`** likewise. -/
theorem watched_flushAll (store : PageStore S) (pool : BufferPool S P) :
    Watched policy (flushAll store policy) pool (fun _ _ => True) := by
  have hpages : ∀ (list : List PageId) (pool : BufferPool S P),
      Watched policy (flushPages store policy list) pool (fun _ _ => True) := by
    intro list
    induction list with
    | nil => exact fun _ => watched_pure trivial
    | cons page list ih =>
      exact fun pool => watched_bind (watched_flushPage store page pool) fun _ pool1 _ _ => ih pool1
  refine watched_bind (Q := fun _ _ => True) (watched_locked ?_) fun keys pool1 _ _ => ?_
  · refine watched_bind (Q := fun q q' => pool = q ∧ pool = q') ⟨.refl pool, rfl, rfl⟩ ?_
    exact fun _ _ _ _ => watched_pure trivial
  · exact watched_bind (hpages _ pool1) fun _ _ _ _ => watched_io fun _ _ => trivial

/-! ## The clock -/

namespace ClockStrategy

variable {clock : State}

theorem Over.moves {clock' : State} (h : Over n clock) (hm : VictimStrategy.Moves ClockStrategy n clock clock') :
    Over n clock' := by
  cases hm with
  | access hb hr | load hb hr =>
    obtain ⟨clock', hok, hover⟩ := access_over h hb
    cases hok.symm.trans hr
    exact hover
  | @victim c _ _ _ hr =>
    obtain ⟨r, clock', hok, hover⟩ := victim_over h c
    cases hok.symm.trans hr
    exact hover

/-- **The clock never panics in the pool it was made for.** -/
theorem safeAt (h : Over n clock) : VictimStrategy.SafeAt ClockStrategy n clock := by
  refine VictimStrategy.safeAt_of_invariant (fun _ _ => Over.moves) (fun clock h => ?_) h
  refine ⟨fun b hb => ?_, fun b hb => ?_, fun c => ?_⟩
  · obtain ⟨clock', hok, _⟩ := access_over h hb
    exact ⟨clock', hok⟩
  · obtain ⟨clock', hok, _⟩ := access_over h hb
    exact ⟨clock', hok⟩
  · obtain ⟨r, clock', hok, _⟩ := victim_over h c
    exact ⟨r, clock', hok⟩

end ClockStrategy

end ChiliDB

import ChiliDB.Storage.PageService

/-!
# Reading from a pool that has nothing to write back

After a flush the store holds what the pool showed, and a new pool over it shows the same.  In a pool
without pins and dirty frames every page can be read, as long as the store serves reads and the policy
finds a victim when every frame may be evicted.

* `PageStore.Healthy` — from this state on, reads of allocated pages succeed.
* `VictimStrategy.FairAt` — the policy finds a victim; `ClockStrategy.fairAt` — the clock does.
* `Quiet` — the pool, and `quiet_pin`, `quiet_read`, `quiet_drop` — its calls return.
-/

namespace ChiliDB

open Effect BufferPool List

variable {S P : Type} {store : PageStore S} {policy : VictimStrategy P} {pool pool' : BufferPool S P}
  {pins : List PinnedBuffer} {n : Nat} {p p' : P}

/-! ## What a flush leaves in the store -/

theorem logical_of_clean (hinv : PoolInv store pool pins) (h : ∀ page, CleanPage pool page) :
    logical store pool = store.content pool.store := by
  funext page
  cases hl : pool.pages.lookup page with
  | none => exact logical_of_none hl
  | some i =>
    obtain ⟨frame, hi, ht⟩ := (hinv.layout.mapped page i).1 hl
    rw [hinv.logical_tag hi ht]
    exact (hinv.coherent.clean i frame page hi ht (h page i frame hi ht)).symm

/-- **A flush that succeeds leaves in the store what the pool showed, and still shows.** -/
theorem content_of_flushAll (hinv : InOrder store policy pool pins)
    (h : flushAll store policy pool = (.ok (), pool')) :
    InOrder store policy pool' pins ∧ logical store pool' = logical store pool ∧
      store.content pool'.store = logical store pool := by
  have hwatched : Watched policy (flushAll store policy) pool (fun _ _ => True) :=
    watched_flushAll store pool
  obtain ⟨⟨hinv', hflushed, hclean⟩, hatt, _⟩ := ((flushAll_spec hinv.sound).and hwatched).ok h
  refine ⟨⟨hinv', hatt.safeAt hinv.safe⟩, hflushed.logical, ?_⟩
  rw [← hflushed.logical]
  exact (logical_of_clean hinv' hclean).symm

variable {s : S} {capacity : Nat} {strategy : P}

/-- A new pool shows what the store holds. -/
theorem logical_withStrategy (store : PageStore S) (h : withStrategy capacity s strategy = .ok pool) :
    logical store pool = store.content s := by
  obtain ⟨_, _, hpool⟩ := except_bind_ok.1 h
  cases hpool
  rfl

/-! ## Stores and policies that serve reads -/

/-- Reads of allocated pages succeed, now and after any such reads. -/
def PageStore.Healthy (store : PageStore S) (s : S) : Prop :=
  ∃ K : S → Prop, K s ∧ ∀ s, K s → ∀ id data, store.content s id = some data →
    ∃ data' s', store.readPage id s = (.ok data', s') ∧ K s'

variable {data : Page}

theorem PageStore.Healthy.read (h : store.Healthy s) {id : PageId} (hd : store.content s id = some data) :
    ∃ data' s', store.readPage id s = (.ok data', s') ∧ store.Healthy s' := by
  obtain ⟨K, hs, hread⟩ := h
  obtain ⟨data', s', hr, hs'⟩ := hread s hs id data hd
  exact ⟨data', s', hr, K, hs', hread⟩

theorem MemoryPageStore.healthy (pages : MemoryPageStore.State) : PageStore.Healthy MemoryPageStore pages := by
  refine ⟨fun _ => True, trivial, fun s _ id data hd => ⟨data, s, ?_, trivial⟩⟩
  have hd' : s[id.toNat]? = some data := hd
  show MemoryPageStore.readPage id s = _
  unfold MemoryPageStore.readPage
  rw [hd']

/-- If all of `n` frames may be evicted the policy names one of them, now and after any callbacks. -/
def VictimStrategy.FairAt (policy : VictimStrategy P) (n : Nat) (p : P) : Prop :=
  ∀ p', Relation.ReflTransGen (policy.Moves n) p p' → ∀ c : BufferId → Bool,
    (∀ b : BufferId, b.get.toNat < n → c b = true) →
    ∃ b p'', policy.victim c p' = (.ok (some b), p'') ∧ b.get.toNat < n

theorem Attends.fairAt (h : Attends policy pool pool')
    (hf : policy.FairAt pool.frames.length pool.strategy) :
    policy.FairAt pool'.frames.length pool'.strategy := by
  rw [h.length]
  exact fun p' hm => hf p' (h.moved.trans hm)

namespace ClockStrategy

/-- **The clock finds a victim if every frame may be evicted.** -/
theorem fairAt {clock : State} (h : Over n clock) (hn : 0 < n) : VictimStrategy.FairAt ClockStrategy n clock := by
  intro p hm c hc
  have hover : Over n p := by
    induction hm with
    | refl => exact h
    | tail _ hmove ih => exact ih.moves hmove
  have hlt : ∀ i, i < n → (BufferId.new (UInt32.ofNat i)).get.toNat < n :=
    fun i hi => Nat.lt_of_le_of_lt (Nat.mod_le i (2 ^ 32)) hi
  cases hr : (secondChance c p).1 with
  | none =>
    have hno := (secondChance_none hover).1 hr 0 hn
    rw [eligible, hc _ (hlt 0 hn)] at hno
    cases hno
  | some b =>
    obtain ⟨i, hi, rfl, _⟩ := (secondChance_over hover c).2 b hr
    exact ⟨_, _, (victim_eq hover c).trans (by rw [hr]), hlt i hi⟩

end ClockStrategy

/-! ## A pool with nothing to write back -/

/-- Nothing is dirty or poisoned, and store and policy serve reads. -/
structure Quiet (store : PageStore S) (policy : VictimStrategy P) (pool : BufferPool S P)
    (pins : List PinnedBuffer) : Prop where
  inOrder : InOrder store policy pool pins
  usable : pool.poisoned = false
  frames : ∀ (i : Nat) (frame : Frame), pool.frames[i]? = some frame →
    frame.poisoned = false ∧ frame.dirty = false
  fair : policy.FairAt pool.frames.length pool.strategy
  healthy : store.Healthy pool.store

theorem quiet_withStrategy (h : withStrategy capacity s strategy = .ok pool)
    (hsafe : policy.SafeAt capacity strategy) (hfair : policy.FairAt capacity strategy) (hs : store.Healthy s) :
    Quiet store policy pool [] := by
  have hinOrder : InOrder store policy pool [] := inOrder_withStrategy h hsafe
  obtain ⟨_, _, hpool⟩ := except_bind_ok.1 h
  cases hpool
  refine ⟨hinOrder, rfl, fun i frame hi => ?_, ?_, hs⟩
  · cases eq_of_mem_replicate (mem_of_getElem? hi)
    exact ⟨rfl, rfl⟩
  · show policy.FairAt (replicate capacity Frame.unused).length strategy
    rw [length_replicate]
    exact hfair

section

variable {α : Type} {Q : α → BufferPool S P → Prop}

/-- The computation returns. -/
def Returns (m : PoolM S P α) (pool : BufferPool S P) (Q : α → BufferPool S P → Prop) : Prop :=
  Exec.Ensures m pool Q (fun _ _ => False)

theorem returns_consult {m : Exec Empty P α} {a : α} (hm : m pool.strategy = (.ok a, p))
    (hq : Q a { pool with strategy := p }) : Returns (consult m) pool Q :=
  .foreign (.zoom (Exec.ensures_of_ok hm hq))

variable {m : PoolM S P α}

theorem returns_onPanic {f : BufferPool S P → BufferPool S P} (h : Returns m pool Q) :
    Returns (.onPanic m f) pool Q :=
  .onPanic (.mono h (fun _ _ hq => hq) (fun _ _ he => he.elim))

theorem returns_unwind {cleanup : PoolM S P Unit} (h : Returns m pool Q) :
    Returns (.unwind m cleanup) pool Q :=
  .unwind (.mono h (fun _ _ hq => hq) (fun _ _ he => he.elim))

end

variable {i : Nat} {frame : Frame}

/-- Without pins every frame may be evicted. -/
theorem Quiet.unpinned (h : Quiet store policy pool []) (hi : pool.frames[i]? = some frame) : frame.pins = 0 :=
  h.inOrder.sound.layout.counted i frame hi

theorem Quiet.victim (h : Quiet store policy pool []) : Returns (BufferPool.victim policy) pool (fun i pool' =>
      (∃ p, pool' = { pool with strategy := p } ∧ Attends policy pool pool') ∧ ∃ frame, Free pool i frame) := by
  have hwatched : Watched policy (BufferPool.victim policy) pool
      (fun i pool' => i < pool'.frames.length) := watched_victim pool
  have hspec := (victim_spec h.inOrder.sound).and hwatched
  have hreturns : Returns (BufferPool.victim policy) pool (fun _ _ => True) := by
    refine .bind (.get ?_)
    split
    · trivial
    · obtain ⟨b, p, hv, hb⟩ := h.fair pool.strategy .refl (canEvict pool.frames) fun b hb =>
        canEvict_iff.2 ⟨_, getElem?_eq_getElem hb, h.unpinned (getElem?_eq_getElem hb)⟩
      refine .bind (returns_consult hv ?_)
      have he : canEvict pool.frames b = true :=
        canEvict_iff.2 ⟨_, getElem?_eq_getElem hb, h.unpinned (getElem?_eq_getElem hb)⟩
      show Exec.Ensures (if !canEvict pool.frames b then _ else _) _ _ _
      rw [he]
      trivial
  refine (hspec.and hreturns).mono ?_ (fun _ _ he => he.2)
  rintro i pool' ⟨⟨⟨⟨p, rfl⟩, hfree⟩, hatt, _⟩, _⟩
  exact ⟨⟨p, rfl, hatt⟩, hfree⟩

theorem flushVictim_clean (hi : pool.frames[i]? = some frame) (hclean : frame.dirty = false) :
    flushVictim store i pool = (.ok (), pool) := by
  unfold flushVictim
  rw [Exec.bind_ok (desc_run hi), hclean]
  rfl

variable {page : PageId}

theorem Quiet.loadPage (h : Quiet store policy pool []) (hd : store.content pool.store page = some data) :
    Returns (loadPage store policy page) pool (fun _ pool' => store.Healthy pool'.store) := by
  refine .bind (h.victim.mono ?_ (fun _ _ he => he))
  rintro i _ ⟨⟨p, rfl, hatt⟩, frame, hfree⟩
  obtain ⟨hpoison, hclean⟩ := h.frames i frame hfree.at_
  have hlt := lt_of_get hfree.at_
  have hbad : ¬ (pool.poisoned = true ∨ frame.poisoned = true) := by
    rw [h.usable, hpoison]
    simp
  refine .bind (ensures_check hfree.at_ (fun he => hbad he) (fun _ _ => ?_))
  obtain ⟨data', s, hread, hs⟩ := h.healthy.read hd
  refine .bind (ensures_io (fun a s' hr => ?_) (fun e s' hr => ?_))
  · cases hread.symm.trans hr
    refine .bind (ensures_withVictim (hfree.congr rfl rfl) (fun he => hbad he) ?_)
    refine Exec.Ensures.mono (E := fun _ _ => False) ?_ (fun _ _ hq => hq) (fun _ _ he => he.elim)
    refine .bind (Exec.ensures_of_ok (flushVictim_clean hfree.at_ hclean)
      (ensures_publish (hfree.congr rfl rfl) ?_))
    obtain ⟨p', hload⟩ := (hatt.safeAt h.inOrder.safe).returns.load (bufferId i) (bufferId_lt hlt)
    exact .bind (returns_unwind (returns_consult hload hs))
  · cases hread.symm.trans hr

theorem Quiet.pin_returns (h : Quiet store policy pool []) (hd : logical store pool page = some data) :
    Returns (pin store policy page) pool (fun _ pool' => store.Healthy pool'.store) := by
  refine .bind (.get ?_)
  rw [if_neg (by rw [h.usable]; simp)]
  refine returns_onPanic (.bind (.bind (.get ?_)))
  cases hl : pool.pages.lookup page with
  | none =>
    rw [logical_of_none hl] at hd
    exact h.loadPage hd
  | some i =>
    obtain ⟨frame, hi, _⟩ := (h.inOrder.sound.layout.mapped page i).1 hl
    have hlt := lt_of_get hi
    refine .bind (ensures_desc hi ?_)
    rw [if_pos (by rw [h.unpinned hi]; omega)]
    refine .bind (Exec.ensures_modify.2 (.bind ?_))
    obtain ⟨p', haccess⟩ := h.inOrder.safe.returns.access (bufferId i) (bufferId_lt hlt)
    exact returns_unwind (returns_consult haccess h.healthy)

/-- Pinning an allocated page. -/
theorem quiet_pin (h : Quiet store policy pool []) (hd : logical store pool page = some data) :
    Returns (pin store policy page) pool (fun pin pool' => Quiet store policy pool' [pin] ∧
      pin.page = page ∧ logical store pool' = logical store pool) := by
  have hwatched : Watched policy (pin store policy page) pool (fun _ _ => True) :=
    watched_pin store page pool
  have hspec := ((pin_spec h.inOrder.sound page).and hwatched).and (service_pin page h.inOrder)
  refine (hspec.and (h.pin_returns hd)).mono ?_ (fun _ _ he => he.2)
  rintro _ pool' ⟨⟨⟨⟨hp, i, frame, _, hcase⟩, hatt, _⟩, hinOrder, hpage, hlogical⟩, hhealthy⟩
  refine ⟨⟨hinOrder, hp.trans h.usable, fun j g hj => ?_, hatt.fairAt h.fair, hhealthy⟩, hpage, hlogical⟩
  rcases hcase with hhit | ⟨data', _, hl⟩
  · rw [hhit.frames] at hj
    rcases frame_of_set hj with ⟨_, rfl⟩ | ⟨_, hg⟩
    · exact h.frames i frame hhit.resident
    · exact h.frames j g hg
  · rw [hl.frames] at hj
    rcases frame_of_set hj with ⟨_, rfl⟩ | ⟨_, hg⟩
    · exact ⟨(h.frames i frame hl.victim).1, rfl⟩
    · exact h.frames j g hg

theorem quiet_read {T : Type} {pin : PinnedBuffer} (h : Quiet store policy pool (pin :: pins))
    {f : Page → Result Empty T} {t : T} (hd : logical store pool pin.page = some data) (hf : f data = .ok t) :
    Returns (pin.read fun data => .foreign (.lift (f data))) pool (fun t' pool' => pool' = pool ∧ t' = t) := by
  obtain ⟨frame, hi, htag⟩ := h.inOrder.sound.layout.live pin (mem_cons_self ..)
  obtain ⟨hpoison, _⟩ := h.frames _ _ hi
  cases hd.symm.trans (h.inOrder.sound.logical_tag hi htag)
  refine ensures_read hi (fun he => ?_) (fun _ _ => ?_)
  · rw [h.usable, hpoison] at he
    simp at he
  · refine .foreign ?_
    rw [hf]
    exact ⟨rfl, rfl⟩

theorem quiet_drop {pin : PinnedBuffer} (h : Quiet store policy pool (pin :: pins)) :
    Returns pin.drop pool (fun _ pool' => Quiet store policy pool' pins ∧
      logical store pool' = logical store pool) := by
  obtain ⟨frame, hi, _⟩ := h.inOrder.sound.layout.live pin (mem_cons_self ..)
  have hk : (pin :: pins)[0]? = some pin := rfl
  obtain ⟨hpos, _⟩ := h.inOrder.sound.layout.unpinned hk hi
  obtain ⟨hinOrder, hlogical⟩ := (service_drop h.inOrder).ok (drop_run hi hpos)
  have hframe := h.frames _ _ hi
  refine ensures_drop hi hpos ⟨⟨hinOrder, h.usable, fun j g hj => ?_, ?_, h.healthy⟩, hlogical⟩
  · rcases frame_of_set hj with ⟨_, rfl⟩ | ⟨_, hg⟩
    · exact hframe
    · exact h.frames j g hg
  · show policy.FairAt (pool.frames.set _ _).length pool.strategy
    rw [length_set]
    exact h.fair

end ChiliDB

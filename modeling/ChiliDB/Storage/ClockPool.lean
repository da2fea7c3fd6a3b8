import ChiliDB.Storage.BufferReads

/-!
# The pool with its default policy

A pool built by `BufferPool::new` runs a clock over its own frames, so that it finds a victim whenever
there is one.

* `Starved` — the two errors about victims; `avoids_*` — no part of a call but `State::victim` ends in
  one.
* `Full` — every frame is assigned and pinned.
* `Clocked` — a client of such a pool; every call keeps it (`Clocked.call`).

Principal result: `clock_is_second_chance` — the clock's rule, and what it means for `pin` and `newPage`.
-/

namespace ChiliDB

open Effect BufferPool
open ClockStrategy (Over State victim secondChance)
open Exec (Avoids Ensures Maintains ensures_iff)

variable {S P α T : Type} {store : PageStore S} {policy : VictimStrategy P} {pool pool' : BufferPool S P}
  {pins : List PinnedBuffer} {page : PageId}

/-! ## Errors about victims -/

/-- `AllPinned` or `InvalidVictim`. -/
def Starved : Fault BufferError → Prop
  | .error .allPinned => True
  | .error (.invalidVictim _) => True
  | _ => False

section

variable {m : PoolM S P α} {i : Nat}

theorem avoids_io (f : S → Except IoError α × S) : Avoids Starved (io f : PoolM S P α) :=
  fun _ _ => ensures_io (fun _ _ _ => trivial) (fun _ _ _ => ⟨id, trivial⟩)

theorem avoids_consult (m : Exec Empty P α) : Avoids Starved (consult m : PoolM S P α) :=
  .foreign (fun _ hs => hs) id

theorem avoids_assert (b : Bool) : Avoids Starved (.lift (.assert b) : PoolM S P Unit) := by
  apply Maintains.lift
  intro e he
  unfold Result.assert at he
  split at he <;> cases he
  exact id

theorem avoids_desc (i : Nat) : Avoids Starved (desc i : PoolM S P Frame) := by
  apply Maintains.bind .get
  intro pool
  apply Maintains.lift
  intro e he
  unfold Result.index at he
  split at he <;> cases he
  exact id

theorem avoids_update (i : Nat) (f : Frame → Frame) : Avoids Starved (update i f : PoolM S P Unit) :=
  .bind (avoids_desc i) fun _ => .modify fun _ hs => hs

theorem avoids_check (i : Nat) : Avoids Starved (check i : PoolM S P Unit) := by
  apply Maintains.bind .get
  intro pool
  split
  · exact .fail id
  · apply Maintains.bind (avoids_desc i)
    intro frame
    split
    · exact .fail id
    · exact .pure ()

theorem avoids_latched (h : Avoids Starved m) : Avoids Starved (latched i m) := by
  apply Maintains.bind (avoids_desc i)
  intro frame
  split
  · exact .fail id
  · exact .onPanic (.bind (avoids_check i) fun _ => h) fun _ hs => hs

theorem avoids_withVictim (h : Avoids Starved m) : Avoids Starved (withVictim i m) :=
  .bind (avoids_desc i) fun _ => .bind (avoids_assert _) fun _ => avoids_latched h

theorem avoids_flushVictim (store : PageStore S) (i : Nat) :
    Avoids Starved (flushVictim store i : PoolM S P Unit) := by
  apply Maintains.bind (avoids_desc i)
  intro frame
  split
  · exact avoids_io _
  · exact .pure ()

theorem avoids_publish (i : Nat) (page : PageId) (data : Page) :
    Avoids Starved (publish i page data : PoolM S P Unit) := by
  apply Maintains.bind (avoids_update i _)
  intro _
  refine .bind (.bind ?_ fun _ => ?_) fun _ => avoids_update i _
  · apply Maintains.bind (avoids_desc i)
    intro frame
    split
    · exact .modify fun _ hs => hs
    · exact .bind .get fun _ => avoids_assert _
  · exact .bind (avoids_update i _) fun _ => .modify fun _ hs => hs

variable (pin : PinnedBuffer)

theorem avoids_drop : Avoids Starved (pin.drop : PoolM S P Unit) :=
  .bind (avoids_desc _) fun _ =>
    .bind (.modify fun _ hs => hs) fun _ => avoids_assert _

theorem avoids_loadedPin (policy : VictimStrategy P) (i : Nat) (page : PageId) :
    Avoids Starved (loadedPin policy i page : PoolM S P PinnedBuffer) :=
  .bind (.unwind (avoids_consult _) (avoids_drop _)) fun _ => .pure _

theorem avoids_residentPin (policy : VictimStrategy P) (recordAccess : Bool) (page : PageId) :
    Avoids Starved
      (residentPin policy recordAccess page : PoolM S P (Option PinnedBuffer)) := by
  apply Maintains.bind .get
  intro pool
  split
  · exact .pure _
  · apply Maintains.bind (avoids_desc _)
    intro frame
    split
    · refine .bind (.modify fun _ _ => trivial) fun _ => ?_
      refine .bind (.unwind ?_ (avoids_drop _)) fun _ => .pure _
      split
      · exact avoids_consult _
      · exact .pure ()
    · exact .fail id

theorem avoids_read (f : Page → Result Empty α) :
    Avoids Starved (pin.read fun data => .foreign (.lift (f data)) : PoolM S P α) := by
  apply Maintains.bind (avoids_desc _)
  intro frame
  split
  · exact .fail id
  · exact .bind (avoids_check _) fun _ => .foreign (fun _ hs => hs) id

theorem avoids_write (f : Exec Empty Page α) : Avoids Starved (pin.write f : PoolM S P α) := by
  apply avoids_latched
  apply Maintains.bind (avoids_update _ _)
  intro _
  exact .bind (avoids_desc _) fun _ => .foreign (fun _ hs => hs) id

end

/-! ## Finding a victim -/

/-- Every frame is assigned and pinned. -/
def Full (pool : BufferPool S P) : Prop :=
  ∀ frame ∈ pool.frames, frame.tag.isSome = true ∧ 0 < frame.pins

/-- A clock over the pool's frames finds a victim unless the pool is full. -/
theorem victim_clock {pool : BufferPool S State} (hinv : PoolInv store pool pins)
    (hclock : Over pool.frames.length pool.strategy) :
    Ensures (victim ClockStrategy) pool (fun _ _ => ¬ Full pool)
      (fun e _ => e = .error .allPinned ∧ Full pool) := by
  have hsize := hinv.layout.size
  have hcapacity := hinv.layout.capacity.2
  have hid : ∀ i, i < pool.frames.length → (BufferId.new (UInt32.ofNat i)).get.toNat = i :=
    fun i hi => UInt32.toNat_ofNat_of_lt' (show i < 2 ^ 32 by omega)
  refine .bind (.get ?_)
  split
  · rename_i hlt
    -- the next frame of the prefix is unassigned
    intro hfull
    have hget := List.getElem?_eq_getElem hlt
    have htag := (hfull _ (List.getElem_mem hlt)).1
    exact absurd ((hinv.layout.assigned _ _ hget).1 htag) (Nat.lt_irrefl _)
  · rename_i hge
    have hrun : (victim (canEvict pool.frames) pool.strategy) = _ :=
      ClockStrategy.victim_eq hclock _
    refine .bind (.foreign (.zoom (Exec.ensures_of_ok hrun ?_)))
    cases hr : (secondChance (canEvict pool.frames) pool.strategy).1 with
    | none =>
      refine ⟨rfl, fun frame hframe => ?_⟩
      obtain ⟨i, hi⟩ := List.mem_iff_getElem?.1 hframe
      have hlt := lt_of_get hi
      refine ⟨(hinv.layout.assigned i frame hi).2 (by omega), Nat.pos_of_ne_zero fun hp => ?_⟩
      have hno := (ClockStrategy.secondChance_none hclock).1 hr i hlt
      have hyes : canEvict pool.frames (.new (.ofNat i)) = true :=
        canEvict_iff.2 ⟨frame, by rw [hid i hlt]; exact hi, hp⟩
      rw [ClockStrategy.eligible, hyes] at hno
      cases hno
    | some b =>
      obtain ⟨i, hi, rfl, he⟩ := (ClockStrategy.secondChance_over hclock _).2 b hr
      have he' : canEvict pool.frames (.new (.ofNat i)) = true := he
      show Ensures (if !canEvict pool.frames (.new (.ofNat i)) then _ else _) _ _ _
      rw [he']
      intro hfull
      obtain ⟨frame, hget, hp⟩ := canEvict_iff.1 he'
      have := (hfull frame (List.mem_of_getElem? hget)).2
      omega

/-- A call that starts by choosing a victim fails for lack of one exactly if the pool is full. -/
theorem starved_iff {pool : BufferPool S State} (hinv : PoolInv store pool pins)
    (hclock : Over pool.frames.length pool.strategy) (husable : pool.poisoned = false)
    {rest : Nat → Exec BufferError (BufferPool S State) α} (hrest : ∀ i, Avoids Starved (rest i)) :
    (∀ b, (locked (victim ClockStrategy >>= rest) pool).1 ≠ .error (.error (.invalidVictim b))) ∧
    ((locked (victim ClockStrategy >>= rest) pool).1 = .error (.error .allPinned) ↔ Full pool) := by
  have hspec : Ensures (locked (victim ClockStrategy >>= rest)) pool (fun _ _ => ¬ Full pool)
      (fun e _ => e = .error .allPinned ∧ Full pool ∨ ¬ Starved e ∧ ¬ Full pool) := by
    refine ensures_locked (fun hp => by rw [husable] at hp; cases hp) fun _ => ?_
    refine .bind ((victim_clock hinv hclock).mono ?_ ?_)
    · intro i pool1 hfull
      refine (hrest i pool1 trivial).mono (fun _ _ _ => hfull) ?_
      intro e pool2 he
      cases e <;> exact .inr ⟨he.1, hfull⟩
    · intro e pool1 he
      rw [he.1]
      exact .inl ⟨rfl, he.2⟩
  unfold Ensures at hspec
  rcases hm : locked (victim ClockStrategy >>= rest) pool with ⟨r, pool1⟩
  rw [hm] at hspec
  cases r with
  | ok a => exact ⟨fun _ he => (by cases he), fun he => (by cases he), fun hf => absurd hf hspec⟩
  | error e =>
    obtain ⟨rfl, hfull⟩ | ⟨hnot, hfull⟩ := hspec
    · exact ⟨fun _ he => (by cases he), fun _ => hfull, fun _ => rfl⟩
    · refine ⟨fun b he => ?_, fun he => ?_, fun hf => absurd hf hfull⟩
      · cases he
        exact hnot trivial
      · cases he
        exact absurd trivial hnot

theorem newPage_starved {pool : BufferPool S State} (hinv : PoolInv store pool pins)
    (hclock : Over pool.frames.length pool.strategy) (husable : pool.poisoned = false) :
    (∀ b, (newPage store ClockStrategy pool).1 ≠ .error (.error (.invalidVictim b))) ∧
    ((newPage store ClockStrategy pool).1 = .error (.error .allPinned) ↔ Full pool) := by
  refine starved_iff hinv hclock husable fun i => ?_
  apply Maintains.bind (avoids_check i)
  intro _
  refine .bind (avoids_withVictim (.bind (avoids_flushVictim store i) fun _ => ?_)) fun _ => avoids_loadedPin _ i _
  exact .bind (avoids_io _) fun _ =>
    .bind (avoids_publish i _ _) fun _ => .pure _

theorem pin_starved {pool : BufferPool S State} (hinv : PoolInv store pool pins)
    (hclock : Over pool.frames.length pool.strategy) (husable : pool.poisoned = false)
    (habs : pool.pages.lookup page = none) :
    (∀ b, (pin store ClockStrategy page pool).1 ≠ .error (.error (.invalidVictim b))) ∧
    ((pin store ClockStrategy page pool).1 = .error (.error .allPinned) ↔ Full pool) := by
  have hload : pin store ClockStrategy page pool = locked (loadPage store ClockStrategy page) pool := by
    unfold pin locked residentPin
    simp only [Exec.bind_run, Exec.get_run, husable, Bool.false_eq_true, if_false, Exec.onPanic, habs,
      Exec.pure_run]
  rw [hload]
  refine starved_iff hinv hclock husable fun i => ?_
  apply Maintains.bind (avoids_check i)
  intro _
  apply Maintains.bind (avoids_io _)
  intro data
  exact .bind (avoids_withVictim (.bind (avoids_flushVictim store i) fun _ =>
    avoids_publish i page data)) fun _ => avoids_loadedPin _ i page

/-! ## Every client of such a pool -/

section

variable {c c' : Client S P}

/-- The policy was only consulted, and the metadata mutex is as before. -/
def Steady (policy : VictimStrategy P) (pool pool' : BufferPool S P) : Prop :=
  Attends policy pool pool' ∧ pool'.poisoned = pool.poisoned

theorem steady_setFrame (i : Nat) (frame : Frame) : Steady policy pool (setFrame i frame pool) :=
  ⟨.of_eq (by simp [setFrame]) rfl, rfl⟩

theorem PinFault.steady {was : PageId → Page → Prop} {e : Fault BufferError}
    (hf : PinFault store policy pool pool' was e) (h : InOrder store policy pool pins)
    (he : Excused policy pool e pool') : Steady policy pool pool' := by
  cases hf with
  | error _ hp => exact ⟨he.attends, hp⟩
  | panic => exact absurd h.safe (he.blame rfl)

/-- **A policy that returns never poisons the metadata mutex.** -/
theorem steady_call (hinv : InOrder store policy c.pool c.pins) {op : Call T}
    {r : Result BufferError (Returned T)} (h : c.call store policy op = some (r, c')) :
    Steady policy c.pool c'.pool := by
  have hsound := hinv.sound
  cases op with
  | newPage =>
    refine run_pool (Option.some.inj h) (((newPage_spec hsound).and (watched_newPage store c.pool)).mono
      ?_ fun e pool' he => he.1.steady hinv he.2)
    intro _ pool' hq
    exact ⟨hq.2.1, hq.1.1⟩
  | pin page =>
    refine run_pool (Option.some.inj h) (((pin_spec hsound page).and (watched_pin store page c.pool)).mono
      ?_ fun e pool' he => he.1.steady hinv he.2)
    intro _ pool' hq
    exact ⟨hq.2.1, hq.1.1⟩
  | flushPage page =>
    refine run_pool (Option.some.inj h) (((flushPage_spec hsound page).and
      (watched_flushPage store page c.pool)).mono ?_ ?_)
    · intro _ pool' hq
      exact ⟨hq.2.1, hq.1.2.2.1.poisoned⟩
    · intro _ pool' he
      exact ⟨he.2.attends, he.1.poisoned⟩
  | flushAll =>
    refine run_pool (Option.some.inj h) (((flushAll_spec hsound).and (watched_flushAll store c.pool)).mono ?_ ?_)
    · intro _ pool' hq
      exact ⟨hq.2.1, hq.1.2.1.poisoned⟩
    · intro _ pool' he
      exact ⟨he.2.attends, he.1.2.2.poisoned⟩
  | read k f =>
    cases outcome_of_call hsound h <;> exact ⟨.refl _, rfl⟩
  | write k f =>
    cases outcome_of_call hsound h with
    | write | writePanic => exact steady_setFrame _ _
    | writePoisoned => exact ⟨.refl _, rfl⟩
  | drop k =>
    cases outcome_of_call hsound h
    exact steady_setFrame _ _

end

/-- A client of a pool with its own clock. -/
structure Clocked (store : PageStore S) (c : Client S State) : Prop where
  sound : PoolInv store c.pool c.pins
  clock : Over c.pool.frames.length c.pool.strategy
  usable : c.pool.poisoned = false

theorem Attends.over {pool pool' : BufferPool S State} (h : Attends ClockStrategy pool pool')
    (hclock : Over pool.frames.length pool.strategy) :
    Over pool'.frames.length pool'.strategy := by
  have hmoved := h.moved
  rw [h.length]
  generalize pool'.strategy = clock at hmoved ⊢
  induction hmoved with
  | refl => exact hclock
  | tail _ hmove ih => exact ih.moves hmove

variable {c c' : Client S State}

theorem Clocked.inOrder (h : Clocked store c) : InOrder store ClockStrategy c.pool c.pins :=
  ⟨h.sound, ClockStrategy.safeAt h.clock⟩

theorem Clocked.call (h : Clocked store c) {op : Call T} {r : Result BufferError (Returned T)}
    (hcall : c.call store ClockStrategy op = some (r, c')) : Clocked store c' := by
  obtain ⟨hatt, hp⟩ := steady_call h.inOrder hcall
  exact ⟨(outcome_of_call h.sound hcall).inv h.sound, hatt.over h.clock, hp.trans h.usable⟩

theorem Clocked.calls (h : Clocked store c) (hcalls : Calls store ClockStrategy c c') : Clocked store c' :=
  hcalls.keeps (fun _ _ _ _ _ hc hcall => hc.call hcall) h

theorem clocked_new {capacity : Nat} {s : S} {pool : BufferPool S State}
    (h : new capacity s = .ok pool) : Clocked store ⟨pool, []⟩ := by
  obtain ⟨_, _, h⟩ := except_bind_ok.1 h
  obtain ⟨clock, hclock, h⟩ := except_bind_ok.1 h
  have hover : Over capacity clock := by
    apply ClockStrategy.new_over
    unfold Result.mapErr at hclock
    split at hclock <;> cases hclock
    assumption
  obtain ⟨hinv, husable, _⟩ := withStrategy_inv store h
  obtain ⟨_, _, hpool⟩ := except_bind_ok.1 h
  cases hpool
  refine ⟨hinv, ?_, husable⟩
  show Over (List.replicate capacity Frame.unused).length clock
  rw [List.length_replicate]
  exact hover

/-! ## One pin at a time -/

section

variable {pool : BufferPool S State} {c : Client S State} {p : PinnedBuffer}

/-- What a call of the client leaves. -/
theorem Clocked.ensures (h : Clocked store c) {op : Call T}
    {m : Exec BufferError (BufferPool S State) α} {ret : α → Returned T}
    {own : Result BufferError α → List PinnedBuffer}
    (hop : c.call store ClockStrategy op = some (c.run m ret own)) :
    Ensures m c.pool (fun a pool' => Clocked store ⟨pool', own (.ok a)⟩)
      (fun e pool' => Clocked store ⟨pool', own (.error e)⟩) := by
  refine ensures_iff.2 ⟨fun a pool' hm => ?_, fun e pool' hm => ?_⟩
  all_goals
    unfold Client.run at hop
    rw [hm] at hop
    exact h.call hop

/-- Without pins there is a frame to be had. -/
theorem Clocked.not_full (h : Clocked store ⟨pool, []⟩) : ¬ Full pool := by
  intro hfull
  have hlt : 0 < pool.frames.length := h.sound.layout.capacity.1
  have hcount := h.sound.layout.counted 0 _ (List.getElem?_eq_getElem hlt)
  have hpos := (hfull _ (List.getElem_mem hlt)).2
  rw [hcount] at hpos
  cases hpos

/-- The error of a call that fails for lack of a victim only in a full pool. -/
theorem not_starved {e : Fault BufferError} {r : Result BufferError α} (hr : r = .error e)
    (hvictim : ∀ b, r ≠ .error (.error (.invalidVictim b)))
    (hpinned : r = .error (.error .allPinned) ↔ Full pool) (hfull : ¬ Full pool) : ¬ Starved e := by
  subst hr
  intro he
  cases e with
  | panic => exact he
  | error x =>
    cases x with
    | allPinned => exact hfull (hpinned.1 rfl)
    | invalidVictim b => exact hvictim b rfl
    | _ => exact he

theorem Clocked.newPage (h : Clocked store ⟨pool, []⟩) :
    Ensures (newPage store ClockStrategy) pool (fun p pool' => Clocked store ⟨pool', [p]⟩)
      (fun e pool' => ¬ Starved e ∧ Clocked store ⟨pool', []⟩) := by
  obtain ⟨hvictim, hpinned⟩ := newPage_starved h.sound h.clock h.usable
  have hcall := h.ensures (show Client.call store ClockStrategy ⟨pool, []⟩ (.newPage : Call Unit) = _ from rfl)
  refine ensures_iff.2 ⟨fun p pool' hm => hcall.ok hm, fun e pool' hm => ⟨?_, hcall.error hm⟩⟩
  exact not_starved (congrArg Prod.fst hm) hvictim hpinned h.not_full

theorem Clocked.pin (h : Clocked store ⟨pool, []⟩) (page : PageId) :
    Ensures (pin store ClockStrategy page) pool (fun p pool' => Clocked store ⟨pool', [p]⟩)
      (fun e pool' => ¬ Starved e ∧ Clocked store ⟨pool', []⟩) := by
  have hcall := h.ensures (show Client.call store ClockStrategy ⟨pool, []⟩ (.pin page : Call Unit) = _ from rfl)
  cases habs : pool.pages.lookup page with
  | none =>
    obtain ⟨hvictim, hpinned⟩ := pin_starved h.sound h.clock h.usable habs
    refine ensures_iff.2 ⟨fun p pool' hm => hcall.ok hm, fun e pool' hm => ⟨?_, hcall.error hm⟩⟩
    exact not_starved (congrArg Prod.fst hm) hvictim hpinned h.not_full
  | some i =>
    -- no victim is looked for
    have hresident : Ensures (BufferPool.pin store ClockStrategy page) pool (fun _ _ => True)
        (fun e _ => ¬ Starved e) := by
      refine ensures_locked (fun _ => id) fun _ => .bind
        (((residentPin_spec h.sound true page fun _ _ => False).and
          (avoids_residentPin ClockStrategy true page pool trivial)).mono ?_ ?_)
      · intro r pool' hq
        rcases hq.1 with ⟨_, _, hnone⟩ | ⟨j, frame, rfl, _⟩
        · rw [habs] at hnone
          cases hnone
        · trivial
      · intro e pool' he
        cases e <;> exact he.2.1
    exact (hcall.and hresident).mono (fun _ _ hq => hq.1) (fun _ _ he => ⟨he.2, he.1⟩)

theorem Clocked.read (h : Clocked store ⟨pool, p :: pins⟩) (f : Page → Result Empty T) :
    Ensures (p.read fun data => .foreign (.lift (f data))) pool
      (fun _ pool' => Clocked store ⟨pool', p :: pins⟩)
      (fun e pool' => ¬ Starved e ∧ Clocked store ⟨pool', p :: pins⟩) :=
  ((h.ensures (show Client.call store ClockStrategy _ (.read 0 f) = _ from rfl)).and
    (avoids_read p f pool trivial)).mono
    (fun _ _ hq => hq.1) (fun _ _ he => ⟨he.2.1, he.1⟩)

theorem Clocked.write (h : Clocked store ⟨pool, p :: pins⟩) (f : Exec Empty Page T) :
    Ensures (p.write f) pool (fun _ pool' => Clocked store ⟨pool', p :: pins⟩)
      (fun e pool' => ¬ Starved e ∧ Clocked store ⟨pool', p :: pins⟩) :=
  ((h.ensures (show Client.call store ClockStrategy _ (.write 0 f) = _ from rfl)).and
    (avoids_write p f pool trivial)).mono
    (fun _ _ hq => hq.1) (fun _ _ he => ⟨he.2.1, he.1⟩)

theorem Clocked.drop (h : Clocked store ⟨pool, p :: pins⟩) :
    Ensures p.drop pool (fun _ pool' => Clocked store ⟨pool', pins⟩) (fun _ _ => False) :=
  ((h.ensures (show Client.call store ClockStrategy _ (.drop 0 : Call Unit) = _ from rfl)).and
    (service_drop h.inOrder)).mono
    (fun _ _ hq => hq.1) (fun _ _ he => he.2)

end

/-- **Clock replacement is exact second chance.**  From every clock, with its hand at a frame, `victim`
does what the rule says, and finds nothing exactly if no frame is eligible.  So in every state of a pool
built by `BufferPool::new`, `newPage` and a `pin` that has to load its page never fail with
`InvalidVictim`, and fail with `AllPinned` exactly if every frame is assigned and pinned. -/
theorem clock_is_second_chance (store : PageStore S) :
    (∀ (n : Nat) (clock : State), Over n clock →
      ∀ c : BufferId → Bool,
        victim c clock = (.ok (secondChance c clock).1,
          (secondChance c clock).2) ∧
        ((secondChance c clock).1 = none ↔ ∀ i, i < n → ClockStrategy.eligible c i = false)) ∧
    (∀ (capacity : Nat) (s : S) (pool : BufferPool S State)
      (c : Client S State), BufferPool.new capacity s = .ok pool →
      Calls store ClockStrategy ⟨pool, []⟩ c →
      ((∀ b, (newPage store ClockStrategy c.pool).1 ≠ .error (.error (.invalidVictim b))) ∧
        ((newPage store ClockStrategy c.pool).1 = .error (.error .allPinned) ↔ Full c.pool)) ∧
      ∀ page, c.pool.pages.lookup page = none →
        (∀ b, (pin store ClockStrategy page c.pool).1 ≠ .error (.error (.invalidVictim b))) ∧
        ((pin store ClockStrategy page c.pool).1 = .error (.error .allPinned) ↔ Full c.pool)) := by
  refine ⟨fun n clock h c => ⟨ClockStrategy.victim_eq h c, ClockStrategy.secondChance_none h⟩, ?_⟩
  intro capacity s pool c hnew hcalls
  obtain ⟨hsound, hclock, husable⟩ := (clocked_new hnew).calls hcalls
  exact ⟨newPage_starved hsound hclock husable, fun page habs => pin_starved hsound hclock husable habs⟩

/-- Two frames, both eligible, the one under the hand referenced; and a full pool of one frame. -/
theorem second_chance_of_two_frames :
    victim (fun _ => true) ⟨[true, false], 0⟩ = (.ok (some (.new 1)), ⟨[false, false], 0⟩) ∧
    BufferPool.new 1 ([] : MemoryPageStore.State) = .ok oneFrame ∧
    (newPage MemoryPageStore ClockStrategy onePage.pool).1 = .error (.error .allPinned) := by
  have h := clock_is_second_chance MemoryPageStore
  refine ⟨(h.1 2 ⟨[true, false], 0⟩ ⟨rfl, fun _ => by decide⟩ _).1, rfl, ?_⟩
  have hcalls : Calls MemoryPageStore ClockStrategy ⟨oneFrame, []⟩ onePage :=
    (Calls.refl _).call (show Client.call MemoryPageStore ClockStrategy ⟨oneFrame, []⟩
      (.newPage : Call Unit) = some (.ok (.pinned ⟨bufferId 0, 0⟩), onePage) from rfl)
  refine (h.2 1 [] oneFrame onePage rfl hcalls).1.2.2 ?_
  intro frame hframe
  cases List.mem_singleton.1 hframe
  exact ⟨rfl, Nat.one_pos⟩

end ChiliDB

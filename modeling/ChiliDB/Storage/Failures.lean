import ChiliDB.Storage.BufferRuns

/-!
# Failed calls of the pool

`BufferSpec` and `BufferCalls` say what a failed call leaves of frames, page map and stored bytes.  Here
is what it leaves of the policy, and which stored page a failed flush can touch.

* `Asked` — the policy has heard nothing, or one question for a victim.
* `preserves_*` — the parts of a call that do not touch the policy.

Principal result: `failed_calls_change_nothing`.
-/

namespace ChiliDB

open Effect BufferPool
open Exec (Preserves Ensures ensures_iff)

variable {S P α τ : Type} {store : PageStore S} {policy : VictimStrategy P}
  {pool pool' : BufferPool S P} {page : PageId}

/-! ## Parts of a call that leave the policy alone -/

section

/-- A view of the pool that does not show its frame `i`, its page map or its poison flag. -/
structure Blind (i : Nat) (view : BufferPool S P → τ) : Prop where
  frame : ∀ frame pool, view (setFrame i frame pool) = view pool
  poisonFrame : ∀ pool, view (poisonFrame i pool) = view pool
  pages : ∀ pool pages, view { pool with pages := pages } = view pool
  poisoned : ∀ pool, view (poison pool) = view pool

theorem blind_strategy (i : Nat) : Blind i (fun pool : BufferPool S P => pool.strategy) :=
  ⟨fun _ _ => rfl, fun _ => rfl, fun _ _ => rfl, fun _ => rfl⟩

variable {view : BufferPool S P → τ} {m : PoolM S P α} {i : Nat}

theorem preserves_desc (i : Nat) : Preserves view (desc i : PoolM S P Frame) :=
  .bind .get fun _ => .lift _

theorem preserves_update (hview : Blind i view) (f : Frame → Frame) :
    Preserves view (update i f : PoolM S P Unit) :=
  .bind (preserves_desc i) fun _ => .modify (hview.frame _)

theorem preserves_check (i : Nat) : Preserves view (check i : PoolM S P Unit) := by
  apply Preserves.bind .get
  intro pool
  split
  · exact .fail _
  · apply Preserves.bind (preserves_desc i)
    intro frame
    split
    · exact .fail _
    · exact .pure ()

theorem preserves_locked (hview : ∀ pool, view (poison pool) = view pool) (h : Preserves view m) :
    Preserves view (locked m) := by
  apply Preserves.bind .get
  intro pool
  split
  · exact .fail _
  · exact .onPanic h hview

theorem preserves_latched (hview : Blind i view) (h : Preserves view m) : Preserves view (latched i m) := by
  apply Preserves.bind (preserves_desc i)
  intro frame
  split
  · exact .fail _
  · exact .onPanic (.bind (preserves_check i) fun _ => h) hview.poisonFrame

theorem preserves_drop {pin : PinnedBuffer} (hview : Blind pin.index.get.toNat view) :
    Preserves view (pin.drop : PoolM S P Unit) :=
  .bind (preserves_desc _) fun _ =>
    .bind (.modify (hview.frame _)) fun _ => .lift _

theorem preserves_io {f : S → Except IoError α × S}
    (h : ∀ pool : BufferPool S P, view { pool with store := (f pool.store).2 } = view pool) :
    Preserves view (io f : PoolM S P α) := by
  intro pool
  have hs := h pool
  unfold io
  rcases hf : f pool.store with ⟨r, s⟩
  rw [hf] at hs
  cases r <;> exact hs

theorem preserves_consult (hview : ∀ pool p, view { pool with strategy := p } = view pool) (m : Exec Empty P α) :
    Preserves view (consult m) := by
  intro pool
  unfold consult Exec.foreign Exec.zoom
  rcases m pool.strategy with ⟨(e | p) | a, p'⟩
  · exact e.elim
  · exact hview pool p'
  · exact hview pool p'

theorem preserves_residentPin (policy : VictimStrategy P) {recordAccess : Bool} (page : PageId)
    (hview : ∀ i, Blind i view)
    (hrecord : recordAccess = true → ∀ pool p, view { pool with strategy := p } = view pool) :
    Preserves view (residentPin policy recordAccess page) := by
  apply Preserves.bind .get
  intro pool
  split
  · exact .pure _
  · apply Preserves.bind (preserves_desc _)
    intro frame
    split
    · apply Preserves.bind (.modify ((hview _).frame _))
      intro _
      refine .bind (.unwind ?_ (preserves_drop (hview _))) fun _ => .pure _
      split
      · rename_i hr
        exact preserves_consult (hrecord hr) _
      · exact .pure ()
    · exact .fail _

theorem preserves_withVictim (hview : Blind i view) (h : Preserves view m) : Preserves view (withVictim i m) :=
  .bind (preserves_desc i) fun _ =>
    .bind (.lift _) fun _ => preserves_latched hview h

theorem preserves_publish (hview : Blind i view) (page : PageId) (data : Page) :
    Preserves view (publish i page data : PoolM S P Unit) := by
  apply Preserves.bind (preserves_update hview _)
  intro _
  refine .bind (.bind ?_ fun _ => ?_) fun _ => preserves_update hview _
  · apply Preserves.bind (preserves_desc i)
    intro frame
    split
    · exact .modify fun _ => hview.pages _ _
    · exact .bind .get fun _ => .lift _
  · exact .bind (preserves_update hview _) fun _ =>
      .modify fun _ => hview.pages _ _

theorem preserves_flushVictim (store : PageStore S) (i : Nat) :
    Preserves (fun pool : BufferPool S P => pool.strategy) (flushVictim store i) := by
  apply Preserves.bind (preserves_desc i)
  intro frame
  split
  · exact preserves_io fun _ => rfl
  · exact .pure ()

end

/-! ## What the policy has heard of a failed call -/

/-- The policy's state is as before, or as its answer to one question for a victim left it. -/
def Asked (policy : VictimStrategy P) (pool pool' : BufferPool S P) : Prop :=
  pool'.strategy = pool.strategy ∨
    ∃ r, policy.victim (canEvict pool.frames) pool.strategy = (r, pool'.strategy)

/-- A returned error, as the policy sees it. -/
def AskedOnError (policy : VictimStrategy P) (pool : BufferPool S P) (e : Fault BufferError)
    (pool' : BufferPool S P) : Prop :=
  ∀ x, e = .error x → Asked policy pool pool'

theorem victim_asked (pool : BufferPool S P) :
    Ensures (victim policy) pool (fun _ => Asked policy pool) (AskedOnError policy pool) := by
  refine .bind (.get ?_)
  split
  · exact .inl rfl
  · refine .bind (.foreign (.zoom (ensures_iff.2 ⟨fun answer p hm => ?_, fun e p hm x hx => ?_⟩)))
    · have hasked : Asked policy pool { pool with strategy := p } := .inr ⟨_, hm⟩
      cases answer with
      | none => exact fun _ _ => hasked
      | some buffer =>
        show Ensures (if !canEvict pool.frames buffer then _ else _) _ _ _
        split
        · exact fun _ _ => hasked
        · exact hasked
    · cases hx

/-- A returned error comes with the policy as it was. -/
def Silent (m : PoolM S P α) : Prop :=
  ∀ pool, Ensures m pool (fun _ _ => True)
    (fun e pool' => ∀ x, e = .error x → pool'.strategy = pool.strategy)

theorem silent_bind {β : Type} {m : PoolM S P α} {f : α → PoolM S P β}
    (h : Preserves (fun pool : BufferPool S P => pool.strategy) m) (hf : ∀ a, Silent (f a)) :
    Silent (m >>= f) := by
  intro pool
  have hkeep := h pool
  refine .bind (ensures_iff.2 ⟨fun a pool1 hm => ?_, fun e pool1 hm x _ => ?_⟩)
  · rw [hm] at hkeep
    refine (hf a pool1).mono (fun _ _ _ => trivial) ?_
    intro e pool2 he x hx
    exact (he x hx).trans hkeep
  · rw [hm] at hkeep
    exact hkeep

/-- The computation does not end in a returned error. -/
def Unreturned (e : Fault BufferError) (_ : BufferPool S P) : Prop := ∀ x, e ≠ .error x

theorem desc_unreturned (i : Nat) (pool : BufferPool S P) :
    Ensures (desc i) pool (fun _ pool' => pool' = pool) Unreturned := by
  refine .bind (.get (Exec.ensures_lift.2 ⟨fun _ _ => rfl, fun e he x hx => ?_⟩))
  unfold Result.index at he
  split at he <;> cases he
  cases hx

theorem drop_unreturned (pin : PinnedBuffer) (pool : BufferPool S P) :
    Ensures pin.drop pool (fun _ _ => True) Unreturned := by
  refine .bind ((desc_unreturned _ pool).mono (fun frame pool1 _ => ?_) fun _ _ he => he)
  refine .bind (Exec.ensures_modify.2 (Exec.ensures_lift.2 ⟨fun _ _ => trivial, fun e he x hx => ?_⟩))
  unfold Result.assert at he
  split at he <;> cases he
  cases hx

/-- An event that the policy hears of once the pin is owned. -/
theorem announce_unreturned (m : Exec Empty P Unit) (pin : PinnedBuffer) (pool : BufferPool S P) :
    Ensures (.unwind (consult m) pin.drop) pool (fun _ _ => True) Unreturned := by
  refine .unwind (.foreign (ensures_iff.2 ⟨fun _ _ _ => trivial, fun e pool1 _ => ?_⟩))
  refine (drop_unreturned pin pool1).mono (fun _ _ _ x hx => ?_) (fun _ _ he => he)
  cases hx

/-- A load event is never followed by a returned error. -/
theorem silent_loadedPin (policy : VictimStrategy P) (i : Nat) (page : PageId) :
    Silent (loadedPin policy i page : PoolM S P PinnedBuffer) :=
  fun pool => .bind ((announce_unreturned _ _ pool).mono (fun _ _ _ => trivial) fun _ _ he x hx => absurd hx (he x))

/-- The rest of a call that starts by choosing a victim. -/
theorem asked_after_victim {rest : Nat → PoolM S P α}
    (hrest : ∀ i, Silent (rest i)) (pool : BufferPool S P) :
    Ensures (victim policy >>= rest) pool (fun _ _ => True) (AskedOnError policy pool) := by
  refine .bind ((victim_asked pool).mono ?_ (fun _ _ he => he))
  intro i pool1 hasked
  refine (hrest i pool1).mono (fun _ _ _ => trivial) ?_
  intro e pool2 he x hx
  unfold Asked at *
  rw [he x hx]
  exact hasked

/-- Under the metadata mutex. -/
theorem asked_locked {m : PoolM S P α} (h : Ensures m pool (fun _ _ => True) (AskedOnError policy pool)) :
    Ensures (locked m) pool (fun _ _ => True) (AskedOnError policy pool) := by
  refine ensures_locked (fun _ _ _ => .inl rfl) fun _ => h.mono (fun _ _ _ => trivial) ?_
  intro e pool' he
  cases e with
  | error x => exact he
  | panic p => exact fun x hx => by cases hx

theorem newPage_asked (store : PageStore S) (pool : BufferPool S P) :
    Ensures (newPage store policy) pool (fun _ _ => True) (AskedOnError policy pool) := by
  refine asked_locked (asked_after_victim (fun i => ?_) pool)
  apply silent_bind (preserves_check i)
  intro _
  refine silent_bind (preserves_withVictim (blind_strategy i) ?_) fun page =>
    silent_loadedPin policy i page
  apply Preserves.bind (preserves_flushVictim store i)
  intro _
  apply Preserves.bind (preserves_io fun _ => rfl)
  intro page
  exact .bind (preserves_publish (blind_strategy i) page _) fun _ => .pure _

theorem loadPage_asked (store : PageStore S) (page : PageId) (pool : BufferPool S P) :
    Ensures (loadPage store policy page) pool (fun _ _ => True) (AskedOnError policy pool) := by
  refine asked_after_victim (fun i => ?_) pool
  apply silent_bind (preserves_check i)
  intro _
  apply silent_bind (preserves_io fun _ => rfl)
  intro data
  refine silent_bind (preserves_withVictim (blind_strategy i) ?_) fun _ => silent_loadedPin policy i page
  exact .bind (preserves_flushVictim store i) fun _ =>
    preserves_publish (blind_strategy i) page data

/-- An absent page leaves the pool alone, and a count that would overflow is refused before the policy
hears of it. -/
theorem residentPin_asked (recordAccess : Bool) (page : PageId) (pool : BufferPool S P) :
    Ensures (residentPin policy recordAccess page) pool
      (fun r pool' => r = none → pool' = pool) (AskedOnError policy pool) := by
  refine .bind (.get ?_)
  split
  · exact fun _ => rfl
  · rename_i i _
    refine .bind ((desc_unreturned i pool).mono ?_ fun _ _ he x hx => absurd hx (he x))
    intro frame pool1 hpool
    subst hpool
    split
    · refine .bind (Exec.ensures_modify.2 (.bind ?_))
      cases recordAccess with
      | false => exact fun hr => by cases hr
      | true =>
        exact (announce_unreturned _ _ _).mono (fun _ _ _ hr => by cases hr) fun _ _ he x hx => absurd hx (he x)
    · exact fun _ _ => .inl rfl

theorem pin_asked (store : PageStore S) (page : PageId) (pool : BufferPool S P) :
    Ensures (pin store policy page) pool (fun _ _ => True) (AskedOnError policy pool) := by
  refine asked_locked (.bind ((residentPin_asked true page pool).mono ?_ fun _ _ he => he))
  intro r pool1 hr
  cases r with
  | some pin => trivial
  | none =>
    rw [hr rfl]
    exact loadPage_asked store page pool

/-! ## A flush -/

/-- What a flush of `page` must leave alone: the policy and the other stored pages. -/
def beyond (store : PageStore S) (page : PageId) (pool : BufferPool S P) :
    P × ({ other : PageId // other ≠ page } → Option Page) :=
  (pool.strategy, fun other => store.content pool.store other)

theorem blind_beyond (store : PageStore S) (page : PageId) (i : Nat) :
    Blind i (beyond store page : BufferPool S P → _) :=
  ⟨fun _ _ => rfl, fun _ => rfl, fun _ _ => rfl, fun _ => rfl⟩

theorem preserves_writePage (store : PageStore S) (page : PageId) (data : Page) :
    Preserves (beyond store page) (io (store.writePage page data) : PoolM S P Unit) := by
  refine preserves_io fun pool => Prod.ext rfl (funext fun other => ?_)
  rcases hw : store.writePage page data pool.store with ⟨r, s⟩
  show store.content s other = store.content pool.store other
  cases r with
  | ok _ => rw [store.writePage_ok hw, Function.update_of_ne other.2]
  | error e => exact (store.writePage_error hw).1 other other.2

theorem preserves_flushPage (store : PageStore S) (policy : VictimStrategy P) (page : PageId) :
    Preserves (beyond store page) (flushPage store policy page) := by
  have hblind : ∀ i, Blind i (beyond store page : BufferPool S P → _) := blind_beyond store page
  refine .bracket (preserves_locked (hblind 0).poisoned
    (preserves_residentPin policy page hblind fun hr => by cases hr)) ?_ ?_
  · intro r
    cases r with
    | none => exact .pure _
    | some pin =>
      refine .bind ?_ fun _ => .pure _
      apply Preserves.bind (preserves_desc _)
      intro frame
      split
      · exact .fail _
      · apply Preserves.bind (preserves_check _)
        intro _
        apply Preserves.bind (preserves_desc _)
        intro frame'
        split
        · exact .bind (preserves_writePage store page _) fun _ =>
            preserves_update (hblind _) _
        · exact .pure _
  · intro r
    cases r with
    | none => exact .pure _
    | some pin => exact preserves_drop (hblind _)

/-! ## Every failed call -/

/-- What a failed `pin` or `newPage` leaves: the page map and every frame with its tag, bytes, dirty bit
and count as they were, no page more or less in the store, and a policy that was asked for a victim at
most. -/
structure Failed (store : PageStore S) (policy : VictimStrategy P) (pool pool' : BufferPool S P) :
    Prop where
  frames : pool'.frames = pool.frames
  pages : pool'.pages = pool.pages
  poisoned : pool'.poisoned = pool.poisoned
  allocated : ∀ id, (store.content pool'.store id).isSome = (store.content pool.store id).isSome
  asked : Asked policy pool pool'

theorem PinFault.failed {was : PageId → Page → Prop} {x : BufferError}
    (h : PinFault store policy pool pool' was (.error x)) (hasked : Asked policy pool pool') :
    Failed store policy pool pool' := by
  cases h with
  | error hu hp => exact ⟨hu.frames, hu.pages, hp, hu.torn.isSome, hasked⟩

/-- **Failed calls of the pool change nothing**, in every reachable state, for every policy and every
failure of the store.  After a failed `flushPage` only the stored bytes of its page may differ. -/
theorem failed_calls_change_nothing {c : Client S P} {panicked : Bool}
    (h : Run store policy c panicked) (x : BufferError) (pool' : BufferPool S P) (page : PageId) :
    (pin store policy page c.pool = (.error (.error x), pool') → Failed store policy c.pool pool') ∧
    (newPage store policy c.pool = (.error (.error x), pool') → Failed store policy c.pool pool') ∧
    (flushPage store policy page c.pool = (.error (.error x), pool') →
      pool'.frames = c.pool.frames ∧ pool'.pages = c.pool.pages ∧
      pool'.poisoned = c.pool.poisoned ∧ pool'.strategy = c.pool.strategy ∧
      (∀ other, other ≠ page → store.content pool'.store other = store.content c.pool.store other) ∧
      (store.content pool'.store page).isSome = (store.content c.pool.store page).isSome) := by
  have hinv := h.inv
  refine ⟨fun hrun => ?_, fun hrun => ?_, fun hrun => ?_⟩
  · exact ((pin_spec hinv page).error hrun).failed ((pin_asked store page c.pool).error hrun x rfl)
  · exact ((newPage_spec hinv).error hrun).failed ((newPage_asked store c.pool).error hrun x rfl)
  · obtain ⟨_, hu, hp⟩ := (flushPage_spec hinv page).error hrun
    have hbeyond := preserves_flushPage store policy page c.pool
    rw [hrun] at hbeyond
    have hstrategy := congrArg Prod.fst hbeyond
    have hcontent := congrArg Prod.snd hbeyond
    exact ⟨hu.frames, hu.pages, hp, hstrategy,
      fun other hne => congrFun hcontent ⟨other, hne⟩, hu.torn.isSome page⟩

/-- The pool of one page after its write callback panicked before it changed a byte. -/
def poisonedPage : Client MemoryPageStore.State ClockStrategy.State :=
  ⟨{ onePage.pool with frames := [⟨Page.zero, some 0, 1, true, true⟩] }, onePage.pins⟩

/-- A write callback that panics at once. -/
def panicAtOnce : Exec Empty Page Unit := Exec.lift (.error (.panic .assertion))

theorem poisonedPage_call : onePage.call MemoryPageStore ClockStrategy (.write 0 panicAtOnce) =
    some (.error (.panic .foreign), poisonedPage) := rfl

theorem poisonedPage_run : Run MemoryPageStore ClockStrategy poisonedPage true :=
  onePage_run.call poisonedPage_call

theorem failed_calls_of_poisoned_page :
    pin MemoryPageStore ClockStrategy 5 poisonedPage.pool =
      (.error (.error .allPinned), poisonedPage.pool) ∧
    newPage MemoryPageStore ClockStrategy poisonedPage.pool =
      (.error (.error .allPinned), poisonedPage.pool) ∧
    Failed MemoryPageStore ClockStrategy poisonedPage.pool poisonedPage.pool ∧
    flushPage MemoryPageStore ClockStrategy 0 poisonedPage.pool =
      (.error (.error .poisoned), poisonedPage.pool) ∧
    (MemoryPageStore.content poisonedPage.pool.store 0).isSome = true := by
  have h := failed_calls_change_nothing poisonedPage_run .allPinned poisonedPage.pool 5
  have hflush := (failed_calls_change_nothing poisonedPage_run .poisoned poisonedPage.pool 0).2.2 rfl
  exact ⟨rfl, rfl, ⟨(h.1 rfl).frames, (h.2.1 rfl).pages, (h.1 rfl).poisoned, (h.2.1 rfl).allocated,
    (h.2.1 rfl).asked⟩, rfl, hflush.2.2.2.2.2⟩

end ChiliDB

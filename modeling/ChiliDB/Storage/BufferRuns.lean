import ChiliDB.Storage.BufferCalls

/-!
# Runs of the buffer pool

A client makes any finite sequence of calls on a pool of any capacity, over any page store that meets
the contract and under any policy.  Every store call may fail, the policy may answer anything or
panic, and so may the client's callbacks.

* `Outcome` — what one call can do, and `outcome_of_call` — it does nothing else.
* `Run` — the clients a pool can reach; its flag says whether a call has panicked so far.
* `PageArray.Step` — the plain page array the pool stands for.

Principal results:

* `pool_layout_and_pin_safety` — the structural invariant holds in every state, a pinned frame keeps
  its page and its bytes change only by a write callback, and no assertion of the pool fails.
* `pool_refines_page_array` — every call is a step of the page array on the logical contents.
-/

namespace ChiliDB

open Effect BufferPool List
open Function (update update_eq_self)

variable {S P T : Type} {store : PageStore S} {policy : VictimStrategy P}

/-- What one call can do. -/
inductive Outcome (store : PageStore S) (policy : VictimStrategy P) (c : Client S P) :
    Call T → Result BufferError (Returned T) → Client S P → Prop where
  | newPage {pool : BufferPool S P} {i : Nat} {frame : Frame} {page : PageId} :
      store.content c.pool.store page = none →
      Loaded store c.pool pool i frame page Page.zero 1 → pool.poisoned = c.pool.poisoned →
      Outcome store policy c .newPage (.ok (.pinned ⟨bufferId i, page⟩))
        ⟨pool, ⟨bufferId i, page⟩ :: c.pins⟩
  | newPageFault {pool : BufferPool S P} {e : Fault BufferError} :
      PinFault store policy c.pool pool
        (fun page data => store.content c.pool.store page = none ∧ data = Page.zero) e →
      Outcome store policy c .newPage (.error e) ⟨pool, c.pins⟩
  | pinHit {pool : BufferPool S P} {i : Nat} {frame : Frame} {page : PageId} :
      Hit c.pool pool i frame page →
      Outcome store policy c (.pin page) (.ok (.pinned ⟨bufferId i, page⟩))
        ⟨pool, ⟨bufferId i, page⟩ :: c.pins⟩
  | pinLoad {pool : BufferPool S P} {i : Nat} {frame : Frame} {page : PageId} {data : Page} :
      store.content c.pool.store page = some data →
      Loaded store c.pool pool i frame page data 1 → pool.poisoned = c.pool.poisoned →
      Outcome store policy c (.pin page) (.ok (.pinned ⟨bufferId i, page⟩))
        ⟨pool, ⟨bufferId i, page⟩ :: c.pins⟩
  | pinFault {pool : BufferPool S P} {page : PageId} {e : Fault BufferError} :
      PinFault store policy c.pool pool
        (fun q data => q = page ∧ store.content c.pool.store q = some data) e →
      Outcome store policy c (.pin page) (.error e) ⟨pool, c.pins⟩
  | read {k : Nat} {f : Page → Result Empty T} {pin : PinnedBuffer} {frame : Frame} {v : T} :
      c.pins[k]? = some pin → c.pool.frames[pin.index.get.toNat]? = some frame →
      f frame.data = .ok v → Outcome store policy c (.read k f) (.ok (.value v)) c
  | readPoisoned {k : Nat} {f : Page → Result Empty T} {pin : PinnedBuffer} {frame : Frame} :
      c.pins[k]? = some pin → c.pool.frames[pin.index.get.toNat]? = some frame →
      c.pool.poisoned = true ∨ frame.poisoned = true →
      Outcome store policy c (.read k f) (.error (.error .poisoned)) c
  | readPanic {k : Nat} {f : Page → Result Empty T} {pin : PinnedBuffer} {frame : Frame}
      {p : Panic} :
      c.pins[k]? = some pin → c.pool.frames[pin.index.get.toNat]? = some frame →
      f frame.data = .error (.panic p) →
      Outcome store policy c (.read k f) (.error (.panic .foreign)) c
  | write {k : Nat} {f : Exec Empty Page T} {pin : PinnedBuffer} {frame : Frame} {v : T} :
      c.pins[k]? = some pin → c.pool.frames[pin.index.get.toNat]? = some frame →
      (f frame.data).1 = .ok v →
      Outcome store policy c (.write k f) (.ok (.value v))
        ⟨setFrame pin.index.get.toNat { frame with data := (f frame.data).2, dirty := true } c.pool, c.pins⟩
  | writePoisoned {k : Nat} {f : Exec Empty Page T} {pin : PinnedBuffer} {frame : Frame} :
      c.pins[k]? = some pin → c.pool.frames[pin.index.get.toNat]? = some frame →
      c.pool.poisoned = true ∨ frame.poisoned = true →
      Outcome store policy c (.write k f) (.error (.error .poisoned)) c
  | writePanic {k : Nat} {f : Exec Empty Page T} {pin : PinnedBuffer} {frame : Frame} {p : Panic} :
      c.pins[k]? = some pin → c.pool.frames[pin.index.get.toNat]? = some frame →
      (f frame.data).1 = .error (.panic p) →
      Outcome store policy c (.write k f) (.error (.panic .foreign))
        ⟨setFrame pin.index.get.toNat
          { frame with data := (f frame.data).2, dirty := true, poisoned := true } c.pool, c.pins⟩
  | drop {k : Nat} {pin : PinnedBuffer} {frame : Frame} :
      c.pins[k]? = some pin → c.pool.frames[pin.index.get.toNat]? = some frame →
      Outcome store policy c (.drop k) (.ok .unit)
        ⟨setFrame pin.index.get.toNat { frame with pins := frame.pins - 1 } c.pool, c.pins.eraseIdx k⟩
  | flushPage {page : PageId} {pool : BufferPool S P} {resident : Bool} :
      PoolInv store pool c.pins → Flushed store c.pool pool →
      Outcome store policy c (.flushPage page) (.ok (.flushed resident)) ⟨pool, c.pins⟩
  | flushPageFault {page : PageId} {pool : BufferPool S P} {x : BufferError} :
      PoolInv store pool c.pins → Flushed store c.pool pool →
      Outcome store policy c (.flushPage page) (.error (.error x)) ⟨pool, c.pins⟩
  | flushAll {pool : BufferPool S P} : PoolInv store pool c.pins → Flushed store c.pool pool →
      Outcome store policy c .flushAll (.ok .unit) ⟨pool, c.pins⟩
  | flushAllFault {pool : BufferPool S P} {x : BufferError} :
      PoolInv store pool c.pins → Flushed store c.pool pool →
      Outcome store policy c .flushAll (.error (.error x)) ⟨pool, c.pins⟩

variable {c c' : Client S P} {r : Result BufferError (Returned T)}
  {k : Nat} {α : Type} {m : PoolM S P α} {ret : α → Returned T}
  {own : Result BufferError α → List PinnedBuffer}

/-- A live pin's frame. -/
theorem PoolInv.frame_of_pin (h : PoolInv store c.pool c.pins) {pin : PinnedBuffer} (hk : c.pins[k]? = some pin) :
    ∃ frame, c.pool.frames[pin.index.get.toNat]? = some frame ∧ frame.tag = some pin.page :=
  h.layout.live pin (mem_of_getElem? hk)

theorem PoolInv.tag_of_pin (h : PoolInv store c.pool c.pins) {pin : PinnedBuffer} {frame : Frame}
    (hk : c.pins[k]? = some pin) (hi : c.pool.frames[pin.index.get.toNat]? = some frame) :
    frame.tag = some pin.page := by
  obtain ⟨g, hg, ht⟩ := h.frame_of_pin hk
  rw [hi] at hg
  cases hg
  exact ht

variable {op : Call T}

/-- `Client.run` through the specification of the call it makes. -/
theorem run_ensures {Q : Result BufferError (Returned T) → Client S P → Prop} (hrun : c.run m ret own = (r, c'))
    (h : Exec.Ensures m c.pool (fun a pool => Q (.ok (ret a)) ⟨pool, own (.ok a)⟩)
      (fun e pool => Q (.error e) ⟨pool, own (.error e)⟩)) : Q r c' := by
  unfold Exec.Ensures at h
  unfold Client.run at hrun
  rcases hm : m c.pool with ⟨a, pool⟩
  rw [hm] at h hrun
  obtain ⟨rfl, rfl⟩ := Prod.mk.inj hrun
  cases a <;> exact h

theorem run_pool {Q : BufferPool S P → Prop} (hrun : c.run m ret own = (r, c'))
    (h : Exec.Ensures m c.pool (fun _ => Q) (fun _ => Q)) : Q c'.pool :=
  run_ensures (Q := fun _ c => Q c.pool) hrun h

/-- **Every call does one of these.** -/
theorem outcome_of_call (hinv : PoolInv store c.pool c.pins) (h : c.call store policy op = some (r, c')) :
    Outcome store policy c op r c' := by
  cases op with
  | newPage =>
    refine run_ensures (Option.some.inj h) ((newPage_spec hinv).mono ?_ (fun e pool hf => .newPageFault hf))
    rintro ⟨_, page⟩ pool ⟨hp, i, frame, rfl, hfresh, hl⟩
    exact .newPage hfresh hl hp
  | pin page =>
    refine run_ensures (Option.some.inj h) ((pin_spec hinv page).mono ?_ (fun e pool hf => .pinFault hf))
    rintro _ pool ⟨hp, i, frame, rfl, hhit | ⟨data, hstored, hl⟩⟩
    · exact .pinHit hhit
    · exact .pinLoad hstored hl hp
  | read k f =>
    obtain ⟨pin, hk, hr⟩ := Option.map_eq_some_iff.1 h
    obtain ⟨frame, hi, _⟩ := hinv.frame_of_pin hk
    refine run_ensures hr (ensures_read hi (fun hp => .readPoisoned hk hi hp) (fun _ _ => ?_))
    refine .foreign (Exec.ensures_lift.2 ⟨fun v hv => .read hk hi hv, fun e he => ?_⟩)
    rcases e with e | p
    · exact e.elim
    · exact .readPanic hk hi he
  | write k f =>
    obtain ⟨pin, hk, hr⟩ := Option.map_eq_some_iff.1 h
    obtain ⟨frame, hi, _⟩ := hinv.frame_of_pin hk
    refine run_ensures hr ((write_spec f hi).mono ?_ ?_)
    · rintro v pool ⟨hv, rfl⟩
      exact .write hk hi hv
    · rintro e pool (⟨rfl, hp, rfl⟩ | ⟨rfl, ⟨p, hp⟩, rfl⟩)
      · exact .writePoisoned hk hi hp
      · exact .writePanic hk hi hp
  | drop k =>
    obtain ⟨pin, hk, hr⟩ := Option.map_eq_some_iff.1 h
    obtain ⟨frame, hi, _⟩ := hinv.frame_of_pin hk
    exact run_ensures hr (ensures_drop hi (hinv.layout.unpinned hk hi).1 (.drop hk hi))
  | flushPage page =>
    refine run_ensures (Option.some.inj h) ((flushPage_spec hinv page).mono ?_ ?_)
    · rintro _ pool ⟨_, hinv', hf, _⟩
      exact .flushPage hinv' hf
    · rintro _ pool ⟨⟨x, rfl⟩, hu, hp⟩
      exact .flushPageFault (hinv.unchanged hu) (.of_unchanged hu hinv hp)
  | flushAll =>
    refine run_ensures (Option.some.inj h) ((flushAll_spec hinv).mono ?_ ?_)
    · rintro _ pool ⟨hinv', hf, _⟩
      exact .flushAll hinv' hf
    · rintro _ pool ⟨⟨x, rfl⟩, hinv', hf⟩
      exact .flushAllFault hinv' hf

/-! ## The invariant along a run -/

variable {pool pool' : BufferPool S P} {pins : List PinnedBuffer} {i : Nat} {frame frame' : Frame}
  {page : PageId}

theorem Coherent.set {content : Pages} {frames : List Frame} (h : Coherent content frames)
    (hi : frames[i]? = some frame) (ht : frame'.tag = frame.tag)
    (hd : frame'.dirty = false → frame.dirty = false ∧ frame'.data = frame.data) :
    Coherent content (frames.set i frame') := by
  refine ⟨fun j g q hg hq => ?_, fun j g q hg hq hclean => ?_⟩
  · rcases frame_of_set hg with ⟨rfl, rfl⟩ | ⟨_, hg⟩
    · exact h.allocated j frame q hi (ht ▸ hq)
    · exact h.allocated j g q hg hq
  · rcases frame_of_set hg with ⟨rfl, rfl⟩ | ⟨_, hg⟩
    · rw [(hd hclean).2]
      exact h.clean j frame q hi (ht ▸ hq) (hd hclean).1
    · exact h.clean j g q hg hq hclean

variable {was : PageId → Page → Prop} {e : Fault BufferError}

theorem PinFault.inv (h : PinFault store policy pool pool' was e) (hinv : PoolInv store pool pins) :
    PoolInv store pool' pins := by
  cases h with
  | error hu _ => exact hinv.unchanged hu
  | panic _ hs =>
    rcases hs with hu | ⟨i, frame, page, data, _, hl⟩
    · exact hinv.unchanged hu
    · exact hl.inv_unpinned hinv

theorem Hit.inv (h : Hit pool pool' i frame page) (hinv : PoolInv store pool pins) :
    PoolInv store pool' (⟨bufferId i, page⟩ :: pins) := by
  refine ⟨?_, ?_⟩
  · rw [h.frames, h.pages]
    exact hinv.layout.pinned h.resident h.tag h.room
  · rw [h.frames, h.store]
    exact hinv.coherent.set h.resident rfl (fun hd => ⟨hd, rfl⟩)

/-- **Every call keeps the invariant.** -/
theorem Outcome.inv (h : Outcome store policy c op r c') (hinv : PoolInv store c.pool c.pins) :
    PoolInv store c'.pool c'.pins := by
  cases h with
  | newPage _ hl _ | pinLoad _ hl _ => exact hl.inv_pinned hinv
  | newPageFault hf | pinFault hf => exact hf.inv hinv
  | pinHit hhit => exact hhit.inv hinv
  | read | readPoisoned | readPanic | writePoisoned => exact hinv
  | write hk hi _ | writePanic hk hi _ =>
    have ht := hinv.tag_of_pin hk hi
    exact ⟨hinv.layout.touch hi rfl rfl (fun hn => by rw [hn] at ht; cases ht),
      hinv.coherent.set hi rfl (fun hd => by cases hd)⟩
  | drop hk hi =>
    exact ⟨(hinv.layout.unpinned hk hi).2, hinv.coherent.set hi rfl (fun hd => ⟨hd, rfl⟩)⟩
  | flushPage hinv' _ | flushPageFault hinv' _ | flushAll hinv' _ | flushAllFault hinv' _ => exact hinv'

/-- The clients a pool can reach, and whether a call has panicked on the way. -/
inductive Run (store : PageStore S) (policy : VictimStrategy P) : Client S P → Bool → Prop where
  | start {capacity : Nat} {s : S} {p : P} {pool : BufferPool S P} :
      withStrategy capacity s p = .ok pool → Run store policy ⟨pool, []⟩ false
  | call {c c' : Client S P} {panicked : Bool} {T : Type} {op : Call T}
      {r : Result BufferError (Returned T)} : Run store policy c panicked →
      c.call store policy op = some (r, c') →
      Run store policy c' (panicked || match r with | .error (.panic _) => true | _ => false)

theorem withStrategy_inv (store : PageStore S) {capacity : Nat} {s : S} {p : P}
    (h : withStrategy capacity s p = .ok pool) :
    PoolInv store pool [] ∧ pool.poisoned = false ∧
      ∀ (i : Nat) (frame : Frame), pool.frames[i]? = some frame → frame.poisoned = false := by
  obtain ⟨_, hv, hp⟩ := except_bind_ok.1 h
  cases hp
  unfold validateCapacity at hv
  split at hv
  · cases hv
  · rename_i hcap
    have hget : ∀ (i : Nat) (frame : Frame),
        (replicate capacity Frame.unused)[i]? = some frame → frame = Frame.unused :=
      fun i frame hi => eq_of_mem_replicate (mem_of_getElem? hi)
    refine ⟨⟨.start (by omega) (by omega), fun i frame page hi ht => ?_,
      fun i frame page hi ht => ?_⟩, rfl, fun i frame hi => by rw [hget i frame hi]; rfl⟩
    · rw [hget i frame hi] at ht; cases ht
    · rw [hget i frame hi] at ht; cases ht

variable {panicked : Bool}

theorem Run.inv (h : Run store policy c panicked) : PoolInv store c.pool c.pins := by
  induction h with
  | start hs => exact (withStrategy_inv store hs).1
  | call _ hc ih => exact (outcome_of_call ih hc).inv ih

/-- The second client is the first after some calls. -/
inductive Calls (store : PageStore S) (policy : VictimStrategy P) : Client S P → Client S P → Prop where
  | refl (c : Client S P) : Calls store policy c c
  | call {c c' c'' : Client S P} {T : Type} {op : Call T} {r : Result BufferError (Returned T)} :
      Calls store policy c c' → c'.call store policy op = some (r, c'') → Calls store policy c c''

/-- What every call keeps, a sequence of calls keeps. -/
theorem Calls.keeps {I : Client S P → Prop} (h : Calls store policy c c')
    (hstep : ∀ (c c' : Client S P) (T : Type) (op : Call T) (r : Result BufferError (Returned T)),
      I c → c.call store policy op = some (r, c') → I c') (hc : I c) : I c' := by
  induction h with
  | refl => exact hc
  | call _ hcall ih => exact hstep _ _ _ _ _ ih hcall

/-! ## Pin safety -/

/-- Frame `i` keeps its page and its bytes if it is pinned. -/
def KeepsPinned (pool pool' : BufferPool S P) : Prop :=
  ∀ (i : Nat) (frame : Frame), pool.frames[i]? = some frame → frame.pins ≠ 0 →
    ∃ frame', pool'.frames[i]? = some frame' ∧ frame'.tag = frame.tag ∧ frame'.data = frame.data

theorem KeepsPinned.refl (pool : BufferPool S P) : KeepsPinned pool pool :=
  fun _ frame hi _ => ⟨frame, hi, rfl, rfl⟩

theorem KeepsPinned.set (hi : pool.frames[i]? = some frame) (hf : pool'.frames = pool.frames.set i frame')
    (h : frame.pins ≠ 0 → frame'.tag = frame.tag ∧ frame'.data = frame.data) :
    KeepsPinned pool pool' := by
  have hlt : i < pool.frames.length := lt_of_get hi
  intro j g hg hp
  rw [hf]
  by_cases hj : i = j
  · subst hj
    rw [hi] at hg
    cases hg
    exact ⟨frame', getElem?_set_self hlt, h hp⟩
  · exact ⟨g, by rw [getElem?_set_ne hj]; exact hg, rfl, rfl⟩

theorem Unchanged.keepsPinned (h : Unchanged store pool pool') : KeepsPinned pool pool' := by
  intro i frame hi _
  exact ⟨frame, by rw [h.frames]; exact hi, rfl, rfl⟩

theorem Loaded.keepsPinned {data : Page} {count : Nat}
    (h : Loaded store pool pool' i frame page data count) : KeepsPinned pool pool' :=
  .set h.victim h.frames (fun hp => absurd h.unpinned hp)

theorem Flushed.keepsPinned (h : Flushed store pool pool') : KeepsPinned pool pool' := by
  intro i frame hi _
  obtain ⟨d, hd, _⟩ := h.frames i frame hi
  exact ⟨_, hd, rfl, rfl⟩

theorem PinFault.keepsPinned (h : PinFault store policy pool pool' was e) : KeepsPinned pool pool' := by
  cases h with
  | error hu _ => exact hu.keepsPinned
  | panic _ hs =>
    rcases hs with hu | ⟨i, frame, page, data, _, hl⟩
    · exact hu.keepsPinned
    · exact hl.keepsPinned

theorem PinFault.blame (h : PinFault store policy pool pool' was e) : Blame policy e := by
  cases h with
  | error => exact .error _
  | panic ht => exact .foreign ht

/-- The callback of a read or write panics on the bytes of its pinned page. -/
def CallbackPanics (c : Client S P) : Call T → Prop
  | .read k f => ∃ pin frame p, c.pins[k]? = some pin ∧
      c.pool.frames[pin.index.get.toNat]? = some frame ∧ f frame.data = .error (.panic p)
  | .write k f => ∃ pin frame p, c.pins[k]? = some pin ∧
      c.pool.frames[pin.index.get.toNat]? = some frame ∧ (f frame.data).1 = .error (.panic p)
  | _ => False

/-- The call is a write through a pin of frame `i`, and its callback made these bytes. -/
def WrittenBy (c : Client S P) (op : Call T) (i : Nat) (before after : Page) : Prop :=
  ∃ k f pin, op = .write k f ∧ c.pins[k]? = some pin ∧ pin.index.get.toNat = i ∧ after = (f before).2

theorem Outcome.pinned (h : Outcome store policy c op r c') (hi : c.pool.frames[i]? = some frame)
    (hp : frame.pins ≠ 0) :
    ∃ frame', c'.pool.frames[i]? = some frame' ∧ frame'.tag = frame.tag ∧
      (frame'.data = frame.data ∨ WrittenBy c op i frame.data frame'.data) := by
  have hkeep : KeepsPinned c.pool c'.pool → ∃ frame', c'.pool.frames[i]? = some frame' ∧
      frame'.tag = frame.tag ∧ (frame'.data = frame.data ∨ WrittenBy c op i frame.data frame'.data) := by
    intro hk
    obtain ⟨frame', hf, ht, hd⟩ := hk i frame hi hp
    exact ⟨frame', hf, ht, .inl hd⟩
  -- a write through a pin of another frame leaves this one alone
  have hwrite : ∀ {k : Nat} {f : Exec Empty Page T} {pin : PinnedBuffer} {g g' : Frame},
      op = .write k f → c.pins[k]? = some pin → c.pool.frames[pin.index.get.toNat]? = some g →
      c'.pool.frames = c.pool.frames.set pin.index.get.toNat g' → g'.tag = g.tag →
      g'.data = (f g.data).2 → ∃ frame', c'.pool.frames[i]? = some frame' ∧
        frame'.tag = frame.tag ∧ (frame'.data = frame.data ∨ WrittenBy c op i frame.data frame'.data) := by
    intro k f pin g g' hop hk hg hf ht hd
    by_cases hj : pin.index.get.toNat = i
    · rw [hj] at hg hf
      rw [hi] at hg
      cases hg
      exact ⟨g', by rw [hf]; exact getElem?_set_self (lt_of_get hi), ht, .inr ⟨k, f, pin, hop, hk, hj, hd⟩⟩
    · exact ⟨frame, by rw [hf, getElem?_set_ne hj]; exact hi, rfl, .inl rfl⟩
  cases h with
  | newPage _ hl _ | pinLoad _ hl _ => exact hkeep hl.keepsPinned
  | newPageFault hf | pinFault hf | flushPage _ hf | flushPageFault _ hf | flushAll _ hf
  | flushAllFault _ hf => exact hkeep hf.keepsPinned
  | pinHit hhit => exact hkeep (.set hhit.resident hhit.frames (fun _ => ⟨rfl, rfl⟩))
  | read | readPoisoned | readPanic | writePoisoned => exact hkeep (.refl _)
  | write hk hg _ | writePanic hk hg _ => exact hwrite rfl hk hg rfl rfl rfl
  | drop hk hg => exact hkeep (.set hg rfl (fun _ => ⟨rfl, rfl⟩))

theorem Outcome.panic (h : Outcome store policy c op r c') {p : Panic} (hr : r = .error (.panic p)) :
    p = .foreign ∧ (¬ policy.Total ∨ CallbackPanics c op) := by
  cases h with
  | newPageFault hf | pinFault hf =>
    cases hr
    exact ⟨(hf.blame p rfl).1, .inl (hf.blame p rfl).2⟩
  | readPanic hk hi hp | writePanic hk hi hp => cases hr; exact ⟨rfl, .inr ⟨_, _, _, hk, hi, hp⟩⟩
  | _ => cases hr

/-- **Structure and pin safety of the pool, under any policy.**  In every reachable state the assigned
frames are the dense prefix, page map and tags are inverse bijections, unassigned frames are unpinned
and clean, and every count is the number of live pins, each of which names its frame's page.  A call
leaves a pinned frame its page, and its bytes unless the call writes them through a pin of it; and no
call panics except inside the policy's or the callback's own code, so every assertion holds. -/
theorem pool_layout_and_pin_safety {panicked : Bool} (h : Run store policy c panicked) :
    Layout c.pool.frames c.pool.pages c.pins ∧
    ∀ (T : Type) (op : Call T) (r : Result BufferError (Returned T)) (c' : Client S P),
      c.call store policy op = some (r, c') →
      (∀ (i : Nat) (frame : Frame), c.pool.frames[i]? = some frame → frame.pins ≠ 0 →
        ∃ frame', c'.pool.frames[i]? = some frame' ∧ frame'.tag = frame.tag ∧
          (frame'.data = frame.data ∨ WrittenBy c op i frame.data frame'.data)) ∧
      (∀ p, r = .error (.panic p) → p = .foreign ∧ (¬ policy.Total ∨ CallbackPanics c op)) := by
  refine ⟨h.inv.layout, fun T op r c' hc => ?_⟩
  have ho := outcome_of_call h.inv hc
  exact ⟨fun i frame hi hp => ho.pinned hi hp, fun p hr => ho.panic hr⟩

/-- A pool of one frame over an empty in-memory store. -/
def oneFrame : BufferPool MemoryPageStore.State ClockStrategy.State :=
  ⟨[], [Frame.unused], ∅, ⟨[false], 0⟩, false⟩

/-- The same pool after `new_page`. -/
def onePage : Client MemoryPageStore.State ClockStrategy.State :=
  ⟨⟨[Page.zero], [⟨Page.zero, some 0, 1, false, false⟩], AList.insert 0 0 ∅, ⟨[true], 0⟩, false⟩,
    [⟨bufferId 0, 0⟩]⟩

theorem onePage_run : Run MemoryPageStore ClockStrategy onePage false := by
  have h0 : Run MemoryPageStore ClockStrategy ⟨oneFrame, []⟩ false :=
    .start (show withStrategy 1 [] ⟨[false], 0⟩ = .ok oneFrame from rfl)
  exact h0.call (show Client.call MemoryPageStore ClockStrategy ⟨oneFrame, []⟩
    (.newPage : Call Unit) = some (.ok (.pinned ⟨bufferId 0, 0⟩), onePage) from rfl)

theorem pool_layout_of_one_page : Run MemoryPageStore ClockStrategy onePage false ∧
    Layout onePage.pool.frames onePage.pool.pages onePage.pins :=
  ⟨onePage_run, (pool_layout_and_pin_safety onePage_run).1⟩

/-! ## The page array -/

/-- A plain array of pages, with no frames, policy or store behind it. -/
inductive PageArray.Step (pins : List PinnedBuffer) :
    Pages → Call T → Result BufferError (Returned T) → Pages → Prop where
  | newPage {A : Pages} {pin : PinnedBuffer} : A pin.page = none →
      Step pins A .newPage (.ok (.pinned pin)) (update A pin.page (some Page.zero))
  | pin {A : Pages} {page : PageId} {buffer : BufferId} : (A page).isSome = true →
      Step pins A (.pin page) (.ok (.pinned ⟨buffer, page⟩)) A
  | read {A : Pages} {k : Nat} {f : Page → Result Empty T} {pin : PinnedBuffer} {data : Page}
      {v : T} : pins[k]? = some pin → A pin.page = some data → f data = .ok v →
      Step pins A (.read k f) (.ok (.value v)) A
  | write {A : Pages} {k : Nat} {f : Exec Empty Page T} {pin : PinnedBuffer} {data : Page} {v : T} :
      pins[k]? = some pin → A pin.page = some data → (f data).1 = .ok v →
      Step pins A (.write k f) (.ok (.value v)) (update A pin.page (some (f data).2))
  | drop {A : Pages} {k : Nat} : Step pins A (.drop k) (.ok .unit) A
  | flushPage {A : Pages} {page : PageId} {resident : Bool} :
      Step pins A (.flushPage page) (.ok (.flushed resident)) A
  | flushAll {A : Pages} : Step pins A .flushAll (.ok .unit) A
  /-- A returned error changes nothing. -/
  | error {A : Pages} {op : Call T} {x : BufferError} : Step pins A op (.error (.error x)) A
  /-- Neither does a panic of the policy or of a read callback. -/
  | panic {A : Pages} {op : Call T} : (∀ k f, op ≠ .write k f) →
      Step pins A op (.error (.panic .foreign)) A
  /-- The policy panicked when it was told of the new page. -/
  | newPagePanic {A : Pages} {page : PageId} : A page = none →
      Step pins A .newPage (.error (.panic .foreign)) (update A page (some Page.zero))
  /-- The bytes a write callback left when it panicked. -/
  | writePanic {A : Pages} {k : Nat} {f : Exec Empty Page T} {pin : PinnedBuffer} {data : Page}
      {p : Panic} : pins[k]? = some pin → A pin.page = some data →
      (f data).1 = .error (.panic p) →
      Step pins A (.write k f) (.error (.panic .foreign)) (update A pin.page (some (f data).2))

theorem logical_set (hinv : PoolInv store pool pins) (hi : pool.frames[i]? = some frame)
    (ht : frame.tag = some page) (hf : pool'.frames = pool.frames.set i frame')
    (hp : pool'.pages = pool.pages) (hs : pool'.store = pool.store) :
    logical store pool' = update (logical store pool) page (some frame'.data) := by
  have hlt : i < pool.frames.length := lt_of_get hi
  have hl := (hinv.layout.mapped page i).2 ⟨frame, hi, ht⟩
  funext q
  by_cases hq : q = page
  · subst hq
    rw [Function.update_self, logical_of_lookup (by rw [hp]; exact hl), hf, getElem?_set_self hlt]
    rfl
  · rw [Function.update_of_ne hq]
    cases hlq : pool.pages.lookup q with
    | none => rw [logical_of_none hlq, logical_of_none (by rw [hp]; exact hlq), hs]
    | some j =>
      have hj : i ≠ j := by
        rintro rfl
        obtain ⟨g, hg, htag⟩ := (hinv.layout.mapped q i).1 hlq
        rw [hi] at hg
        cases hg
        rw [ht] at htag
        exact hq (Option.some.inj htag).symm
      rw [logical_of_lookup hlq, logical_of_lookup (by rw [hp]; exact hlq), hf, getElem?_set_ne hj]

/-- Counts and flags of a frame are not part of the contents. -/
theorem logical_set_eq (hinv : PoolInv store pool pins) (hi : pool.frames[i]? = some frame)
    (ht : frame.tag = some page) (hf : pool'.frames = pool.frames.set i frame')
    (hp : pool'.pages = pool.pages) (hs : pool'.store = pool.store)
    (hd : frame'.data = frame.data) : logical store pool' = logical store pool := by
  rw [logical_set hinv hi ht hf hp hs, hd, ← hinv.logical_tag hi ht, update_eq_self]

theorem logical_setFrame (hinv : PoolInv store pool pins) (hi : pool.frames[i]? = some frame)
    (ht : frame.tag = some page) (frame' : Frame) :
    logical store (setFrame i frame' pool) = update (logical store pool) page (some frame'.data) :=
  logical_set hinv hi ht rfl rfl rfl

theorem PoolInv.logical_eq_none (hinv : PoolInv store pool pins)
    (h : store.content pool.store page = none) : logical store pool page = none := by
  have := hinv.isSome_logical page
  rw [h] at this
  simpa using this

/-- **Every outcome is a step of the page array.** -/
theorem Outcome.refines (h : Outcome store policy c op r c') (hinv : PoolInv store c.pool c.pins) :
    PageArray.Step c.pins (logical store c.pool) op r (logical store c'.pool) := by
  cases h with
  | newPage hfresh hl _ =>
    rw [hl.logical_eq hinv]
    exact .newPage (hinv.logical_eq_none hfresh)
  | newPageFault hf =>
    cases hf with
    | error hu _ => rw [hu.logical_eq hinv]; exact .error
    | panic _ hs =>
      rcases hs with hu | ⟨i, frame, page, data, ⟨hfresh, rfl⟩, hl⟩
      · rw [hu.logical_eq hinv]; exact .panic (fun _ _ => by simp)
      · rw [hl.logical_eq hinv]; exact .newPagePanic (hinv.logical_eq_none hfresh)
  | pinHit hhit =>
    rw [logical_set_eq hinv hhit.resident hhit.tag hhit.frames hhit.pages hhit.store rfl]
    refine .pin ?_
    rw [hinv.logical_tag hhit.resident hhit.tag]
    rfl
  | pinLoad hstored hl _ =>
    have hlog := (logical_of_none hl.absent).trans hstored
    rw [hl.logical_eq hinv, ← hlog, update_eq_self]
    refine .pin ?_
    rw [hlog]
    rfl
  | pinFault hf =>
    cases hf with
    | error hu _ => rw [hu.logical_eq hinv]; exact .error
    | panic _ hs =>
      rcases hs with hu | ⟨i, frame, page, data, ⟨rfl, hstored⟩, hl⟩
      · rw [hu.logical_eq hinv]; exact .panic (fun _ _ => by simp)
      · rw [hl.logical_eq hinv, ← (logical_of_none hl.absent).trans hstored, update_eq_self]
        exact .panic (fun _ _ => by simp)
  | read hk hi hv =>
    have ht := hinv.tag_of_pin hk hi
    exact .read hk (hinv.logical_tag hi ht) hv
  | readPoisoned | writePoisoned => exact .error
  | readPanic => exact .panic (fun _ _ => by simp)
  | write hk hi hv =>
    have ht := hinv.tag_of_pin hk hi
    rw [logical_setFrame hinv hi ht]
    exact .write hk (hinv.logical_tag hi ht) hv
  | writePanic hk hi hp =>
    have ht := hinv.tag_of_pin hk hi
    rw [logical_setFrame hinv hi ht]
    exact .writePanic hk (hinv.logical_tag hi ht) hp
  | drop hk hi =>
    have ht := hinv.tag_of_pin hk hi
    rw [logical_setFrame hinv hi ht, ← hinv.logical_tag hi ht, update_eq_self]
    exact .drop
  | flushPage _ hf => rw [hf.logical]; exact .flushPage
  | flushPageFault _ hf | flushAllFault _ hf => rw [hf.logical]; exact .error
  | flushAll _ hf => rw [hf.logical]; exact .flushAll

/-! ## Nothing is poisoned until something panics -/

def NoPoison (pool : BufferPool S P) : Prop :=
  pool.poisoned = false ∧ ∀ (i : Nat) (frame : Frame), pool.frames[i]? = some frame → frame.poisoned = false

theorem NoPoison.set (h : NoPoison pool) (hi : pool.frames[i]? = some frame)
    (hf : pool'.frames = pool.frames.set i frame') (hp : pool'.poisoned = pool.poisoned)
    (hframe : frame'.poisoned = frame.poisoned) : NoPoison pool' := by
  refine ⟨hp.trans h.1, fun j g hg => ?_⟩
  rw [hf] at hg
  rcases frame_of_set hg with ⟨rfl, rfl⟩ | ⟨_, hg⟩
  · rw [hframe]; exact h.2 _ _ hi
  · exact h.2 j g hg

theorem NoPoison.unchanged (h : NoPoison pool) (hu : Unchanged store pool pool')
    (hp : pool'.poisoned = pool.poisoned) : NoPoison pool' :=
  ⟨hp.trans h.1, fun i frame hi => h.2 i frame (hu.frames ▸ hi)⟩

theorem NoPoison.flushed (h : NoPoison pool) (hf : Flushed store pool pool') : NoPoison pool' := by
  refine ⟨hf.poisoned.trans h.1, fun i g hg => ?_⟩
  have hlt : i < pool.frames.length := by rw [← hf.length]; exact lt_of_get hg
  obtain ⟨d, hd, _⟩ := hf.frames i _ (getElem?_eq_getElem hlt)
  rw [hg] at hd
  cases hd
  have hold : pool.frames[i].poisoned = false := h.2 i _ (getElem?_eq_getElem hlt)
  exact hold

theorem NoPoison.pinFault (h : NoPoison pool) (hf : PinFault store policy pool pool' was e)
    (he : ∀ p, e ≠ .panic p) : NoPoison pool' := by
  cases hf with
  | error hu hp => exact h.unchanged hu hp
  | panic => exact absurd rfl (he _)

theorem Outcome.noPoison (h : Outcome store policy c op r c') (hn : NoPoison c.pool)
    (hr : ∀ p, r ≠ .error (.panic p)) : NoPoison c'.pool := by
  cases h with
  | newPage _ hl hp | pinLoad _ hl hp => exact hn.set hl.victim hl.frames hp rfl
  | newPageFault hf | pinFault hf => exact hn.pinFault hf (fun p he => hr p (by rw [he]))
  | pinHit hhit => exact hn.set hhit.resident hhit.frames hhit.poisoned rfl
  | read | readPoisoned | readPanic | writePoisoned => exact hn
  | write _ hi _ | drop _ hi => exact hn.set hi rfl rfl rfl
  | writePanic => exact absurd rfl (hr _)
  | flushPage _ hf | flushPageFault _ hf | flushAll _ hf | flushAllFault _ hf => exact hn.flushed hf

theorem Run.noPoison (h : Run store policy c panicked) : panicked = false → NoPoison c.pool := by
  induction h with
  | start hs => exact fun _ => (withStrategy_inv store hs).2
  | call hrun hc ih =>
    intro hp
    rw [Bool.or_eq_false_iff] at hp
    refine (outcome_of_call hrun.inv hc).noPoison (ih hp.1) (fun p he => ?_)
    rw [he] at hp
    exact absurd hp.2 (by simp)

/-- A read or write whose callback returns on the logical content returns the callback's value. -/
def Answered (store : PageStore S) (c : Client S P) (r : Result BufferError (Returned T)) :
    Call T → Prop
  | .read k f => ∀ pin, c.pins[k]? = some pin → ∃ data, logical store c.pool pin.page = some data ∧
      ∀ v, f data = .ok v → r = .ok (.value v)
  | .write k f => ∀ pin, c.pins[k]? = some pin → ∃ data, logical store c.pool pin.page = some data ∧
      ∀ v, (f data).1 = .ok v → r = .ok (.value v)
  | _ => True

theorem Outcome.answered (h : Outcome store policy c op r c') (hinv : PoolInv store c.pool c.pins)
    (hn : NoPoison c.pool) : Answered store c r op := by
  -- the frame of the pin holds the logical content of its page
  have hdata : ∀ {k : Nat} {pin : PinnedBuffer} {frame : Frame}, c.pins[k]? = some pin →
      c.pool.frames[pin.index.get.toNat]? = some frame → ∀ pin', c.pins[k]? = some pin' →
      logical store c.pool pin'.page = some frame.data := by
    intro k pin frame hk hi pin' hk'
    rw [hk] at hk'
    cases hk'
    have ht := hinv.tag_of_pin hk hi
    exact hinv.logical_tag hi ht
  cases h with
  | read hk hi hv | write hk hi hv =>
    intro pin hpin
    refine ⟨_, hdata hk hi pin hpin, fun v hv' => ?_⟩
    rw [hv] at hv'
    cases hv'
    rfl
  | readPoisoned hk hi hp | writePoisoned hk hi hp =>
    rcases hp with hp | hp
    · rw [hn.1] at hp; cases hp
    · rw [hn.2 _ _ hi] at hp; cases hp
  | readPanic hk hi hp | writePanic hk hi hp =>
    intro pin hpin
    refine ⟨_, hdata hk hi pin hpin, fun v hv' => ?_⟩
    rw [hp] at hv'
    cases hv'
  | _ => trivial

/-- **The pool refines a plain page array.**  Whatever the store calls answer and whatever the policy
does, every call of a run is a step of the page array on the logical contents.  As long as no call of
the run has panicked, every read and write through a live pin returns its callback's value; and calls
panic only through the policy's or the callback's own code. -/
theorem pool_refines_page_array {panicked : Bool} (h : Run store policy c panicked) {op : Call T}
    (hc : c.call store policy op = some (r, c')) :
    PageArray.Step c.pins (logical store c.pool) op r (logical store c'.pool) ∧
      (panicked = false → Answered store c r op) ∧
      (∀ p, r = .error (.panic p) → ¬ policy.Total ∨ CallbackPanics c op) := by
  have ho := outcome_of_call h.inv hc
  exact ⟨ho.refines h.inv, fun hp => ho.answered h.inv (h.noPoison hp), fun p hr => (ho.panic hr).2⟩

/-- A write through the pin of the new page. -/
theorem write_refines_page_array :
    ∃ r c', Client.call MemoryPageStore ClockStrategy onePage
        (.write 0 fun _ => (.ok (), Page.filled 1)) = some (r, c') ∧
      PageArray.Step onePage.pins (logical MemoryPageStore onePage.pool)
        (.write 0 fun _ => (.ok (), Page.filled 1)) r (logical MemoryPageStore c'.pool) :=
  ⟨_, _, rfl, (pool_refines_page_array onePage_run rfl).1⟩

end ChiliDB

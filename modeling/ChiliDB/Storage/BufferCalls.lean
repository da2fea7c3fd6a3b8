import ChiliDB.Storage.BufferSpec

/-!
# Specifications of the pool's calls

One lemma a function of `buffer.rs`, from any pool that meets `PoolInv`, with every fault it can
end in.

* `victim_spec`, `flushVictim_spec`, `publish_run`, `loadedPin_spec`, `residentPin_spec` — the parts.
* `pin_spec`, `newPage_spec` — a hit, a load, or a fault that changes nothing (`PinFault`).
* `read_spec`, `write_spec`, `drop_run`, `flushPage_spec`, `flushAll_spec` — the other calls.
-/

namespace ChiliDB

open Effect BufferPool List
open Function (update_self update_of_ne)
open Exec (Ensures bind_ok)

variable {S P α T : Type} {store : PageStore S} {policy : VictimStrategy P}
  {pool pool' : BufferPool S P} {pins : List PinnedBuffer} {i : Nat} {frame : Frame}
  {page : PageId}

/-- A call panics only through the policy's own code. -/
def Blame (policy : VictimStrategy P) (e : Fault BufferError) : Prop :=
  ∀ p, e = .panic p → p = .foreign ∧ ¬ policy.Total

theorem Blame.error (x : BufferError) : Blame policy (.error x) := by
  intro p h
  cases h

theorem Blame.foreign (h : ¬ policy.Total) : Blame policy (.panic .foreign) := by
  intro p hp
  cases hp
  exact ⟨rfl, h⟩

variable {frames : List Frame} {data : Page} {E : Fault BufferError → BufferPool S P → Prop}

theorem canEvict_iff {buffer : BufferId} :
    canEvict frames buffer = true ↔ ∃ frame, frames[buffer.get.toNat]? = some frame ∧ frame.pins = 0 := by
  unfold canEvict
  split
  · rename_i frame hf
    simp [hf]
  · rename_i hf
    simp [hf]

/-- A frame that may be given another page. -/
structure Free (pool : BufferPool S P) (i : Nat) (frame : Frame) : Prop where
  at_ : pool.frames[i]? = some frame
  unpinned : frame.pins = 0
  next : frame.tag = none → i = pool.pages.keys.length

theorem Free.congr (h : Free pool i frame) (hf : pool'.frames = pool.frames)
    (hp : pool'.pages = pool.pages) : Free pool' i frame := by
  refine ⟨?_, h.unpinned, ?_⟩
  · rw [hf]; exact h.at_
  · rw [hp]; exact h.next

/-- **The chosen frame is unpinned and in range, whatever the policy answers.** -/
theorem victim_spec (hinv : PoolInv store pool pins) :
    Ensures (victim policy) pool
      (fun i pool' => (∃ p, pool' = { pool with strategy := p }) ∧ ∃ frame, Free pool i frame)
      (fun e pool' => (∃ p, pool' = { pool with strategy := p }) ∧ Blame policy e) := by
  refine .bind (.get ?_)
  split
  · -- the next frame of the prefix
    rename_i hlt
    refine ⟨⟨pool.strategy, rfl⟩, pool.frames[pool.pages.keys.length], ?_⟩
    have hget := getElem?_eq_getElem hlt
    have hnone : pool.frames[pool.pages.keys.length].tag = none := by
      have := hinv.layout.assigned _ _ hget
      simpa using this
    exact ⟨hget, (hinv.layout.unused _ _ hget hnone).1, fun _ => rfl⟩
  · rename_i hfull
    refine .bind (ensures_consult policy (fun ht p => ht.victim _ p) ?_ ?_)
    · intro answer p
      cases answer with
      | none => exact ⟨⟨p, rfl⟩, .error _⟩
      | some buffer =>
        show Ensures (if !canEvict pool.frames buffer then _ else _) _ _ _
        split
        · exact ⟨⟨p, rfl⟩, .error _⟩
        · rename_i he
          obtain ⟨frame, hget, hpins⟩ := canEvict_iff.1 (by simpa using he)
          refine ⟨⟨p, rfl⟩, frame, hget, hpins, fun hnone => ?_⟩
          have hlt := lt_of_get hget
          have := (hinv.layout.assigned _ _ hget).2 (by omega)
          rw [hnone] at this
          cases this
    · intro ht p
      exact ⟨⟨p, rfl⟩, .foreign ht⟩

/-- Only the stored copy of the frame's own page may differ, if the frame was dirty. -/
def Spilled (frame : Frame) (content content' : Pages) : Prop :=
  ∀ other, content' other = content other ∨
    (content' other).isSome = (content other).isSome ∧ frame.tag = some other ∧ frame.dirty = true

theorem Spilled.refl (frame : Frame) (content : Pages) : Spilled frame content content :=
  fun _ => .inl rfl

theorem Spilled.torn {content content' : Pages} (h : Spilled frame content content')
    (hi : frames[i]? = some frame) : Torn frames content content' := by
  intro page
  rcases h page with he | ⟨hs, ht, hd⟩
  · exact .inl he
  · exact .inr ⟨hs, i, frame, hi, ht, hd⟩

variable {s : S} {Q : Unit → BufferPool S P → Prop} {was : PageId → Page → Prop} {e : Fault BufferError}
  {q : BufferPool S P}

/-- A write of a dirty frame's bytes to its page, successful or torn. -/
theorem spilled_of_write {s' : S} {r : Except IoError Unit} (hw : store.writePage page data s = (r, s'))
    (ht : frame.tag = some page) (hd : frame.dirty = true) (ha : (store.content s page).isSome = true) :
    Spilled frame (store.content s) (store.content s') := by
  intro other
  by_cases ho : other = page
  · subst ho
    refine .inr ⟨?_, ht, hd⟩
    cases r with
    | ok _ => rw [store.writePage_ok hw, update_self, ha]; rfl
    | error e => exact (store.writePage_error hw).2
  · left
    cases r with
    | ok _ => rw [store.writePage_ok hw, update_of_ne ho]
    | error e => exact (store.writePage_error hw).1 other ho

theorem flushVictim_spec (hinv : PoolInv store pool pins) (hi : pool.frames[i]? = some frame) :
    Ensures (flushVictim store i) pool
      (fun _ pool' => ∃ s, pool' = { pool with store := s } ∧
        Spilled frame (store.content pool.store) (store.content s) ∧
        ∀ old, frame.tag = some old → store.content s old = some frame.data)
      (fun e pool' => (∃ x, e = .error x) ∧ ∃ s, pool' = { pool with store := s } ∧
        Spilled frame (store.content pool.store) (store.content s)) := by
  refine .bind (ensures_desc hi ?_)
  split
  · rename_i old hd ht
    have ha := hinv.coherent.allocated i frame old hi ht
    refine ensures_io ?_ ?_
    · intro _ s hw
      refine ⟨s, rfl, spilled_of_write hw ht hd ha, fun q hq => ?_⟩
      rw [ht] at hq
      cases hq
      rw [store.writePage_ok hw, update_self]
    · intro e s hw
      exact ⟨⟨_, rfl⟩, s, rfl, spilled_of_write hw ht hd ha⟩
  · rename_i hnot
    refine ⟨pool.store, rfl, .refl _ _, fun old ht => ?_⟩
    refine hinv.coherent.clean i frame old hi ht ?_
    by_contra hd
    exact hnot old (by simpa using hd) ht

/-- The pool after `publish`. -/
def published (i : Nat) (frame : Frame) (page : PageId) (data : Page) (pool : BufferPool S P) :
    BufferPool S P :=
  { pool with
    frames := pool.frames.set i ⟨data, some page, 1, false, frame.poisoned⟩
    pages := reassigned pool.pages frame.tag page i }

/-- The debug assertion of `install` holds for a free frame. -/
theorem install_run (hi : pool.frames[i]? = some frame)
    (hnext : frame.tag = none → i = pool.pages.keys.length) :
    install i page pool = (.ok (), { pool with
      frames := pool.frames.set i { frame with tag := some page }
      pages := reassigned pool.pages frame.tag page i }) := by
  unfold install unassign
  rw [Exec.bind_run, bind_ok (desc_run hi)]
  cases ht : frame.tag with
  | some old =>
    simp only [Exec.modify_run]
    have hi' : ({ pool with pages := pool.pages.erase old } : BufferPool S P).frames[i]? = some frame :=
      hi
    rw [bind_ok (update_run hi' _)]
    rfl
  | none =>
    have hassert : (.assert (i == pool.pages.keys.length) : Result BufferError Unit) = .ok () := by
      rw [← hnext ht]
      simp [Result.assert]
    simp only [Exec.bind_run, Exec.get_run, Exec.lift_run, hassert]
    rw [update_run hi]
    rfl

theorem publish_run (h : Free pool i frame) (data : Page) :
    publish i page data pool = (.ok (), published i frame page data pool) := by
  have hlt : i < pool.frames.length := lt_of_get h.at_
  unfold publish
  rw [bind_ok (update_run h.at_ _)]
  have h1 : (setFrame i { frame with data := data } pool).frames[i]? =
      some { frame with data := data } := getElem?_set_self hlt
  rw [bind_ok (install_run h1 h.next), update_run (getElem?_set_self (by simpa [setFrame] using hlt))]
  unfold setFrame published
  simp only [set_set]

theorem ensures_publish (h : Free pool i frame) (hq : Q () (published i frame page data pool)) :
    Ensures (publish i page data) pool Q E := by
  unfold Ensures
  rw [publish_run h]
  exact hq

/-- Dropping a counted pin: the debug assertion holds. -/
theorem drop_run {pin : PinnedBuffer} (hi : pool.frames[pin.index.get.toNat]? = some frame)
    (hp : 0 < frame.pins) :
    pin.drop pool = (.ok (), setFrame pin.index.get.toNat { frame with pins := frame.pins - 1 } pool) := by
  unfold PinnedBuffer.drop
  rw [bind_ok (desc_run hi)]
  have hne : frame.pins ≠ 0 := by omega
  simp only [Exec.bind_run, Exec.modify_run, if_neg hne, Exec.lift_run, Result.assert, decide_eq_true hp, if_true]

theorem ensures_drop {pin : PinnedBuffer} (hi : pool.frames[pin.index.get.toNat]? = some frame)
    (hp : 0 < frame.pins) (h : Q () (setFrame pin.index.get.toNat { frame with pins := frame.pins - 1 } pool)) :
    Ensures pin.drop pool Q E := by
  unfold Ensures
  rw [drop_run hi hp]
  exact h

theorem loadedPin_spec (hid : (bufferId i).get.toNat = i) (hi : pool.frames[i]? = some frame)
    (hp : frame.pins = 1) :
    Ensures (loadedPin policy i page) pool
      (fun pin pool' => pin = ⟨bufferId i, page⟩ ∧ ∃ p, pool' = { pool with strategy := p })
      (fun e pool' => e = .panic .foreign ∧ ¬ policy.Total ∧
        ∃ p, pool' = { setFrame i { frame with pins := 0 } pool with strategy := p }) := by
  refine .bind (.unwind (ensures_consult policy (fun ht p => ?_) ?_ ?_))
  · obtain ⟨p', hl⟩ := ht.load (bufferId i) p
    exact ⟨(), p', hl⟩
  · intro _ p
    exact ⟨rfl, p, rfl⟩
  · intro ht p
    have hi' : ({ pool with strategy := p } : BufferPool S P).frames[
        (⟨bufferId i, page⟩ : PinnedBuffer).index.get.toNat]? = some frame := by
      rw [hid]; exact hi
    refine ensures_drop hi' (by omega) ⟨rfl, ht, p, ?_⟩
    rw [hid, hp]
    rfl

/-- How `pin` and `newPage` fail: a returned error changes nothing; a panic of the policy's `load`
comes after the page was loaded and gives its pin back. -/
inductive PinFault (store : PageStore S) (policy : VictimStrategy P) (pool pool' : BufferPool S P)
    (was : PageId → Page → Prop) : Fault BufferError → Prop where
  | error {x : BufferError} : Unchanged store pool pool' → pool'.poisoned = pool.poisoned →
      PinFault store policy pool pool' was (.error x)
  | panic : ¬ policy.Total →
      (Unchanged store pool pool' ∨ ∃ i frame page data, was page data ∧
        Loaded store pool pool' i frame page data 0) →
      PinFault store policy pool pool' was (.panic .foreign)

theorem PinFault.of_blame (hu : Unchanged store pool pool') (hp : pool'.poisoned = pool.poisoned)
    (h : Blame policy e) : PinFault store policy pool pool' was e := by
  cases e with
  | error x => exact .error hu hp
  | panic p =>
    obtain ⟨rfl, ht⟩ := h p rfl
    exact .panic ht (.inl hu)

theorem PinFault.locked (h : PinFault store policy pool pool' was e) :
    Exec.afterPanic poison (fun e pool' => PinFault store policy pool pool' was e) e pool' := by
  cases h with
  | error hu hp => exact .error hu hp
  | panic ht hs =>
    refine .panic ht ?_
    rcases hs with hu | ⟨i, frame, page, data, hw, hl⟩
    · exact .inl ⟨hu.frames, hu.pages, hu.torn⟩
    · exact .inr ⟨i, frame, page, data, hw, hl.victim, hl.unpinned, hl.next, hl.absent, hl.frames,
        hl.pages, hl.written, hl.stored, hl.others⟩

theorem unchanged_strategy (p : P) : Unchanged store pool { pool with strategy := p } :=
  ⟨rfl, rfl, .refl _ _⟩

theorem unchanged_store (h : Torn pool.frames (store.content pool.store) (store.content s)) :
    Unchanged store pool { pool with store := s } :=
  ⟨rfl, rfl, h⟩

theorem ensures_withVictim {m : PoolM S P α} {Q : α → BufferPool S P → Prop}
    (h : Free pool i frame) (herr : pool.poisoned = true ∨ frame.poisoned = true → E (.error .poisoned) pool)
    (hok : Ensures m pool Q (Exec.afterPanic (poisonFrame i) E)) :
    Ensures (withVictim i m) pool Q E := by
  refine .bind (ensures_desc h.at_ (.bind ?_))
  have hassert : (.assert (frame.pins == 0) : Result BufferError Unit) = .ok () := by
    simp [Result.assert, h.unpinned]
  refine Exec.ensures_lift.2 ⟨fun _ _ => ensures_latched h.at_ herr (fun _ _ => hok), ?_⟩
  intro e he
  rw [hassert] at he
  cases he

/-- Publishing in a pool `q` whose store the write-back of `frame` has left. -/
theorem loaded_published (h : Free pool i frame) (habs : pool.pages.lookup page = none)
    (hf : q.frames = pool.frames) (hp : q.pages = pool.pages)
    (hwritten : ∀ old, frame.tag = some old → store.content q.store old = some frame.data)
    (hstored : store.content q.store page = some data) (hothers : ∀ other, other ≠ page →
      store.content q.store other = store.content pool.store other ∨
        (store.content q.store other).isSome = (store.content pool.store other).isSome ∧
          frame.tag = some other) : Loaded store pool (published i frame page data q) i frame page data 1 := by
  refine ⟨h.at_, h.unpinned, h.next, habs, ?_, ?_, hwritten, hstored, hothers⟩
  · rw [← hf]; rfl
  · rw [← hp]; rfl

/-- `loadedPin` after the page was published in frame `i`. -/
theorem loadedPin_loaded (was : PageId → Page → Prop) (hid : (bufferId i).get.toNat = i) (hw : was page data)
    (h : Loaded store pool q i frame page data 1) :
    Ensures (loadedPin policy i page) q
      (fun pin pool' => pin = ⟨bufferId i, page⟩ ∧ pool'.poisoned = q.poisoned ∧
        Loaded store pool pool' i frame page data 1)
      (fun e pool' => PinFault store policy pool pool' was e) := by
  have hlt : i < pool.frames.length := lt_of_get h.victim
  have hget : q.frames[i]? = some ⟨data, some page, 1, false, frame.poisoned⟩ := by
    rw [h.frames]
    exact getElem?_set_self hlt
  refine (loadedPin_spec hid hget rfl).mono ?_ ?_
  · rintro pin _ ⟨hpin, p, rfl⟩
    exact ⟨hpin, rfl, h.victim, h.unpinned, h.next, h.absent, h.frames, h.pages, h.written, h.stored, h.others⟩
  · rintro e _ ⟨rfl, ht, p, rfl⟩
    refine .panic ht (.inr ⟨i, frame, page, data, hw, h.victim, h.unpinned, h.next, h.absent, ?_,
      h.pages, h.written, h.stored, h.others⟩)
    show q.frames.set i _ = _
    rw [h.frames, set_set]

/-- A page that is not resident: the store's bytes end up in a free frame. -/
theorem loadPage_spec (hinv : PoolInv store pool pins) (habs : pool.pages.lookup page = none) :
    Ensures (loadPage store policy page) pool
      (fun pin pool' => pool'.poisoned = pool.poisoned ∧ ∃ i frame data,
        pin = ⟨bufferId i, page⟩ ∧ store.content pool.store page = some data ∧
        Loaded store pool pool' i frame page data 1)
      (fun e pool' => PinFault store policy pool pool'
        (fun q data => q = page ∧ store.content pool.store q = some data) e) := by
  refine .bind ((victim_spec hinv).mono ?_ ?_)
  · rintro i _ ⟨⟨p, rfl⟩, frame, hfree⟩
    have hid := hinv.layout.bufferId_toNat hfree.at_
    refine .bind (ensures_check hfree.at_ ?_ ?_)
    · exact fun _ => .error (unchanged_strategy p) rfl
    intro _ _
    refine .bind (ensures_io ?_ ?_)
    · intro data s hread
      obtain ⟨hstored, hsame⟩ := store.readPage_ok hread
      have hu : Unchanged store pool { pool with strategy := p, store := s } :=
        ⟨rfl, rfl, by rw [hsame]; exact .refl _ _⟩
      refine .bind (ensures_withVictim (hfree.congr rfl rfl) (fun _ => .error hu rfl) ?_)
      refine .bind ((flushVictim_spec (hinv.unchanged hu) hfree.at_).mono ?_ ?_)
      · rintro _ _ ⟨s', rfl, hspill, hwritten⟩
        rw [hsame] at hspill
        refine ensures_publish (hfree.congr rfl rfl) ?_
        have hl : Loaded store pool
            (published i frame page data { pool with strategy := p, store := s' }) i frame page data 1 := by
          refine loaded_published hfree habs rfl rfl hwritten ?_ ?_
          · rcases hspill page with he | ⟨_, ht, _⟩
            · exact he.trans hstored
            · exact absurd ht (hinv.layout.lookup_eq_none habs hfree.at_)
          · intro other _
            rcases hspill other with he | ⟨hs, ht, _⟩
            · exact .inl he
            · exact .inr ⟨hs, ht⟩
        refine (loadedPin_loaded (fun q data => q = page ∧ store.content pool.store q = some data) hid
          ⟨rfl, hstored⟩ hl).mono ?_ (fun _ _ h => h)
        rintro pin pool' ⟨hpin, hpoison, hl⟩
        exact ⟨hpoison, i, frame, data, hpin, hstored, hl⟩
      · rintro _ _ ⟨⟨x, rfl⟩, s', rfl, hspill⟩
        rw [hsame] at hspill
        exact .error ⟨rfl, rfl, hspill.torn hfree.at_⟩ rfl
    · intro e s hread
      exact .error ⟨rfl, rfl, by rw [store.readPage_error hread]; exact .refl _ _⟩ rfl
  · rintro e _ ⟨⟨p, rfl⟩, hblame⟩
    exact .of_blame (unchanged_strategy p) rfl hblame

/-- A resident page got one more pin. -/
structure Hit (pool pool' : BufferPool S P) (i : Nat) (frame : Frame) (page : PageId) : Prop where
  resident : pool.frames[i]? = some frame
  tag : frame.tag = some page
  room : frame.pins + 1 < 2 ^ 32
  frames : pool'.frames = pool.frames.set i { frame with pins := frame.pins + 1 }
  pages : pool'.pages = pool.pages
  store : pool'.store = pool.store
  poisoned : pool'.poisoned = pool.poisoned

theorem set_self (hi : frames[i]? = some frame) : frames.set i frame = frames := by
  obtain ⟨hlt, rfl⟩ := List.getElem?_eq_some_iff.1 hi
  exact set_getElem_self hlt

theorem residentPin_spec (hinv : PoolInv store pool pins) (recordAccess : Bool) (page : PageId)
    (was : PageId → Page → Prop) :
    Ensures (residentPin policy recordAccess page) pool
      (fun r pool' => (r = none ∧ pool' = pool ∧ pool.pages.lookup page = none) ∨
        ∃ i frame, r = some ⟨bufferId i, page⟩ ∧ Hit pool pool' i frame page)
      (fun e pool' => PinFault store policy pool pool' was e ∧ (recordAccess = false → ∃ x, e = .error x)) := by
  refine .bind (.get ?_)
  split
  · rename_i habs
    exact .inl ⟨rfl, rfl, habs⟩
  · rename_i i hl
    obtain ⟨frame, hi, ht⟩ := (hinv.layout.mapped page i).1 hl
    have hid := hinv.layout.bufferId_toNat hi
    have hlt : i < pool.frames.length := lt_of_get hi
    refine .bind (ensures_desc hi ?_)
    split
    · rename_i hroom
      refine .bind (Exec.ensures_modify.2 (.bind (.unwind ?_)))
      have hhit : ∀ p, Hit pool { setFrame i { frame with pins := frame.pins + 1 } pool with
          strategy := p } i frame page :=
        fun p => ⟨hi, ht, hroom, rfl, rfl, rfl, rfl⟩
      cases recordAccess with
      | false => exact .inr ⟨i, frame, rfl, hhit pool.strategy⟩
      | true =>
        refine ensures_consult policy (fun htot p => ?_) (fun _ p => ?_) (fun htot p => ?_)
        · obtain ⟨p', ha⟩ := htot.access (bufferId i) p
          exact ⟨(), p', ha⟩
        · exact .inr ⟨i, frame, rfl, hhit p⟩
        · -- the policy panicked: unwinding drops the new pin
          have hget : (pool.frames.set i { frame with pins := frame.pins + 1 })[
              (⟨bufferId i, page⟩ : PinnedBuffer).index.get.toNat]? =
                some { frame with pins := frame.pins + 1 } := by
            rw [hid]; exact getElem?_set_self hlt
          refine ensures_drop hget (Nat.succ_pos _) ⟨.panic htot (.inl ⟨?_, rfl, Torn.refl _ _⟩),
            fun he => by cases he⟩
          show (pool.frames.set i _).set (bufferId i).get.toNat _ = _
          rw [hid, set_set]
          exact set_self hi
    · exact ⟨.error (.refl _) rfl, fun _ => ⟨_, rfl⟩⟩

/-- **`pin`**: a hit, a load of the stored bytes, or a fault that changes nothing. -/
theorem pin_spec (hinv : PoolInv store pool pins) (page : PageId) :
    Ensures (pin store policy page) pool
      (fun pin pool' => pool'.poisoned = pool.poisoned ∧ ∃ i frame, pin = ⟨bufferId i, page⟩ ∧
        (Hit pool pool' i frame page ∨ ∃ data, store.content pool.store page = some data ∧
          Loaded store pool pool' i frame page data 1))
      (fun e pool' => PinFault store policy pool pool'
        (fun q data => q = page ∧ store.content pool.store q = some data) e) := by
  refine ensures_locked (fun _ => .error (.refl _) rfl) (fun _ => ?_)
  refine .bind ((residentPin_spec hinv true page _).mono ?_ (fun _ _ h => h.1.locked))
  rintro r pool' (⟨rfl, rfl, habs⟩ | ⟨i, frame, rfl, hhit⟩)
  · refine (loadPage_spec hinv habs).mono ?_ (fun _ _ h => h.locked)
    rintro pin pool' ⟨hp, i, frame, data, hpin, hstored, hl⟩
    exact ⟨hp, i, frame, hpin, .inr ⟨data, hstored, hl⟩⟩
  · exact ⟨hhit.poisoned, i, frame, rfl, .inl hhit⟩

/-- **`newPage`**: a fresh zero page in a free frame, or a fault that changes nothing. -/
theorem newPage_spec (hinv : PoolInv store pool pins) :
    Ensures (newPage store policy) pool
      (fun pin pool' => pool'.poisoned = pool.poisoned ∧ ∃ i frame, pin.index = bufferId i ∧
        store.content pool.store pin.page = none ∧
        Loaded store pool pool' i frame pin.page Page.zero 1)
      (fun e pool' => PinFault store policy pool pool'
        (fun q data => store.content pool.store q = none ∧ data = Page.zero) e) := by
  refine ensures_locked (fun _ => .error (Unchanged.refl _) rfl) (fun _ => ?_)
  refine .bind ((victim_spec hinv).mono ?_ ?_)
  · rintro i _ ⟨⟨p, rfl⟩, frame, hfree⟩
    have hid := hinv.layout.bufferId_toNat hfree.at_
    refine .bind (ensures_check hfree.at_ ?_ ?_)
    · exact fun _ => .error (unchanged_strategy p) rfl
    intro _ _
    have hu : Unchanged store pool { pool with strategy := p } := unchanged_strategy p
    refine .bind (ensures_withVictim (hfree.congr rfl rfl) (fun _ => .error hu rfl) ?_)
    refine .bind ((flushVictim_spec (hinv.unchanged hu) hfree.at_).mono ?_ ?_)
    · rintro _ _ ⟨s, rfl, hspill, hwritten⟩
      refine .bind (ensures_io ?_ ?_)
      · intro page s' halloc
        obtain ⟨hfresh, hcontent⟩ := store.allocatePage_ok halloc
        have hfresh0 : store.content pool.store page = none := by
          have := (hspill.torn hfree.at_).isSome page
          rw [hfresh] at this
          exact Option.isSome_eq_false_iff.1 this.symm |> Option.isNone_iff_eq_none.1
        have habs : pool.pages.lookup page = none := by
          cases hl : pool.pages.lookup page with
          | none => rfl
          | some j =>
            obtain ⟨g, hg, ht⟩ := (hinv.layout.mapped page j).1 hl
            have := hinv.coherent.allocated j g page hg ht
            rw [hfresh0] at this
            cases this
        have hl : Loaded store pool
            (published i frame page Page.zero { pool with strategy := p, store := s' })
            i frame page Page.zero 1 := by
          refine loaded_published hfree habs rfl rfl ?_ ?_ ?_
          · intro old ht
            have hne : old ≠ page := fun he => hinv.layout.lookup_eq_none habs hfree.at_ (by rw [ht, he])
            show store.content s' old = _
            rw [hcontent, update_of_ne hne]
            exact hwritten old ht
          · show store.content s' page = _
            rw [hcontent, update_self]
          · intro other hne
            show store.content s' other = _ ∨ (store.content s' other).isSome = _ ∧ _
            rw [hcontent, update_of_ne hne]
            rcases hspill other with he | ⟨hs, ht, _⟩
            · exact .inl he
            · exact .inr ⟨hs, ht⟩
        refine .bind (ensures_publish (hfree.congr rfl rfl) (Exec.ensures_pure.2 ?_))
        refine (loadedPin_loaded (fun q data => store.content pool.store q = none ∧ data = Page.zero) hid
          ⟨hfresh0, rfl⟩ hl).mono ?_ (fun _ _ h => h.locked)
        rintro pin pool' ⟨rfl, hpoison, hl⟩
        exact ⟨hpoison, i, frame, rfl, hfresh0, hl⟩
      · intro e s' halloc
        refine .error ⟨rfl, rfl, ?_⟩ rfl
        rw [store.allocatePage_error halloc]
        exact hspill.torn hfree.at_
    · rintro _ _ ⟨⟨x, rfl⟩, s, rfl, hspill⟩
      exact .error ⟨rfl, rfl, hspill.torn hfree.at_⟩ rfl
  · rintro e _ ⟨⟨p, rfl⟩, hblame⟩
    exact (PinFault.of_blame (unchanged_strategy p) rfl hblame).locked

/-! ## Callbacks -/

theorem ensures_read {pin : PinnedBuffer} {f : Page → PoolM S P T}
    {Q : T → BufferPool S P → Prop} (hi : pool.frames[pin.index.get.toNat]? = some frame)
    (herr : pool.poisoned = true ∨ frame.poisoned = true → E (.error .poisoned) pool)
    (hok : pool.poisoned = false → frame.poisoned = false → Ensures (f frame.data) pool Q E) :
    Ensures (pin.read f) pool Q E := by
  refine .bind (ensures_desc hi ?_)
  split
  · rename_i hp
    exact herr (.inr hp)
  · exact .bind (ensures_check hi herr hok)

/-- **`write`**: the callback's bytes are in the frame and the frame is dirty, also after a panic of
the callback, which poisons the frame. -/
theorem write_spec {pin : PinnedBuffer} (f : Exec Empty Page T)
    (hi : pool.frames[pin.index.get.toNat]? = some frame) :
    Ensures (pin.write f) pool
      (fun t pool' => (f frame.data).1 = .ok t ∧
        pool' = setFrame pin.index.get.toNat { frame with data := (f frame.data).2, dirty := true } pool)
      (fun e pool' =>
        (e = .error .poisoned ∧ (pool.poisoned = true ∨ frame.poisoned = true) ∧ pool' = pool) ∨
        (e = .panic .foreign ∧ (∃ p, (f frame.data).1 = .error (.panic p)) ∧
          pool' = setFrame pin.index.get.toNat
            { frame with data := (f frame.data).2, dirty := true, poisoned := true } pool)) := by
  have hlt := lt_of_get hi
  refine ensures_latched hi (fun h => .inl ⟨rfl, h, rfl⟩) (fun _ _ => ?_)
  refine .bind (ensures_update hi (.bind (ensures_desc (getElem?_set_self hlt) (.foreign ?_))))
  refine Exec.ensures_iff.2 ⟨fun t pool' hrun => ?_, fun e pool' hrun => ?_⟩
  · obtain ⟨ht, rfl⟩ := Prod.mk.inj hrun
    refine ⟨ht, ?_⟩
    unfold setFrame
    simp only [set_set]
  · obtain ⟨he, rfl⟩ := Prod.mk.inj hrun
    rcases e with e | p
    · exact e.elim
    · refine .inr ⟨rfl, ⟨p, he⟩, ?_⟩
      unfold poisonFrame setFrame
      simp only [set_set]
      congr 1
      rw [modify_eq_set_getElem?]
      simp [hlt]

/-! ## Flushing -/

/-- Some dirty bits were cleared and nothing else happened to the frames. -/
structure Flushed (store : PageStore S) (pool pool' : BufferPool S P) : Prop where
  pages : pool'.pages = pool.pages
  poisoned : pool'.poisoned = pool.poisoned
  frames : ∀ (i : Nat) (frame : Frame), pool.frames[i]? = some frame →
    ∃ d, pool'.frames[i]? = some { frame with dirty := d } ∧ (d = true → frame.dirty = true)
  length : pool'.frames.length = pool.frames.length
  logical : logical store pool' = logical store pool
  isSome : ∀ page, (store.content pool'.store page).isSome = (store.content pool.store page).isSome

theorem Flushed.of_unchanged (h : Unchanged store pool pool') (hinv : PoolInv store pool pins)
    (hp : pool'.poisoned = pool.poisoned) : Flushed store pool pool' := by
  refine ⟨h.pages, hp, fun i frame hi => ⟨frame.dirty, ?_, fun hd => hd⟩, ?_, h.logical_eq hinv, h.torn.isSome⟩
  · rw [h.frames]; exact hi
  · rw [h.frames]

theorem Flushed.trans {pool'' : BufferPool S P} (h : Flushed store pool pool')
    (h' : Flushed store pool' pool'') : Flushed store pool pool'' := by
  refine ⟨h'.pages.trans h.pages, h'.poisoned.trans h.poisoned, fun i frame hi => ?_,
    h'.length.trans h.length, h'.logical.trans h.logical,
    fun page => (h'.isSome page).trans (h.isSome page)⟩
  obtain ⟨d, hd, hdirty⟩ := h.frames i frame hi
  obtain ⟨d', hd', hdirty'⟩ := h'.frames i _ hd
  exact ⟨d', hd', fun he => hdirty (hdirty' he)⟩

/-- The frame of `page`, if it has one, is clean. -/
def CleanPage (pool : BufferPool S P) (page : PageId) : Prop :=
  ∀ (i : Nat) (frame : Frame), pool.frames[i]? = some frame → frame.tag = some page → frame.dirty = false

theorem Flushed.clean (h : Flushed store pool pool') (hc : CleanPage pool page) : CleanPage pool' page := by
  intro i g hg ht
  have hlt : i < pool.frames.length := by rw [← h.length]; exact lt_of_get hg
  obtain ⟨d, hd, hdirty⟩ := h.frames i _ (getElem?_eq_getElem hlt)
  rw [hg] at hd
  cases hd
  by_contra hne
  have hold := hdirty (by simpa using hne)
  rw [hc i _ (getElem?_eq_getElem hlt) ht] at hold
  cases hold

/-- Frame `i` was written back and marked clean. -/
structure Cleaned (store : PageStore S) (pool pool' : BufferPool S P) (i : Nat) (frame : Frame)
    (page : PageId) : Prop where
  at_ : pool.frames[i]? = some frame
  tag : frame.tag = some page
  frames : pool'.frames = pool.frames.set i { frame with dirty := false }
  pages : pool'.pages = pool.pages
  poisoned : pool'.poisoned = pool.poisoned
  content : store.content pool'.store = Function.update (store.content pool.store) page (some frame.data)

namespace Cleaned

variable (h : Cleaned store pool pool' i frame page) (hinv : PoolInv store pool pins)
include h hinv

theorem inv : PoolInv store pool' pins := by
  refine ⟨?_, fun j g q hg hq => ?_, fun j g q hg hq hclean => ?_⟩
  · rw [h.frames, h.pages]
    exact hinv.layout.touch h.at_ rfl rfl (fun _ => rfl)
  · rw [h.content]
    by_cases hqp : q = page
    · rw [hqp, update_self]; rfl
    · rw [update_of_ne hqp]
      rw [h.frames] at hg
      rcases frame_of_set hg with ⟨rfl, rfl⟩ | ⟨_, hg⟩
      · exact hinv.coherent.allocated j frame q h.at_ hq
      · exact hinv.coherent.allocated j g q hg hq
  · rw [h.content]
    rw [h.frames] at hg
    rcases frame_of_set hg with ⟨rfl, rfl⟩ | ⟨hj, hg⟩
    · have he : some page = some q := h.tag.symm.trans hq
      cases he
      rw [update_self]
    · have hqp : q ≠ page := by
        rintro rfl
        exact hj (hinv.layout.tag_injective hg h.at_ hq h.tag)
      rw [update_of_ne hqp]
      exact hinv.coherent.clean j g q hg hq hclean

theorem logical_eq : logical store pool' = logical store pool := by
  have hlt : i < pool.frames.length := lt_of_get h.at_
  funext q
  have hsame : pool'.pages.lookup q = pool.pages.lookup q := by rw [h.pages]
  cases hl : pool.pages.lookup q with
  | none =>
    have hqp : q ≠ page := by
      rintro rfl
      exact hinv.layout.lookup_eq_none hl h.at_ h.tag
    rw [logical_of_none hl, logical_of_none (hsame.trans hl), h.content, update_of_ne hqp]
  | some j =>
    rw [logical_of_lookup hl, logical_of_lookup (hsame.trans hl), h.frames]
    by_cases hj : i = j
    · subst hj
      rw [getElem?_set_self hlt, h.at_]
      rfl
    · rw [getElem?_set_ne hj]

theorem flushed : Flushed store pool pool' := by
  have hlt : i < pool.frames.length := lt_of_get h.at_
  refine ⟨h.pages, h.poisoned, fun j g hg => ?_, ?_, h.logical_eq hinv, fun q => ?_⟩
  · rw [h.frames]
    by_cases hj : i = j
    · subst hj
      rw [h.at_] at hg
      cases hg
      exact ⟨false, getElem?_set_self hlt, fun he => by cases he⟩
    · exact ⟨g.dirty, by rw [getElem?_set_ne hj]; exact hg, fun he => he⟩
  · rw [h.frames, length_set]
  · rw [h.content]
    by_cases hqp : q = page
    · rw [hqp, update_self, hinv.coherent.allocated i frame page h.at_ h.tag]; rfl
    · rw [update_of_ne hqp]

theorem clean : CleanPage pool' page := by
  intro j g hg hq
  rw [h.frames] at hg
  rcases frame_of_set hg with ⟨rfl, rfl⟩ | ⟨hj, hg⟩
  · rfl
  · exact absurd (hinv.layout.tag_injective hg h.at_ hq h.tag) hj

end Cleaned

/-- A failed `flushPage` returns an error and changes nothing but a stored copy. -/
structure FlushFault (store : PageStore S) (pool pool' : BufferPool S P) (e : Fault BufferError) :
    Prop where
  error : ∃ x, e = .error x
  same : Unchanged store pool pool'
  poisoned : pool'.poisoned = pool.poisoned

/-- **`flushPage`**: the page is clean afterwards, or a fault changed nothing but its stored copy. -/
theorem flushPage_spec (hinv : PoolInv store pool pins) (page : PageId) :
    Ensures (flushPage store policy page) pool
      (fun r pool' => (r = true ↔ (pool.pages.lookup page).isSome = true) ∧
        PoolInv store pool' pins ∧ Flushed store pool pool' ∧ CleanPage pool' page)
      (fun e pool' => FlushFault store pool pool' e) := by
  refine .bracket (ensures_locked (fun _ => ⟨⟨_, rfl⟩, .refl _, rfl⟩) (fun _ =>
    (residentPin_spec hinv false page (fun _ _ => False)).mono ?_ ?_))
  rotate_left
  · rintro e pool' ⟨hfault, herr⟩
    obtain ⟨x, rfl⟩ := herr rfl
    cases hfault with
    | error hu hp => exact ⟨⟨x, rfl⟩, hu, hp⟩
  rintro r pool1 (⟨rfl, rfl, habs⟩ | ⟨i, frame, rfl, hhit⟩)
  · refine ⟨by rw [habs]; simp, hinv, .of_unchanged (.refl _) hinv rfl, ?_⟩
    intro i frame hi ht
    exact absurd ht (hinv.layout.lookup_eq_none habs hi)
  · have hi := hhit.resident
    have hid : (⟨bufferId i, page⟩ : PinnedBuffer).index.get.toNat = i :=
      hinv.layout.bufferId_toNat hi
    have hlt : i < pool.frames.length := lt_of_get hi
    have hresident : (pool.pages.lookup page).isSome = true := by
      rw [(hinv.layout.mapped page i).2 ⟨frame, hi, hhit.tag⟩]; rfl
    have hget : pool1.frames[(⟨bufferId i, page⟩ : PinnedBuffer).index.get.toNat]? =
        some { frame with pins := frame.pins + 1 } := by
      rw [hid, hhit.frames]
      exact getElem?_set_self hlt
    -- the frame keeps its bytes, tag and dirty bit; dropping the pin restores it
    have hrestore : ∀ s, Torn pool.frames (store.content pool.store) (store.content s) →
        Unchanged store pool (setFrame (bufferId i).get.toNat
          { frame with pins := frame.pins + 1 - 1 } { pool1 with store := s }) := by
      intro s htorn
      refine ⟨?_, hhit.pages, htorn⟩
      show pool1.frames.set (bufferId i).get.toNat _ = _
      rw [hid, hhit.frames, set_set]
      exact set_self hi
    have htorn : Torn pool.frames (store.content pool.store) (store.content pool1.store) := by
      rw [hhit.store]; exact .refl _ _
    refine .bind (ensures_read hget ?_ (fun _ _ => ?_))
    · intro _
      exact ensures_drop hget (Nat.succ_pos _) ⟨⟨_, rfl⟩, hrestore _ htorn, hhit.poisoned⟩
    refine .bind (ensures_desc hget ?_)
    show Ensures (if frame.dirty then _ else _) _ _ _
    split
    · rename_i hdirty
      refine .bind (ensures_io ?_ ?_)
      · intro _ s hw
        rw [hhit.store] at hw
        refine ensures_update hget (ensures_drop (getElem?_set_self (by rw [hid, hhit.frames]; simpa))
          (Nat.succ_pos _) ?_)
        have hcleaned : Cleaned store pool (setFrame (bufferId i).get.toNat
            { frame with pins := frame.pins + 1 - 1, dirty := false }
            (setFrame (bufferId i).get.toNat { frame with pins := frame.pins + 1, dirty := false }
              { pool1 with store := s })) i frame page := by
          refine ⟨hi, hhit.tag, ?_, hhit.pages, hhit.poisoned, store.writePage_ok hw⟩
          show (pool1.frames.set (bufferId i).get.toNat _).set (bufferId i).get.toNat _ = _
          rw [hid, hhit.frames, set_set, set_set]
          rfl
        exact ⟨by simp [hresident], hcleaned.inv hinv, hcleaned.flushed hinv, hcleaned.clean hinv⟩
      · intro e s hw
        rw [hhit.store] at hw
        have hspill := spilled_of_write hw hhit.tag hdirty (hinv.coherent.allocated i frame page hi hhit.tag)
        exact ensures_drop hget (Nat.succ_pos _) ⟨⟨_, rfl⟩, hrestore s (hspill.torn hi), hhit.poisoned⟩
    · rename_i hclean
      have hu := hrestore pool1.store htorn
      refine ensures_drop hget (Nat.succ_pos _) ⟨by simp [hresident], hinv.unchanged hu,
        .of_unchanged hu hinv hhit.poisoned, ?_⟩
      intro j g hg ht
      have hg' := hu.frames ▸ hg
      have hj := hinv.layout.tag_injective hg' hi ht hhit.tag
      subst hj
      rw [hi] at hg'
      cases hg'
      simpa using hclean

theorem flushPages_spec (store : PageStore S) (policy : VictimStrategy P) :
    ∀ (list : List PageId) {pool : BufferPool S P}, PoolInv store pool pins →
      Ensures (flushPages store policy list) pool
        (fun _ pool' => PoolInv store pool' pins ∧ Flushed store pool pool' ∧ ∀ page ∈ list, CleanPage pool' page)
        (fun e pool' => (∃ x, e = .error x) ∧ PoolInv store pool' pins ∧ Flushed store pool pool')
  | [], pool, hinv => ⟨hinv, .of_unchanged (.refl _) hinv rfl, fun _ h => by cases h⟩
  | page :: list, pool, hinv => by
    refine .bind ((flushPage_spec hinv page).mono ?_ ?_)
    · rintro r pool1 ⟨_, hinv1, hflushed, hclean⟩
      refine (flushPages_spec store policy list hinv1).mono ?_ ?_
      · rintro _ pool2 ⟨hinv2, hflushed2, hrest⟩
        refine ⟨hinv2, hflushed.trans hflushed2, fun q hq => ?_⟩
        rcases mem_cons.1 hq with rfl | hq
        · exact hflushed2.clean hclean
        · exact hrest q hq
      · rintro e pool2 ⟨he, hinv2, hflushed2⟩
        exact ⟨he, hinv2, hflushed.trans hflushed2⟩
    · rintro e pool1 ⟨he, hu, hp⟩
      exact ⟨he, hinv.unchanged hu, .of_unchanged hu hinv hp⟩

/-- **`flushAll`**: every resident page is clean, or a fault left some of them dirty. -/
theorem flushAll_spec (hinv : PoolInv store pool pins) :
    Ensures (flushAll store policy) pool
      (fun _ pool' => PoolInv store pool' pins ∧ Flushed store pool pool' ∧ ∀ page, CleanPage pool' page)
      (fun e pool' => (∃ x, e = .error x) ∧ PoolInv store pool' pins ∧ Flushed store pool pool') := by
  have hrefl : Flushed store pool pool := .of_unchanged (.refl _) hinv rfl
  refine .bind (ensures_locked (fun _ => ⟨⟨_, rfl⟩, hinv, hrefl⟩) (fun _ => ?_))
  refine .bind (.get (Exec.ensures_pure.2 (.bind ?_)))
  refine (flushPages_spec store policy _ hinv).mono ?_ (fun _ _ h => h)
  rintro _ pool1 ⟨hinv1, hflushed, hclean⟩
  have hsync : ∀ r s, store.sync pool1.store = (r, s) →
      PoolInv store { pool1 with store := s } pins ∧ Flushed store pool { pool1 with store := s } := by
    intro r s hs
    have hu : Unchanged store pool1 { pool1 with store := s } :=
      unchanged_store (by rw [store.sync_content hs]; exact .refl _ _)
    exact ⟨hinv1.unchanged hu, hflushed.trans (.of_unchanged hu hinv1 rfl)⟩
  refine ensures_io (fun _ s hs => ⟨(hsync _ s hs).1, (hsync _ s hs).2, fun page i frame hi ht => ?_⟩)
    (fun _ s hs => ⟨⟨_, rfl⟩, hsync _ s hs⟩)
  -- a tagged page is a key of the map, and the sorted keys were all flushed
  refine hclean page ?_ i frame hi ht
  have hl := (hinv1.layout.mapped page i).2 ⟨frame, hi, ht⟩
  rw [hflushed.pages] at hl
  rw [mem_insertionSort]
  exact AList.mem_keys.1 (AList.lookup_isSome.1 (by rw [hl]; rfl))

end ChiliDB

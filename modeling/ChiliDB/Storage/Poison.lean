import ChiliDB.Storage.Failures

/-!
# A frame whose writer panicked

A panic of a write callback leaves its bytes in a frame that is dirty and poisoned.  Every path to the
bytes of a frame checks the poison first.

* `PageStore.recorded` — a store that records the pages passed to `writePage`; `Records store log` — what
  is asked of such a record.
* `Guarded log pool pool'` — a computation leaves every poisoned frame but for its pin count, and writes
  only the bytes of frames that are not poisoned; `guarded_call` — every call is one.
* `Trace` — calls with their answers, `PageArray.Steps` — the same calls on a page array, and
  `PageArray.Step.elsewhere` — a call whose callback did not run on a page does not depend on it.
* `Held` — what every call keeps of a poisoned frame.

Principal result: `poisoned_bytes_never_escape`.
-/

namespace ChiliDB

open Effect BufferPool List
open Function (update_of_ne)
open Exec (Ensures Preserves afterPanic bind_ok)

variable {S P α T : Type} {store : PageStore S} {policy : VictimStrategy P}
  {pool pool' : BufferPool S P} {pins : List PinnedBuffer} {i : Nat} {frame : Frame} {page : PageId}
  {log : S → List (PageId × Page)} {c c' : Client S P}

/-! ## Recording writes -/

/-- `log` shows what was passed to `writePage`, in order. -/
structure Records (store : PageStore S) (log : S → List (PageId × Page)) : Prop where
  allocatePage : ∀ s, log (store.allocatePage s).2 = log s
  readPage : ∀ id s, log (store.readPage id s).2 = log s
  writePage : ∀ id data s, log (store.writePage id data s).2 = log s ++ [(id, data)]
  sync : ∀ s, log (store.sync s).2 = log s

/-- The same store with a record of its writes. -/
def PageStore.recorded (store : PageStore S) : PageStore (S × List (PageId × Page)) where
  allocatePage s := ((store.allocatePage s.1).1, (store.allocatePage s.1).2, s.2)
  readPage id s := ((store.readPage id s.1).1, (store.readPage id s.1).2, s.2)
  writePage id data s := ((store.writePage id data s.1).1, (store.writePage id data s.1).2, s.2 ++ [(id, data)])
  sync s := ((store.sync s.1).1, (store.sync s.1).2, s.2)
  content s := store.content s.1
  allocatePage_ok {s s' id} h := by
    obtain ⟨hr, rfl⟩ := Prod.mk.inj h
    exact store.allocatePage_ok (Prod.ext hr rfl)
  allocatePage_error {s s' e} h := by
    obtain ⟨hr, rfl⟩ := Prod.mk.inj h
    exact store.allocatePage_error (Prod.ext hr rfl)
  readPage_ok {s s' id data} h := by
    obtain ⟨hr, rfl⟩ := Prod.mk.inj h
    exact store.readPage_ok (Prod.ext hr rfl)
  readPage_error {s s' id e} h := by
    obtain ⟨hr, rfl⟩ := Prod.mk.inj h
    exact store.readPage_error (Prod.ext hr rfl)
  writePage_ok {s s' id data} h := by
    obtain ⟨hr, rfl⟩ := Prod.mk.inj h
    exact store.writePage_ok (Prod.ext hr rfl)
  writePage_error {s s' id data e} h := by
    obtain ⟨hr, rfl⟩ := Prod.mk.inj h
    exact store.writePage_error (Prod.ext hr rfl)
  sync_content {s s' r} h := by
    obtain ⟨hr, rfl⟩ := Prod.mk.inj h
    exact store.sync_content (Prod.ext hr rfl)

theorem records_recorded (store : PageStore S) : Records store.recorded Prod.snd :=
  ⟨fun _ => rfl, fun _ _ => rfl, fun _ _ _ => rfl, fun _ => rfl⟩

/-! ## What every call leaves alone -/

/-- Poisoned frames keep everything but their pin counts, and only bytes of other frames were written. -/
structure Guarded (log : S → List (PageId × Page)) (pool pool' : BufferPool S P) : Prop where
  kept : ∀ (i : Nat) (frame : Frame), pool.frames[i]? = some frame → frame.poisoned = true →
    ∃ n, pool'.frames[i]? = some { frame with pins := n }
  written : ∃ new, log pool'.store = log pool.store ++ new ∧ ∀ e ∈ new, ∃ (j : Nat) (g : Frame),
    pool.frames[j]? = some g ∧ g.poisoned = false ∧ g.tag = some e.1 ∧ g.data = e.2

theorem Guarded.of_eq (hf : pool'.frames = pool.frames) (hs : log pool'.store = log pool.store) :
    Guarded log pool pool' := by
  refine ⟨fun i frame hi _ => ⟨frame.pins, ?_⟩, [], ?_, fun e he => ?_⟩
  · rw [hf]
    exact hi
  · rw [hs, append_nil]
  · cases he

theorem Guarded.refl (log : S → List (PageId × Page)) (pool : BufferPool S P) : Guarded log pool pool :=
  .of_eq rfl rfl

/-- What is done to frame `i` is not shown: the other frames and the record of writes. -/
def besides (log : S → List (PageId × Page)) (i : Nat) (pool : BufferPool S P) :
    (Nat → Option Frame) × List (PageId × Page) :=
  (fun j => if j = i then none else pool.frames[j]?, log pool.store)

theorem blind_besides (log : S → List (PageId × Page)) (i : Nat) :
    Blind i (besides log i : BufferPool S P → _) := by
  refine ⟨fun g pool => Prod.ext (funext fun j => ?_) rfl, fun pool => Prod.ext (funext fun j => ?_) rfl,
    fun _ _ => rfl, fun _ => rfl⟩
  · show (if j = i then none else (pool.frames.set i g)[j]?) = if j = i then none else pool.frames[j]?
    split
    · rfl
    · rename_i hj
      exact getElem?_set_ne fun he => hj he.symm
  · show (if j = i then none else (pool.frames.modify i _)[j]?) = if j = i then none else pool.frames[j]?
    split
    · rfl
    · rename_i hj
      have hj' : ¬ i = j := fun he => hj he.symm
      simp [hj']

/-- The bytes of `frame` were written, if anything was, and nothing else is different besides frame `i`. -/
def Worked (log : S → List (PageId × Page)) (pool : BufferPool S P) (i : Nat) (frame : Frame)
    (pool' : BufferPool S P) : Prop :=
  ∃ new, (∀ e ∈ new, frame.tag = some e.1 ∧ frame.data = e.2) ∧
    besides log i pool' = ((besides log i pool).1, log pool.store ++ new)

theorem Worked.of_besides (h : besides log i pool' = besides log i pool) : Worked log pool i frame pool' := by
  refine ⟨[], fun e he => (by cases he), ?_⟩
  rw [h, append_nil]
  rfl

/-- Work on a frame that is not poisoned. -/
theorem Worked.guarded (h : Worked log pool i frame pool') (hi : pool.frames[i]? = some frame)
    (hp : frame.poisoned = false) : Guarded log pool pool' := by
  obtain ⟨new, hnew, h⟩ := h
  refine ⟨fun j g hj hg => ⟨g.pins, ?_⟩, new, congrArg Prod.snd h, fun e he => ⟨i, frame, hi, hp, hnew e he⟩⟩
  have hne : j ≠ i := by
    rintro rfl
    rw [hi] at hj
    cases hj
    rw [hp] at hg
    cases hg
  have hframes := congrFun (congrArg Prod.fst h) j
  simp only [besides, if_neg hne] at hframes
  rw [hframes]
  exact hj

variable {m : PoolM S P α}

theorem Worked.then (h : Worked log pool i frame pool') (hm : Preserves (besides log i) m) :
    Ensures m pool' (fun _ => Worked log pool i frame) (fun _ => Worked log pool i frame) := by
  obtain ⟨new, hnew, h⟩ := h
  exact (hm.ensures pool').mono (fun _ _ hq => ⟨new, hnew, hq.trans h⟩) (fun _ _ hq => ⟨new, hnew, hq.trans h⟩)

/-- The panic of a holder of the frame's latch, and of the metadata mutex. -/
theorem Worked.poisoned (h : Worked log pool i frame pool') :
    Worked log pool i frame (poisonFrame i pool') ∧ Worked log pool i frame (poison pool') := by
  obtain ⟨new, hnew, h⟩ := h
  exact ⟨⟨new, hnew, ((blind_besides log i).poisonFrame pool').trans h⟩,
    ⟨new, hnew, ((blind_besides log i).poisoned pool').trans h⟩⟩

variable {q : BufferPool S P}

theorem worked_write (hlog : Records store log) (hq : besides log i q = besides log i pool)
    (ht : frame.tag = some page) :
    Ensures (io (store.writePage page frame.data)) q
      (fun _ => Worked log pool i frame) (fun _ => Worked log pool i frame) := by
  have hwrite : ∀ {r : Except IoError Unit} {s : S}, store.writePage page frame.data q.store = (r, s) →
      Worked log pool i frame { q with store := s } := by
    intro r s hs
    refine ⟨[(page, frame.data)], fun e he => ?_, Prod.ext (show _ = (besides log i pool).1 from ?_) ?_⟩
    · cases mem_singleton.1 he
      exact ⟨ht, rfl⟩
    · rw [← hq]
      rfl
    · have hw := hlog.writePage page frame.data q.store
      rw [hs, show log q.store = log pool.store from congrArg Prod.snd hq] at hw
      exact hw
  exact ensures_io (fun _ _ hs => hwrite hs) (fun _ _ hs => hwrite hs)

theorem worked_flushVictim (hlog : Records store log) (hq : besides log i q = besides log i pool)
    (hi : q.frames[i]? = some frame) :
    Ensures (flushVictim store i) q (fun _ => Worked log pool i frame) (fun _ => Worked log pool i frame) := by
  refine .bind (ensures_desc hi ?_)
  split
  · rename_i ht
    exact worked_write hlog hq ht
  · exact .of_besides hq

theorem preserves_loadedPin (policy : VictimStrategy P) (log : S → List (PageId × Page))
    (hid : (bufferId i).get.toNat = i) (page : PageId) :
    Preserves (besides log i) (loadedPin policy i page) := by
  refine .bind (.unwind ?_ (preserves_drop ?_)) fun _ => .pure _
  · exact preserves_consult (fun _ _ => rfl) _
  · show Blind (bufferId i).get.toNat _
    rw [hid]
    exact blind_besides log i

/-- The rest of `pin` and `newPage` once a frame was chosen and checked. -/
theorem guarded_replace {k : α → PoolM S P PinnedBuffer} (hlog : Records store log)
    (hfree : Free pool i frame) (hp : frame.poisoned = false) (hf : q.frames = pool.frames)
    (hpages : q.pages = pool.pages) (hs : log q.store = log pool.store) (hm : Preserves (besides log i) m)
    (hk : ∀ a, Preserves (besides log i) (k a)) :
    Ensures (withVictim i (do flushVictim store i; m) >>= k) q
      (fun _ => Guarded log pool) (afterPanic poison fun _ => Guarded log pool) := by
  have hq : besides log i q = besides log i pool := by
    unfold besides
    rw [hf, hs]
  have hguarded : ∀ {pool' : BufferPool S P}, Worked log pool i frame pool' → Guarded log pool pool' :=
    fun h => h.guarded hfree.at_ hp
  have hfault : ∀ (e : Fault BufferError) (pool' : BufferPool S P), Worked log pool i frame pool' →
      afterPanic poison (fun _ => Guarded log pool) e pool' := by
    intro e pool' h
    cases e with
    | error x => exact hguarded h
    | panic p => exact hguarded h.poisoned.2
  have hlatched : ∀ (e : Fault BufferError) (pool' : BufferPool S P), Worked log pool i frame pool' →
      afterPanic (poisonFrame i) (afterPanic poison fun _ => Guarded log pool) e pool' := by
    intro e pool' h
    cases e with
    | error x => exact hguarded h
    | panic p => exact hguarded h.poisoned.1.poisoned.2
  refine .bind (ensures_withVictim (hfree.congr hf hpages) (fun _ => hguarded (.of_besides hq)) ?_)
  refine .bind ((worked_flushVictim hlog hq (hf ▸ hfree.at_)).mono ?_ hlatched)
  intro _ q1 hq1
  refine (hq1.then hm).mono ?_ hlatched
  intro a q2 hq2
  exact (hq2.then (hk a)).mono (fun _ _ h => hguarded h) hfault

/-- A computation under the metadata mutex that chooses a frame and checks it. -/
theorem guarded_victim {k : Nat → PoolM S P PinnedBuffer} (hinv : PoolInv store pool pins)
    (hk : ∀ i frame p, Free pool i frame → frame.poisoned = false →
      Ensures (k i) { pool with strategy := p } (fun _ => Guarded log pool)
        (afterPanic poison fun _ => Guarded log pool)) :
    Ensures (do let i ← victim policy; check i; k i) pool (fun _ => Guarded log pool)
      (afterPanic poison fun _ => Guarded log pool) := by
  refine .bind ((victim_spec hinv).mono ?_ ?_)
  · rintro i _ ⟨⟨p, rfl⟩, frame, hfree⟩
    refine .bind (ensures_check hfree.at_ (fun _ => .of_eq rfl rfl) (fun _ hp => ?_))
    exact hk i frame p hfree hp
  · rintro e _ ⟨⟨p, rfl⟩, _⟩
    cases e <;> exact .of_eq rfl rfl

theorem newPage_guarded (hlog : Records store log) (hinv : PoolInv store pool pins) :
    Ensures (newPage store policy) pool (fun _ => Guarded log pool) (fun _ => Guarded log pool) := by
  refine ensures_locked (fun _ => .refl log pool) (fun _ => guarded_victim hinv ?_)
  intro i frame p hfree hp
  have hid := hinv.layout.bufferId_toNat hfree.at_
  refine guarded_replace hlog hfree hp rfl rfl rfl ?_ (preserves_loadedPin policy log hid)
  apply Preserves.bind (preserves_io fun q => Prod.ext rfl (hlog.allocatePage q.store))
  intro page
  exact .bind (preserves_publish (blind_besides log i) page _) fun _ => .pure _

/-- A frame got another pin count. -/
theorem Guarded.of_pins (hi : pool.frames[i]? = some frame) {n : Nat}
    (hf : pool'.frames = pool.frames.set i { frame with pins := n })
    (hs : log pool'.store = log pool.store) : Guarded log pool pool' := by
  refine ⟨fun j g hj _ => ?_, [], by rw [hs, append_nil], fun e he => by cases he⟩
  rw [hf]
  by_cases hji : i = j
  · subst hji
    rw [hi] at hj
    cases hj
    exact ⟨n, getElem?_set_self (lt_of_get hi)⟩
  · rw [getElem?_set_ne hji]
    exact ⟨g.pins, hj⟩

/-- A page that is not resident is left so, and the pin of a resident one is new. -/
theorem residentPin_guarded (hinv : PoolInv store pool pins) (recordAccess : Bool) (page : PageId)
    (log : S → List (PageId × Page)) :
    Ensures (residentPin policy recordAccess page) pool
      (fun r pool' => (r = none ∧ pool' = pool) ∨
        ∃ i frame, r = some ⟨bufferId i, page⟩ ∧ Hit pool pool' i frame page)
      (fun _ => Guarded log pool) := by
  have hblind : ∀ i, Blind i (fun pool : BufferPool S P => pool.store) :=
    fun i => ⟨fun _ _ => rfl, fun _ => rfl, fun _ _ => rfl, fun _ => rfl⟩
  refine ((residentPin_spec hinv recordAccess page fun _ _ => False).and
    ((preserves_residentPin policy page hblind fun _ _ _ => rfl).ensures pool)).mono ?_ ?_
  · rintro r pool' ⟨⟨hr, hpool, _⟩ | hhit, _⟩
    · exact .inl ⟨hr, hpool⟩
    · exact .inr hhit
  · rintro e pool' ⟨⟨hfault, _⟩, hstore⟩
    have hstore' : pool'.store = pool.store := hstore
    cases hfault with
    | error hu _ => exact .of_eq hu.frames (by rw [hstore'])
    | panic _ hs =>
      obtain hu | ⟨_, _, _, _, hfalse, _⟩ := hs
      · exact .of_eq hu.frames (by rw [hstore'])
      · exact hfalse.elim

theorem pin_guarded (hlog : Records store log) (hinv : PoolInv store pool pins) (page : PageId) :
    Ensures (pin store policy page) pool (fun _ => Guarded log pool) (fun _ => Guarded log pool) := by
  have hpoison : ∀ (e : Fault BufferError) (pool' : BufferPool S P), Guarded log pool pool' →
      afterPanic poison (fun _ => Guarded log pool) e pool' := by
    intro e pool' h
    cases e with
    | error x => exact h
    | panic p => exact ⟨h.kept, h.written⟩
  refine ensures_locked (fun _ => .refl log pool) (fun _ => ?_)
  refine .bind ((residentPin_guarded hinv true page log).mono ?_ hpoison)
  rintro r pool' (⟨rfl, rfl⟩ | ⟨i, frame, rfl, hhit⟩)
  · refine guarded_victim hinv ?_
    intro i frame p hfree hp
    have hid := hinv.layout.bufferId_toNat hfree.at_
    have hread := hlog.readPage page pool'.store
    refine .bind (ensures_io ?_ ?_)
    · intro data s hs
      rw [show store.readPage page pool'.store = (.ok data, s) from hs] at hread
      exact guarded_replace hlog hfree hp rfl rfl hread (preserves_publish (blind_besides log i) page data)
        fun _ => preserves_loadedPin policy log hid page
    · intro e s hs
      rw [show store.readPage page pool'.store = (.error e, s) from hs] at hread
      exact .of_eq rfl hread
  · exact .of_pins hhit.resident hhit.frames (by rw [hhit.store])

theorem flushPage_guarded (hlog : Records store log) (hinv : PoolInv store pool pins) (page : PageId) :
    Ensures (flushPage store policy page) pool (fun _ => Guarded log pool) (fun _ => Guarded log pool) := by
  refine .bracket (ensures_locked (fun _ => .refl log pool) fun _ =>
    (residentPin_guarded hinv false page log).mono ?_ ?_)
  · rintro r q (⟨rfl, rfl⟩ | ⟨i, frame, rfl, hhit⟩)
    · exact .refl log q
    have hid : (⟨bufferId i, page⟩ : PinnedBuffer).index.get.toNat = i :=
      hinv.layout.bufferId_toNat hhit.resident
    have hlt := lt_of_get hhit.resident
    have hget : q.frames[(⟨bufferId i, page⟩ : PinnedBuffer).index.get.toNat]? =
        some { frame with pins := frame.pins + 1 } := by
      rw [hid, hhit.frames]
      exact getElem?_set_self hlt
    have hblind : Blind (⟨bufferId i, page⟩ : PinnedBuffer).index.get.toNat
        (besides log i : BufferPool S P → _) := by
      rw [hid]
      exact blind_besides log i
    have hq : besides log i q = besides log i pool := by
      rw [← (blind_besides log i).frame { frame with pins := frame.pins + 1 } pool]
      unfold besides setFrame
      rw [hhit.frames, hhit.store]
    cases hp : frame.poisoned with
    | true =>
      -- `read` returns an error, and the pin of the flush is dropped
      refine .bind (ensures_read hget (fun _ => ?_) fun _ hf => ?_)
      · refine ensures_drop hget (Nat.succ_pos _) (.of_pins hhit.resident (n := frame.pins) ?_ ?_)
        · show q.frames.set (bufferId i).get.toNat _ = _
          rw [hid, hhit.frames, set_set]
          rfl
        · show log q.store = _
          rw [hhit.store]
      · rw [show frame.poisoned = false from hf] at hp
        cases hp
    | false =>
      have hdrop : ∀ {pool' : BufferPool S P}, Worked log pool i frame pool' →
          Ensures (⟨bufferId i, page⟩ : PinnedBuffer).drop pool'
            (fun _ => Guarded log pool) (fun _ => Guarded log pool) := fun h =>
        (h.then (preserves_drop hblind)).mono (fun _ _ h => h.guarded hhit.resident hp)
          (fun _ _ h => h.guarded hhit.resident hp)
      have hread : Ensures (PinnedBuffer.read ⟨bufferId i, page⟩
          (writeBack store (bufferId i).get.toNat page)) q
          (fun _ => Worked log pool i frame) (fun _ => Worked log pool i frame) := by
        refine ensures_read hget (fun _ => .of_besides hq) fun _ _ => ?_
        refine .bind (ensures_desc hget ?_)
        split
        · exact .bind ((worked_write hlog hq hhit.tag).mono
            (fun _ _ h => h.then (preserves_update hblind _)) (fun _ _ h => h))
        · exact .of_besides hq
      exact .bind (hread.mono (fun _ _ h => hdrop h) (fun _ _ h => hdrop h))
  · intro e q hq
    cases e with
    | error x => exact hq
    | panic p => exact ⟨hq.kept, hq.written⟩

/-- After calls that only cleared dirty bits. -/
theorem Guarded.flushed (h : Guarded log pool q) (hf : Flushed store pool q) (h' : Guarded log q pool') :
    Guarded log pool pool' := by
  obtain ⟨new, hnew, hbytes⟩ := h.written
  obtain ⟨new', hnew', hbytes'⟩ := h'.written
  refine ⟨fun i frame hi hp => ?_, new ++ new', ?_, fun e he => ?_⟩
  · obtain ⟨n, hn⟩ := h.kept i frame hi hp
    obtain ⟨n', hn'⟩ := h'.kept i _ hn hp
    exact ⟨n', hn'⟩
  · rw [hnew', hnew, append_assoc]
  · rcases mem_append.1 he with he | he
    · exact hbytes e he
    · obtain ⟨j, g, hj, hp, ht, hd⟩ := hbytes' e he
      have hlt : j < pool.frames.length := by
        rw [← hf.length]
        exact lt_of_get hj
      obtain ⟨dirty, hframe, _⟩ := hf.frames j _ (getElem?_eq_getElem hlt)
      rw [hj] at hframe
      cases hframe
      exact ⟨j, _, getElem?_eq_getElem hlt, hp, ht, hd⟩

theorem flushPages_guarded (hlog : Records store log) (policy : VictimStrategy P) (pages : List PageId) :
    ∀ {pool : BufferPool S P}, PoolInv store pool pins →
      Ensures (flushPages store policy pages) pool (fun _ => Guarded log pool) (fun _ => Guarded log pool) := by
  induction pages with
  | nil => exact fun _ => .refl log _
  | cons page pages ih =>
    intro pool hinv
    refine .bind (((flushPage_spec hinv page).and (flushPage_guarded hlog hinv page)).mono ?_ (fun _ _ h => h.2))
    rintro r q ⟨⟨_, hinv', hflushed, _⟩, hguarded⟩
    exact (ih hinv').mono (fun _ _ h => hguarded.flushed hflushed h) (fun _ _ h => hguarded.flushed hflushed h)

theorem flushAll_guarded (hlog : Records store log) (hinv : PoolInv store pool pins) :
    Ensures (flushAll store policy) pool (fun _ => Guarded log pool) (fun _ => Guarded log pool) := by
  refine .bind (ensures_locked (fun _ => .refl log pool) (fun _ => ?_))
  refine .bind (.get (Exec.ensures_pure.2 (.bind ?_)))
  refine (flushPages_guarded hlog policy _ hinv).mono ?_ (fun _ _ h => h)
  intro _ q hq
  have hsync : ∀ {r : Except IoError Unit} {s : S}, store.sync q.store = (r, s) →
      Guarded log pool { q with store := s } := by
    intro r s hs
    have hsame := hlog.sync q.store
    rw [hs] at hsame
    obtain ⟨new, hnew, hbytes⟩ := hq.written
    exact ⟨hq.kept, new, hsame.trans hnew, hbytes⟩
  exact ensures_io (fun _ _ hs => hsync hs) (fun _ _ hs => hsync hs)

/-! ## Reads and writes of a poisoned frame -/

theorem read_poisoned {pin : PinnedBuffer} (hi : pool.frames[pin.index.get.toNat]? = some frame)
    (hp : frame.poisoned = true) (f : Page → PoolM S P T) :
    pin.read f pool = (.error (.error .poisoned), pool) := by
  unfold PinnedBuffer.read
  rw [bind_ok (desc_run hi), if_pos hp]
  rfl

theorem write_poisoned {pin : PinnedBuffer} (hi : pool.frames[pin.index.get.toNat]? = some frame)
    (hp : frame.poisoned = true) (f : Exec Empty Page T) :
    pin.write f pool = (.error (.error .poisoned), pool) := by
  unfold PinnedBuffer.write latched
  rw [bind_ok (desc_run hi), if_pos hp]
  rfl

variable {op : Call T} {r : Result BufferError (Returned T)}

/-- **Every call leaves poisoned frames and writes only other bytes.** -/
theorem guarded_call (hlog : Records store log) (hinv : PoolInv store c.pool c.pins)
    (h : c.call store policy op = some (r, c')) : Guarded log c.pool c'.pool := by
  cases op with
  | newPage => exact run_pool (Option.some.inj h) (newPage_guarded hlog hinv)
  | pin page => exact run_pool (Option.some.inj h) (pin_guarded hlog hinv page)
  | flushPage page => exact run_pool (Option.some.inj h) (flushPage_guarded hlog hinv page)
  | flushAll => exact run_pool (Option.some.inj h) (flushAll_guarded hlog hinv)
  | read k f => cases outcome_of_call hinv h <;> exact .refl log _
  | drop k =>
    cases outcome_of_call hinv h with
    | drop _ hi => exact .of_pins hi rfl rfl
  | write k f =>
    obtain ⟨pin, hk, hr⟩ := Option.map_eq_some_iff.1 h
    obtain ⟨frame, hi, _⟩ := hinv.frame_of_pin hk
    cases hp : frame.poisoned with
    | true =>
      have hwrite := write_poisoned hi hp f
      refine run_pool hr (Exec.ensures_iff.2 ⟨fun _ _ hw => ?_, fun _ _ hw => ?_⟩)
      · rw [hwrite] at hw
        cases hw
      · rw [hwrite] at hw
        cases hw
        exact .refl log _
    | false =>
      have hset : ∀ g, Guarded log c.pool (setFrame pin.index.get.toNat g c.pool) := fun g =>
        (Worked.of_besides ((blind_besides log _).frame g c.pool)).guarded hi hp
      refine run_pool hr ((write_spec f hi).mono ?_ ?_)
      · intro _ pool hq
        rw [hq.2]
        exact hset _
      · intro e pool he
        rcases he with ⟨_, _, rfl⟩ | ⟨_, _, rfl⟩
        · exact .refl log _
        · exact hset _

/-! ## The other pages -/

/-- One call, as its client sees it. -/
structure Event where
  T : Type
  pins : List PinnedBuffer
  op : Call T
  result : Result BufferError (Returned T)

/-- Calls with what they returned. -/
inductive Trace (store : PageStore S) (policy : VictimStrategy P) :
    Client S P → List Event → Client S P → Prop where
  | nil (c : Client S P) : Trace store policy c [] c
  | call {c c' c'' : Client S P} {events : List Event} {T : Type} {op : Call T}
      {r : Result BufferError (Returned T)} : Trace store policy c events c' →
      c'.call store policy op = some (r, c'') →
      Trace store policy c (events ++ [⟨T, c'.pins, op, r⟩]) c''

theorem Trace.calls {events : List Event} (h : Trace store policy c events c') : Calls store policy c c' := by
  induction h with
  | nil => exact .refl _
  | call _ hcall ih => exact ih.call hcall

/-- The same calls on a page array, with the same answers. -/
inductive PageArray.Steps : Pages → List Event → Pages → Prop where
  | nil (A : Pages) : Steps A [] A
  | step {A A' A'' : Pages} {events : List Event} {e : Event} : Steps A events A' →
      PageArray.Step e.pins A' e.op e.result A'' → Steps A (events ++ [e]) A''

/-- The arrays differ in this page at most. -/
def Apart (page : PageId) (A B : Pages) : Prop := ∀ other, other ≠ page → B other = A other

variable {A : Pages}

theorem Apart.update {B : Pages} (h : Apart page A B) (other : PageId) (data : Option Page) :
    Apart page (Function.update A other data) (Function.update B other data) := by
  intro q hq
  by_cases ho : q = other
  · rw [ho, Function.update_self, Function.update_self]
  · rw [update_of_ne ho, update_of_ne ho]
    exact h q hq

/-- The call runs a callback through a pin of the page. -/
def Through (page : PageId) (pins : List PinnedBuffer) : Call T → Prop
  | .read k _ => ∃ pin, pins[k]? = some pin ∧ pin.page = page
  | .write k _ => ∃ pin, pins[k]? = some pin ∧ pin.page = page
  | _ => False

/-- A call whose callback did not run on the page does the same whatever the page holds. -/
theorem PageArray.Step.elsewhere {A' B : Pages} (h : PageArray.Step pins A op r A') (hB : Apart page A B)
    (hA : (A page).isSome = true) (hsome : (B page).isSome = true)
    (hthrough : Through page pins op → ∃ x, r = .error (.error x)) :
    ∃ B', PageArray.Step pins B op r B' ∧ Apart page A' B' ∧ B' page = B page ∧ A' page = A page := by
  -- neither an unallocated page nor the page of a callback that ran
  have hfresh : ∀ {q : PageId}, A q = none → page ≠ q ∧ B q = none := by
    intro q hq
    have hne : page ≠ q := by
      rintro rfl
      rw [hq] at hA
      cases hA
    exact ⟨hne, (hB q hne.symm).trans hq⟩
  have hran : ∀ {pin : PinnedBuffer} {data : Page}, (pin.page = page → Through page pins op) →
      (∀ x, r ≠ .error (.error x)) → A pin.page = some data →
      page ≠ pin.page ∧ B pin.page = some data := by
    intro pin data hpin hr hdata
    have hne : page ≠ pin.page := by
      intro he
      obtain ⟨x, hx⟩ := hthrough (hpin he.symm)
      exact hr x hx
    exact ⟨hne, (hB _ hne.symm).trans hdata⟩
  cases h with
  | newPage hnone =>
    obtain ⟨hne, hnone'⟩ := hfresh hnone
    exact ⟨_, .newPage hnone', hB.update _ _, update_of_ne hne _ _, update_of_ne hne _ _⟩
  | pin hpage =>
    refine ⟨B, .pin ?_, hB, rfl, rfl⟩
    rename_i q _
    by_cases hq : q = page
    · rw [hq]
      exact hsome
    · rw [hB q hq]
      exact hpage
  | read hk hdata hv =>
    obtain ⟨_, hdata'⟩ := hran (fun he => ⟨_, hk, he⟩) (fun x hx => by cases hx) hdata
    exact ⟨B, .read hk hdata' hv, hB, rfl, rfl⟩
  | write hk hdata hv =>
    obtain ⟨hne, hdata'⟩ := hran (fun he => ⟨_, hk, he⟩) (fun x hx => by cases hx) hdata
    exact ⟨_, .write hk hdata' hv, hB.update _ _, update_of_ne hne _ _, update_of_ne hne _ _⟩
  | drop => exact ⟨B, .drop, hB, rfl, rfl⟩
  | flushPage => exact ⟨B, .flushPage, hB, rfl, rfl⟩
  | flushAll => exact ⟨B, .flushAll, hB, rfl, rfl⟩
  | error => exact ⟨B, .error, hB, rfl, rfl⟩
  | panic hop => exact ⟨B, .panic hop, hB, rfl, rfl⟩
  | newPagePanic hnone =>
    obtain ⟨hne, hnone'⟩ := hfresh hnone
    exact ⟨_, .newPagePanic hnone', hB.update _ _, update_of_ne hne _ _, update_of_ne hne _ _⟩
  | writePanic hk hdata hp =>
    obtain ⟨hne, hdata'⟩ := hran (fun he => ⟨_, hk, he⟩) (fun x hx => by cases hx) hdata
    exact ⟨_, .writePanic hk hdata' hp, hB.update _ _, update_of_ne hne _ _, update_of_ne hne _ _⟩

/-! ## A poisoned frame -/

variable {k : Nat}

/-- The pins of a page are pins of its frame. -/
theorem PoolInv.index_of_page (hinv : PoolInv store c.pool c.pins) (hi : c.pool.frames[i]? = some frame)
    (ht : frame.tag = some page) {pin : PinnedBuffer} (hk : c.pins[k]? = some pin) (hpage : pin.page = page) :
    pin.index.get.toNat = i := by
  obtain ⟨g, hg, htag⟩ := hinv.frame_of_pin hk
  rw [hpage] at htag
  exact hinv.layout.tag_injective hg hi htag ht

section

variable (store : PageStore S) (policy : VictimStrategy P) {pin : PinnedBuffer} (hk : c.pins[k]? = some pin)
  (hi : c.pool.frames[pin.index.get.toNat]? = some frame) (hp : frame.poisoned = true)

include hk hi hp

theorem call_read_poisoned (f : Page → Result Empty T) :
    c.call store policy (.read k f) = some (.error (.error .poisoned), c) := by
  show c.pins[k]?.map _ = _
  rw [hk, Option.map_some]
  unfold Client.run
  rw [read_poisoned hi hp]
  rfl

theorem call_write_poisoned (f : Exec Empty Page T) :
    c.call store policy (.write k f) = some (.error (.error .poisoned), c) := by
  show c.pins[k]?.map _ = _
  rw [hk, Option.map_some]
  unfold Client.run
  rw [write_poisoned hi hp]
  rfl

end

theorem call_poisoned (hinv : PoolInv store c.pool c.pins) (hi : c.pool.frames[i]? = some frame)
    (ht : frame.tag = some page) (hp : frame.poisoned = true) (h : c.call store policy op = some (r, c'))
    (hthrough : Through page c.pins op) : r = .error (.error .poisoned) := by
  cases op with
  | read k f =>
    obtain ⟨pin, hk, hpage⟩ := hthrough
    rw [← hinv.index_of_page hi ht hk hpage] at hi
    rw [call_read_poisoned store policy hk hi hp] at h
    cases h
    rfl
  | write k f =>
    obtain ⟨pin, hk, hpage⟩ := hthrough
    rw [← hinv.index_of_page hi ht hk hpage] at hi
    rw [call_write_poisoned store policy hk hi hp] at h
    cases h
    rfl
  | _ => exact hthrough.elim

theorem call_drop (hinv : PoolInv store c.pool c.pins) (policy : VictimStrategy P) {pin : PinnedBuffer}
    (hk : c.pins[k]? = some pin) (hi : c.pool.frames[pin.index.get.toNat]? = some frame) :
    0 < frame.pins ∧ c.call store policy (.drop k : Call T) = some (.ok .unit,
      ⟨setFrame pin.index.get.toNat { frame with pins := frame.pins - 1 } c.pool, c.pins.eraseIdx k⟩) := by
  have hpos := (hinv.layout.unpinned hk hi).1
  refine ⟨hpos, ?_⟩
  show c.pins[k]?.map _ = _
  rw [hk, Option.map_some]
  unfold Client.run
  rw [drop_run hi hpos]
  rfl

/-- The call returned `Poisoned`, and the policy may be in another state. -/
def ReturnsPoisoned (m : PoolM S P α) (pool : BufferPool S P) : Prop :=
  ∃ p, m pool = (.error (.error .poisoned), { pool with strategy := p })

theorem returnsPoisoned_of_locked (h : Ensures m pool (fun _ _ => False) (afterPanic poison fun e pool' =>
      e = .error .poisoned ∧ ∃ p, pool' = { pool with strategy := p })) :
    ReturnsPoisoned (locked m) pool := by
  obtain ⟨e, pool', hm, rfl, p, rfl⟩ :=
    (ensures_locked (fun _ => ⟨rfl, pool.strategy, rfl⟩) fun _ => h).fails
  exact ⟨p, hm⟩

section

variable (hinv : PoolInv store pool pins) (hv : victim policy pool = (.ok i, q))
  (hi : pool.frames[i]? = some frame) (hp : frame.poisoned = true)

include hinv hv hi hp

/-- A call that chooses a poisoned frame returns before it does anything to it. -/
theorem ensures_victim_poisoned (k : Nat → PoolM S P α) :
    Ensures (do let i ← victim policy; check i; k i) pool (fun _ _ => False)
      (afterPanic poison fun e pool' => e = .error .poisoned ∧ ∃ p, pool' = { pool with strategy := p }) := by
  obtain ⟨⟨p, rfl⟩, _⟩ := (victim_spec hinv).ok hv
  refine .bind (Exec.ensures_of_ok hv (.bind (ensures_check hi ?_ ?_)))
  · intro _
    exact ⟨rfl, p, rfl⟩
  · intro _ hf
    rw [hp] at hf
    cases hf

theorem newPage_poisoned : ReturnsPoisoned (newPage store policy) pool :=
  returnsPoisoned_of_locked (ensures_victim_poisoned hinv hv hi hp _)

theorem pin_poisoned (habsent : pool.pages.lookup page = none) : ReturnsPoisoned (pin store policy page) pool := by
  have hresident : residentPin policy true page pool = (.ok none, pool) := by
    unfold residentPin
    rw [bind_ok (Exec.get_run pool), habsent]
    rfl
  exact returnsPoisoned_of_locked (.bind (Exec.ensures_of_ok hresident (ensures_victim_poisoned hinv hv hi hp _)))

end

/-! ## After a write callback panicked -/

/-- What holds in a client after any calls, `i` the frame, `page` the page and `bytes` the bytes that a
panicking write callback left; `before` is the record of writes at the panic. -/
structure Contained (store : PageStore S) (policy : VictimStrategy P) (i : Nat) (page : PageId)
    (bytes : Page) (before : List (PageId × Page)) (c : Client (S × List (PageId × Page)) P) : Prop where
  /-- The frame keeps its page and its bytes. -/
  kept : ∃ n, c.pool.frames[i]? = some ⟨bytes, some page, n, true, true⟩
  mapped : c.pool.pages.lookup page = some i
  /-- No callback runs on it: every one of them gets the same answer. -/
  read : ∀ (k : Nat) (pin : PinnedBuffer), c.pins[k]? = some pin → pin.index.get.toNat = i →
    ∀ (T : Type) (f : Page → Result Empty T),
      c.call store.recorded policy (.read k f) = some (.error (.error .poisoned), c)
  write : ∀ (k : Nat) (pin : PinnedBuffer), c.pins[k]? = some pin → pin.index.get.toNat = i →
    ∀ (T : Type) (f : Exec Empty Page T),
      c.call store.recorded policy (.write k f) = some (.error (.error .poisoned), c)
  /-- The store has not been given its page since, and the next call gives it bytes of other frames. -/
  unwritten : ∃ new, c.pool.store.2 = before ++ new ∧ ∀ e ∈ new, e.1 ≠ page
  others : ∀ (T : Type) (op : Call T) (r : Result BufferError (Returned T))
    (c' : Client (S × List (PageId × Page)) P), c.call store.recorded policy op = some (r, c') →
    ∃ new, c'.pool.store.2 = c.pool.store.2 ++ new ∧ ∀ e ∈ new, ∃ (j : Nat) (g : Frame),
      j ≠ i ∧ c.pool.frames[j]? = some g ∧ g.tag = some e.1 ∧ g.data = e.2
  /-- It is not evicted. -/
  newPage : ∀ q, victim policy c.pool = (.ok i, q) → ReturnsPoisoned (newPage store.recorded policy) c.pool
  pin : ∀ q other, victim policy c.pool = (.ok i, q) → c.pool.pages.lookup other = none →
    ReturnsPoisoned (pin store.recorded policy other) c.pool
  /-- Its pins are released. -/
  drop : ∀ (T : Type) (k : Nat) (pin : PinnedBuffer), c.pins[k]? = some pin → pin.index.get.toNat = i →
    ∃ n, c.pool.frames[i]? = some ⟨bytes, some page, n + 1, true, true⟩ ∧
      c.call store.recorded policy (.drop k : Call T) = some (.ok .unit,
        ⟨setFrame i ⟨bytes, some page, n, true, true⟩ c.pool, c.pins.eraseIdx k⟩)

variable {bytes : Page}

/-- What calls keep of a poisoned frame. -/
structure Held (store : PageStore S) (log : S → List (PageId × Page)) (i : Nat) (page : PageId)
    (bytes : Page) (before : List (PageId × Page)) (c : Client S P) : Prop where
  inv : PoolInv store c.pool c.pins
  kept : ∃ n, c.pool.frames[i]? = some ⟨bytes, some page, n, true, true⟩
  unwritten : ∃ new, log c.pool.store = before ++ new ∧ ∀ e ∈ new, e.1 ≠ page

/-- The frames that are written are others. -/
theorem Guarded.others (h : Guarded log pool pool') (hi : pool.frames[i]? = some frame)
    (hp : frame.poisoned = true) :
    ∃ new, log pool'.store = log pool.store ++ new ∧ ∀ e ∈ new, ∃ (j : Nat) (g : Frame),
      j ≠ i ∧ pool.frames[j]? = some g ∧ g.tag = some e.1 ∧ g.data = e.2 := by
  obtain ⟨new, hnew, hbytes⟩ := h.written
  refine ⟨new, hnew, fun e he => ?_⟩
  obtain ⟨j, g, hj, hg, ht, hd⟩ := hbytes e he
  refine ⟨j, g, ?_, hj, ht, hd⟩
  rintro rfl
  rw [hi] at hj
  cases hj
  rw [hp] at hg
  cases hg

variable {before : List (PageId × Page)}

section

variable (h : Held store log i page bytes before c)

include h

theorem Held.call (hlog : Records store log)
    (hcall : c.call store policy op = some (r, c')) : Held store log i page bytes before c' := by
  have hguarded := guarded_call hlog h.inv hcall
  obtain ⟨n, hn⟩ := h.kept
  obtain ⟨new, hnew, hpage⟩ := h.unwritten
  obtain ⟨new', hnew', hother⟩ := hguarded.others hn rfl
  refine ⟨(outcome_of_call h.inv hcall).inv h.inv, ?_, new ++ new', ?_, fun e he => ?_⟩
  · obtain ⟨n', hn'⟩ := hguarded.kept i _ hn rfl
    exact ⟨n', hn'⟩
  · rw [hnew', hnew, append_assoc]
  · rcases mem_append.1 he with he | he
    · exact hpage e he
    · intro hpage
      obtain ⟨j, g, hne, hj, ht, _⟩ := hother e he
      rw [hpage] at ht
      exact hne (h.inv.layout.tag_injective hj hn ht rfl)

theorem Held.calls (hlog : Records store log)
    (hcalls : Calls store policy c c') : Held store log i page bytes before c' :=
  hcalls.keeps (fun _ _ _ _ _ hc hcall => hc.call hlog hcall) h

theorem Held.isSome : (logical store c.pool page).isSome = true := by
  obtain ⟨n, hn⟩ := h.kept
  rw [h.inv.logical_tag hn rfl]
  rfl

/-- **Calls do the same to the other pages whatever the poisoned page holds.** -/
theorem Held.elsewhere (hlog : Records store log)
    {events : List Event} (htrace : Trace store policy c events c') (hA : Apart page (logical store c.pool) A)
    (hsome : (A page).isSome = true) :
    ∃ A', PageArray.Steps A events A' ∧ Apart page (logical store c'.pool) A' ∧ A' page = A page := by
  induction htrace with
  | nil => exact ⟨A, .nil A, hA, rfl⟩
  | @call c1 c2 events T op r htrace hcall ih =>
    obtain ⟨A1, hsteps, hapart, hpage⟩ := ih
    have hheld := h.calls hlog htrace.calls
    obtain ⟨n, hn⟩ := hheld.kept
    obtain ⟨A2, hstep, hapart', hpage', _⟩ :=
      ((outcome_of_call hheld.inv hcall).refines hheld.inv).elsewhere hapart hheld.isSome
        (by rw [hpage]; exact hsome) fun hthrough => ⟨_, call_poisoned hheld.inv hn rfl rfl hcall hthrough⟩
    exact ⟨A2, hsteps.step hstep, hapart', hpage'.trans hpage⟩

end

theorem Held.contained {c : Client (S × List (PageId × Page)) P}
    (h : Held store.recorded Prod.snd i page bytes before c) (policy : VictimStrategy P) :
    Contained store policy i page bytes before c := by
  obtain ⟨n, hn⟩ := h.kept
  refine ⟨h.kept, (h.inv.layout.mapped page i).2 ⟨_, hn, rfl⟩, ?_, ?_, h.unwritten, ?_, ?_, ?_, ?_⟩
  · intro k pin hk hpin T f
    subst hpin
    exact call_read_poisoned _ policy hk hn rfl f
  · intro k pin hk hpin T f
    subst hpin
    exact call_write_poisoned _ policy hk hn rfl f
  · intro T op r c' hcall
    exact (guarded_call (records_recorded store) h.inv hcall).others hn rfl
  · intro q hv
    exact newPage_poisoned h.inv hv hn rfl
  · intro q other hv habsent
    exact pin_poisoned h.inv hv hn rfl habsent
  · intro T k pin hk hpin
    subst hpin
    obtain ⟨hpos, hdrop⟩ := call_drop (T := T) h.inv policy hk hn
    obtain ⟨m, rfl⟩ : ∃ m, n = m + 1 := ⟨n - 1, (Nat.succ_pred_eq_of_pos hpos).symm⟩
    exact ⟨m, hn, hdrop⟩

/-- **Poisoned bytes never escape.**  Whatever bytes a panicking write callback leaves, they stay in their
frame, which becomes dirty and poisoned.  After every later sequence of calls, under any policy and with
any answers of the store, they are there unread, unwritten and not replaced, and pins of the frame can be
dropped.  Every other page holds what the same calls make of a page array on which the callback did not
run, or returned with any bytes. -/
theorem poisoned_bytes_never_escape {store : PageStore S} {policy : VictimStrategy P}
    {c c₁ c₂ : Client (S × List (PageId × Page)) P} {panicked : Bool}
    (hrun : Run store.recorded policy c panicked) {k : Nat} {pin : PinnedBuffer}
    (hk : c.pins[k]? = some pin) {f : Exec Empty Page T} {p : Panic}
    (hpanic : c.call store.recorded policy (.write k f) = some (.error (.panic p), c₁))
    {events : List Event} (htrace : Trace store.recorded policy c₁ events c₂) :
    (∃ frame, c.pool.frames[pin.index.get.toNat]? = some frame ∧ frame.tag = some pin.page ∧
      c₁ = ⟨setFrame pin.index.get.toNat
        { frame with data := (f frame.data).2, dirty := true, poisoned := true } c.pool, c.pins⟩ ∧
      Contained store policy pin.index.get.toNat pin.page (f frame.data).2 c.pool.store.2 c₂) ∧
    ∀ A : Pages, Apart pin.page (logical store.recorded c.pool) A → (A pin.page).isSome = true →
      ∃ A', PageArray.Steps A events A' ∧ Apart pin.page (logical store.recorded c₂.pool) A' ∧
        A' pin.page = A pin.page := by
  have hlog := records_recorded store
  have ho := outcome_of_call hrun.inv hpanic
  have hinv := ho.inv hrun.inv
  cases ho with
  | @writePanic _ _ pin' frame _ hk' hi hp =>
    rw [hk] at hk'
    cases hk'
    have ht := hrun.inv.tag_of_pin hk hi
    have hheld : Held store.recorded Prod.snd pin.index.get.toNat pin.page (f frame.data).2 c.pool.store.2
        ⟨setFrame pin.index.get.toNat
          { frame with data := (f frame.data).2, dirty := true, poisoned := true } c.pool, c.pins⟩ := by
      refine ⟨hinv, ⟨frame.pins, ?_⟩, [], (append_nil _).symm, fun e he => by cases he⟩
      rw [← ht]
      exact getElem?_set_self (lt_of_get hi)
    refine ⟨⟨frame, hi, ht, rfl, (hheld.calls hlog htrace.calls).contained policy⟩, fun A hA hsome => ?_⟩
    refine hheld.elsewhere hlog htrace (fun other hne => ?_) hsome
    rw [logical_setFrame hrun.inv hi ht, update_of_ne hne]
    exact hA other hne

/-- The pool of one page over a recorded store. -/
def recordedPage : Client (MemoryPageStore.State × List (PageId × Page)) ClockStrategy.State :=
  ⟨⟨([Page.zero], []), onePage.pool.frames, onePage.pool.pages, onePage.pool.strategy, false⟩, onePage.pins⟩

theorem recordedPage_run : Run MemoryPageStore.recorded ClockStrategy recordedPage false := by
  have h0 : Run MemoryPageStore.recorded ClockStrategy
      ⟨⟨([], []), [Frame.unused], ∅, ⟨[false], 0⟩, false⟩, []⟩ false :=
    .start (show withStrategy 1 ([], []) ⟨[false], 0⟩ = .ok _ from rfl)
  exact h0.call (show Client.call MemoryPageStore.recorded ClockStrategy _ (.newPage : Call Unit) =
    some (.ok (.pinned ⟨bufferId 0, 0⟩), recordedPage) from rfl)

/-- A flush after the panic: it returns `Poisoned`, and nothing has been written. -/
theorem poisoned_page_is_not_flushed : ∃ c₁ : Client (MemoryPageStore.State × List (PageId × Page)) _,
    recordedPage.call MemoryPageStore.recorded ClockStrategy (.write 0 panicAtOnce) =
      some (.error (.panic .foreign), c₁) ∧
    c₁.call MemoryPageStore.recorded ClockStrategy (.flushPage 0 : Call Unit) =
      some (.error (.error .poisoned), c₁) ∧
    Contained MemoryPageStore ClockStrategy 0 0 Page.zero [] c₁ := by
  refine ⟨⟨{ recordedPage.pool with frames := [⟨Page.zero, some 0, 1, true, true⟩] }, recordedPage.pins⟩,
    rfl, rfl, ?_⟩
  have htrace := (Trace.nil _).call (show Client.call MemoryPageStore.recorded ClockStrategy
    ⟨{ recordedPage.pool with frames := [⟨Page.zero, some 0, 1, true, true⟩] }, recordedPage.pins⟩
    (.flushPage 0 : Call Unit) = some (.error (.error .poisoned), _) from rfl)
  obtain ⟨⟨frame, hframe, _, _, hcontained⟩, _⟩ :=
    poisoned_bytes_never_escape recordedPage_run (show recordedPage.pins[0]? = some ⟨bufferId 0, 0⟩ from rfl)
      (show recordedPage.call MemoryPageStore.recorded ClockStrategy (.write 0 panicAtOnce) =
        some (.error (.panic .foreign), _) from rfl) htrace
  cases hframe
  exact hcontained

end ChiliDB

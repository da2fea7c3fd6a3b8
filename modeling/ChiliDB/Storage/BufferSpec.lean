import ChiliDB.Storage.BufferLayout

/-!
# What each call of the pool does

* `Coherent content frames` — a tagged page is allocated, and a clean frame equals its stored bytes.
* `PoolInv store pool pins` — the layout of the pool and its coherence with the store.
* `logical store pool` — the content of every allocated page: the frame's bytes if it is mapped, the
  stored bytes otherwise.
* `Unchanged` — a call left frames and page map alone and touched only stored copies of dirty pages;
  `Loaded` — it gave one unpinned frame another page.
* `pin_spec`, `newPage_spec`, `flushPage_spec`, `flushAll_spec`, `read_spec`, `write_spec`,
  `drop_spec` — one specification a call, faults included.
-/

namespace ChiliDB

open Effect

variable {S P α T : Type} {store : PageStore S} {policy : VictimStrategy P}

/-! ## Coherence with the store -/

structure Coherent (content : Pages) (frames : List Frame) : Prop where
  allocated : ∀ (i : Nat) (frame : Frame) (page : PageId), frames[i]? = some frame →
    frame.tag = some page → (content page).isSome = true
  clean : ∀ (i : Nat) (frame : Frame) (page : PageId), frames[i]? = some frame →
    frame.tag = some page → frame.dirty = false → content page = some frame.data

/-- Only stored copies of dirty pages differ, and no page appears or disappears. -/
def Torn (frames : List Frame) (content content' : Pages) : Prop :=
  ∀ page, content' page = content page ∨ (content' page).isSome = (content page).isSome ∧
    ∃ (i : Nat) (frame : Frame), frames[i]? = some frame ∧ frame.tag = some page ∧ frame.dirty = true

theorem Torn.refl (frames : List Frame) (content : Pages) : Torn frames content content :=
  fun _ => .inl rfl

variable {frames : List Frame} {a b : Pages}

theorem Torn.isSome (h : Torn frames a b) (page : PageId) : (b page).isSome = (a page).isSome := by
  rcases h page with hb | ⟨hs, _⟩
  · rw [hb]
  · exact hs

theorem Coherent.torn {pages : PageMap} {pins : List PinnedBuffer} (h : Coherent a frames)
    (hl : Layout frames pages pins) (ht : Torn frames a b) : Coherent b frames := by
  refine ⟨fun i frame page hi htag => ?_, fun i frame page hi htag hc => ?_⟩
  · rw [ht.isSome page]; exact h.allocated i frame page hi htag
  · rcases ht page with hb | ⟨_, j, g, hj, hg, hd⟩
    · rw [hb]; exact h.clean i frame page hi htag hc
    · -- the dirty frame with this tag would be the clean one
      have hij := hl.tag_injective hi hj htag hg
      subst hij
      rw [hi] at hj
      cases hj
      rw [hc] at hd
      cases hd

structure PoolInv (store : PageStore S) (pool : BufferPool S P) (pins : List PinnedBuffer) : Prop where
  layout : Layout pool.frames pool.pages pins
  coherent : Coherent (store.content pool.store) pool.frames

/-- The bytes of an allocated page: its frame's if it is mapped, else the stored ones. -/
def logical (store : PageStore S) (pool : BufferPool S P) : Pages := fun page =>
  match pool.pages.lookup page with
  | some i => pool.frames[i]?.map Frame.data
  | none => store.content pool.store page

variable {pool : BufferPool S P}

theorem logical_of_lookup {page : PageId} {i : Nat} (h : pool.pages.lookup page = some i) :
    logical store pool page = pool.frames[i]?.map Frame.data := by
  unfold logical; rw [h]

theorem logical_of_none {page : PageId}
    (h : pool.pages.lookup page = none) : logical store pool page = store.content pool.store page := by
  unfold logical; rw [h]

theorem PoolInv.logical_tag {pins : List PinnedBuffer}
    (h : PoolInv store pool pins) {i : Nat} {frame : Frame} {page : PageId}
    (hi : pool.frames[i]? = some frame) (ht : frame.tag = some page) :
    logical store pool page = some frame.data := by
  rw [logical_of_lookup ((h.layout.mapped page i).2 ⟨frame, hi, ht⟩), hi]
  rfl

/-- A page is allocated in the pool exactly if the store has it. -/
theorem PoolInv.isSome_logical {pins : List PinnedBuffer} (h : PoolInv store pool pins) (page : PageId) :
    (logical store pool page).isSome = (store.content pool.store page).isSome := by
  cases hl : pool.pages.lookup page with
  | none => rw [logical_of_none hl]
  | some i =>
    obtain ⟨frame, hi, ht⟩ := (h.layout.mapped page i).1 hl
    rw [h.logical_tag hi ht, h.coherent.allocated i frame page hi ht]
    rfl

/-! ## Calls that change nothing -/

structure Unchanged (store : PageStore S) (pool pool' : BufferPool S P) : Prop where
  frames : pool'.frames = pool.frames
  pages : pool'.pages = pool.pages
  torn : Torn pool.frames (store.content pool.store) (store.content pool'.store)

variable {pool pool' : BufferPool S P} {pins : List PinnedBuffer} {i : Nat} {frame : Frame} {page : PageId}

theorem Unchanged.refl (pool : BufferPool S P) : Unchanged store pool pool :=
  ⟨rfl, rfl, .refl _ _⟩

theorem PoolInv.unchanged (h : PoolInv store pool pins) (hu : Unchanged store pool pool') :
    PoolInv store pool' pins := by
  refine ⟨?_, ?_⟩
  · rw [hu.frames, hu.pages]; exact h.layout
  · rw [hu.frames]; exact h.coherent.torn h.layout hu.torn

theorem Unchanged.logical_eq (hu : Unchanged store pool pool') (h : PoolInv store pool pins) :
    logical store pool' = logical store pool := by
  funext page
  cases hl : pool.pages.lookup page with
  | some i => rw [logical_of_lookup hl, logical_of_lookup (hu.pages ▸ hl), hu.frames]
  | none =>
    rw [logical_of_none hl, logical_of_none (hu.pages ▸ hl)]
    rcases hu.torn page with he | ⟨_, j, g, hj, hg, _⟩
    · exact he
    · exact absurd hg (h.layout.lookup_eq_none hl hj)

/-! ## Giving a frame another page -/

/-- Frame `i` held `frame` and now holds `page` with these bytes; its old page was written back if it
was dirty, and page `page` was stored as `data` or has just been allocated. -/
structure Loaded (store : PageStore S) (pool pool' : BufferPool S P) (i : Nat) (frame : Frame)
    (page : PageId) (data : Page) (count : Nat) : Prop where
  victim : pool.frames[i]? = some frame
  unpinned : frame.pins = 0
  next : frame.tag = none → i = pool.pages.keys.length
  absent : pool.pages.lookup page = none
  frames : pool'.frames = pool.frames.set i ⟨data, some page, count, false, frame.poisoned⟩
  pages : pool'.pages = reassigned pool.pages frame.tag page i
  written : ∀ old, frame.tag = some old → store.content pool'.store old = some frame.data
  stored : store.content pool'.store page = some data
  others : ∀ other, other ≠ page → store.content pool'.store other = store.content pool.store other ∨
    (store.content pool'.store other).isSome = (store.content pool.store other).isSome ∧
      frame.tag = some other

namespace Loaded

variable {data : Page} {count : Nat}

theorem page_ne (h : Loaded store pool pool' i frame page data count) (hinv : PoolInv store pool pins)
    {j : Nat} {g : Frame} (hj : pool.frames[j]? = some g) : g.tag ≠ some page :=
  hinv.layout.lookup_eq_none h.absent hj

theorem coherent (h : Loaded store pool pool' i frame page data count)
    (hinv : PoolInv store pool pins) : Coherent (store.content pool'.store) pool'.frames := by
  -- a frame that kept its tag keeps its stored copy: the victim alone was written back
  have hget : ∀ (j : Nat) (g : Frame) (q : PageId), pool'.frames[j]? = some g → g.tag = some q →
      (q = page ∧ g.data = data) ∨
        pool.frames[j]? = some g ∧ store.content pool'.store q = store.content pool.store q := by
    intro j g q hg htag
    rw [h.frames] at hg
    rcases frame_of_set hg with ⟨rfl, rfl⟩ | ⟨hj, hg⟩
    · exact .inl ⟨(Option.some.inj htag).symm, rfl⟩
    · have hq : q ≠ page := fun he => h.page_ne hinv hg (by rw [htag, he])
      refine .inr ⟨hg, ?_⟩
      rcases h.others q hq with he | ⟨_, hold⟩
      · exact he
      · exact absurd (hinv.layout.tag_injective hg h.victim htag hold) hj
  refine ⟨fun j g q hg htag => ?_, fun j g q hg htag hclean => ?_⟩
  · rcases hget j g q hg htag with ⟨rfl, _⟩ | ⟨hg, he⟩
    · rw [h.stored]; rfl
    · rw [he]; exact hinv.coherent.allocated j g q hg htag
  · rcases hget j g q hg htag with ⟨rfl, hd⟩ | ⟨hg, he⟩
    · rw [h.stored, hd]
    · rw [he]; exact hinv.coherent.clean j g q hg htag hclean

/-- The unpinned result, as unwinding from a panic of the policy leaves it. -/
theorem inv_unpinned (h : Loaded store pool pool' i frame page data 0)
    (hinv : PoolInv store pool pins) : PoolInv store pool' pins := by
  refine ⟨?_, h.coherent hinv⟩
  rw [h.frames, h.pages]
  exact hinv.layout.install h.victim h.unpinned h.next h.absent rfl rfl

theorem inv_pinned (h : Loaded store pool pool' i frame page data 1) (hinv : PoolInv store pool pins) :
    PoolInv store pool' (⟨BufferPool.bufferId i, page⟩ :: pins) := by
  refine ⟨?_, h.coherent hinv⟩
  have hlt : i < pool.frames.length := lt_of_get h.victim
  have hlayout : Layout (pool.frames.set i ⟨data, some page, 0, false, frame.poisoned⟩)
      (reassigned pool.pages frame.tag page i) pins :=
    hinv.layout.install h.victim h.unpinned h.next h.absent rfl rfl
  have hpinned := hlayout.pinned (List.getElem?_set_self hlt) rfl (by show 0 + 1 < 2 ^ 32; omega)
  rw [List.set_set] at hpinned
  rw [h.frames, h.pages]
  exact hpinned

/-- **Only the loaded page can change its content.** -/
theorem logical_eq (h : Loaded store pool pool' i frame page data count) (hinv : PoolInv store pool pins) :
    logical store pool' = Function.update (logical store pool) page (some data) := by
  have hlt : i < pool.frames.length := lt_of_get h.victim
  funext q
  by_cases hq : q = page
  · subst hq
    rw [Function.update_self,
      logical_of_lookup (by rw [h.pages]; exact lookup_reassigned_self _ _ _ _), h.frames,
      List.getElem?_set_self hlt]
    rfl
  · rw [Function.update_of_ne hq]
    by_cases hold : frame.tag = some q
    · -- the evicted page: its frame's bytes are in the store now
      have hnone : pool'.pages.lookup q = none := by rw [h.pages, hold]; exact lookup_reassigned_old _ i hq
      rw [logical_of_none hnone, h.written q hold, hinv.logical_tag h.victim hold]
    · have hsame : pool'.pages.lookup q = pool.pages.lookup q := by
        rw [h.pages]; exact lookup_reassigned_ne _ i hq hold
      cases hl : pool.pages.lookup q with
      | none =>
        rw [logical_of_none hl, logical_of_none (hsame.trans hl)]
        rcases h.others q hq with he | ⟨_, ht⟩
        · exact he
        · exact absurd ht hold
      | some j =>
        obtain ⟨g, hg, htag⟩ := (hinv.layout.mapped q j).1 hl
        have hj : i ≠ j := by
          rintro rfl
          rw [h.victim] at hg
          cases hg
          exact hold htag
        rw [logical_of_lookup hl, logical_of_lookup (hsame.trans hl), h.frames, List.getElem?_set_ne hj]

end Loaded

/-! ## Rules for the parts of a call -/

namespace BufferPool

section

variable {Q : α → BufferPool S P → Prop} {E : Fault BufferError → BufferPool S P → Prop}

theorem desc_run (hi : pool.frames[i]? = some frame) :
    (desc i : PoolM S P Frame) pool = (.ok frame, pool) := by
  show (Result.index pool.frames i, pool) = _
  rw [Result.index_eq_ok.2 hi]

theorem update_run (hi : pool.frames[i]? = some frame) (f : Frame → Frame) :
    update i f pool = (.ok (), setFrame i (f frame) pool) := by
  unfold update
  rw [Exec.bind_ok (desc_run hi)]
  rfl

theorem ensures_desc {Q : Frame → BufferPool S P → Prop} (hi : pool.frames[i]? = some frame)
    (h : Q frame pool) : Exec.Ensures (desc i) pool Q E := by
  unfold Exec.Ensures
  rw [desc_run hi]
  exact h

theorem ensures_update {Q : Unit → BufferPool S P → Prop} {f : Frame → Frame}
    (hi : pool.frames[i]? = some frame) (h : Q () (setFrame i (f frame) pool)) :
    Exec.Ensures (update i f) pool Q E := by
  unfold Exec.Ensures
  rw [update_run hi]
  exact h

theorem ensures_io {f : S → Except IoError α × S}
    (hok : ∀ a s, f pool.store = (.ok a, s) → Q a { pool with store := s })
    (herr : ∀ e s, f pool.store = (.error e, s) → E (.error (.io e)) { pool with store := s }) :
    Exec.Ensures (io f) pool Q E := by
  unfold Exec.Ensures io
  rcases hf : f pool.store with ⟨r, s⟩
  cases r with
  | ok a => exact hok a s hf
  | error e => exact herr e s hf

/-- A policy callback changes the policy's own state only, and panics only if it is not total. -/
theorem ensures_consult (policy : VictimStrategy P) {m : Exec Empty P α}
    (htotal : policy.Total → ∀ p, ∃ a p', m p = (.ok a, p')) (hok : ∀ a p, Q a { pool with strategy := p })
    (hpanic : ¬ policy.Total → ∀ p, E (.panic .foreign) { pool with strategy := p }) :
    Exec.Ensures (consult m) pool Q E := by
  refine .foreign (.zoom (Exec.ensures_iff.2 ⟨?_, ?_⟩))
  · intro a p _
    exact hok a p
  · intro e p he
    refine hpanic (fun ht => ?_) p
    obtain ⟨a, p', hm⟩ := htotal ht pool.strategy
    rw [hm] at he
    cases he

theorem ensures_check {Q : Unit → BufferPool S P → Prop} (hi : pool.frames[i]? = some frame)
    (herr : pool.poisoned = true ∨ frame.poisoned = true → E (.error .poisoned) pool)
    (hok : pool.poisoned = false → frame.poisoned = false → Q () pool) :
    Exec.Ensures (check i) pool Q E := by
  refine .bind (.get ?_)
  split
  · rename_i hp
    exact herr (.inl hp)
  · rename_i hp
    refine .bind (ensures_desc hi ?_)
    split
    · rename_i hf
      exact herr (.inr hf)
    · rename_i hf
      exact hok (by simpa using hp) (by simpa using hf)

variable {m : PoolM S P α}

theorem ensures_locked (herr : pool.poisoned = true → E (.error .poisoned) pool)
    (hok : pool.poisoned = false → Exec.Ensures m pool Q (Exec.afterPanic poison E)) :
    Exec.Ensures (locked m) pool Q E := by
  refine .bind (.get ?_)
  split
  · rename_i hp
    exact herr hp
  · rename_i hp
    exact .onPanic (hok (by simpa using hp))

theorem ensures_latched (hi : pool.frames[i]? = some frame)
    (herr : pool.poisoned = true ∨ frame.poisoned = true → E (.error .poisoned) pool)
    (hok : pool.poisoned = false → frame.poisoned = false →
      Exec.Ensures m pool Q (Exec.afterPanic (poisonFrame i) E)) : Exec.Ensures (latched i m) pool Q E := by
  refine .bind (ensures_desc hi ?_)
  split
  · rename_i hf
    exact herr (.inr hf)
  · refine .onPanic (.bind (ensures_check hi ?_ ?_))
    · exact herr
    · exact hok

end

end BufferPool

end ChiliDB

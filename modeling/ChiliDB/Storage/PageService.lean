import ChiliDB.Storage.BufferPolicy

/-!
# The buffer pool as its users see it

* `PageService σ` — the calls of a pool in state `σ`, with the contract its users rely on: the calls
  act on one map from page ids to bytes (`content`), a call that fails leaves every page as it was,
  and a call panics only if the caller's callback does.  A call may fail whenever it likes.
* `BufferPool.service` — the pool meets the contract over any store, with any policy whose callbacks
  about the pool's frames return: `content` is the pool's logical content.
-/

namespace ChiliDB

open Effect

/-- Every page of `a` is a page of `b`, with the same bytes. -/
def Extends (a b : Pages) : Prop := ∀ (id : PageId) (data : Page), a id = some data → b id = some data

theorem Extends.refl (a : Pages) : Extends a a := fun _ _ h => h

theorem Extends.trans {a b c : Pages} (h : Extends a b) (h' : Extends b c) : Extends a c :=
  fun id data ha => h' id data (h id data ha)

theorem Extends.of_eq {a b : Pages} (h : b = a) : Extends a b := fun _ _ ha => h ▸ ha

theorem Extends.update {a : Pages} {id : PageId} (h : a id = none) (data : Page) :
    Extends a (Function.update a id (some data)) := by
  intro other bytes ho
  rw [Function.update_of_ne (fun he => by rw [he, h] at ho; cases ho)]
  exact ho

structure PageService (σ : Type) where
  pin : PageId → Exec BufferError σ PinnedBuffer
  newPage : Exec BufferError σ PinnedBuffer
  read : {T : Type} → PinnedBuffer → (Page → Result Empty T) → Exec BufferError σ T
  write : {T : Type} → PinnedBuffer → Exec Empty Page T → Exec BufferError σ T
  drop : PinnedBuffer → Exec BufferError σ Unit
  content : σ → Pages
  /-- The pool is in order while these pins are held. -/
  inv : σ → List PinnedBuffer → Prop
  pin_spec : ∀ {s : σ} {pins : List PinnedBuffer} (id : PageId), inv s pins →
    Exec.Ensures (pin id) s
      (fun p s' => inv s' (p :: pins) ∧ p.page = id ∧ content s' = content s)
      (fun e s' => inv s' pins ∧ (∃ x, e = .error x) ∧ Extends (content s) (content s'))
  newPage_spec : ∀ {s : σ} {pins : List PinnedBuffer}, inv s pins →
    Exec.Ensures newPage s
      (fun p s' => inv s' (p :: pins) ∧ content s p.page = none ∧
        content s' = Function.update (content s) p.page (some Page.zero))
      (fun e s' => inv s' pins ∧ (∃ x, e = .error x) ∧ Extends (content s) (content s'))
  read_spec : ∀ {s : σ} {pins : List PinnedBuffer} {p : PinnedBuffer} {T : Type}
    (f : Page → Result Empty T), inv s (p :: pins) →
    Exec.Ensures (read p f) s
      (fun t s' => inv s' (p :: pins) ∧ content s' = content s ∧
        ∃ data, content s p.page = some data ∧ f data = .ok t)
      (fun e s' => inv s' (p :: pins) ∧ Extends (content s) (content s') ∧
        ((∃ x, e = .error x) ∨ ∃ data q, content s p.page = some data ∧ f data = .error (.panic q)))
  write_spec : ∀ {s : σ} {pins : List PinnedBuffer} {p : PinnedBuffer} {T : Type}
    (f : Exec Empty Page T), inv s (p :: pins) →
    Exec.Ensures (write p f) s
      (fun t s' => inv s' (p :: pins) ∧ ∃ data, content s p.page = some data ∧ (f data).1 = .ok t ∧
        content s' = Function.update (content s) p.page (some (f data).2))
      (fun e s' => inv s' (p :: pins) ∧
        (((∃ x, e = .error x) ∧ Extends (content s) (content s')) ∨
          ∃ data q, content s p.page = some data ∧ (f data).1 = .error (.panic q)))
  drop_spec : ∀ {s : σ} {pins : List PinnedBuffer} {p : PinnedBuffer}, inv s (p :: pins) →
    Exec.Ensures (drop p) s (fun _ s' => inv s' pins ∧ content s' = content s) (fun _ _ => False)

namespace BufferPool

variable {S P T : Type} {store : PageStore S} {policy : VictimStrategy P} {pool : BufferPool S P}
  {pins : List PinnedBuffer} {p : PinnedBuffer}

/-- The pool is in order, and its policy does not panic. -/
structure InOrder (store : PageStore S) (policy : VictimStrategy P) (pool : BufferPool S P)
    (pins : List PinnedBuffer) : Prop where
  sound : PoolInv store pool pins
  safe : policy.SafeAt pool.frames.length pool.strategy

theorem InOrder.fault {was : PageId → Page → Prop} {pool' : BufferPool S P} {e : Fault BufferError}
    (h : InOrder store policy pool pins) (hf : PinFault store policy pool pool' was e)
    (he : Excused policy pool e pool') :
    InOrder store policy pool' pins ∧ (∃ x, e = .error x) ∧ Extends (logical store pool) (logical store pool') := by
  refine ⟨⟨hf.inv h.sound, he.attends.safeAt h.safe⟩, ?_⟩
  cases hf with
  | error hu _ => exact ⟨⟨_, rfl⟩, .of_eq (hu.logical_eq h.sound)⟩
  | panic => exact absurd h.safe (he.blame rfl)

theorem service_pin (id : PageId) (h : InOrder store policy pool pins) :
    Exec.Ensures (pin store policy id) pool
      (fun p pool' => InOrder store policy pool' (p :: pins) ∧ p.page = id ∧
        logical store pool' = logical store pool)
      (fun e pool' => InOrder store policy pool' pins ∧ (∃ x, e = .error x) ∧
        Extends (logical store pool) (logical store pool')) := by
  have hinv := h.sound
  refine ((pin_spec hinv id).and (watched_pin store id pool)).mono ?_ (fun e pool' ⟨hf, he⟩ => h.fault hf he)
  rintro _ pool' ⟨⟨_, i, frame, rfl, hhit | ⟨data, hstored, hl⟩⟩, hatt, _⟩
  · exact ⟨⟨hhit.inv hinv, hatt.safeAt h.safe⟩, rfl,
      logical_set_eq hinv hhit.resident hhit.tag hhit.frames hhit.pages hhit.store rfl⟩
  · refine ⟨⟨hl.inv_pinned hinv, hatt.safeAt h.safe⟩, rfl, ?_⟩
    rw [hl.logical_eq hinv, ← (logical_of_none hl.absent).trans hstored, Function.update_eq_self]

theorem service_newPage (h : InOrder store policy pool pins) :
    Exec.Ensures (newPage store policy) pool
      (fun p pool' => InOrder store policy pool' (p :: pins) ∧ logical store pool p.page = none ∧
        logical store pool' = Function.update (logical store pool) p.page (some Page.zero))
      (fun e pool' => InOrder store policy pool' pins ∧ (∃ x, e = .error x) ∧
        Extends (logical store pool) (logical store pool')) := by
  have hinv := h.sound
  refine ((newPage_spec hinv).and (watched_newPage store pool)).mono ?_ (fun e pool' ⟨hf, he⟩ => h.fault hf he)
  rintro ⟨_, page⟩ pool' ⟨⟨_, i, frame, rfl, hfresh, hl⟩, hatt, _⟩
  exact ⟨⟨hl.inv_pinned hinv, hatt.safeAt h.safe⟩, hinv.logical_eq_none hfresh, hl.logical_eq hinv⟩

theorem service_read (f : Page → Result Empty T) (h : InOrder store policy pool (p :: pins)) :
    Exec.Ensures (p.read fun data => .foreign (.lift (f data))) pool
      (fun t pool' => InOrder store policy pool' (p :: pins) ∧
        logical store pool' = logical store pool ∧
        ∃ data, logical store pool p.page = some data ∧ f data = .ok t)
      (fun e pool' => InOrder store policy pool' (p :: pins) ∧
        Extends (logical store pool) (logical store pool') ∧
        ((∃ x, e = .error x) ∨ ∃ data q, logical store pool p.page = some data ∧ f data = .error (.panic q))) := by
  obtain ⟨frame, hi, htag⟩ := h.sound.layout.live p (List.mem_cons_self ..)
  have hdata := h.sound.logical_tag hi htag
  refine ensures_read hi (fun _ => ⟨h, .refl _, .inl ⟨_, rfl⟩⟩) (fun _ _ => ?_)
  refine .foreign (Exec.ensures_lift.2 ⟨?_, ?_⟩)
  · intro t hf
    exact ⟨h, rfl, frame.data, hdata, hf⟩
  · rintro (e | q) hf
    · exact e.elim
    · exact ⟨h, .refl _, .inr ⟨frame.data, q, hdata, hf⟩⟩

theorem InOrder.setFrame {pins' : List PinnedBuffer} {i : Nat} {frame : Frame}
    (h : InOrder store policy pool pins) (hinv : PoolInv store (setFrame i frame pool) pins') :
    InOrder store policy (setFrame i frame pool) pins' := by
  refine ⟨hinv, ?_⟩
  show policy.SafeAt (pool.frames.set i frame).length pool.strategy
  rw [List.length_set]
  exact h.safe

theorem service_write (f : Exec Empty Page T) (h : InOrder store policy pool (p :: pins)) :
    Exec.Ensures (p.write f) pool
      (fun t pool' => InOrder store policy pool' (p :: pins) ∧
        ∃ data, logical store pool p.page = some data ∧ (f data).1 = .ok t ∧
          logical store pool' = Function.update (logical store pool) p.page (some (f data).2))
      (fun e pool' => InOrder store policy pool' (p :: pins) ∧
        (((∃ x, e = .error x) ∧ Extends (logical store pool) (logical store pool')) ∨
          ∃ data q, logical store pool p.page = some data ∧ (f data).1 = .error (.panic q))) := by
  have hinv := h.sound
  obtain ⟨frame, hi, htag⟩ := hinv.layout.live p (List.mem_cons_self ..)
  have hdata := hinv.logical_tag hi htag
  have hdirty : ∀ frame' : Frame, frame'.tag = frame.tag → frame'.pins = frame.pins →
      frame'.dirty = true →
      InOrder store policy (setFrame p.index.get.toNat frame' pool) (p :: pins) :=
    fun frame' ht hp hd => h.setFrame
      ⟨hinv.layout.touch hi ht hp (fun hn => by rw [hn] at htag; cases htag),
        hinv.coherent.set hi ht (fun hc => by rw [hd] at hc; cases hc)⟩
  refine (write_spec f hi).mono ?_ ?_
  · rintro t pool' ⟨ht, rfl⟩
    exact ⟨hdirty _ rfl rfl rfl, frame.data, hdata, ht, logical_setFrame hinv hi htag _⟩
  · rintro e pool' (⟨rfl, _, rfl⟩ | ⟨rfl, ⟨q, hq⟩, rfl⟩)
    · exact ⟨h, .inl ⟨⟨_, rfl⟩, .refl _⟩⟩
    · exact ⟨hdirty _ rfl rfl rfl, .inr ⟨frame.data, q, hdata, hq⟩⟩

theorem service_drop (h : InOrder store policy pool (p :: pins)) :
    Exec.Ensures p.drop pool
      (fun _ pool' => InOrder store policy pool' pins ∧ logical store pool' = logical store pool)
      (fun _ _ => False) := by
  have hinv := h.sound
  obtain ⟨frame, hi, htag⟩ := hinv.layout.live p (List.mem_cons_self ..)
  have hk : (p :: pins)[0]? = some p := rfl
  obtain ⟨hpos, hlayout⟩ := hinv.layout.unpinned hk hi
  refine ensures_drop hi hpos ⟨h.setFrame ⟨hlayout, hinv.coherent.set hi rfl (fun hd => ⟨hd, rfl⟩)⟩, ?_⟩
  exact logical_set_eq hinv hi htag rfl rfl rfl rfl

/-- **The pool meets the contract of its users.** -/
def service (store : PageStore S) (policy : VictimStrategy P) : PageService (BufferPool S P) where
  pin := pin store policy
  newPage := newPage store policy
  read p f := p.read fun data => Exec.foreign (Exec.lift (f data))
  write p f := p.write f
  drop p := p.drop
  content := logical store
  inv := InOrder store policy
  pin_spec := service_pin
  newPage_spec := service_newPage
  read_spec := service_read
  write_spec := service_write
  drop_spec := service_drop

/-- A new pool is in order, whatever the store holds. -/
theorem inOrder_withStrategy {capacity : Nat} {s : S} {strategy : P}
    (h : withStrategy capacity s strategy = .ok pool) (hp : policy.SafeAt capacity strategy) :
    InOrder store policy pool [] := by
  refine ⟨(withStrategy_inv store h).1, ?_⟩
  obtain ⟨_, _, hpool⟩ := except_bind_ok.1 h
  cases hpool
  show policy.SafeAt (List.replicate capacity Frame.unused).length strategy
  rw [List.length_replicate]
  exact hp

/-- The pools that `BufferPool::new` makes of an in-memory store. -/
abbrev memory := service MemoryPageStore ClockStrategy

theorem oneFrame_inOrder : memory.inv oneFrame [] :=
  inOrder_withStrategy (show withStrategy 1 [] ⟨[false], 0⟩ = .ok oneFrame from rfl)
    (ClockStrategy.safeAt (ClockStrategy.new_over rfl))

end BufferPool

end ChiliDB

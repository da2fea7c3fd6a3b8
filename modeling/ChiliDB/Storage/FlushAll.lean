import ChiliDB.Storage.BufferReads

/-!
# What a flush of the whole pool achieves

`flush_all` takes a snapshot of the resident pages, pins them one by one and may stop anywhere, with some
of them clean and one stored copy torn.

* `Client.Reads` — a client pins a page and its callback returns this on the bytes.
* `Complete` — the store holds every page as the pool showed it, and the pool lost nothing.

Principal result: `flushAll_completes_store` — in every state that calls and faults lead to, a flush that
fails changes no page, and one that succeeds, at once or after any number of failures, is complete.
-/

namespace ChiliDB

open Effect BufferPool

variable {S P T : Type} {store : PageStore S} {policy : VictimStrategy P} {c c' : Client S P}
  {pool : BufferPool S P} {pins : List PinnedBuffer} {page : PageId} {f : Page → Result Empty T}

/-! ## Reading a page through a pool -/

/-- The client pins the page, and its callback returns `v` on the bytes it is shown. -/
def Client.Reads (store : PageStore S) (policy : VictimStrategy P) (c : Client S P) (page : PageId)
    (f : Page → Result Empty T) (v : T) : Prop :=
  ∃ pin c₁ c₂, c.call store policy (.pin page : Call T) = some (.ok (.pinned pin), c₁) ∧
    c₁.call store policy (.read 0 f) = some (.ok (.value v), c₂)

theorem PageArray.Step.pinned {A A' : Pages} {pin : PinnedBuffer}
    (h : PageArray.Step pins A (.pin page : Call T) (.ok (.pinned pin)) A') : A' = A ∧ pin.page = page := by
  cases h
  exact ⟨rfl, rfl⟩

theorem PageArray.Step.shown {A A' : Pages} {k : Nat} {pin : PinnedBuffer} {v : T}
    (h : PageArray.Step pins A (.read k f) (.ok (.value v)) A') (hk : pins[k]? = some pin) :
    ∃ data, A pin.page = some data ∧ f data = .ok v := by
  cases h with
  | read hpin hdata hv =>
    cases hk.symm.trans hpin
    exact ⟨_, hdata, hv⟩

/-- A callback is shown the logical content. -/
theorem Client.Reads.shown {v : T} (h : c.Reads store policy page f v)
    (hinv : PoolInv store c.pool c.pins) : ∃ data, logical store c.pool page = some data ∧ f data = .ok v := by
  obtain ⟨pin, c1, c2, hpin, hread⟩ := h
  have hpinned := outcome_of_call hinv hpin
  obtain ⟨hsame, hpage⟩ := (hpinned.refines hinv).pinned
  have hinv1 := hpinned.inv hinv
  have hfirst : c1.pins[0]? = some pin := by cases hpinned <;> rfl
  obtain ⟨data, hdata, hv⟩ := ((outcome_of_call hinv1 hread).refines hinv1).shown hfirst
  rw [hsame, hpage] at hdata
  exact ⟨data, hdata, hv⟩

theorem Returns.run {α : Type} {m : PoolM S P α}
    {Q : α → BufferPool S P → Prop} (h : Returns m pool Q) : ∃ a pool', m pool = (.ok a, pool') ∧ Q a pool' := by
  unfold Returns Exec.Ensures at h
  rcases hm : m pool with ⟨r, pool'⟩
  rw [hm] at h
  cases r with
  | ok a => exact ⟨a, pool', rfl, h⟩
  | error e => exact h.elim

/-- In a pool with nothing to write back every page can be read. -/
theorem Quiet.reads (h : Quiet store policy pool []) {data : Page} {v : T}
    (hd : logical store pool page = some data) (hf : f data = .ok v) :
    Client.Reads store policy ⟨pool, []⟩ page f v := by
  obtain ⟨pin, pool1, hpin, hquiet, rfl, hsame⟩ := (quiet_pin h hd).run
  obtain ⟨v', pool2, hread, hpool, hvalue⟩ := (quiet_read hquiet (by rw [hsame]; exact hd) hf).run
  rw [hpool, hvalue] at hread
  refine ⟨pin, ⟨pool1, [pin]⟩, ⟨pool1, [pin]⟩, ?_, ?_⟩
  · show some (Client.run _ _ _ _) = _
    unfold Client.run
    rw [hpin]
    rfl
  · show some (Client.run _ _ _ _) = _
    unfold Client.run
    rw [hread]
    rfl

/-! ## Complete stores -/

/-- The frame after its page has been written back. -/
def Frame.cleaned (frame : Frame) : Frame := { frame with dirty := false }

/-- The store of `c'` holds what `c` showed, and only dirty marks have changed: every frame is clean,
with its page, bytes and pin count.  A new pool over the store gives the reads of the old one. -/
structure Complete (store : PageStore S) (policy : VictimStrategy P) (c c' : Client S P) : Prop where
  stored : ∀ page, store.content c'.pool.store page = logical store c.pool page
  frames : c'.pool.frames = c.pool.frames.map Frame.cleaned
  pages : c'.pool.pages = c.pool.pages
  pins : c'.pins = c.pins
  reopened : ∀ {Q : Type} (policy' : VictimStrategy Q) (capacity : Nat) (q : Q) (pool : BufferPool S Q),
    withStrategy capacity c'.pool.store q = .ok pool → ∀ {T : Type} (page : PageId)
      (f : Page → Result Empty T), (∀ v v', Client.Reads store policy' ⟨pool, []⟩ page f v →
        c.Reads store policy page f v' → v = v') ∧
      (policy'.SafeAt capacity q → policy'.FairAt capacity q → store.Healthy c'.pool.store →
        ∀ data v, logical store c.pool page = some data → f data = .ok v →
          Client.Reads store policy' ⟨pool, []⟩ page f v)

/-- A flush that wrote every page back has cleaned every frame. -/
theorem Flushed.cleaned {pool' : BufferPool S P} (h : Flushed store pool pool')
    (hinv : PoolInv store pool pins) (hclean : ∀ page, CleanPage pool' page) :
    pool'.frames = pool.frames.map Frame.cleaned := by
  apply List.ext_getElem?
  intro i
  rw [List.getElem?_map]
  cases hi : pool.frames[i]? with
  | none =>
    rw [List.getElem?_eq_none_iff, ← h.length, ← List.getElem?_eq_none_iff] at hi
    exact hi
  | some frame =>
    obtain ⟨d, hd, hwas⟩ := h.frames i frame hi
    rw [hd]
    have hfalse : d = false := by
      cases ht : frame.tag with
      | some page => exact hclean page i _ hd ht
      | none =>
        have hunused := (hinv.layout.unused i frame hi ht).2
        cases d with
        | false => rfl
        | true => exact absurd (hwas rfl) (by rw [hunused]; decide)
    rw [hfalse]
    rfl

/-- A call of `flush_all` that fails. -/
def FlushFails (store : PageStore S) (policy : VictimStrategy P) (c c' : Client S P) : Prop :=
  ∃ e, c.call store policy (.flushAll : Call Unit) = some (.error e, c')

/-- What `flush_all` does to a client. -/
theorem flushAll_cases {r : Result BufferError (Returned Unit)} (hinv : PoolInv store c.pool c.pins)
    (h : c.call store policy (.flushAll : Call Unit) = some (r, c')) :
    PoolInv store c'.pool c'.pins ∧ Flushed store c.pool c'.pool ∧ c'.pins = c.pins ∧
      (r = .ok .unit → ∀ page, CleanPage c'.pool page) := by
  have hspec : Exec.Ensures (flushAll store policy) c.pool _ _ := flushAll_spec hinv
  unfold Exec.Ensures at hspec
  have hrun := Option.some.inj h
  unfold Client.run at hrun
  rcases hm : flushAll store policy c.pool with ⟨a, pool⟩
  rw [hm] at hspec hrun
  obtain ⟨rfl, rfl⟩ := Prod.mk.inj hrun
  cases a with
  | ok _ => exact ⟨hspec.1, hspec.2.1, rfl, fun _ => hspec.2.2⟩
  | error e => exact ⟨hspec.2.1, hspec.2.2, rfl, fun hr => by cases hr⟩

/-- Failed flushes change nothing but dirty marks and stored copies. -/
theorem flushed_of_fails (hinv : PoolInv store c.pool c.pins)
    (hf : Relation.ReflTransGen (FlushFails store policy) c c') :
    PoolInv store c'.pool c'.pins ∧ Flushed store c.pool c'.pool ∧ c'.pins = c.pins := by
  induction hf with
  | refl => exact ⟨hinv, .of_unchanged (.refl _) hinv rfl, rfl⟩
  | tail _ hfail ih =>
    obtain ⟨hinv1, hflushed, hpins⟩ := ih
    obtain ⟨e, hcall⟩ := hfail
    obtain ⟨hinv2, hflushed2, hpins2, _⟩ := flushAll_cases hinv1 hcall
    exact ⟨hinv2, hflushed.trans hflushed2, hpins2.trans hpins⟩

theorem complete_of_flushed (hinv : PoolInv store c.pool c.pins) (hinv' : PoolInv store c'.pool c'.pins)
    (hf : Flushed store c.pool c'.pool) (hpins : c'.pins = c.pins)
    (hclean : ∀ page, CleanPage c'.pool page) : Complete store policy c c' := by
  have hstored : store.content c'.pool.store = logical store c.pool := by
    rw [← hf.logical]
    exact (logical_of_clean hinv' hclean).symm
  refine ⟨fun page => by rw [hstored], hf.cleaned hinv hclean, hf.pages, hpins, ?_⟩
  intro Q policy' capacity q pool hpool T page f
  have hnew : logical store pool = logical store c.pool := (logical_withStrategy store hpool).trans hstored
  constructor
  · intro v v' hread hread'
    obtain ⟨data, hdata, hv⟩ := hread.shown (withStrategy_inv store hpool).1
    obtain ⟨data', hdata', hv'⟩ := hread'.shown hinv
    rw [hnew] at hdata
    cases hdata.symm.trans hdata'
    cases hv.symm.trans hv'
    rfl
  · intro hsafe hfair hhealthy data v hdata hv
    exact (quiet_withStrategy hpool hsafe hfair hhealthy).reads (by rw [hnew]; exact hdata) hv

/-- **A successful `flush_all` makes the store complete.**  In every state that any calls and faults lead
to, flushes that fail change no page, mapping or pin, and the first one that succeeds leaves every page in
the store as the pool showed it before them, every frame clean and otherwise as it was, and a new pool over
the store giving the reads of the old one. -/
theorem flushAll_completes_store {panicked : Bool} (h : Run store policy c panicked) {c₁ : Client S P}
    (hf : Relation.ReflTransGen (FlushFails store policy) c c₁) :
    (logical store c₁.pool = logical store c.pool ∧ c₁.pool.pages = c.pool.pages ∧ c₁.pins = c.pins) ∧
      ∀ c', c₁.call store policy (.flushAll : Call Unit) = some (.ok .unit, c') →
        Complete store policy c c' := by
  obtain ⟨hinv₁, hflushed, hpins⟩ := flushed_of_fails h.inv hf
  refine ⟨⟨hflushed.logical, hflushed.pages, hpins⟩, fun c' hcall => ?_⟩
  obtain ⟨hinv', hflushed', hpins', hclean⟩ := flushAll_cases hinv₁ hcall
  exact complete_of_flushed h.inv hinv' (hflushed.trans hflushed') (hpins'.trans hpins) (hclean rfl)

/-- The client of one new page after it has filled the page. -/
def oneDirtyPage : Client MemoryPageStore.State ClockStrategy.State :=
  ⟨⟨[Page.zero], [⟨Page.filled 1, some 0, 1, true, false⟩], AList.insert 0 0 ∅, ⟨[true], 0⟩, false⟩,
    [⟨bufferId 0, 0⟩]⟩

/-- Its page reaches the store, and the client keeps its pin. -/
theorem flushAll_completes_oneDirtyPage : ∃ c', Complete MemoryPageStore ClockStrategy oneDirtyPage c' ∧
    c'.pool.store = [Page.filled 1] := by
  have hrun : Run MemoryPageStore ClockStrategy oneDirtyPage (false || false) :=
    onePage_run.call (show Client.call MemoryPageStore ClockStrategy onePage
      (.write 0 fun _ => (.ok (), Page.filled 1)) = some (.ok (.value ()), oneDirtyPage) from rfl)
  exact ⟨_, (flushAll_completes_store hrun .refl).2 _ rfl, rfl⟩

end ChiliDB

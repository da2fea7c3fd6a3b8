import ChiliDB.Heapam.HeapRuns

/-!
# Heaps that share a pool

Clients create and open any number of heaps in one pool, one handle each, and call them in any order;
every call may fail, and other clients use the pool, but write no page of a heap.

* `Owned` — a page carries the head of a heap as its owner; this never changes.
* `HeapInv.disjoint` — so heaps with different heads share no page; `HeapTable.Moved.other` — and a call on
  one leaves the others as they are.
* `Heaps` — the pool and the handles in it; `Heaps.Step` — one event; `Heaps.Run` — any order of events.

Principal result: `heaps_do_not_interfere`.
-/

namespace ChiliDB

open Effect HeapPage
open Function (update)

variable {σ : Type} {service : PageService σ} {pins : List PinnedBuffer} {content content' : Pages}
  {table table' : HeapTable} {chain chain' : Chain} {head head' id : PageId}

/-! ## Owners -/

/-- The page is a heap page and names this head as its owner. -/
def Owned (content : Pages) (head id : PageId) : Prop :=
  ∃ page view, content id = some page ∧ Shows page view ∧ view.owner = head

theorem Owned.unique (h : Owned content head id) (h' : Owned content head' id) : head = head' := by
  obtain ⟨page, view, hp, hs, rfl⟩ := h
  obtain ⟨page', view', hp', hs', rfl⟩ := h'
  cases hp.symm.trans hp'
  cases shows_unique hs hs'
  rfl

theorem HeapInv.owned (h : HeapInv content table chain) (hid : id ∈ chain.ids) : Owned content table.head id := by
  obtain ⟨i, p, hi, rfl⟩ := Chain.exists_of_mem_ids hid
  obtain ⟨page, view, hp, hs, ho, _⟩ := h.stored i p hi
  exact ⟨page, view, hp, hs, ho⟩

theorem HeapInv.head_mem (h : HeapInv content table chain) : table.head ∈ chain.ids := by
  rw [← h.pages]
  exact List.mem_of_mem_head? h.head

/-- **Every page names its owner, so heaps with different heads share no page.** -/
theorem HeapInv.disjoint (h : HeapInv content table chain) (h' : HeapInv content table' chain')
    (hne : table.head ≠ table'.head) : List.Disjoint chain.ids chain'.ids :=
  fun _ hid hid' => hne ((h.owned hid).unique (h'.owned hid'))

section

variable {heap heap' : Heap σ}

/-- A call on one heap leaves the pages of the others as they are. -/
theorem HeapTable.Moved.others_same {other : HeapTable} {chain2 : Chain}
    (hm : HeapTable.Moved service pins heap heap' chain chain') (h : heap.Inv service chain)
    (h2 : HeapInv (service.content heap.pool) other chain2) (hne : other.head ≠ heap.table.head) :
    ∀ id ∈ chain2.ids, service.content heap'.pool id = service.content heap.pool id := by
  intro id hid
  obtain ⟨page, hp⟩ := h2.allocated hid
  rw [hp]
  exact hm.framed.others id page (fun hmem => h2.disjoint h hne hid hmem) hp

/-- A call on one heap leaves the others as they are. -/
theorem HeapTable.Moved.other {other : HeapTable} {chain2 : Chain}
    (hm : HeapTable.Moved service pins heap heap' chain chain') (h : heap.Inv service chain)
    (h2 : HeapInv (service.content heap.pool) other chain2) (hne : other.head ≠ heap.table.head) :
    HeapInv (service.content heap'.pool) other chain2 :=
  h2.congr (hm.others_same h h2 hne)

/-- A page keeps its owner. -/
theorem HeapTable.Moved.owned (hm : HeapTable.Moved service pins heap heap' chain chain')
    (h : heap.Inv service chain) (hg : chain.Grows chain')
    (ho : Owned (service.content heap.pool) head id) : Owned (service.content heap'.pool) head id := by
  by_cases hid : id ∈ chain.ids
  · -- a page of the heap itself stays one
    cases ho.unique (h.owned hid)
    obtain ⟨i, p, hi, rfl⟩ := Chain.exists_of_mem_ids hid
    obtain ⟨q, hq, hqp, _⟩ := hg i p hi
    rw [← hqp, ← hm.head]
    exact hm.inv.owned (Chain.mem_ids hq)
  · obtain ⟨page, view, hp, hs, hv⟩ := ho
    exact ⟨page, view, hm.framed.others id page hid hp, hs, hv⟩

end

/-! ## A pool with many heaps -/

/-- A handle and the scans open on it. -/
structure Handle where
  table : HeapTable
  scans : List HeapScan

/-- The pool and the handles in it, each under the head of its heap. -/
structure Heaps (σ : Type) where
  pool : σ
  handles : PageId → Option Handle

/-- The session of one handle. -/
def Handle.session (handle : Handle) (pool : σ) : Session σ := ⟨⟨pool, handle.table⟩, handle.scans⟩

inductive HeapsEvent where
  | create
  | open_ (head : PageId)
  | close (head : PageId)
  | call (head : PageId) (op : HeapCall) (r : HeapAnswer)
  | others

/-- The event is about this heap. -/
def HeapsEvent.On (head : PageId) : HeapsEvent → Prop
  | .open_ h => h = head
  | .close h => h = head
  | .call h _ _ => h = head
  | _ => False

/-- One event.  A heap is opened only while it has no handle. -/
inductive Heaps.Step (service : PageService σ) (s : Heaps σ) : HeapsEvent → Heaps σ → Prop where
  | create {table : HeapTable} {pool : σ} : HeapTable.create service s.pool = (.ok table, pool) →
      Step service s .create ⟨pool, update s.handles table.head (some ⟨table, []⟩)⟩
  | createFails {e : Fault HeapError} {pool : σ} :
      HeapTable.create service s.pool = (.error e, pool) → Step service s .create ⟨pool, s.handles⟩
  | open_ {head : PageId} {table : HeapTable} {pool : σ} : s.handles head = none →
      HeapTable.open_ service head s.pool = (.ok table, pool) →
      Step service s (.open_ head) ⟨pool, update s.handles head (some ⟨table, []⟩)⟩
  | openFails {head : PageId} {e : Fault HeapError} {pool : σ} :
      HeapTable.open_ service head s.pool = (.error e, pool) →
      Step service s (.open_ head) ⟨pool, s.handles⟩
  | close {head : PageId} : Step service s (.close head) ⟨s.pool, update s.handles head none⟩
  | call {head : PageId} {handle : Handle} {op : HeapCall} {r : HeapAnswer} {ses : Session σ} :
      s.handles head = some handle → (handle.session s.pool).call service op = some (r, ses) →
      Step service s (.call head op r)
        ⟨ses.heap.pool, update s.handles head (some ⟨ses.heap.table, ses.scans⟩)⟩
  /-- Other clients use the pool, and write pages of no heap. -/
  | others {pool : σ} {pins : List PinnedBuffer} : service.inv pool pins →
      (∀ head id, Owned (service.content s.pool) head id →
        service.content pool id = service.content s.pool id) →
      Step service s .others ⟨pool, s.handles⟩

/-- Any order of events, from a pool without handles; the latest event comes first. -/
inductive Heaps.Run (service : PageService σ) : Heaps σ → List HeapsEvent → Prop where
  | start {pool : σ} {pins : List PinnedBuffer} : service.inv pool pins → Run service ⟨pool, fun _ => none⟩ []
  | step {s s' : Heaps σ} {log : List HeapsEvent} {event : HeapsEvent} : Run service s log →
      s.Step service event s' → Run service s' (event :: log)

/-! ## The invariant of all handles -/

/-- The handle is the one of this head, and it is in order over the chain. -/
structure HandleInv (service : PageService σ) (pins : List PinnedBuffer) (pool : σ) (head : PageId)
    (handle : Handle) (chain : Chain) : Prop where
  head : handle.table.head = head
  session : SessionInv service pins chain (handle.session pool)

/-- The call that put the CTID's record into this heap. -/
def Inserts (log : List HeapsEvent) (head : PageId) (c : Ctid) : Prop :=
  ∃ b, .call head (.insert b) (.ok (.inserted c)) ∈ log

structure HeapsInv (service : PageService σ) (pins : List PinnedBuffer) (s : Heaps σ)
    (log : List HeapsEvent) : Prop where
  pool : service.inv s.pool pins
  handles : ∀ head handle, s.handles head = some handle →
    ∃ chain, HandleInv service pins s.pool head handle chain
  issued : ∀ head c, Inserts log head c → Owned (service.content s.pool) head c.pageId

variable {s s' : Heaps σ} {log : List HeapsEvent} {event : HeapsEvent} {handle : Handle}

/-- What an event leaves alone: the pages of every heap it is not about, and every owner. -/
structure Frames (service : PageService σ) (event : HeapsEvent) (s s' : Heaps σ) : Prop where
  handle : ∀ head handle, ¬ event.On head → s.handles head = some handle → s'.handles head = some handle
  pages : ∀ head handle, ¬ event.On head → s.handles head = some handle →
    ∀ id ∈ handle.table.pages, service.content s'.pool id = service.content s.pool id
  owned : ∀ head id, Owned (service.content s.pool) head id → Owned (service.content s'.pool) head id

variable {pool : σ} {pins' : List PinnedBuffer} {handles : PageId → Option Handle} {new : Option Handle}
  {c : Ctid}
  {pool' : σ} {scans scans' : List HeapScan} {op : HeapCall} {r : HeapAnswer}

theorem HandleInv.congr (h : HandleInv service pins pool head handle chain) (hinv : service.inv pool' pins')
    (hsame : ∀ id ∈ handle.table.pages, service.content pool' id = service.content pool id) :
    HandleInv service pins' pool' head handle chain :=
  ⟨h.head, hinv, h.session.heap.congr (fun id hid => hsame id (h.session.heap.pages ▸ hid)), h.session.scans⟩

theorem HandleInv.heap (h : HandleInv service pins pool head handle chain) :
    HeapInv (service.content pool) handle.table chain :=
  h.session.heap

/-- Every head with a handle is the id of an allocated page. -/
theorem HeapsInv.head_allocated (h : HeapsInv service pins s log) (hh : s.handles head = some handle) :
    service.content s.pool head ≠ none := by
  obtain ⟨chain, hc⟩ := h.handles head handle hh
  obtain ⟨page, hp⟩ := hc.heap.allocated hc.heap.head_mem
  rw [hc.head] at hp
  rw [hp]
  exact Option.some_ne_none page

/-- The bytes of every page that belongs to a heap stay. -/
def KeepsOwned (service : PageService σ) (pool pool' : σ) : Prop :=
  ∀ head id, Owned (service.content pool) head id → service.content pool' id = service.content pool id

theorem KeepsOwned.of_extends (h : Extends (service.content pool) (service.content pool')) :
    KeepsOwned service pool pool' := by
  intro head id ho
  obtain ⟨page, _, hp, _⟩ := ho
  rw [hp, h id page hp]

/-- An event that keeps the pages of all heaps, and perhaps changes the handle of `head`. -/
theorem KeepsOwned.frames (hk : KeepsOwned service s.pool pool) (h : HeapsInv service pins s log)
    (hkeep : ∀ head handle, ¬ event.On head → s.handles head = some handle → handles head = some handle) :
    Frames service event s ⟨pool, handles⟩ := by
  refine ⟨hkeep, fun head handle _ hh id hid => ?_, fun head id ho => ?_⟩
  · obtain ⟨chain, hc⟩ := h.handles head handle hh
    exact hk _ id (hc.heap.owned (hc.heap.pages ▸ hid))
  · have hkept := hk head id ho
    obtain ⟨page, view, hp, hs, hv⟩ := ho
    exact ⟨page, view, hkept.trans hp, hs, hv⟩

/-- Handles whose pages keep their bytes stay in order. -/
theorem HeapsInv.framed (h : HeapsInv service pins s log) (hf : Frames service event s s')
    (hpool : service.inv s'.pool pins') (hhandles : ∀ head handle, s'.handles head = some handle →
      (s.handles head = some handle ∧ ∀ id ∈ handle.table.pages,
        service.content s'.pool id = service.content s.pool id) ∨
      ∃ chain, HandleInv service pins' s'.pool head handle chain)
    (hissued : ∀ head b c, event = .call head (.insert b) (.ok (.inserted c)) →
      Owned (service.content s'.pool) head c.pageId) : HeapsInv service pins' s' (event :: log) := by
  refine ⟨hpool, fun head handle hh => ?_, ?_⟩
  · rcases hhandles head handle hh with ⟨hold, hsame⟩ | hc
    · obtain ⟨chain, hc⟩ := h.handles head handle hold
      exact ⟨chain, hc.congr hpool hsame⟩
    · exact hc
  · rintro head c ⟨b, hb⟩
    rcases List.mem_cons.1 hb with he | hb
    · exact hissued head b c he.symm
    · exact hf.owned head _ (h.issued head c ⟨b, hb⟩)

/-- The handles after one of them has been set. -/
theorem handles_update (h : update handles head new head' = some handle) :
    head' = head ∧ new = some handle ∨ head' ≠ head ∧ handles head' = some handle := by
  by_cases he : head' = head
  · subst he
    rw [Function.update_self] at h
    exact .inl ⟨rfl, h⟩
  · rw [Function.update_of_ne he] at h
    exact .inr ⟨he, h⟩

theorem update_of_not_on (hon : head ≠ head') (h : handles head' = some handle) :
    update handles head new head' = some handle := by
  rw [Function.update_of_ne hon.symm]
  exact h

/-- A new handle, in order over its chain, in a pool whose heaps have kept their pages. -/
theorem HeapsInv.install (h : HeapsInv service pins s log) (hpool : service.inv pool pins)
    (hk : KeepsOwned service s.pool pool)
    (hnew : ∀ handle, new = some handle → ∃ chain, HandleInv service pins pool head handle chain)
    (hfree : ∀ head' handle, ¬ event.On head' → s.handles head' = some handle → head ≠ head')
    (hinsert : ∀ head b c, event ≠ .call head (.insert b) (.ok (.inserted c))) :
    Frames service event s ⟨pool, update s.handles head new⟩ ∧ ∃ pins',
      HeapsInv service pins' ⟨pool, update s.handles head new⟩ (event :: log) := by
  have hf : Frames service event s ⟨pool, update s.handles head new⟩ :=
    hk.frames h fun head' handle hon hh => update_of_not_on (hfree head' handle hon hh) hh
  refine ⟨hf, pins, h.framed hf hpool (fun head' handle hh => ?_) (fun _ _ _ he => absurd he (hinsert _ _ _))⟩
  rcases handles_update hh with ⟨rfl, hset⟩ | ⟨_, hold⟩
  · exact .inr (hnew handle hset)
  · obtain ⟨chain, hc⟩ := h.handles head' handle hold
    exact .inl ⟨hold, fun id hid => hk _ id (hc.heap.owned (hc.heap.pages ▸ hid))⟩

/-- The handles stay, in a pool whose heaps have kept their pages. -/
theorem HeapsInv.keep (h : HeapsInv service pins s log) (hpool : service.inv pool pins')
    (hk : KeepsOwned service s.pool pool)
    (hinsert : ∀ head b c, event ≠ .call head (.insert b) (.ok (.inserted c))) :
    Frames service event s ⟨pool, s.handles⟩ ∧ ∃ pins',
      HeapsInv service pins' ⟨pool, s.handles⟩ (event :: log) := by
  have hf : Frames service event s ⟨pool, s.handles⟩ := hk.frames h fun _ _ _ hh => hh
  refine ⟨hf, pins', h.framed hf hpool (fun head handle hh => ?_) (fun _ _ _ he => absurd he (hinsert _ _ _))⟩
  obtain ⟨chain, hc⟩ := h.handles head handle hh
  exact .inl ⟨hh, fun id hid => hk _ id (hc.heap.owned (hc.heap.pages ▸ hid))⟩

/-- The page of a new record is a page of the chain the call leaves. -/
theorem HeapOutcome.inserted_mem {b : Bytes}
    (h : HeapOutcome chain scans (.insert b) (.ok (.inserted c)) chain' scans') : c.pageId ∈ chain'.ids := by
  cases h with
  | insert _ hins =>
    rcases hins.ids_eq with ⟨he, hm⟩ | ⟨he, _⟩
    · rw [he]
      exact hm
    · rw [he]
      exact List.mem_append_right _ (List.mem_singleton.2 rfl)

/-- One call on one heap. -/
theorem HeapsInv.call {ses : Session σ} (h : HeapsInv service pins s log) (hh : s.handles head = some handle)
    (hcall : (handle.session s.pool).call service op = some (r, ses)) :
    Frames service (.call head op r) s
        ⟨ses.heap.pool, update s.handles head (some ⟨ses.heap.table, ses.scans⟩)⟩ ∧ ∃ pins',
      HeapsInv service pins'
        ⟨ses.heap.pool, update s.handles head (some ⟨ses.heap.table, ses.scans⟩)⟩
        (.call head op r :: log) := by
  obtain ⟨chain, hc⟩ := h.handles head handle hh
  obtain ⟨chain', hout, hmoved⟩ := refines_of_call hc.session hcall
  have hses := hc.session.moved hout hmoved
  have hpages : ∀ head' handle', head' ≠ head → s.handles head' = some handle' →
      ∀ id ∈ handle'.table.pages, service.content ses.heap.pool id = service.content s.pool id := by
    intro head' handle' hne hh' id hid
    obtain ⟨chain2, hc2⟩ := h.handles head' handle' hh'
    have hheads : handle'.table.head ≠ handle.table.head := by
      rw [hc2.head, hc.head]
      exact hne
    exact hmoved.others_same hc.heap hc2.heap hheads id (hc2.heap.pages ▸ hid)
  have hf : Frames service (.call head op r) s
      ⟨ses.heap.pool, update s.handles head (some ⟨ses.heap.table, ses.scans⟩)⟩ :=
    ⟨fun head' _ hon hh' => update_of_not_on hon hh',
      fun head' handle' hon hh' => hpages head' handle' (fun he => hon he.symm) hh',
      fun head' id ho => hmoved.owned hc.heap (hout.grows hc.heap.nodup) ho⟩
  refine ⟨hf, pins, h.framed hf hses.pool (fun head' handle' hh' => ?_) ?_⟩
  · rcases handles_update hh' with ⟨rfl, hset⟩ | ⟨hne, hold⟩
    · cases hset
      exact .inr ⟨chain', hmoved.head.trans hc.head, hses⟩
    · exact .inl ⟨hold, hpages head' handle' hne hold⟩
  · intro head' b c he
    cases he
    have howner := hmoved.inv.owned hout.inserted_mem
    rw [hmoved.head] at howner
    exact hc.head ▸ howner

/-- **Every event keeps the invariant, and leaves alone what it is not about.** -/
theorem HeapsInv.step (h : HeapsInv service pins s log) (hstep : s.Step service event s') :
    Frames service event s s' ∧ ∃ pins', HeapsInv service pins' s' (event :: log) := by
  cases hstep with
  | create hcreate =>
    obtain ⟨hfresh, hkept, hheap⟩ := (HeapTable.create_spec h.pool).ok hcreate
    refine h.install hkept.inv (.of_extends hkept.grows) (fun handle hset => ?_) ?_ (fun _ _ _ he => by cases he)
    · cases hset
      exact ⟨_, rfl, hkept.inv, hheap, fun _ hs => by cases hs⟩
    · exact fun head' handle _ hh he => h.head_allocated hh (he ▸ hfresh)
  | createFails hcreate =>
    obtain ⟨hkept, _⟩ := (HeapTable.create_spec h.pool).error hcreate
    exact h.keep hkept.inv (.of_extends hkept.grows) (fun _ _ _ he => by cases he)
  | @open_ head table pool _ hopen =>
    obtain ⟨hinv, hc, hhead, chain, hheap⟩ := (HeapTable.open_sound h.pool head).ok hopen
    rw [← hc] at hheap
    refine h.install hinv (.of_extends (.of_eq hc)) (fun handle hset => ?_)
      (fun _ _ hon _ he => hon he) (fun _ _ _ he => by cases he)
    cases hset
    exact ⟨chain, hhead, hinv, hheap, fun _ hs => by cases hs⟩
  | @openFails head e pool hopen =>
    obtain ⟨hkept, _⟩ := (HeapTable.open_sound h.pool head).error hopen
    exact h.keep hkept.inv (.of_extends hkept.grows) (fun _ _ _ he => by cases he)
  | close =>
    exact h.install h.pool (.of_extends (.refl _)) (fun handle hset => by cases hset)
      (fun _ _ hon _ he => hon he) (fun _ _ _ he => by cases he)
  | call hh hcall => exact h.call hh hcall
  | others hinv hsame => exact h.keep hinv hsame (fun _ _ _ he => by cases he)

theorem Heaps.Run.inv (h : s.Run service log) : ∃ pins, HeapsInv service pins s log := by
  induction h with
  | start hinv =>
    refine ⟨_, hinv, fun _ _ hh => (by cases hh), ?_⟩
    rintro _ _ ⟨_, hb⟩
    cases hb
  | step _ hstep ih =>
    obtain ⟨pins, hinv⟩ := ih
    exact (hinv.step hstep).2

/-! ## No interference -/

/-- The CTID a call names. -/
def HeapCall.ctid : HeapCall → Option Ctid
  | .get ctid => some ctid
  | .delete ctid => some ctid
  | .replace ctid _ => some ctid
  | _ => none

/-- A CTID of no page of the chain is refused, once the record's size has been accepted. -/
theorem HeapOutcome.foreign (h : HeapOutcome chain scans op r chain' scans') (hop : op.ctid = some c)
    (hc : c.pageId ∉ chain.ids) :
    r = .error (.error (.invalidCtid c)) ∨ ∃ bytes, op = .replace c bytes ∧ ¬ Legal bytes ∧
      r = .error (.error (.invalidTupleSize bytes.length 8164)) := by
  have hdead : (chain.slot c).join = none := by
    rw [Chain.slot_eq_none hc]
    rfl
  cases h with
  | get hid | deleteDead hid | replaceDead _ hid =>
    cases hop
    exact absurd hid hc
  | delete hlive =>
    cases hop
    exact absurd hdead hlive
  | replace _ hlive | noSpace _ hlive =>
    cases hop
    rw [hdead] at hlive
    cases hlive
  | invalidCtid hnames =>
    cases op <;> cases hop <;> simp only [HeapCall.Names] at hnames
    · exact .inl (by rw [hnames])
    · exact .inl (by rw [hnames])
    · exact .inl (by rw [hnames.1])
  | tupleSize hsize =>
    cases op <;> cases hop <;> simp only [HeapCall.Oversized] at hsize
    exact .inr ⟨_, rfl, hsize.1, by rw [hsize.2]⟩
  | buffer hreaches =>
    cases op <;> cases hop <;> simp only [HeapCall.Reaches] at hreaches
    · exact absurd hreaches hc
    · exact absurd hreaches hc
    · exact absurd hreaches.2 hc
  | _ => cases hop

end ChiliDB

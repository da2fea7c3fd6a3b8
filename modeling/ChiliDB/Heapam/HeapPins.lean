import ChiliDB.Heapam.HeapRuns
import ChiliDB.Heapam.PageSafety
import ChiliDB.Storage.ClockPool

/-!
# Heap calls and the pins of the pool

Every call on a heap reaches the pool through `readPage`, `writePage` and `createPage`, each of which
drops its pin before it returns.

* `Serves service I bad` — these three keep `I`, and end in no bad fault unless their callback does.
* `maintains_*` — so does every call on a heap, on any handle; `next_maintains` — and every `next` of a
  scan.
* `clear_serves` — a pool with its own clock and without pins: no call fails for lack of a frame, and
  none leaves a pin.
-/

namespace ChiliDB

open Effect HeapPage
open Exec (Maintains Avoids Ensures ensures_of_ok)

variable {σ α : Type} {service : PageService σ} {I : σ → Prop} {bad : Fault HeapError → Prop}

/-! ## Callbacks on one page -/

variable {f : Exec HeapError Page α}

theorem avoids_of_ownError (h : ∀ page, OwnError (f page).1) : Avoids Alien f := by
  intro page _
  refine Exec.ensures_iff.2 ⟨fun _ _ _ => trivial, fun e page' hf => ⟨h page e ?_, trivial⟩⟩
  rw [hf]

theorem ownError_of_avoids (h : Avoids Alien f) (page : Page) : OwnError (f page).1 := by
  intro e he
  rcases hf : f page with ⟨r, page'⟩
  rw [hf] at he
  subst he
  exact ((h page trivial).error hf).1

namespace HeapTable

private theorem one_lt_slots : 1 < 2 ^ 16 := by decide

/-- A slot to name where none matters. -/
private def slotOne : SlotId := ⟨1, Nat.one_pos, one_lt_slots⟩

variable (table : HeapTable)

theorem checkedHeader_own (index : Nat) (page : Page) : OwnError (checkedHeader table index page) := by
  refine OwnError.bind (ownErrors page slotOne 0 [] none).header fun header => ?_
  split
  · exact ownError_error rfl (not_alien_corrupt _)
  · split
    · exact ownError_error rfl (not_alien_corrupt _)
    · exact ownError_ok rfl

theorem avoids_checked {table : HeapTable} {index : Nat} {f : Exec HeapError Page α}
    (h : Avoids Alien f) : Avoids Alien (checked table index f) := by
  apply Maintains.bind .get
  intro page
  exact .bind (.lift (checkedHeader_own table index page)) fun _ => h

theorem scanRows_own (index : Nat) (id : PageId) (slots : Nat) (page : Page) :
    OwnError (scanRows table index id slots page) := by
  refine OwnError.bind (checkedHeader_own table index page) fun header => ?_
  split
  · exact ownError_error rfl (not_alien_corrupt _)
  · exact OwnError.bind (ownErrors page slotOne slots [] none).records fun _ => ownError_ok rfl

theorem avoids_initPage (owner : PageId) : Avoids Alien (do
    let page ← .lift (initPage owner)
    Exec.set page : Exec HeapError Page Unit) := by
  obtain ⟨page, hpage, _⟩ := initPage_eq owner
  refine .bind (.lift (ownError_ok hpage)) fun _ _ _ => ?_
  trivial

theorem avoids_startPage (bytes : Bytes) : Avoids Alien (startPage table bytes) := by
  have hinsert : Avoids Alien (HeapPage.insert bytes) :=
    avoids_of_ownError fun page => (ownErrors page slotOne 0 bytes none).insert
  obtain ⟨page, hpage, _⟩ := initPage_eq table.head
  refine .bind (.lift (ownError_ok hpage)) fun _ =>
    .bind (fun _ _ => trivial) fun _ => .bind hinsert fun slot => ?_
  split
  · exact .pure _
  · exact .fail (not_alien_corrupt _)

theorem avoids_replaceLive (slotId : SlotId) (bytes : Bytes) : Avoids Alien (replaceLive slotId bytes) := by
  apply Maintains.bind .get
  intro page
  apply Maintains.bind (.lift (ownErrors page slotId 0 [] none).get)
  intro row
  split
  · exact .pure _
  · apply Maintains.bind (avoids_of_ownError fun page => (ownErrors page slotId 0 bytes none).replace)
    intro done
    split
    · exact .pure _
    · exact .fail id

end HeapTable

/-! ## Every call on a heap -/

/-- The calls on one page keep `I`; the bad faults are some errors of the pool, and the calls end in none
of them. -/
structure Serves (service : PageService σ) (I : σ → Prop) (bad : Fault HeapError → Prop) : Prop where
  buffer : ∀ e, bad e → FromBuffer e
  readPage : ∀ {α : Type} (id : PageId) (f : Page → Result HeapError α), (∀ page, OwnError (f page)) →
    Maintains I bad (HeapTable.readPage service id f)
  writePage : ∀ {α : Type} (id : PageId) (f : Exec HeapError Page α), Avoids Alien f →
    Maintains I bad (HeapTable.writePage service id f)
  createPage : ∀ {α : Type} (f : PageId → Exec HeapError Page α), (∀ id, Avoids Alien (f id)) →
    Maintains I bad (HeapTable.createPage service f)

theorem Serves.alien (h : Serves service I bad) {e : Fault HeapError} (he : bad e) : Alien e := by
  obtain ⟨x, rfl⟩ := h.buffer e he
  trivial

namespace HeapTable

theorem maintains_onPool {m : Exec HeapError σ α} (hm : Maintains I bad m) :
    Maintains (fun heap => I heap.pool) bad (onPool m) :=
  .zoom hm (fun _ hs => hs) fun _ _ ht _ => ht

variable (h : Serves service I bad)
include h

variable {J : α → Prop} {β : Type} {r : Result HeapError β}

theorem maintains_own (hr : OwnError r) : Maintains J bad (.lift r : Exec HeapError α β) :=
  .lift fun e he hbad => hr e he (h.alien hbad)

theorem maintains_panicking (hr : ∀ e, r = .error e → ∃ p, e = .panic p) :
    Maintains J bad (.lift r : Exec HeapError α β) := by
  apply Maintains.lift
  intro e he hbad
  obtain ⟨p, rfl⟩ := hr e he
  obtain ⟨x, hx⟩ := h.buffer _ hbad
  cases hx

theorem maintains_refuse {e : HeapError} (he : ¬ Alien (.error e)) :
    Maintains J bad (.fail e : Exec HeapError α β) :=
  .fail fun hbad => he (h.alien hbad)

theorem maintains_create : Maintains I bad (create service) :=
  .bind (h.createPage _ avoids_initPage) fun _ => .pure _

theorem maintains_openFrom (head : PageId) (pages : List PageId)
    (indices : AList (fun _ : PageId => Nat)) (next : Option PageId) :
    Maintains I bad (openFrom service head pages indices next) := by
  fun_induction openFrom service head pages indices next with
  | case1 => exact .pure _
  | case2 => exact maintains_refuse h (not_alien_corrupt _)
  | case3 pages indices id _ ih =>
    apply Maintains.bind (h.readPage id _ fun page => (ownErrors page slotOne 0 [] none).header)
    intro header
    split
    · exact maintains_refuse h (not_alien_corrupt _)
    · exact ih header

theorem maintains_open (head : PageId) : Maintains I bad (open_ service head) :=
  maintains_openFrom h head [] ∅ (some head)

theorem maintains_locked {m : HeapTable → HeapM σ α}
    (hm : ∀ table, Maintains (fun heap => I heap.pool) bad (m table)) :
    Maintains (fun heap => I heap.pool) bad (locked m) := by
  apply Maintains.bind .get
  intro heap
  split
  · exact maintains_refuse h id
  · exact .onPanic (hm heap.table) fun _ hs => hs

theorem maintains_validateTuple (bytes : Bytes) :
    Maintains J bad (.lift (validateTuple bytes) : Exec HeapError α Unit) := by
  apply maintains_own h
  unfold validateTuple checkTuple
  split
  · exact ownError_error rfl (not_alien_tupleSize _ _)
  · exact ownError_ok rfl

theorem maintains_indexOf (table : HeapTable) (ctid : Ctid) :
    Maintains J bad (.lift (indexOf table ctid) : Exec HeapError α Nat) := by
  apply maintains_own h
  unfold indexOf
  split
  · exact ownError_ok rfl
  · exact ownError_error rfl id

theorem maintains_extend (table : HeapTable) (index : Nat) (tail : PageId) (bytes : Bytes) :
    Maintains (fun heap => I heap.pool) bad (extend service table index tail bytes) := by
  apply Maintains.bind (maintains_onPool (h.createPage _ fun _ => avoids_startPage table bytes))
  intro r
  refine .bind (maintains_onPool (h.writePage tail _ (avoids_checked (avoids_of_ownError
    fun page => (ownErrors page slotOne 0 [] (some r.1)).setNext)))) fun _ => ?_
  exact .bind (.modify fun _ hs => hs) fun _ => .pure _

theorem maintains_insert (bytes : Bytes) : Maintains (fun heap => I heap.pool) bad (insert service bytes) := by
  refine .bind (maintains_validateTuple h bytes) fun _ => maintains_locked h fun table => ?_
  refine .bind (maintains_panicking h ?_) fun index =>
    .bind (maintains_panicking h ?_) fun tail => ?_
  · intro e he
    unfold Result.sub at he
    split at he <;> cases he
    exact ⟨_, rfl⟩
  · intro e he
    unfold Result.index at he
    split at he <;> cases he
    exact ⟨_, rfl⟩
  · apply Maintains.bind (maintains_onPool (h.writePage tail _ (avoids_checked (avoids_of_ownError
      fun page => (ownErrors page slotOne 0 bytes none).insert))))
    intro slot
    split
    · exact .pure _
    · exact maintains_extend h table index tail bytes

variable (ctid : Ctid)

theorem maintains_get : Maintains (fun heap => I heap.pool) bad (get service ctid) := by
  refine maintains_locked h fun table => .bind (maintains_indexOf h table ctid) fun index => ?_
  refine maintains_onPool (h.readPage _ _ fun page => ?_)
  exact OwnError.bind (checkedHeader_own table index page) fun _ => (ownErrors page ctid.slotId 0 [] none).get

theorem maintains_delete : Maintains (fun heap => I heap.pool) bad (delete service ctid) := by
  refine maintains_locked h fun table => .bind (maintains_indexOf h table ctid) fun index => ?_
  exact maintains_onPool (h.writePage _ _ (avoids_checked (avoids_of_ownError
    fun page => (ownErrors page ctid.slotId 0 [] none).delete)))

theorem maintains_replace (bytes : Bytes) :
    Maintains (fun heap => I heap.pool) bad (replace service ctid bytes) := by
  refine .bind (maintains_validateTuple h bytes) fun _ => maintains_locked h fun table =>
    .bind (maintains_indexOf h table ctid) fun index => ?_
  exact maintains_onPool (h.writePage _ _ (avoids_checked (avoids_replaceLive ctid.slotId bytes)))

theorem maintains_captureFrom (table : HeapTable) (ids : List PageId) :
    ∀ index, Maintains I bad (captureFrom service table index ids) := by
  induction ids with
  | nil => exact fun _ => .pure _
  | cons id ids ih =>
    intro index
    apply Maintains.bind (h.readPage id _ (checkedHeader_own table index))
    intro header
    exact .bind (ih (index + 1)) fun _ => .pure _

theorem maintains_scan : Maintains (fun heap => I heap.pool) bad (scan service) :=
  maintains_locked h fun table =>
    .bind (maintains_onPool (maintains_captureFrom h table table.pages 0)) fun _ =>
      .pure _

theorem maintains_readScanPage (id : PageId) (slots : Nat) :
    Maintains (fun heap => I heap.pool) bad (readScanPage service id slots) := by
  apply maintains_locked h
  intro table
  split
  · exact maintains_refuse h (not_alien_corrupt _)
  · exact maintains_onPool (h.readPage id _ (scanRows_own table _ id slots))

end HeapTable

namespace HeapScan

/-- The item of a `next` is not a bad error. -/
def ItemOk (bad : Fault HeapError → Prop) (item : ScanItem) : Prop :=
  ∀ e, item = some (.error e) → ¬ bad (.error e)

variable (h : Serves service I bad)
include h

theorem nextFrom_maintains (rest : List (PageId × Nat)) :
    ∀ s : Scanning σ, I s.heap.pool →
      Ensures (nextFrom service rest) s (fun item s' => ItemOk bad item ∧ I s'.heap.pool)
        (fun _ s' => I s'.heap.pool) := by
  have hrow : ∀ row : Ctid × Bytes, ItemOk bad (some (.ok row)) := fun row e he => by cases he
  induction rest with
  | nil =>
    intro ⟨heap, ⟨pages, index, rows, failed⟩⟩ hs
    apply Ensures.bind
    cases rows with
    | nil => exact ⟨fun e he => (by cases he), hs⟩
    | cons row rows => exact ⟨hrow row, hs⟩
  | cons page rest ih =>
    intro ⟨heap, ⟨pages, index, rows, failed⟩⟩ hs
    apply Ensures.bind
    cases rows with
    | cons row rows => exact ⟨hrow row, hs⟩
    | nil =>
      refine ensures_of_ok (popFront_run ..) (.bind (ensures_of_ok (modifyScan_run ..) (.bind (.zoom ?_))))
      have hread := HeapTable.maintains_readScanPage h page.1 page.2
      refine (Maintains.attempt hread hs).mono ?_ (fun _ _ hs' => hs')
      intro r heap' hr
      cases r with
      | ok rows =>
        exact .bind (ensures_of_ok (modifyScan_run ..) (ih _ hr.2))
      | error e =>
        refine .bind (ensures_of_ok (modifyScan_run ..) ⟨fun e' he => ?_, hr.2⟩)
        cases he
        exact hr.1 e rfl

theorem next_maintains (s : Scanning σ) (hs : I s.heap.pool) :
    Ensures (next service) s (fun item s' => ItemOk bad item ∧ I s'.heap.pool) (fun _ s' => I s'.heap.pool) := by
  refine .bind (.get ?_)
  split
  · exact ⟨fun e he => (by cases he), hs⟩
  · exact nextFrom_maintains h _ s hs

end HeapScan

/-- The call failed badly, or the item it returned says so. -/
def HeapAnswer.Bad (bad : Fault HeapError → Prop) (r : HeapAnswer) : Prop :=
  (∃ e, r = .error e ∧ bad e) ∨ ∃ e, r = .ok (.item (some (.error e))) ∧ bad (.error e)

/-- One call of a client of the heap, with any handle and any scans. -/
theorem Session.call_maintains (h : Serves service I bad) {ses ses' : Session σ} (hses : I ses.heap.pool)
    {op : HeapCall} {r : HeapAnswer} (hcall : ses.call service op = some (r, ses')) :
    ¬ HeapAnswer.Bad bad r ∧ I ses'.heap.pool := by
  have hrun : ∀ {α : Type} {m : HeapM σ α} {ret : α → HeapReturned}
      {scans : Result HeapError α → List HeapScan}, Maintains (fun heap => I heap.pool) bad m →
      (∀ a item, ret a ≠ .item item) → ses.run m ret scans = (r, ses') →
      ¬ HeapAnswer.Bad bad r ∧ I ses'.heap.pool := by
    intro α m ret scans hm hret hrun
    unfold Session.run at hrun
    rcases hr : m ses.heap with ⟨a, heap⟩
    rw [hr] at hrun
    obtain ⟨rfl, rfl⟩ := Prod.mk.inj hrun
    obtain ⟨herr, hheap⟩ := hm.result hses hr
    refine ⟨fun hbad => ?_, hheap⟩
    cases a with
    | ok a =>
      rcases hbad with ⟨e, he, _⟩ | ⟨e, he, _⟩
      · cases he
      · exact hret a _ (Except.ok.inj he)
    | error e =>
      rcases hbad with ⟨e', he, hb⟩ | ⟨e', he, _⟩
      · cases he
        exact herr e rfl hb
      · cases he
  cases op with
  | insert bytes =>
    exact hrun (HeapTable.maintains_insert h bytes) (fun _ _ he => by cases he) (Option.some.inj hcall)
  | get ctid =>
    exact hrun (HeapTable.maintains_get h ctid) (fun _ _ he => by cases he) (Option.some.inj hcall)
  | delete ctid =>
    exact hrun (HeapTable.maintains_delete h ctid) (fun _ _ he => by cases he) (Option.some.inj hcall)
  | replace ctid bytes =>
    exact hrun (HeapTable.maintains_replace h ctid bytes) (fun _ _ he => by cases he) (Option.some.inj hcall)
  | scan => exact hrun (HeapTable.maintains_scan h) (fun _ _ he => by cases he) (Option.some.inj hcall)
  | next k =>
    obtain ⟨scan, _, hnext⟩ := Option.map_eq_some_iff.1 hcall
    have hspec := HeapScan.next_maintains h ⟨ses.heap, scan⟩ hses
    unfold Ensures at hspec
    unfold Session.advance at hnext
    rcases hr : HeapScan.next service ⟨ses.heap, scan⟩ with ⟨a, s⟩
    rw [hr] at hspec hnext
    obtain ⟨rfl, rfl⟩ := Prod.mk.inj hnext
    rcases a with (x | p) | item
    · exact x.elim
    · refine ⟨fun hbad => ?_, hspec⟩
      rcases hbad with ⟨e, he, hb⟩ | ⟨e, he, _⟩
      · cases he
        obtain ⟨x, hx⟩ := h.buffer _ hb
        cases hx
      · cases he
    · refine ⟨fun hbad => ?_, hspec.2⟩
      rcases hbad with ⟨e, he, _⟩ | ⟨e, he, hb⟩
      · cases he
      · cases he
        exact hspec.1 e rfl hb

/-! ## A pool without pins -/

open BufferPool

variable {S β : Type} {store : PageStore S}

/-- A pool with its own clock that nobody has a pin of. -/
def Clear (store : PageStore S) (pool : BufferPool S ClockStrategy.State) : Prop :=
  Clocked store ⟨pool, []⟩

theorem Clear.unpinned {pool : BufferPool S ClockStrategy.State} (h : Clear store pool) :
    ∀ frame ∈ pool.frames, frame.pins = 0 := by
  intro frame hframe
  obtain ⟨i, hi⟩ := List.mem_iff_getElem?.1 hframe
  exact h.sound.layout.counted i frame hi

/-- The pool has no frame left. -/
def HeapStarved (e : Fault HeapError) : Prop := ∃ x, e = .error (.buffer x) ∧ Starved (.error x)

theorem not_heapStarved {e : Fault BufferError} (h : ¬ Starved e) : ¬ HeapStarved (e.map .buffer) := by
  intro he
  obtain ⟨x, hx, hstarved⟩ := he
  cases e with
  | error y => cases hx; exact h hstarved
  | panic p => cases hx

/-- A pin that is dropped after its use, whatever the use does. -/
theorem clear_bracket {acquire : Exec BufferError (BufferPool S ClockStrategy.State) PinnedBuffer}
    {use : PinnedBuffer → Exec BufferError (BufferPool S ClockStrategy.State) (Except HeapError α)}
    (hacquire : ∀ pool, Clear store pool → Ensures acquire pool
      (fun p pool' => Clocked store ⟨pool', [p]⟩) (fun e pool' => ¬ Starved e ∧ Clear store pool'))
    (huse : ∀ p pool, Clocked store ⟨pool, [p]⟩ → Ensures (use p) pool
      (fun r pool' => (∀ x, r = .error x → ¬ Alien (.error x)) ∧ Clocked store ⟨pool', [p]⟩)
      (fun e pool' => ¬ Starved e ∧ Clocked store ⟨pool', [p]⟩)) :
    Maintains (Clear store) HeapStarved (HeapTable.flatten (Exec.bracket acquire use fun p => p.drop)) := by
  intro pool hpool
  refine HeapTable.ensures_flatten (.bracket ((hacquire pool hpool).mono ?_ ?_))
  · intro p pool1 hp
    refine (huse p pool1 hp).mono ?_ ?_
    · intro r pool2 hr
      refine hr.2.drop.mono (fun _ pool3 hclear => ⟨fun _ _ => hclear, fun x hx => ⟨?_, hclear⟩⟩)
        (fun _ _ hfalse => hfalse.elim)
      intro hstarved
      obtain ⟨y, hy, _⟩ := hstarved
      cases hy
      exact hr.1 _ hx trivial
    · intro e pool2 he
      exact he.2.drop.mono (fun _ pool3 hclear => ⟨not_heapStarved he.1, hclear⟩) (fun _ _ hfalse => hfalse.elim)
  · intro e pool1 he
    exact ⟨not_heapStarved he.1, he.2⟩

/-- What a callback returned to the pool as a value. -/
theorem not_alien_of_attempt {r : Result HeapError α} (hr : OwnError r) {v : Except HeapError α}
    (hv : (r.attempt : Result Empty (Except HeapError α)) = .ok v) :
    ∀ x, v = .error x → ¬ Alien (.error x) := by
  intro x hx
  subst hx
  rcases HeapTable.attempt_eq_ok.1 hv with ⟨a, ha, _⟩ | ⟨y, hy, hrun⟩
  · cases ha
  · cases hy
    exact hr _ hrun

/-- **Every call on one page of a pool without pins finds a frame and leaves no pin.** -/
theorem clear_serves (store : PageStore S) :
    Serves (BufferPool.service store ClockStrategy) (Clear store) HeapStarved := by
  refine ⟨fun e he => ?_, fun id f hf => ?_, fun id f hf => ?_, fun f hf => ?_⟩
  · obtain ⟨x, hx, _⟩ := he
    exact ⟨x, hx⟩
  · refine clear_bracket (fun pool h => h.pin id) fun p pool h => ?_
    refine ((h.read fun page => (f page).attempt).and (service_read _ h.inOrder)).mono ?_ (fun _ _ he => he.1)
    intro v pool' hq
    obtain ⟨hclocked, _, _, data, _, hv⟩ := hq
    exact ⟨not_alien_of_attempt (hf data) hv, hclocked⟩
  · refine clear_bracket (fun pool h => h.pin id) fun p pool h => ?_
    refine ((h.write _).and (service_write _ h.inOrder)).mono ?_ (fun _ _ he => he.1)
    intro v pool' hq
    obtain ⟨hclocked, _, data, _, hv, _⟩ := hq
    exact ⟨not_alien_of_attempt (ownError_of_avoids hf data) hv, hclocked⟩
  · refine clear_bracket (fun pool h => h.newPage) fun p pool h => .bind ?_
    refine ((h.write _).and (service_write _ h.inOrder)).mono ?_ (fun _ _ he => he.1)
    intro v pool' hq
    obtain ⟨hclocked, _, data, _, hv, _⟩ := hq
    refine ⟨fun x hx => ?_, hclocked⟩
    cases v with
    | ok a => cases hx
    | error y =>
      cases hx
      exact not_alien_of_attempt (ownError_of_avoids (hf p.page) data) hv _ rfl

end ChiliDB

import ChiliDB.Heapam.HeapOpen

/-!
# Runs of a heap table

A client works with one handle and any number of scans on it, over a pool whose calls may fail
whenever they like; between its calls other clients use the pool, but do not write the heap's pages.

* `Session` — the handle, its pool and the open scans; `Session.call` — one call.
* `HeapOutcome` — what one call can do to the chain, and `refines_of_call` — it does nothing else.
* `HeapRun` — the sessions that calls lead to from a new or an opened handle, with the history of
  answers; `HeapRun.inv` — the handle is in order in all of them.
* `Session.calls`, `oneFrameRun` — runs that are evaluated.
-/

namespace ChiliDB

open Effect HeapPage List

/-- A call; `next k` advances the `k`-th open scan. -/
inductive HeapCall where
  | insert (bytes : Bytes)
  | get (ctid : Ctid)
  | delete (ctid : Ctid)
  | replace (ctid : Ctid) (bytes : Bytes)
  | scan
  | next (k : Nat)

inductive HeapReturned where
  | inserted (ctid : Ctid)
  | record (bytes : Option Bytes)
  | changed (done : Bool)
  | scanning
  | item (item : ScanItem)
  deriving DecidableEq

abbrev HeapAnswer := Result HeapError HeapReturned

/-- Calls and their answers, the last one first. -/
abbrev History := List (HeapCall × HeapAnswer)

structure Session (σ : Type) where
  heap : Heap σ
  scans : List HeapScan

namespace Session

variable {σ α : Type} (service : PageService σ)

/-- Run one call on the heap. -/
def run (ses : Session σ) (m : HeapM σ α) (ret : α → HeapReturned)
    (scans : Result HeapError α → List HeapScan) : HeapAnswer × Session σ :=
  match m ses.heap with
  | (r, heap) => (r.map ret, ⟨heap, scans r⟩)

/-- A call that returns a scan hands it to the client. -/
def keeping (scans : List HeapScan) : Result HeapError HeapScan → List HeapScan
  | .ok scan => scans ++ [scan]
  | .error _ => scans

/-- Advance scan number `k`. -/
def advance (ses : Session σ) (k : Nat) (scan : HeapScan) : HeapAnswer × Session σ :=
  match HeapScan.next service ⟨ses.heap, scan⟩ with
  | (r, s) => ((r.mapErr Empty.elim).map .item, ⟨s.heap, ses.scans.set k s.scan⟩)

/-- One call; `none` if the client has no such scan. -/
def call (ses : Session σ) : HeapCall → Option (HeapAnswer × Session σ)
  | .insert bytes => some (ses.run (HeapTable.insert service bytes) .inserted fun _ => ses.scans)
  | .get ctid => some (ses.run (HeapTable.get service ctid) .record fun _ => ses.scans)
  | .delete ctid => some (ses.run (HeapTable.delete service ctid) .changed fun _ => ses.scans)
  | .replace ctid bytes =>
    some (ses.run (HeapTable.replace service ctid bytes) .changed fun _ => ses.scans)
  | .scan => some (ses.run (HeapTable.scan service) (fun _ => .scanning) (keeping ses.scans))
  | .next k => ses.scans[k]?.map (ses.advance service k)

end Session

/-! ## What one call can do -/

/-- The next row of a scan over a chain; the list holds the pages it has still to read. -/
def Chain.advance (chain : Chain) : List (PageId × Nat) → HeapScan → Option (Ctid × Bytes) × HeapScan
  | [], scan => (scan.rows.head?, { scan with rows := scan.rows.tail })
  | (id, slots) :: rest, scan =>
    match scan.rows with
    | row :: rows => (some row, { scan with rows := rows })
    | [] => advance chain rest
        { scan with index := scan.index + 1, rows := RowPage.live ⟨id, chain.rowsOf id⟩ slots }

/-- The scan `HeapTable.scan` returns. -/
def Chain.capture (chain : Chain) : HeapScan :=
  ⟨chain.map fun p => (p.id, p.rows.length), 0, [], false⟩

/-- The call looks a CTID up. -/
def HeapCall.Names (c : Ctid) : HeapCall → Prop
  | .get ctid => ctid = c
  | .delete ctid => ctid = c
  | .replace ctid bytes => ctid = c ∧ Legal bytes
  | _ => False

/-- The record of the call has an illegal size. -/
def HeapCall.Oversized (n : Nat) : HeapCall → Prop
  | .insert bytes => ¬ Legal bytes ∧ bytes.length = n
  | .replace _ bytes => ¬ Legal bytes ∧ bytes.length = n
  | _ => False

/-- The call gets as far as the pool. -/
def HeapCall.Reaches (pages : List PageId) : HeapCall → Prop
  | .insert bytes => Legal bytes
  | .get ctid => ctid.pageId ∈ pages
  | .delete ctid => ctid.pageId ∈ pages
  | .replace ctid bytes => Legal bytes ∧ ctid.pageId ∈ pages
  | .scan => True
  | .next _ => False

/-- What one call can do. -/
inductive HeapOutcome (chain : Chain) (scans : List HeapScan) :
    HeapCall → HeapAnswer → Chain → List HeapScan → Prop where
  | insert {b : Bytes} {c : Ctid} {chain' : Chain} : Legal b → Chain.Inserted chain b c chain' →
      HeapOutcome chain scans (.insert b) (.ok (.inserted c)) chain' scans
  | get {c : Ctid} : c.pageId ∈ chain.ids →
      HeapOutcome chain scans (.get c) (.ok (.record (chain.slot c).join)) chain scans
  | delete {c : Ctid} : (chain.slot c).join ≠ none →
      HeapOutcome chain scans (.delete c) (.ok (.changed true)) (chain.setRow c none) scans
  | deleteDead {c : Ctid} : c.pageId ∈ chain.ids → (chain.slot c).join = none →
      HeapOutcome chain scans (.delete c) (.ok (.changed false)) chain scans
  | replace {c : Ctid} {b old : Bytes} : Legal b → (chain.slot c).join = some old →
      Chain.CanReplace (chain.rowsOf c.pageId) old b →
      HeapOutcome chain scans (.replace c b) (.ok (.changed true)) (chain.setRow c (some b)) scans
  | replaceDead {c : Ctid} {b : Bytes} : Legal b → c.pageId ∈ chain.ids →
      (chain.slot c).join = none →
      HeapOutcome chain scans (.replace c b) (.ok (.changed false)) chain scans
  | noSpace {c : Ctid} {b old : Bytes} : Legal b → (chain.slot c).join = some old →
      ¬ Chain.CanReplace (chain.rowsOf c.pageId) old b →
      HeapOutcome chain scans (.replace c b) (.error (.error .noSpace)) chain scans
  | invalidCtid {op : HeapCall} {c : Ctid} : op.Names c → c.pageId ∉ chain.ids →
      HeapOutcome chain scans op (.error (.error (.invalidCtid c))) chain scans
  | tupleSize {op : HeapCall} {n : Nat} : op.Oversized n →
      HeapOutcome chain scans op (.error (.error (.invalidTupleSize n 8164))) chain scans
  | scan : HeapOutcome chain scans .scan (.ok .scanning) chain (scans ++ [chain.capture])
  | next {k : Nat} {scan scan' : HeapScan} {row : Option (Ctid × Bytes)} : scans[k]? = some scan →
      scan.failed = false → chain.advance (scan.pages.drop scan.index) scan = (row, scan') →
      HeapOutcome chain scans (.next k) (.ok (.item (row.map .ok))) chain (scans.set k scan')
  | nextEnded {k : Nat} {scan : HeapScan} : scans[k]? = some scan → scan.failed = true →
      HeapOutcome chain scans (.next k) (.ok (.item none)) chain scans
  | nextFails {k : Nat} {scan scan' : HeapScan} {x : BufferError} : scans[k]? = some scan →
      scan.failed = false → scan'.failed = true → scan'.rows = [] →
      HeapOutcome chain scans (.next k) (.ok (.item (some (.error (.buffer x))))) chain (scans.set k scan')
  | buffer {op : HeapCall} {x : BufferError} : op.Reaches chain.ids →
      HeapOutcome chain scans op (.error (.error (.buffer x))) chain scans

/-! ## The invariant of a session -/

variable {σ α : Type} {service : PageService σ} {pins : List PinnedBuffer} {heap heap' : Heap σ}
  {chain chain' : Chain} {ses ses' : Session σ} {op : HeapCall} {r : HeapAnswer}

/-- The pages a scan has still to read are pages of the chain, and kept the slots it captured. -/
def Bounded (chain : Chain) (rest : List (PageId × Nat)) : Prop :=
  ∀ x ∈ rest, ∃ (i : Nat) (p : RowPage), chain[i]? = some p ∧ p.id = x.1 ∧ x.2 ≤ p.rows.length

def ScanOk (chain : Chain) (scan : HeapScan) : Prop :=
  scan.failed = false → Bounded chain (scan.pages.drop scan.index)

structure SessionInv (service : PageService σ) (pins : List PinnedBuffer) (chain : Chain)
    (ses : Session σ) : Prop where
  pool : service.inv ses.heap.pool pins
  heap : ses.heap.Inv service chain
  scans : ∀ scan ∈ ses.scans, ScanOk chain scan

/-! ## Scanning -/

theorem advance_page (hn : chain.ids.Nodup) {i : Nat} {p : RowPage} (hi : chain[i]? = some p)
    (slots : Nat) (rest : List (PageId × Nat)) (pages : List (PageId × Nat)) (index : Nat) (failed : Bool) :
    chain.advance ((p.id, slots) :: rest) ⟨pages, index, [], failed⟩ =
      chain.advance rest ⟨pages, index + 1, p.live slots, failed⟩ := by
  show chain.advance rest ⟨pages, index + 1, RowPage.live ⟨p.id, chain.rowsOf p.id⟩ slots, failed⟩ = _
  rw [Chain.rowsOf_eq hn hi]

theorem modifyScan_run (f : HeapScan → HeapScan) (heap : Heap σ) (scan : HeapScan) :
    HeapScan.modifyScan f ⟨heap, scan⟩ = (.ok (), ⟨heap, f scan⟩) := rfl

theorem popFront_run (heap : Heap σ) (scan : HeapScan) :
    HeapScan.popFront ⟨heap, scan⟩ = (.ok scan.rows.head?, ⟨heap, { scan with rows := scan.rows.tail }⟩) := rfl

/-- What `next` did: it returned the next row of the chain, or a page could not be read. -/
structure NextRow (service : PageService σ) (J : σ → Prop) (chain : Chain) (rest : List (PageId × Nat))
    (heap : Heap σ) (scan : HeapScan) (row : Option (Ctid × Bytes)) (s : Scanning σ) : Prop where
  looked : HeapTable.Looked service J heap s.heap
  row : chain.advance rest scan = (row, s.scan)

structure NextFails (E : Fault HeapError → σ → Prop) (heap : Heap σ) (e : HeapError) (s : Scanning σ) :
    Prop where
  table : s.heap.table = heap.table
  error : E (.error e) s.heap.pool
  failed : s.scan.failed = true
  rows : s.scan.rows = []

variable {J : σ → Prop} {E : Fault HeapError → σ → Prop} {scan : HeapScan}

/-- The loop of `next`. -/
theorem nextFrom_spec (hreads : HeapTable.Reads service J E) (chain : Chain) (rest : List (PageId × Nat)) :
    ∀ {heap : Heap σ} (scan : HeapScan),
      J heap.pool → heap.Inv service chain → Bounded chain rest →
      Exec.Ensures (HeapScan.nextFrom service rest) ⟨heap, scan⟩
        (fun item s => (∃ row, item = row.map .ok ∧ NextRow service J chain rest heap scan row s) ∨
          ∃ e, item = some (.error e) ∧ NextFails E heap e s)
        (fun _ _ => False) := by
  induction rest with
  | nil =>
    intro heap ⟨pages, index, rows, failed⟩ hj h _
    apply Exec.Ensures.bind
    cases rows with
    | nil => exact .inl ⟨none, rfl, ⟨rfl, hj, rfl⟩, rfl⟩
    | cons row rows => exact .inl ⟨some row, rfl, ⟨rfl, hj, rfl⟩, rfl⟩
  | cons x rest ih =>
    intro heap ⟨pages, index, rows, failed⟩ hj h hb
    apply Exec.Ensures.bind
    cases rows with
    | cons row rows => exact .inl ⟨some row, rfl, ⟨rfl, hj, rfl⟩, rfl⟩
    | nil =>
      obtain ⟨i, p, hi, hid, hslots⟩ := hb x (mem_cons_self ..)
      obtain ⟨_, slots⟩ := x
      subst hid
      refine Exec.ensures_of_ok (popFront_run ..) (.bind (Exec.ensures_of_ok
        (modifyScan_run ..) (.bind (.zoom (Exec.ensures_attempt
          ((hreads.readScanPage hj h hi hslots).mono ?_ ?_))))))
      · rintro _ heap1 ⟨hl, rfl⟩
        refine .bind (Exec.ensures_of_ok (modifyScan_run ..) ?_)
        refine (ih ⟨pages, index + 1, p.live slots, failed⟩ hl.pool (hl.inv h)
          (fun y hy => hb y (mem_cons_of_mem _ hy))).mono ?_ (fun _ _ hf => hf)
        rintro item s (⟨row, hitem, hrow⟩ | ⟨e, hitem, hfail⟩)
        · refine .inl ⟨row, hitem, ⟨hrow.looked.table.trans hl.table, hrow.looked.pool,
            hrow.looked.content.trans hl.content⟩, ?_⟩
          rw [advance_page h.nodup hi]
          exact hrow.row
        · exact .inr ⟨e, hitem, hfail.table.trans hl.table, hfail.error, hfail.failed, hfail.rows⟩
      · rintro e heap1 ⟨⟨ht, he⟩, x, rfl⟩
        exact ⟨x, rfl, .inr ⟨x, rfl, ht, he, rfl, rfl⟩⟩

/-- `next` on a scan whose pages are still in the chain. -/
theorem next_spec (hreads : HeapTable.Reads service J E) (hj : J heap.pool)
    (h : heap.Inv service chain) (hs : ScanOk chain scan) :
    Exec.Ensures (HeapScan.next service) ⟨heap, scan⟩ (fun item s =>
        (scan.failed = true ∧ item = none ∧ s = ⟨heap, scan⟩) ∨
          (scan.failed = false ∧ ∃ row, item = row.map .ok ∧
            NextRow service J chain (scan.pages.drop scan.index) heap scan row s) ∨
          (scan.failed = false ∧ ∃ e, item = some (.error e) ∧ NextFails E heap e s))
      (fun _ _ => False) := by
  refine .bind (.get ?_)
  cases hf : scan.failed with
  | true => exact .inl ⟨rfl, rfl, rfl⟩
  | false =>
    refine (nextFrom_spec hreads chain _ scan hj h (hs hf)).mono ?_ (fun _ _ he => he)
    rintro item s (hrow | hfail)
    · exact .inr (.inl ⟨rfl, hrow⟩)
    · exact .inr (.inr ⟨rfl, hfail⟩)

/-! ## Every call does one of these -/

/-- The call is an outcome on the chain, and the heap went where it leads. -/
def Refines (service : PageService σ) (pins : List PinnedBuffer) (chain : Chain) (ses : Session σ)
    (op : HeapCall) (r : HeapAnswer) (ses' : Session σ) : Prop :=
  ∃ chain', HeapOutcome chain ses.scans op r chain' ses'.scans ∧
    HeapTable.Moved service pins ses.heap ses'.heap chain chain'

/-- `Session.run` through the specification of the call it makes. -/
theorem refines_of_spec {m : HeapM σ α} {ret : α → HeapReturned}
    {scans : Result HeapError α → List HeapScan} (hrun : ses.run m ret scans = (r, ses'))
    (h : Exec.Ensures m ses.heap
      (fun a heap => Refines service pins chain ses op (.ok (ret a)) ⟨heap, scans (.ok a)⟩)
      (fun e heap => Refines service pins chain ses op (.error e) ⟨heap, scans (.error e)⟩)) :
    Refines service pins chain ses op r ses' := by
  unfold Exec.Ensures at h
  unfold Session.run at hrun
  rcases hm : m ses.heap with ⟨a, heap⟩
  rw [hm] at h hrun
  obtain ⟨rfl, rfl⟩ := Prod.mk.inj hrun
  cases a <;> exact h

/-- **Every call does one of these.** -/
theorem refines_of_call (hinv : SessionInv service pins chain ses)
    (h : ses.call service op = some (r, ses')) : Refines service pins chain ses op r ses' := by
  have hheap := hinv.heap
  cases op with
  | insert b =>
    refine refines_of_spec (Option.some.inj h) ((HeapTable.insert_spec hinv.pool hheap b).mono ?_ ?_)
    · rintro c heap' ⟨hb, chain', hins, hmoved⟩
      exact ⟨chain', .insert hb hins, hmoved⟩
    · rintro e heap' ⟨hmoved, ⟨hb, x, rfl⟩ | ⟨hb, rfl⟩⟩
      · exact ⟨chain, .buffer hb, hmoved⟩
      · exact ⟨chain, .tupleSize ⟨hb, rfl⟩, hmoved⟩
  | get c =>
    refine refines_of_spec (Option.some.inj h) ((HeapTable.get_spec hinv.pool hheap c).mono ?_ ?_)
    · rintro _ heap' ⟨hu, hm, rfl⟩
      exact ⟨chain, .get hm, hu.moved hheap⟩
    · rintro e heap' ⟨hu, ⟨hm, x, rfl⟩ | ⟨hm, rfl⟩⟩
      · exact ⟨chain, .buffer hm, hu.moved hheap⟩
      · exact ⟨chain, .invalidCtid rfl hm, hu.moved hheap⟩
  | delete c =>
    refine refines_of_spec (Option.some.inj h) ((HeapTable.delete_spec hinv.pool hheap c).mono ?_ ?_)
    · rintro _ heap' ⟨hm, ⟨rfl, hlive, hmoved⟩ | ⟨rfl, hdead, hmoved⟩⟩
      · exact ⟨_, .delete hlive, hmoved⟩
      · exact ⟨chain, .deleteDead hm hdead, hmoved⟩
    · rintro e heap' ⟨hu, ⟨hm, x, rfl⟩ | ⟨hm, rfl⟩⟩
      · exact ⟨chain, .buffer hm, hu.moved hheap⟩
      · exact ⟨chain, .invalidCtid rfl hm, hu.moved hheap⟩
  | replace c b =>
    refine refines_of_spec (Option.some.inj h) ((HeapTable.replace_spec hinv.pool hheap c b).mono ?_ ?_)
    · rintro _ heap' ⟨hb, hm, ⟨old, rfl, hlive, hfits, hmoved⟩ | ⟨rfl, hdead, hmoved⟩⟩
      · exact ⟨_, .replace hb hlive hfits, hmoved⟩
      · exact ⟨chain, .replaceDead hb hm hdead, hmoved⟩
    · rintro e heap' ⟨hu, ⟨hb, hm, x, rfl⟩ | ⟨hb, rfl⟩ | ⟨hb, hm, rfl⟩ | ⟨hb, rfl, old, hlive, hbig⟩⟩
      · exact ⟨chain, .buffer ⟨hb, hm⟩, hu.moved hheap⟩
      · exact ⟨chain, .tupleSize ⟨hb, rfl⟩, hu.moved hheap⟩
      · exact ⟨chain, .invalidCtid ⟨rfl, hb⟩ hm, hu.moved hheap⟩
      · exact ⟨chain, .noSpace hb hlive hbig, hu.moved hheap⟩
  | scan =>
    refine refines_of_spec (Option.some.inj h) (((HeapTable.reads_kept service pins ses.heap.pool).scan
      (.refl hinv.pool) hheap).mono ?_ ?_)
    · rintro _ heap' ⟨hl, rfl⟩
      exact ⟨chain, .scan, hl.untouched.moved hheap⟩
    · rintro e heap' ⟨ht, hkept, x, rfl⟩
      exact ⟨chain, .buffer trivial, HeapTable.Untouched.moved ⟨ht, hkept⟩ hheap⟩
  | next k =>
    obtain ⟨scan, hk, hr⟩ := Option.map_eq_some_iff.1 h
    have hnext := next_spec (HeapTable.reads_kept service pins ses.heap.pool) (.refl hinv.pool) hheap
      (hinv.scans scan (mem_of_getElem? hk))
    unfold Session.advance at hr
    rcases hm : HeapScan.next service ⟨ses.heap, scan⟩ with ⟨item, s⟩
    rw [hm] at hr
    obtain ⟨rfl, rfl⟩ := Prod.mk.inj hr
    cases item with
    | error e => exact (hnext.error hm).elim
    | ok item =>
      rcases hnext.ok hm with ⟨hf, rfl, rfl⟩ | ⟨hf, row, rfl, hrow⟩ | ⟨hf, e, rfl, hfail⟩
      · have hset : ses.scans.set k scan = ses.scans := by
          obtain ⟨hlt, rfl⟩ := List.getElem?_eq_some_iff.1 hk
          exact set_getElem_self hlt
        refine ⟨chain, ?_, HeapTable.Untouched.moved ⟨rfl, .refl hinv.pool⟩ hheap⟩
        show HeapOutcome chain ses.scans (.next k) _ chain (ses.scans.set k scan)
        rw [hset]
        exact .nextEnded hk hf
      · exact ⟨chain, .next hk hf hrow.row, hrow.looked.untouched.moved hheap⟩
      · obtain ⟨hkept, x, hx⟩ := hfail.error
        cases hx
        exact ⟨chain, .nextFails hk hf hfail.failed hfail.rows,
          HeapTable.Untouched.moved ⟨hfail.table, hkept⟩ hheap⟩

/-! ## The invariant along a run -/

variable {scans scans' : List HeapScan}

theorem HeapOutcome.grows (h : HeapOutcome chain scans op r chain' scans') (hn : chain.ids.Nodup) :
    chain.Grows chain' := by
  cases h with
  | insert _ hins => exact hins.grows
  | delete hlive => exact Chain.setRow_grows hn hlive none
  | replace _ hlive _ => exact Chain.setRow_grows hn (by rw [hlive]; simp) _
  | _ => exact .refl _

theorem Bounded.grows {rest : List (PageId × Nat)} (h : Bounded chain rest)
    (hg : chain.Grows chain') : Bounded chain' rest := by
  intro x hx
  obtain ⟨i, p, hi, hid, hle⟩ := h x hx
  obtain ⟨p', hi', hid', hlen, _⟩ := hg i p hi
  exact ⟨i, p', hi', hid'.trans hid, by omega⟩

/-- Advancing a scan only moves it forward. -/
theorem advance_forward (chain : Chain) (rest : List (PageId × Nat)) : ∀ scan : HeapScan,
    (chain.advance rest scan).2.pages = scan.pages ∧
      (chain.advance rest scan).2.failed = scan.failed ∧
      scan.index ≤ (chain.advance rest scan).2.index := by
  induction rest with
  | nil => exact fun _ => ⟨rfl, rfl, Nat.le_refl _⟩
  | cons x rest ih =>
    intro ⟨pages, index, rows, failed⟩
    cases rows with
    | cons row rows => exact ⟨rfl, rfl, Nat.le_refl _⟩
    | nil =>
      obtain ⟨hp, hf, hi⟩ := ih ⟨pages, index + 1, RowPage.live ⟨x.1, chain.rowsOf x.1⟩ x.2, failed⟩
      exact ⟨hp, hf, Nat.le_trans (Nat.le_succ index) hi⟩

theorem ScanOk.advance {scan' : HeapScan} {row : Option (Ctid × Bytes)} (h : ScanOk chain scan)
    (hadv : chain.advance (scan.pages.drop scan.index) scan = (row, scan')) : ScanOk chain scan' := by
  obtain ⟨hp, hf, hi⟩ := advance_forward chain (scan.pages.drop scan.index) scan
  rw [hadv] at hp hf hi
  intro hfailed x hx
  apply h (hf.symm.trans hfailed) x
  rw [hp] at hx
  have hdrop : scan.pages.drop scan'.index = (scan.pages.drop scan.index).drop (scan'.index - scan.index) := by
    rw [drop_drop]
    congr 1
    have : scan.index ≤ scan'.index := hi
    omega
  rw [hdrop] at hx
  exact mem_of_mem_drop hx

theorem bounded_capture (chain : Chain) : ScanOk chain chain.capture := by
  intro _ x hx
  obtain ⟨p, hp, rfl⟩ := mem_map.1 (mem_of_mem_drop hx)
  obtain ⟨i, hi⟩ := mem_iff_getElem?.1 hp
  exact ⟨i, p, hi, rfl, Nat.le_refl _⟩

/-- What a call can do to the list of scans. -/
theorem HeapOutcome.scan_cases (h : HeapOutcome chain scans op r chain' scans') (hs : scan ∈ scans') :
    scan ∈ scans ∨ scan = chain.capture ∨ scan.failed = true ∧ scan.rows = [] ∨
      ∃ old row, old ∈ scans ∧ chain.advance (old.pages.drop old.index) old = (row, scan) ∧
        r = .ok (.item (row.map .ok)) := by
  cases h with
  | scan =>
    rcases mem_append.1 hs with hs | hs
    · exact .inl hs
    · exact .inr (.inl (mem_singleton.1 hs))
  | next hk _ hadv =>
    rcases mem_or_eq_of_mem_set hs with hs | rfl
    · exact .inl hs
    · exact .inr (.inr (.inr ⟨_, _, mem_of_getElem? hk, hadv, rfl⟩))
  | nextFails hk _ hf hr =>
    rcases mem_or_eq_of_mem_set hs with hs | rfl
    · exact .inl hs
    · exact .inr (.inr (.inl ⟨hf, hr⟩))
  | _ => exact .inl hs

/-- **Every call keeps the invariant.** -/
theorem SessionInv.moved (hinv : SessionInv service pins chain ses)
    (h : HeapOutcome chain ses.scans op r chain' ses'.scans)
    (hm : HeapTable.Moved service pins ses.heap ses'.heap chain chain') :
    SessionInv service pins chain' ses' := by
  have hg := h.grows hinv.heap.nodup
  refine ⟨hm.framed.inv, hm.inv, fun scan hs hf => ?_⟩
  have hold : ∀ scan, ScanOk chain scan → scan.failed = false →
      Bounded chain' (scan.pages.drop scan.index) := fun _ hok hf => (hok hf).grows hg
  rcases h.scan_cases hs with hs | rfl | ⟨hfailed, _⟩ | ⟨old, row, hs, hadv, _⟩
  · exact hold scan (hinv.scans scan hs) hf
  · exact hold _ (bounded_capture chain) hf
  · rw [hf] at hfailed
    cases hfailed
  · exact hold scan ((hinv.scans old hs).advance hadv) hf

/-! ## Runs -/

/-- A handle that `create` has just returned. -/
def HeapTable.Created (service : PageService σ) (heap : Heap σ) : Prop :=
  ∃ pins s, service.inv s pins ∧ HeapTable.create service s = (.ok heap.table, heap.pool)

theorem HeapTable.created {s s' : σ} {table : HeapTable} (hinv : service.inv s pins)
    (h : HeapTable.create service s = (.ok table, s')) : HeapTable.Created service ⟨s', table⟩ :=
  ⟨pins, s, hinv, h⟩

/-- A handle that `open_` has just returned. -/
def HeapTable.Opened (service : PageService σ) (heap : Heap σ) : Prop :=
  ∃ pins s head, service.inv s pins ∧ HeapTable.open_ service head s = (.ok heap.table, heap.pool)

/-- The sessions that a handle leads to, and the history of answers.  Between the calls other clients
may do with the pool what they like, but for writing the heap's pages. -/
inductive HeapRun (service : PageService σ) (start : Heap σ → Prop) : Session σ → History → Prop where
  | start {heap : Heap σ} : start heap → HeapRun service start ⟨heap, []⟩ []
  | call {ses ses' : Session σ} {history : History} {op : HeapCall}
      {r : HeapAnswer} : HeapRun service start ses history →
      ses.call service op = some (r, ses') → HeapRun service start ses' ((op, r) :: history)
  | others {ses : Session σ} {history : History} {pins : List PinnedBuffer}
      {pool : σ} : HeapRun service start ses history → service.inv pool pins →
      (∀ id ∈ ses.heap.table.pages, service.content pool id = service.content ses.heap.pool id) →
      HeapRun service start ⟨⟨pool, ses.heap.table⟩, ses.scans⟩ history

/-- A new or an opened handle. -/
def HeapTable.Obtained (service : PageService σ) (heap : Heap σ) : Prop :=
  HeapTable.Created service heap ∨ HeapTable.Opened service heap

theorem HeapTable.Created.run (h : HeapTable.Created service heap) :
    HeapRun service (HeapTable.Obtained service) ⟨heap, []⟩ [] :=
  .start (.inl h)

theorem HeapTable.Obtained.inv (h : HeapTable.Obtained service heap) :
    ∃ pins chain, SessionInv service pins chain ⟨heap, []⟩ := by
  rcases h with ⟨pins, s, hinv, hcreate⟩ | ⟨pins, s, head, hinv, hopen⟩
  · obtain ⟨_, hkept, hheap⟩ := (HeapTable.create_spec hinv).ok hcreate
    exact ⟨pins, _, hkept.inv, hheap, fun _ hs => by cases hs⟩
  · obtain ⟨hinv', hc, _, chain, hheap⟩ := (HeapTable.open_sound hinv head).ok hopen
    exact ⟨pins, chain, hinv', by rw [Heap.Inv, hc]; exact hheap, fun _ hs => by cases hs⟩

/-- **The handle is in order in every run.** -/
theorem HeapRun.inv {history : History} (h : HeapRun service (HeapTable.Obtained service) ses history) :
    ∃ pins chain, SessionInv service pins chain ses := by
  induction h with
  | start hstart => exact hstart.inv
  | call _ hcall ih =>
    obtain ⟨pins, chain, hinv⟩ := ih
    obtain ⟨chain', hout, hmoved⟩ := refines_of_call hinv hcall
    exact ⟨pins, chain', hinv.moved hout hmoved⟩
  | @others ses history pins pool _ hinv hsame ih =>
    obtain ⟨_, chain, habs⟩ := ih
    refine ⟨pins, chain, hinv, ?_, habs.scans⟩
    exact habs.heap.congr fun id hid => hsame id (habs.heap.pages ▸ hid)

/-! ## Evaluated runs -/

/-- The calls in turn, with their answers. -/
def Session.calls (service : PageService σ) : Session σ → List HeapCall → Option (List HeapAnswer × Session σ)
  | ses, [] => some ([], ses)
  | ses, op :: ops => do
    let (r, ses) ← ses.call service op
    let (rs, ses) ← ses.calls service ops
    pure (r :: rs, ses)

variable {op : HeapCall} {ops : List HeapCall} {rs : List HeapAnswer}

theorem Session.calls_cons (h : ses.calls service (op :: ops) = some (rs, ses')) : ∃ r ses1 rs1,
    ses.call service op = some (r, ses1) ∧ ses1.calls service ops = some (rs1, ses') ∧ r :: rs1 = rs := by
  obtain ⟨⟨r, ses1⟩, hcall, h⟩ := Option.bind_eq_some_iff.1 h
  obtain ⟨⟨rs1, _⟩, hcalls, h⟩ := Option.bind_eq_some_iff.1 h
  cases h
  exact ⟨r, ses1, rs1, hcall, hcalls, rfl⟩

theorem HeapRun.calls {start : Heap σ → Prop} {history : History}
    (h : HeapRun service start ses history) (hcalls : ses.calls service ops = some (rs, ses')) :
    HeapRun service start ses' ((ops.zip rs).reverse ++ history) := by
  induction ops generalizing ses history rs with
  | nil =>
    cases hcalls
    exact h
  | cons op ops ih =>
    obtain ⟨r, ses1, rs1, hcall, hrest, rfl⟩ := Session.calls_cons hcalls
    simpa using ih (h.call hcall) hrest

/-- A slot of the first page. -/
def slotOf (i : Fin 2) : Ctid := ⟨0, ⟨i + 1, by omega, by omega⟩⟩

/-- The answers to calls on a new heap in a pool of one frame, and to a flush after them. -/
def oneFrameRun (ops : List HeapCall) : Option (List HeapAnswer × Result BufferError Unit) :=
  match HeapTable.create BufferPool.memory oneFrame with
  | (.ok table, pool) => do
    let (rs, ses) ← Session.calls BufferPool.memory ⟨⟨pool, table⟩, []⟩ ops
    pure (rs, (BufferPool.flushAll MemoryPageStore ClockStrategy ses.heap.pool).1)
  | _ => none

theorem oneFrameRun_spec (h : oneFrameRun ops = some (rs, .ok ())) : ∃ heap ses pool,
    HeapTable.Created BufferPool.memory heap ∧
    Session.calls BufferPool.memory ⟨heap, []⟩ ops = some (rs, ses) ∧
    BufferPool.flushAll MemoryPageStore ClockStrategy ses.heap.pool = (.ok (), pool) := by
  unfold oneFrameRun at h
  split at h
  · rename_i table pool hcreate
    obtain ⟨⟨rs, ses⟩, hcalls, h⟩ := Option.bind_eq_some_iff.1 h
    simp only [pure, Option.some_inj, Prod.mk.injEq] at h
    obtain ⟨rfl, hflush⟩ := h
    exact ⟨_, ses, _, HeapTable.created BufferPool.oneFrame_inOrder hcreate, hcalls, Prod.ext hflush rfl⟩
  · cases h

end ChiliDB

import ChiliDB.Catalog.CatalogSpec
import ChiliDB.Heapam.Reopen

/-!
# Runs of a catalog

A client creates or opens a catalog, creates tables in it and changes their records, over a pool whose
calls may fail whenever they like.

* `CatalogInv` — the metadata heap is in order, its records are the manifest and the cached tables.
* `create_sound`, `open_sound`, `createTable_sound`, `onTable_sound` — every call keeps it.
* `CatalogRun` — the states that calls lead to.

Principal results: `open_never_aliases`, `cache_agrees_with_records`.
-/

namespace ChiliDB.HeapCatalog

open Effect HeapPage BufferPool List
open ClockStrategy (State)
open Codec (Metadata)

variable {σ : Type} {service : PageService σ} {pins : List PinnedBuffer} {root : PageId}
  {chain : Chain} {ms : List Metadata} {s s' : CatalogState σ} {table : HeapTable}

/-- The records are the manifest and these tables. -/
def Lists (records : List Bytes) (ms : List Metadata) : Prop :=
  ∃ bs, records = Codec.MANIFEST :: bs ∧ bs.map Codec.decode = ms.map .ok

variable {m : Metadata} {records : List Bytes}

theorem Lists.push {b : Bytes} (h : Lists records ms) (hb : Codec.decode b = .ok m) :
    Lists (records ++ [b]) (ms ++ [m]) := by
  obtain ⟨bs, rfl, hbs⟩ := h
  refine ⟨bs ++ [b], rfl, ?_⟩
  rw [map_append, map_append, hbs]
  exact congrArg _ (congrArg (fun r => [r]) hb)

/-- Every record of a table passes `validate`. -/
theorem Lists.valid (h : Lists records ms) (hm : m ∈ ms) : Codec.validate m = .ok () := by
  obtain ⟨bs, _, hbs⟩ := h
  have hmem : Except.ok m ∈ bs.map Codec.decode := by
    rw [hbs]
    exact mem_map_of_mem hm
  obtain ⟨b, _, hb⟩ := mem_map.1 hmem
  obtain ⟨_, _, _, hvalid⟩ := Codec.decode_ok.1 hb
  exact hvalid

structure CatalogInv (service : PageService σ) (pins : List PinnedBuffer) (root : PageId) (chain : Chain)
    (ms : List Metadata) (s : CatalogState σ) : Prop where
  pool : service.inv s.pool pins
  unpoisoned : s.catalog.poisoned = false
  metadata : HeapInv (service.content s.pool) s.catalog.metadata chain
  rooted : s.catalog.metadata.head = root
  records : Lists chain.records ms
  loaded : Loaded (service.content s.pool) root ms s.catalog.entries

/-! ## Creating and opening -/

variable {pool : σ}

theorem create_sound (hinv : service.inv pool pins) :
    Exec.Ensures (create service) pool
      (fun catalog pool' => ∃ chain, CatalogInv service pins catalog.metadata.head chain [] ⟨pool', catalog⟩)
      (fun e pool' => service.inv pool' pins ∧ ∃ x, e = .error x) := by
  refine .bind (.mapErr ((HeapTable.create_spec hinv).mono ?_ ?_))
  · rintro table pool1 ⟨_, hkept, hheap⟩
    have hpool : service.inv (Heap.mk pool1 table).pool pins := hkept.inv
    refine .bind (.mapErr (ensures_owning ((HeapTable.insert_spec hpool hheap Codec.MANIFEST).mono ?_ ?_)))
    · rintro ctid heap ⟨_, chain, hinserted, hmoved⟩
      exact ⟨chain, hmoved.framed.inv, rfl, hmoved.inv, rfl, ⟨[], hinserted.records, rfl⟩, .empty _ _⟩
    · rintro e heap ⟨hmoved, ⟨_, x, rfl⟩ | ⟨_, rfl⟩⟩
      · exact ⟨hmoved.framed.inv, _, rfl⟩
      · exact ⟨hmoved.framed.inv, _, rfl⟩
  · rintro e pool1 ⟨hkept, x, rfl⟩
    exact ⟨hkept.inv, _, rfl⟩

/-- The manifest and the records behind it, whatever they are. -/
theorem openRecords_sound {content : Pages} {s0 : σ} {s : Scanning σ} (turns : Nat)
    (hs : Reading service (Kept service pins s0) content table chain s) (root : PageId) :
    Exec.Ensures (openRecords service root turns) s
      (fun r s' => Reading service (Kept service pins s0) content table chain s' ∧
        (r = none ∧ turns < (chain.remaining s.scan).length ∨
          ∃ entries ms, r = some entries ∧ Loaded content root ms entries ∧
            Lists ((chain.remaining s.scan).map Prod.snd) ms))
      (fun e s' => Kept service pins s0 s'.heap.pool ∧ ∃ x, e = .error x) := by
  refine .bind ((nextRecord_spec (HeapTable.reads_kept service pins s0) hs).mono ?_ ?_)
  · rintro record s1 ⟨hs1, hrest, _⟩
    cases record with
    | none => exact ⟨hs1.pool, _, rfl⟩
    | some record =>
      obtain ⟨ctid, bytes⟩ := record
      show Exec.Ensures (if bytes = Codec.MANIFEST then _ else _) s1 _ _
      split
      · rename_i hmanifest
        refine (openEntries_sound turns hs1 (.empty content root) (fun id => .rfl)).mono ?_ (fun _ _ he => he)
        rintro r s2 ⟨hs2, ⟨rfl, hle⟩ | ⟨entries, ms, rfl, hl, hrecords⟩⟩
        · refine ⟨hs2, .inl ⟨rfl, ?_⟩⟩
          rw [hrest]
          exact Nat.lt_succ_of_le hle
        · refine ⟨hs2, .inr ⟨entries, ms, rfl, hl, (chain.remaining s1.scan).map Prod.snd, ?_, ?_⟩⟩
          · rw [hrest, ← hmanifest]
            rfl
          · rw [map_map]
            exact hrecords
      · exact ⟨hs1.pool, _, rfl⟩
  · rintro e s1 ⟨x, rfl, hkept, _⟩
    exact ⟨hkept, _, rfl⟩

/-- **A catalog that `open_` returns is in order, whatever the bytes.** -/
theorem open_sound (hinv : service.inv pool pins) (root : PageId) :
    Exec.Ensures (open_ service root) pool
      (fun r pool' => ∃ catalog chain ms, r = some catalog ∧
        service.content pool' = service.content pool ∧
        CatalogInv service pins root chain ms ⟨pool', catalog⟩)
      (fun e pool' => Kept service pins pool pool' ∧ ∃ x, e = .error x) := by
  refine .bind (.mapErr ((HeapTable.open_sound hinv root).mono ?_ ?_))
  · rintro table pool1 ⟨hinv1, hc1, hhead, chain, hheap⟩
    rw [← hc1] at hheap
    have hkept1 : Kept service pins pool pool1 := ⟨hinv1, .of_eq hc1⟩
    have hheap1 : (Heap.mk pool1 table).Inv service chain :=
      hheap
    refine .bind (.mapErr (ensures_owning
      (((HeapTable.reads_kept service pins pool).scan hkept1 hheap1).mono ?_ ?_)))
    · rintro _ heap2 ⟨hlooked, rfl⟩
      have hc2 : service.content heap2.pool = service.content pool := hlooked.content.trans hc1
      have hs : Reading service (Kept service pins pool) (service.content pool) heap2.table chain
          ⟨heap2, chain.capture⟩ :=
        ⟨hlooked.pool, hc2, rfl, by rw [hlooked.table, ← hc1]; exact hheap, rfl, bounded_capture chain⟩
      have hremaining := Chain.remaining_capture hheap.nodup
      refine .bind (ensures_iterating ((openRecords_sound _ hs root).mono ?_ (fun _ _ he => he)))
      rintro r s3 ⟨hs3, ⟨_, hlt⟩ | ⟨entries, ms, rfl, hl, hlists⟩⟩
      · have hle := chain.length_live_le
        rw [hremaining] at hlt
        exact absurd hlt (by show ¬ (captured chain.capture + 1 < _); omega)
      · rw [hremaining] at hlists
        refine ⟨⟨s3.heap.table, entries, false⟩, chain, ms, rfl, hs3.shown, hs3.pool.inv, rfl, ?_, ?_, hlists, ?_⟩
        · show s3.heap.Inv service chain
          rw [Heap.Inv, hs3.shown, hs3.handle]
          exact hs3.heap
        · show s3.heap.table.head = root
          rw [hs3.handle, hlooked.table]
          exact hhead
        · show Loaded (service.content s3.heap.pool) root ms entries
          rw [hs3.shown]
          exact hl
    · rintro e heap2 ⟨_, hkept, x, rfl⟩
      exact ⟨hkept, _, rfl⟩
  · rintro e pool1 ⟨hkept, x, rfl⟩
    exact ⟨hkept, _, rfl⟩

/-! ## A new table -/

variable {E : Fault CatalogError → CatalogState σ → Prop}

theorem ensures_locked {α : Type} {m : Entries → CatalogM σ α}
    {Q : α → CatalogState σ → Prop} (hp : s.catalog.poisoned = false)
    (h : Exec.Ensures (m s.catalog.entries) s Q (fun e s' => E e s' ∧ ∃ x, e = .error x)) :
    Exec.Ensures (locked m) s Q E := by
  refine .bind (.get ?_)
  rw [if_neg (by rw [hp]; simp)]
  refine .onPanic (h.mono (fun _ _ hq => hq) ?_)
  rintro e s' ⟨he, x, rfl⟩
  exact he

theorem ensures_encoded {Q : Bytes → CatalogState σ → Prop} (hok : ∀ b, Codec.encode m = .ok b → Q b s)
    (hbad : ∀ reason, Codec.encode m = .error reason → E (.error (.invalidMetadata reason)) s) :
    Exec.Ensures (Exec.lift (encoded m)) s Q E := by
  unfold encoded
  cases hm : Codec.encode m with
  | ok b => exact hok b hm
  | error reason => exact hbad reason hm

/-- The pool has lost no page. -/
theorem CatalogInv.kept (h : CatalogInv service pins root chain ms s) (hkept : Kept service pins s.pool pool) :
    CatalogInv service pins root chain ms { s with pool := pool } :=
  ⟨hkept.inv, h.unpoisoned, h.metadata.grows hkept.grows, h.rooted, h.records,
    h.loaded.congr fun _ _ _ _ hheap => hheap.grows hkept.grows⟩

/-- A head that was not allocated is no head of the catalog. -/
theorem CatalogInv.fresh_head {head : PageId} (h : CatalogInv service pins root chain ms s)
    (hhead : service.content s.pool head = none) : head ∉ root :: ms.map Metadata.head := by
  have hheap : ∀ {table : HeapTable} {chain : Chain}, HeapInv (service.content s.pool) table chain →
      head ≠ table.head := by
    rintro table chain hheap rfl
    obtain ⟨page, hp⟩ := hheap.allocated hheap.head_mem
    rw [hhead] at hp
    cases hp
  rw [mem_cons, not_or, mem_map]
  constructor
  · rw [← h.rooted]
    exact hheap h.metadata
  · rintro ⟨m, hm, rfl⟩
    obtain ⟨source, hl, rfl⟩ := Option.map_eq_some_iff.1 ((h.loaded.cached _ m).2 ⟨hm, rfl⟩)
    obtain ⟨chain', hheap'⟩ := h.loaded.tables _ source hl
    exact hheap hheap' rfl

/-- **A new table is published and cached, or nothing of it is seen.** -/
theorem createTable_sound (h : CatalogInv service pins root chain ms s) (declaration : CreateTable) :
    Exec.Ensures (createTable service declaration) s
      (fun source s' => ∃ chain', CatalogInv service pins root chain' (ms ++ [source.metadata]) s')
      (fun e s' => CatalogInv service pins root chain ms s' ∧ ∃ x, e = .error x) := by
  refine ensures_locked h.unpoisoned ?_
  split
  · exact ⟨⟨h, _, rfl⟩, _, rfl⟩
  rename_i hname
  refine .bind (ensures_encoded (fun _ _ => ?_) (fun _ _ => ⟨⟨h, _, rfl⟩, _, rfl⟩))
  refine .bind (.zoom (.mapErr ((HeapTable.create_spec h.pool).mono ?_ ?_)))
  · rintro heap pool1 ⟨hfresh, hkept, hheap⟩
    have h1 := h.kept hkept
    have hhead := h.fresh_head hfresh
    refine .bind (ensures_encoded (fun b hb => ?_) (fun _ _ => ⟨⟨h1, _, rfl⟩, _, rfl⟩))
    have hpool : service.inv (Heap.mk pool1 s.catalog.metadata).pool pins := hkept.inv
    refine .bind (.zoom (.mapErr ((HeapTable.insert_spec hpool h1.metadata b).mono ?_ ?_)))
    · rintro ctid heap2 ⟨_, chain', hinserted, hmoved⟩
      have hne : heap.head ≠ s.catalog.metadata.head := by
        rw [h.rooted]
        exact (not_or.1 (fun hm => hhead (mem_cons.2 hm))).1
      have hl : Loaded (service.content heap2.pool) root ms s.catalog.entries :=
        h1.loaded.congr fun name source chain hl hc =>
          hmoved.other h1.metadata hc (by rw [show _ = root from h.rooted]; exact h.loaded.head_ne_root hl)
      refine ⟨chain', hmoved.framed.inv, h.unpoisoned, hmoved.inv, hmoved.head.trans h.rooted, ?_,
        hl.push ⟨heap, _, _⟩ hname hhead ⟨_, hmoved.other h1.metadata hheap hne⟩⟩
      rw [hinserted.records]
      exact h.records.push (Codec.decode_encode hb)
    · rintro e heap2 ⟨hmoved, he⟩
      have h2 : CatalogInv service pins root chain ms ⟨heap2.pool, { s.catalog with metadata := heap2.table }⟩ :=
        ⟨hmoved.framed.inv, h.unpoisoned, hmoved.inv, hmoved.head.trans h.rooted, h.records,
          h1.loaded.congr fun name source chain hl hc => hmoved.other h1.metadata hc
            (by rw [show _ = root from h.rooted]; exact h.loaded.head_ne_root hl)⟩
      rcases he with ⟨_, x, rfl⟩ | ⟨_, rfl⟩ <;> exact ⟨⟨h2, _, rfl⟩, _, rfl⟩
  · rintro e pool1 ⟨hkept, x, rfl⟩
    exact ⟨⟨h.kept hkept, _, rfl⟩, _, rfl⟩

/-! ## Calls on a table -/

/-- A call on a heap moves it from one chain to another. -/
theorem run_spec (call : TableCall) (heap : Heap σ) (hinv : service.inv heap.pool pins)
    (h : heap.Inv service chain) :
    Exec.Ensures (call.run service) heap
      (fun _ heap' => ∃ chain', HeapTable.Moved service pins heap heap' chain chain')
      (fun _ heap' => ∃ chain', HeapTable.Moved service pins heap heap' chain chain') := by
  cases call with
  | insert bytes =>
    refine .bind ((HeapTable.insert_spec hinv h bytes).mono ?_ ?_)
    · rintro _ heap' ⟨_, chain', _, hmoved⟩
      exact ⟨chain', hmoved⟩
    · rintro _ heap' ⟨hmoved, _⟩
      exact ⟨chain, hmoved⟩
  | delete ctid =>
    refine .bind ((HeapTable.delete_spec hinv h ctid).mono ?_ ?_)
    · rintro _ heap' ⟨_, ⟨_, _, hmoved⟩ | ⟨_, _, hmoved⟩⟩
      · exact ⟨_, hmoved⟩
      · exact ⟨_, hmoved⟩
    · rintro _ heap' ⟨huntouched, _⟩
      exact ⟨chain, huntouched.moved h⟩
  | replace ctid bytes =>
    refine .bind ((HeapTable.replace_spec hinv h ctid bytes).mono ?_ ?_)
    · rintro _ heap' ⟨_, _, ⟨_, _, _, _, hmoved⟩ | ⟨_, _, hmoved⟩⟩
      · exact ⟨_, hmoved⟩
      · exact ⟨_, hmoved⟩
    · rintro _ heap' ⟨huntouched, _⟩
      exact ⟨chain, huntouched.moved h⟩

/-- What a call on a table leaves alone: the metadata heap, and every other table. -/
structure Isolated (service : PageService σ) (name : String) (s s' : CatalogState σ) : Prop where
  metadata : s'.catalog.metadata = s.catalog.metadata ∧ ∀ chain,
    HeapInv (service.content s.pool) s.catalog.metadata chain →
      HeapInv (service.content s'.pool) s.catalog.metadata chain
  others : ∀ other source chain, other ≠ name → s.catalog.entries.lookup other = some source →
    HeapInv (service.content s.pool) source.heap chain →
      s'.catalog.entries.lookup other = some source ∧ HeapInv (service.content s'.pool) source.heap chain

/-- **A call on a table changes no record of any other heap.** -/
theorem onTable_sound (h : CatalogInv service pins root chain ms s) {name : String} {call : TableCall}
    {r : Result HeapError (Ctid ⊕ Bool)} (hcall : onTable name (call.run service) s = some (r, s')) :
    CatalogInv service pins root chain ms s' ∧ Isolated service name s s' := by
  obtain ⟨source, hsource, hrun⟩ := Option.map_eq_some_iff.1 hcall
  obtain ⟨tableChain, htable⟩ := h.loaded.tables name source hsource
  rcases hr : call.run service ⟨s.pool, source.heap⟩ with ⟨r', heap⟩
  rw [hr] at hrun
  cases hrun
  have hspec := run_spec call ⟨s.pool, source.heap⟩ h.pool htable
  obtain ⟨chain', hmoved⟩ : ∃ chain',
      HeapTable.Moved service pins ⟨s.pool, source.heap⟩ heap tableChain chain' := by
    cases r with
    | ok a => exact hspec.ok hr
    | error e => exact hspec.error hr
  have hother : ∀ {other : HeapTable} {chain2 : Chain}, other.head ≠ source.heap.head →
      HeapInv (service.content s.pool) other chain2 → HeapInv (service.content heap.pool) other chain2 :=
    fun hne h2 => hmoved.other htable h2 hne
  have hroot : s.catalog.metadata.head ≠ source.heap.head := by
    rw [h.rooted]
    exact (h.loaded.head_ne_root hsource).symm
  have hname := (h.loaded.of_lookup hsource).2
  constructor
  · refine ⟨hmoved.framed.inv, h.unpoisoned, hother hroot h.metadata, h.rooted, h.records, h.loaded.names,
      h.loaded.heads, fun other m => ?_, fun other source' hl => ?_⟩
    · rw [← h.loaded.cached other m]
      by_cases ho : other = name
      · subst ho
        rw [AList.lookup_insert, hsource]
        show some (HeapTableSource.metadata ⟨heap.table, _, _⟩) = some m ↔ _
        unfold HeapTableSource.metadata
        rw [hmoved.head]
        rfl
      · rw [AList.lookup_insert_ne ho]
    · by_cases ho : other = name
      · subst ho
        rw [AList.lookup_insert] at hl
        cases hl
        exact ⟨chain', hmoved.inv⟩
      · rw [AList.lookup_insert_ne ho] at hl
        obtain ⟨chain2, h2⟩ := h.loaded.tables other source' hl
        exact ⟨chain2, hother (h.loaded.head_ne hl hsource ho) h2⟩
  · refine ⟨⟨rfl, fun chain2 h2 => hother hroot h2⟩, fun other source' chain2 ho hl h2 => ⟨?_, ?_⟩⟩
    · show (s.catalog.entries.insert name _).lookup other = some source'
      rw [AList.lookup_insert_ne ho]
      exact hl
    · exact hother (h.loaded.head_ne hl hsource ho) h2

/-! ## Runs -/

/-- The states that calls lead to, whether they succeed or fail. -/
inductive CatalogRun (service : PageService σ) (start : CatalogState σ) : CatalogState σ → Prop where
  | start : CatalogRun service start start
  | createTable {s s' : CatalogState σ} {declaration : CreateTable}
      {r : Result CatalogError HeapTableSource} : CatalogRun service start s →
      createTable service declaration s = (r, s') → CatalogRun service start s'
  | onTable {s s' : CatalogState σ} {name : String} {call : TableCall}
      {r : Result HeapError (Ctid ⊕ Bool)} : CatalogRun service start s →
      onTable name (call.run service) s = some (r, s') → CatalogRun service start s'

theorem CatalogRun.inv {start : CatalogState σ} (h : CatalogInv service pins root chain ms start)
    (hrun : CatalogRun service start s) : ∃ chain ms, CatalogInv service pins root chain ms s := by
  induction hrun with
  | start => exact ⟨chain, ms, h⟩
  | @createTable s s' declaration r _ hcall ih =>
    obtain ⟨chain, ms, hs⟩ := ih
    have hspec := createTable_sound hs declaration
    cases r with
    | ok source =>
      obtain ⟨chain', hs'⟩ := hspec.ok hcall
      exact ⟨chain', _, hs'⟩
    | error e => exact ⟨chain, ms, (hspec.error hcall).1⟩
  | onTable _ hcall ih =>
    obtain ⟨chain, ms, hs⟩ := ih
    exact ⟨chain, ms, (onTable_sound hs hcall).1⟩

/-- No two heaps of a catalog share a page, and its tables are those of its records. -/
structure Separate (content : Pages) (catalog : HeapCatalog) : Prop where
  /-- The metadata heap lists the tables, each under its own name and with its own head. -/
  listed : ∃ chain ms, HeapInv content catalog.metadata chain ∧ Lists chain.records ms ∧
    Loaded content catalog.metadata.head ms catalog.entries
  fromMetadata : ∀ name source chain chain', catalog.entries.lookup name = some source →
    HeapInv content source.heap chain → HeapInv content catalog.metadata chain' →
    List.Disjoint chain.ids chain'.ids
  pairwise : ∀ name name' source source' chain chain', name ≠ name' →
    catalog.entries.lookup name = some source → catalog.entries.lookup name' = some source' →
    HeapInv content source.heap chain → HeapInv content source'.heap chain' →
    List.Disjoint chain.ids chain'.ids
  valid : ∀ name source, catalog.entries.lookup name = some source → Codec.validate source.metadata = .ok ()

theorem CatalogInv.separate (h : CatalogInv service pins root chain ms s) :
    Separate (service.content s.pool) s.catalog := by
  have hl := h.loaded
  rw [← h.rooted] at hl
  constructor
  · exact ⟨chain, ms, h.metadata, h.records, hl⟩
  · intro name source chain chain' hname hheap hmeta
    exact hheap.disjoint hmeta (hl.head_ne_root hname)
  · intro name name' source source' chain chain' hne hname hname' hheap hheap'
    exact hheap.disjoint hheap' (hl.head_ne hname hname' hne)
  · intro name source hname
    exact h.records.valid (hl.of_lookup hname).1

/-- **Opening a catalog never aliases storage, whatever the bytes.**  In every state that calls lead to
from an opened catalog its heaps are separate, and a call on one table leaves the records of all others
and of the metadata alone. -/
theorem open_never_aliases {pool pool' : σ} {opened : Option HeapCatalog} (hinv : service.inv pool pins)
    (hopen : open_ service root pool = (.ok opened, pool')) :
    ∃ catalog, opened = some catalog ∧ ∀ s, CatalogRun service ⟨pool', catalog⟩ s →
      Separate (service.content s.pool) s.catalog ∧
      ∀ name call r s', onTable name (TableCall.run service call) s = some (r, s') →
        Isolated service name s s' := by
  obtain ⟨catalog, chain, ms, rfl, _, hstart⟩ := (open_sound hinv root).ok hopen
  refine ⟨catalog, rfl, fun s hrun => ?_⟩
  obtain ⟨chain, ms, hs⟩ := hrun.inv hstart
  exact ⟨hs.separate, fun name call r s' hcall => (onTable_sound hs hcall).2⟩

/-! ## Reopening -/

section

variable {S P P' : Type} {store : PageStore S} {policy : VictimStrategy P} {policy' : VictimStrategy P'}

/-- A pool that serves every read opens the catalog whose pages it shows. -/
theorem open_returns {fresh : BufferPool S P'} (hquiet : Quiet store policy' fresh [])
    {state : CatalogState σ} (h : CatalogInv service pins root chain ms state)
    (hshown : logical store fresh = service.content state.pool) :
    Exec.Ensures (open_ (BufferPool.service store policy') root) fresh
      (fun r _ => ∃ reopened, r = some reopened ∧ Loaded (service.content state.pool) root ms reopened.entries)
      (fun _ _ => False) := by
  have hreads := reads_quiet store policy'
  have hmeta : HeapInv ((BufferPool.service store policy').content fresh) state.catalog.metadata chain := by
    show HeapInv (logical store fresh) _ _
    rw [hshown]
    exact h.metadata
  have hopen := hreads.reopen hquiet hmeta
  rw [h.rooted] at hopen
  refine .bind (.mapErr (hopen.mono ?_ (fun _ _ hf => hf)))
  rintro table pool1 ⟨hquiet1, hc1, hheap1, hhead⟩
  have hheap : HeapInv ((BufferPool.service store policy').content (Heap.mk pool1 table).pool)
      (Heap.mk pool1 table).table chain := by
    show HeapInv ((BufferPool.service store policy').content pool1) table chain
    rw [hc1]
    exact hheap1
  refine .bind (.mapErr (ensures_owning ((hreads.scan hquiet1 hheap).mono ?_ (fun _ _ hf => hf.2))))
  rintro _ heap2 ⟨hlooked, rfl⟩
  have hs : Reading (BufferPool.service store policy') (fun pool => Quiet store policy' pool [])
      (service.content state.pool) heap2.table chain ⟨heap2, chain.capture⟩ := by
    refine ⟨hlooked.pool, (hlooked.content.trans hc1).trans hshown, rfl, ?_, rfl, bounded_capture chain⟩
    rw [hlooked.table, ← hshown]
    exact hheap1
  obtain ⟨bs, hbs, hms⟩ := h.records
  have hremaining := Chain.remaining_capture h.metadata.nodup
  refine .bind (ensures_iterating (.bind ((nextRecord_spec hreads hs).mono ?_ ?_)))
  · rintro record s3 ⟨hs3, hrest, hend⟩
    rw [hremaining] at hrest hend
    have hrecords : (record.toList ++ chain.remaining s3.scan).map Prod.snd = Codec.MANIFEST :: bs := by
      rw [← hrest]
      exact hbs
    cases record with
    | none =>
      rw [hend rfl] at hrest
      rw [← hrest] at hrecords
      cases hrecords
    | some record =>
      obtain ⟨hmanifest, htail⟩ := List.cons.inj hrecords
      obtain ⟨ctid, bytes⟩ := record
      show Exec.Ensures (if bytes = Codec.MANIFEST then _ else _) s3 _ _
      rw [if_pos hmanifest]
      have hdecode : (chain.remaining s3.scan).map (fun record => Codec.decode record.2) = ms.map .ok := by
        rw [← hms, ← htail, map_map]
        rfl
      have hlength : ms.length < captured chain.capture + 1 := by
        have hle := chain.length_live_le
        have hlen := congrArg List.length hdecode
        rw [hrest] at hle
        simp only [length_map, length_append, Option.toList_some, length_singleton] at hlen hle
        omega
      refine (openEntries_returns hreads ms hs3 (.empty _ root) (fun id => Iff.rfl) hdecode h.loaded.names
        h.loaded.heads ?_ hlength).mono ?_ (fun _ _ hf => hf)
      · intro m hm
        obtain ⟨source, hl, rfl⟩ := Option.map_eq_some_iff.1 ((h.loaded.cached _ m).2 ⟨hm, rfl⟩)
        obtain ⟨chain', hheap'⟩ := h.loaded.tables _ source hl
        exact ⟨source.heap, chain', rfl, hheap'⟩
      · rintro _ s4 ⟨entries, rfl, hl⟩
        exact ⟨_, rfl, hl⟩
  · rintro e s3 ⟨_, _, hf⟩
    exact hf

/-- The cached tables are exactly the records of the metadata heap behind the manifest. -/
structure Agrees (content : Pages) (root : PageId) (catalog : HeapCatalog) : Prop where
  rooted : catalog.metadata.head = root
  cached : ∃ (chain : Chain) (bs : List Bytes) (ms : List Metadata), HeapInv content catalog.metadata chain ∧
    chain.records = Codec.MANIFEST :: bs ∧ bs.map Codec.decode = ms.map .ok ∧
    (∀ name m, (catalog.entries.lookup name).map HeapTableSource.metadata = some m ↔
      m ∈ ms ∧ m.schema.name = name) ∧
    (ms.map fun m => m.schema.name).Nodup ∧ (root :: ms.map Metadata.head).Nodup

theorem CatalogInv.agrees (h : CatalogInv service pins root chain ms s) :
    Agrees (service.content s.pool) root s.catalog := by
  obtain ⟨bs, hbs, hms⟩ := h.records
  exact ⟨h.rooted, chain, bs, ms, h.metadata, hbs, hms, h.loaded.cached, h.loaded.names, h.loaded.heads⟩

/-- **The cache and the stored metadata agree over whole runs and across a reopening.** -/
theorem cache_agrees_with_records {pool pool₀ pool₁ : BufferPool S P} {catalog : HeapCatalog}
    {state : CatalogState (BufferPool S P)} {fresh : BufferPool S P'} {capacity : Nat} {strategy : P'}
    (hinv : (BufferPool.service store policy).inv pool pins)
    (hcreate : create (BufferPool.service store policy) pool = (.ok catalog, pool₀))
    (hrun : CatalogRun (BufferPool.service store policy) ⟨pool₀, catalog⟩ state) :
    Agrees (logical store state.pool) catalog.metadata.head state.catalog ∧
    (flushAll store policy state.pool = (.ok (), pool₁) →
      withStrategy capacity pool₁.store strategy = .ok fresh →
      policy'.SafeAt capacity strategy → policy'.FairAt capacity strategy →
      store.Healthy pool₁.store →
      ∃ reopened fresh', open_ (BufferPool.service store policy') catalog.metadata.head fresh =
          (.ok (some reopened), fresh') ∧
        ∀ name, (reopened.entries.lookup name).map HeapTableSource.metadata =
          (state.catalog.entries.lookup name).map HeapTableSource.metadata) := by
  obtain ⟨_, hstart⟩ := (create_sound hinv).ok hcreate
  obtain ⟨chain, ms, hs⟩ := hrun.inv hstart
  refine ⟨hs.agrees, fun hflush hfresh hsafe hfair hhealthy => ?_⟩
  obtain ⟨_, _, hcontent⟩ := content_of_flushAll hs.pool hflush
  have hquiet : Quiet store policy' fresh [] := quiet_withStrategy hfresh hsafe hfair hhealthy
  have hshown : logical store fresh = logical store state.pool :=
    (logical_withStrategy store hfresh).trans hcontent
  obtain ⟨_, fresh', hopen, reopened, rfl, hl⟩ := (open_returns hquiet hs hshown).returns
  exact ⟨reopened, fresh', hopen, hs.loaded.same_entries hl⟩

/-! ## A catalog in a pool of one frame -/

/-- A table of one column. -/
def exampleTable : CreateTable := ⟨"t", [⟨"x", .int32, false⟩], [.primaryKey [0]]⟩

/-- A new catalog gets a table and is flushed. -/
def exampleFlush (pool : BufferPool MemoryPageStore.State State) : Bool :=
  match create BufferPool.memory pool with
  | (.ok catalog, pool) =>
    match createTable BufferPool.memory exampleTable ⟨pool, catalog⟩ with
    | (.ok _, state) =>
      match flushAll MemoryPageStore ClockStrategy state.pool with
      | (.ok _, _) => true
      | _ => false
    | _ => false
  | _ => false

theorem exampleFlush_spec {pool : BufferPool MemoryPageStore.State State}
    (h : exampleFlush pool = true) : ∃ catalog pool0 source state pool1,
    create BufferPool.memory pool = (.ok catalog, pool0) ∧
    createTable BufferPool.memory exampleTable ⟨pool0, catalog⟩ = (.ok source, state) ∧
    flushAll MemoryPageStore ClockStrategy state.pool = (.ok (), pool1) := by
  unfold exampleFlush at h
  split at h
  · rename_i catalog pool0 hcreate
    split at h
    · rename_i source state htable
      split at h
      · rename_i pool1 hflush
        exact ⟨catalog, pool0, source, state, pool1, hcreate, htable, hflush⟩
      · cases h
    · cases h
  · cases h

theorem exampleFlush_oneFrame : exampleFlush oneFrame = true := by decide +kernel

/-- A pool in which this is done. -/
theorem example_pool : ∃ pool, BufferPool.memory.inv pool [] ∧ exampleFlush pool = true :=
  ⟨oneFrame, oneFrame_inOrder, exampleFlush_oneFrame⟩

/-- The flushed catalog is opened in another pool. -/
theorem reopened_is_separate : ∃ (catalog : HeapCatalog) (pool : BufferPool MemoryPageStore.State State),
    Separate (logical MemoryPageStore pool) catalog := by
  obtain ⟨pool, hinv, hrun⟩ := example_pool
  obtain ⟨catalog, pool₀, source, state, pool₁, hcreate, htable, hflush⟩ := exampleFlush_spec hrun
  have hover : ClockStrategy.Over 1 ⟨[false], 0⟩ := ClockStrategy.new_over rfl
  obtain ⟨_, hstart⟩ := (create_sound hinv).ok hcreate
  obtain ⟨_, _, hs⟩ := (CatalogRun.start.createTable htable).inv hstart
  obtain ⟨_, _, hcontent⟩ := content_of_flushAll hs.pool hflush
  obtain ⟨fresh, hfresh⟩ : ∃ fresh, withStrategy 1 pool₁.store (⟨[false], 0⟩ : State) =
      .ok fresh := ⟨_, rfl⟩
  have hquiet : Quiet MemoryPageStore ClockStrategy fresh [] := quiet_withStrategy hfresh
    (ClockStrategy.safeAt hover) (ClockStrategy.fairAt hover (by decide)) (MemoryPageStore.healthy _)
  obtain ⟨_, fresh', hopen, _⟩ := (open_returns hquiet hs
    ((logical_withStrategy _ hfresh).trans hcontent)).returns
  obtain ⟨reopened, _, hreopened⟩ := open_never_aliases hquiet.inOrder hopen
  exact ⟨reopened, fresh', (hreopened _ .start).1⟩

theorem agrees_after_reopening :
    ∃ (catalog reopened : HeapCatalog)
      (state : CatalogState (BufferPool MemoryPageStore.State State)),
      Agrees (logical MemoryPageStore state.pool) catalog.metadata.head state.catalog ∧
      ∀ name, (reopened.entries.lookup name).map HeapTableSource.metadata =
        (state.catalog.entries.lookup name).map HeapTableSource.metadata := by
  obtain ⟨pool, hinv, hrun⟩ := example_pool
  obtain ⟨catalog, pool₀, source, state, pool₁, hcreate, htable, hflush⟩ := exampleFlush_spec hrun
  have hover : ClockStrategy.Over 1 ⟨[false], 0⟩ := ClockStrategy.new_over rfl
  obtain ⟨hagrees, hreopen⟩ := cache_agrees_with_records hinv hcreate (.createTable .start htable)
  obtain ⟨reopened, _, _, hsame⟩ := hreopen hflush rfl (ClockStrategy.safeAt hover)
    (ClockStrategy.fairAt hover (by decide)) (MemoryPageStore.healthy _)
  exact ⟨catalog, reopened, state, hagrees, hsame⟩

end

end ChiliDB.HeapCatalog

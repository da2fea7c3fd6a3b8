import ChiliDB.Catalog.HeapCatalog
import ChiliDB.Heapam.HeapPins
import ChiliDB.Heapam.Heaps

/-!
# One frame is enough

Heaps and catalogs in one pool, with calls one after another in any order, on any handle and with any
failures of the store.

* `maintains_*` — the calls of a catalog keep an invariant of the pool if its page calls do (`Serves`).
* `Database` — a pool and what its clients hold: heap handles and catalogs, with their unfinished scans.
* `Database.Run` — the states of a database over a pool built by `BufferPool::new`.

Principal result: `one_frame_is_enough`.
-/

namespace ChiliDB

open Effect
open ClockStrategy (State)
open Exec (Maintains Ensures)

variable {σ α ε : Type} {service : PageService σ} {I : σ → Prop} {bad : Fault HeapError → Prop}

/-! ## Every call of a catalog -/

namespace HeapCatalog

/-- A bad error of a heap, passed on by the catalog. -/
def OfHeap (bad : Fault HeapError → Prop) : Fault CatalogError → Prop
  | .error (.heap e) => bad (.error e)
  | _ => False

theorem maintains_heap {J : α → Prop} {β : Type} {m : Exec HeapError α β} (hm : Maintains J bad m) :
    Maintains J (OfHeap bad) (.mapErr .heap m) := by
  apply Maintains.mapErr hm
  intro e he
  cases e with
  | error x => exact he
  | panic p => exact he.elim

theorem maintains_owning {bad : Fault ε → Prop} (table : HeapTable) {m : Exec ε (Heap σ) α}
    (hm : Maintains (fun heap => I heap.pool) bad m) : Maintains I bad (owning table m) := by
  intro s hs
  have hspec := hm ⟨s, table⟩ hs
  unfold Ensures at hspec
  unfold Ensures owning
  rcases hr : m ⟨s, table⟩ with ⟨r, heap⟩
  rw [hr] at hspec
  cases r with
  | ok a | error e => exact hspec

theorem maintains_iterating {bad : Fault ε → Prop} (table : HeapTable) (scan : HeapScan)
    {m : Exec ε (Scanning σ) α} (hm : Maintains (fun s => I s.heap.pool) bad m) :
    Maintains I bad (iterating table scan m) := by
  intro s hs
  have hspec := hm ⟨⟨s, table⟩, scan⟩ hs
  unfold Ensures at hspec
  unfold Ensures iterating
  rcases hr : m ⟨⟨s, table⟩, scan⟩ with ⟨r, s'⟩
  rw [hr] at hspec
  cases r with
  | ok a | error e => exact hspec

theorem maintains_locked {m : Entries → CatalogM σ α}
    (hm : ∀ entries, Maintains (fun s => I s.pool) (OfHeap bad) (m entries)) :
    Maintains (fun s => I s.pool) (OfHeap bad) (locked m) := by
  apply Maintains.bind .get
  intro s
  split
  · exact .fail id
  · exact .onPanic (hm _) fun _ hs => hs

variable (h : Serves service I bad)
include h

theorem maintains_create : Maintains I (OfHeap bad) (create service) := by
  apply Maintains.bind (maintains_heap (HeapTable.maintains_create h))
  intro table
  exact .bind (maintains_heap (maintains_owning table (HeapTable.maintains_insert h _))) fun _ => .pure _

theorem maintains_nextRecord : Maintains (fun s => I s.heap.pool) (OfHeap bad) (nextRecord service) := by
  intro s hs
  refine .bind (.mapErr ((HeapScan.next_maintains h s hs).mono ?_ ?_))
  · intro item s' hitem
    rcases item with _ | (e | record)
    · exact hitem.2
    · exact ⟨hitem.1 e rfl, hitem.2⟩
    · exact hitem.2
  · intro e s' hs'
    cases e with
    | error x => exact x.elim
    | panic p => exact ⟨id, hs'⟩

theorem maintains_openEntries (turns : Nat) : ∀ (entries : Entries) (roots : List PageId),
    Maintains (fun s => I s.heap.pool) (OfHeap bad) (openEntries service turns entries roots) := by
  induction turns with
  | zero => exact fun _ _ => .pure _
  | succ turns ih =>
    intro entries roots
    apply Maintains.bind (maintains_nextRecord h)
    intro record
    split
    · exact .pure _
    · split
      · exact .fail id
      · split
        · exact .fail id
        · split
          · exact .fail id
          · -- the scan of the metadata goes on while other heaps are opened
            refine .bind (maintains_heap (.zoom (HeapTable.maintains_open h _)
              (fun _ hs => hs) fun _ _ ht _ => ht)) fun heap => ih _ _

theorem maintains_openRecords (root : PageId) (turns : Nat) :
    Maintains (fun s => I s.heap.pool) (OfHeap bad) (openRecords service root turns) := by
  apply Maintains.bind (maintains_nextRecord h)
  intro record
  split
  · exact .fail id
  · split
    · exact maintains_openEntries h turns ∅ [root]
    · exact .fail id

theorem maintains_open (root : PageId) : Maintains I (OfHeap bad) (open_ service root) := by
  apply Maintains.bind (maintains_heap (HeapTable.maintains_open h root))
  intro table
  apply Maintains.bind (maintains_heap (maintains_owning table (HeapTable.maintains_scan h)))
  intro r
  exact .bind (maintains_iterating r.2 r.1 (maintains_openRecords h root _)) fun _ =>
    .pure _

theorem maintains_createTable (declaration : CreateTable) :
    Maintains (fun s => I s.pool) (OfHeap bad) (createTable service declaration) := by
  have hencoded : ∀ m, Maintains (fun s : CatalogState σ => I s.pool) (OfHeap bad) (.lift (encoded m)) := by
    intro m
    apply Maintains.lift
    intro e he
    unfold encoded at he
    split at he <;> cases he
    exact id
  apply maintains_locked
  intro entries
  split
  · exact .fail id
  · refine .bind (hencoded _) fun _ => .bind ?_ fun heap =>
      .bind (hencoded _) fun bytes => .bind ?_ fun _ =>
        .bind (.modify fun _ hs => hs) fun _ => .pure _
    · exact .zoom (maintains_heap (HeapTable.maintains_create h)) (fun _ hs => hs) fun _ _ ht _ => ht
    · exact .zoom (maintains_heap (HeapTable.maintains_insert h bytes)) (fun _ hs => hs) fun _ _ ht _ => ht

end HeapCatalog

/-! ## Heaps and catalogs in one pool -/

/-- A catalog, and the unfinished scans of its tables. -/
structure Shelf where
  catalog : HeapCatalog
  scans : String → List HeapScan

/-- A pool and what its clients hold. -/
structure Database (σ : Type) where
  pool : σ
  heaps : List Handle
  catalogs : List Shelf

/-- `k` selects a heap handle or a catalog. -/
inductive Operation where
  | createHeap
  | openHeap (head : PageId)
  | onHeap (k : Nat) (op : HeapCall)
  | createCatalog
  | openCatalog (root : PageId)
  | createTable (k : Nat) (declaration : CreateTable)
  /-- A call on `HeapTableSource::heap` of a table. -/
  | onTable (k : Nat) (name : String) (op : HeapCall)

inductive Answer where
  | opened (r : Result HeapError Unit)
  | heap (r : HeapAnswer)
  | catalog (r : Result CatalogError Unit)

/-- The operation failed badly, or a `next` returned such an error. -/
def Answer.Bad (bad : Fault HeapError → Prop) : Answer → Prop
  | .opened r => ∃ e, r = .error e ∧ bad e
  | .heap r => HeapAnswer.Bad bad r
  | .catalog r => ∃ e, r = .error e ∧ HeapCatalog.OfHeap bad e

namespace Database

/-- Keep a new heap handle. -/
def opened (db : Database σ) : Result HeapError HeapTable × σ → Answer × Database σ
  | (.ok table, pool) => (.opened (.ok ()), { db with pool := pool, heaps := db.heaps ++ [⟨table, []⟩] })
  | (.error e, pool) => (.opened (.error e), { db with pool := pool })

/-- Keep a new catalog. -/
def shelved (db : Database σ) : Result CatalogError (Option HeapCatalog) × σ → Answer × Database σ
  | (.ok (some catalog), pool) =>
    (.catalog (.ok ()), { db with pool := pool, catalogs := db.catalogs ++ [⟨catalog, fun _ => []⟩] })
  | (.ok none, pool) => (.catalog (.ok ()), { db with pool := pool })
  | (.error e, pool) => (.catalog (.error e), { db with pool := pool })

/-- One operation; `none` if there is no such handle, catalog, table or scan. -/
def perform (service : PageService σ) (db : Database σ) : Operation → Option (Answer × Database σ)
  | .createHeap => some (db.opened (HeapTable.create service db.pool))
  | .openHeap head => some (db.opened (HeapTable.open_ service head db.pool))
  | .onHeap k op =>
    db.heaps[k]?.bind fun handle =>
      ((handle.session db.pool).call service op).map fun r => (.heap r.1,
        { db with
          pool := r.2.heap.pool
          heaps := db.heaps.set k ⟨r.2.heap.table, r.2.scans⟩ })
  | .createCatalog =>
    some (db.shelved ((HeapCatalog.create service >>= fun catalog => pure (some catalog)) db.pool))
  | .openCatalog root => some (db.shelved (HeapCatalog.open_ service root db.pool))
  | .createTable k declaration =>
    db.catalogs[k]?.map fun shelf =>
      match HeapCatalog.createTable service declaration ⟨db.pool, shelf.catalog⟩ with
      | (r, s) => (.catalog (r.map fun _ => ()),
        { db with pool := s.pool, catalogs := db.catalogs.set k { shelf with catalog := s.catalog } })
  | .onTable k name op =>
    db.catalogs[k]?.bind fun shelf => (shelf.catalog.entries.lookup name).bind fun source =>
      (Session.call service ⟨⟨db.pool, source.heap⟩, shelf.scans name⟩ op).map fun r => (.heap r.1,
        { db with
          pool := r.2.heap.pool
          catalogs := db.catalogs.set k
            { catalog := { shelf.catalog with
                entries := shelf.catalog.entries.insert name { source with heap := r.2.heap.table } }
              scans := Function.update shelf.scans name r.2.scans } })

variable {db db' : Database σ} {a : Answer}

theorem opened_maintains {m : Exec HeapError σ HeapTable} (hm : Maintains I bad m)
    (hdb : I db.pool) (hrun : db.opened (m db.pool) = (a, db')) : ¬ a.Bad bad ∧ I db'.pool := by
  rcases hr : m db.pool with ⟨r, pool⟩
  rw [hr] at hrun
  obtain ⟨herr, hpool⟩ := hm.result hdb hr
  cases r with
  | ok table =>
    cases hrun
    exact ⟨fun ⟨_, he, _⟩ => (by cases he), hpool⟩
  | error e =>
    cases hrun
    refine ⟨fun hbad => ?_, hpool⟩
    obtain ⟨e', he, hb⟩ := hbad
    cases he
    exact herr e rfl hb

theorem shelved_maintains {m : Exec CatalogError σ (Option HeapCatalog)}
    (hm : Maintains I (HeapCatalog.OfHeap bad) m) (hdb : I db.pool)
    (hrun : db.shelved (m db.pool) = (a, db')) : ¬ a.Bad bad ∧ I db'.pool := by
  rcases hr : m db.pool with ⟨r, pool⟩
  rw [hr] at hrun
  obtain ⟨herr, hpool⟩ := hm.result hdb hr
  rcases r with e | (_ | catalog)
  · cases hrun
    refine ⟨fun hbad => ?_, hpool⟩
    obtain ⟨e', he, hb⟩ := hbad
    cases he
    exact herr e rfl hb
  · cases hrun
    exact ⟨fun ⟨_, he, _⟩ => (by cases he), hpool⟩
  · cases hrun
    exact ⟨fun ⟨_, he, _⟩ => (by cases he), hpool⟩

/-- **Every operation keeps an invariant of the pool that the page calls keep.** -/
theorem perform_maintains (h : Serves service I bad) (hdb : I db.pool) {op : Operation}
    (hop : db.perform service op = some (a, db')) : ¬ a.Bad bad ∧ I db'.pool := by
  cases op with
  | createHeap => exact opened_maintains (HeapTable.maintains_create h) hdb (Option.some.inj hop)
  | openHeap head => exact opened_maintains (HeapTable.maintains_open h head) hdb (Option.some.inj hop)
  | onHeap k op =>
    obtain ⟨handle, _, hop⟩ := Option.bind_eq_some_iff.1 hop
    obtain ⟨⟨r, ses⟩, hcall, hop⟩ := Option.map_eq_some_iff.1 hop
    cases hop
    exact Session.call_maintains h (show I (handle.session db.pool).heap.pool from hdb) hcall
  | createCatalog =>
    exact shelved_maintains (.bind (HeapCatalog.maintains_create h) fun _ =>
      .pure _) hdb (Option.some.inj hop)
  | openCatalog root =>
    exact shelved_maintains (HeapCatalog.maintains_open h root) hdb (Option.some.inj hop)
  | createTable k declaration =>
    obtain ⟨shelf, _, hop⟩ := Option.map_eq_some_iff.1 hop
    rcases hr : HeapCatalog.createTable service declaration ⟨db.pool, shelf.catalog⟩ with ⟨r, s⟩
    rw [hr] at hop
    cases hop
    obtain ⟨herr, hpool⟩ := (HeapCatalog.maintains_createTable h declaration).result hdb hr
    refine ⟨fun hbad => ?_, hpool⟩
    obtain ⟨e', he, hb⟩ := hbad
    cases r with
    | ok source => cases he
    | error e =>
      cases he
      exact herr _ rfl hb
  | onTable k name op =>
    obtain ⟨shelf, _, hop⟩ := Option.bind_eq_some_iff.1 hop
    obtain ⟨source, _, hop⟩ := Option.bind_eq_some_iff.1 hop
    obtain ⟨⟨r, ses⟩, hcall, hop⟩ := Option.map_eq_some_iff.1 hop
    cases hop
    exact Session.call_maintains h hdb hcall

/-! ## From a new pool on -/

variable {S : Type} {store : PageStore S}

/-- The databases over a pool with its default policy, and the answers of their operations.  Others may
use the pool between two operations if they hold no pin when they are done. -/
inductive Run (store : PageStore S) : Database (BufferPool S State) → List Answer → Prop where
  | start {capacity : Nat} {s : S} {pool : BufferPool S State} :
      BufferPool.new capacity s = .ok pool → Run store ⟨pool, [], []⟩ []
  | operation {db db' : Database (BufferPool S State)} {answers : List Answer}
      {op : Operation} {a : Answer} : Run store db answers →
      db.perform (BufferPool.service store ClockStrategy) op = some (a, db') →
      Run store db' (answers ++ [a])
  | others {db : Database (BufferPool S State)} {answers : List Answer}
      {pool : BufferPool S State} : Run store db answers →
      Calls store ClockStrategy ⟨db.pool, []⟩ ⟨pool, []⟩ → Run store { db with pool := pool } answers

theorem Run.clear {db : Database (BufferPool S State)} {answers : List Answer} (h : Run store db answers) :
    Clear store db.pool ∧ ∀ a ∈ answers, ¬ a.Bad HeapStarved := by
  induction h with
  | start hnew => exact ⟨clocked_new hnew, fun a ha => by cases ha⟩
  | operation _ hop ih =>
    obtain ⟨hgood, hclear⟩ := perform_maintains (clear_serves store) ih.1 hop
    refine ⟨hclear, fun a ha => ?_⟩
    rcases List.mem_append.1 ha with ha | ha
    · exact ih.2 a ha
    · rw [List.mem_singleton.1 ha]
      exact hgood
  | others _ hcalls ih => exact ⟨ih.1.calls hcalls, ih.2⟩

/-- **One frame is enough.**  In every sequence of heap and catalog operations over a pool of any capacity
with its default policy, whatever the store answers, no operation fails with `AllPinned` or
`InvalidVictim` and no `next` returns such an error; and after every operation no frame is pinned, also
while scans are unfinished. -/
theorem one_frame_is_enough {db : Database (BufferPool S State)} {answers : List Answer}
    (h : Run store db answers) :
    (∀ a ∈ answers, ¬ a.Bad HeapStarved) ∧ ∀ frame ∈ db.pool.frames, frame.pins = 0 :=
  ⟨h.clear.2, h.clear.1.unpinned⟩

/-- A heap and a catalog in a pool of one frame. -/
theorem one_frame_for_a_heap_and_a_catalog :
    ∃ (db : Database (BufferPool MemoryPageStore.State State)) (a b : Answer),
      Run MemoryPageStore db [a, b] ∧ ¬ a.Bad HeapStarved ∧ ¬ b.Bad HeapStarved ∧
      ∀ frame ∈ db.pool.frames, frame.pins = 0 := by
  have h0 : Run MemoryPageStore ⟨oneFrame, [], []⟩ [] :=
    .start (show BufferPool.new 1 ([] : MemoryPageStore.State) = .ok oneFrame from rfl)
  obtain ⟨⟨a, db₁⟩, ha⟩ := Option.isSome_iff_exists.1
    (show (perform BufferPool.memory ⟨oneFrame, [], []⟩ .createHeap).isSome = true from rfl)
  obtain ⟨⟨b, db₂⟩, hb⟩ := Option.isSome_iff_exists.1
    (show (perform BufferPool.memory db₁ .createCatalog).isSome = true from rfl)
  have hrun := (h0.operation ha).operation hb
  have h := one_frame_is_enough hrun
  exact ⟨db₂, a, b, hrun, h.1 a (by simp), h.1 b (by simp), h.2⟩

end Database

end ChiliDB

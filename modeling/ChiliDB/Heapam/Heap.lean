import ChiliDB.Heapam.Page
import ChiliDB.Storage.PageService
import Mathlib.Data.Fintype.Card

/-!
# Heap tables

`crates/heapam/src/heap.rs`: chains of slotted pages over a buffer pool.  A handle caches its chain;
its mutex is held for the whole of each call, and a panic under it poisons the handle.

* `HeapTable` — the handle: the head page, the cached chain and its inverse.
* `create`, `open_` — over the pool alone; `insert`, `get`, `delete`, `replace`, `scan` — over the pool
  and the handle (`Heap σ`); `HeapScan.next` — over these and the iterator.

A page callback returns its error to the pool as a value (`Result<Result<T, HeapError>, _>`), and
`flatten` is the `??` behind it.
-/

namespace ChiliDB

open Effect

/-- The head and the `State` behind the mutex. -/
structure HeapTable where
  head : PageId
  pages : List PageId
  indices : AList (fun _ : PageId => Nat)
  /-- The state mutex is poisoned. -/
  poisoned : Bool

/-- A handle and the pool behind it. -/
structure Heap (σ : Type) where
  pool : σ
  table : HeapTable

abbrev HeapM (σ : Type) := Exec HeapError (Heap σ)

namespace HeapTable

variable {σ α : Type} (service : PageService σ)

/-! ## Callbacks on one page -/

/-- `??`. -/
def flatten (m : Exec BufferError σ (Except HeapError α)) : Exec HeapError σ α := do
  match ← Exec.mapErr HeapError.buffer m with
  | .ok a => pure a
  | .error e => Exec.fail e

/-- `pool.pin(id)?.read(f)??`. -/
def readPage (id : PageId) (f : Page → Result HeapError α) : Exec HeapError σ α :=
  flatten (Exec.bracket (service.pin id)
    (fun pin => service.read pin fun page => (f page).attempt) service.drop)

/-- `pool.pin(id)?.write(f)??`. -/
def writePage (id : PageId) (f : Exec HeapError Page α) : Exec HeapError σ α :=
  flatten (Exec.bracket (service.pin id) (fun pin => service.write pin f.attempt) service.drop)

/-- `let pin = pool.new_page()?; pin.write(f)??`, with the page id. -/
def createPage (f : PageId → Exec HeapError Page α) : Exec HeapError σ (PageId × α) :=
  flatten (Exec.bracket service.newPage (fun pin => do
      let r ← service.write pin (f pin.page).attempt
      pure (r.map fun a => (pin.page, a)))
    service.drop)

/-! ## Opening a handle -/

def create : Exec HeapError σ HeapTable := do
  let (head, _) ← createPage service fun id => do
    let page ← Exec.lift (HeapPage.initPage id)
    Exec.set page
  pure ⟨head, [head], AList.singleton head 0, false⟩

/-- There are `2 ^ 32` page ids, so a map that misses one of them is smaller. -/
theorem length_keys_lt {indices : AList (fun _ : PageId => Nat)} {id : PageId} (h : id ∉ indices) :
    indices.keys.length < 2 ^ 32 := by
  have hnodup : ((id :: indices.keys).map UInt32.toFin).Nodup :=
    (List.nodup_cons.2 ⟨fun hm => h (AList.mem_keys.2 hm), indices.keys_nodup⟩).map
      (fun a b hab => UInt32.toFin_inj.1 hab)
  have hle := hnodup.length_le_card
  rw [List.length_map, List.length_cons, Fintype.card_fin] at hle
  exact hle

/-- The loop of `open`; every turn caches a page that was not cached before. -/
def openFrom (head : PageId) (pages : List PageId) (indices : AList (fun _ : PageId => Nat)) :
    Option PageId → Exec HeapError σ HeapTable
  | none => pure ⟨head, pages, indices, false⟩
  | some id =>
    if _ : id ∈ indices then
      Exec.fail (.corrupt "cycle in page chain")
    else do
      let header ← readPage service id HeapPage.header
      if header.owner ≠ head then
        Exec.fail (.corrupt "page belongs to another heap")
      else
        openFrom head (pages ++ [id]) (indices.insert id pages.length) header.next
termination_by 2 ^ 32 - indices.keys.length
decreasing_by
  rename_i h _
  have hlt := length_keys_lt h
  have hlen : (indices.insert id pages.length).keys.length = indices.keys.length + 1 := by
    rw [AList.keys_insert, List.length_cons, List.erase_of_not_mem (fun hm => h (AList.mem_keys.2 hm))]
  omega

/-- Validate and cache the complete chain. -/
def open_ (head : PageId) : Exec HeapError σ HeapTable :=
  openFrom service head [] ∅ (some head)

/-! ## Under the state mutex -/

def poison (heap : Heap σ) : Heap σ := { heap with table := { heap.table with poisoned := true } }

/-- `self.state()?`, held by `m`. -/
def locked (m : HeapTable → HeapM σ α) : HeapM σ α := do
  let heap ← Exec.get
  if heap.table.poisoned then
    Exec.fail .poisoned
  else
    Exec.onPanic (m heap.table) poison

/-- A computation over the pool. -/
def onPool (m : Exec HeapError σ α) : HeapM σ α :=
  Exec.zoom Heap.pool (fun pool heap => { heap with pool := pool }) m

def checkedHeader (table : HeapTable) (index : Nat) (page : Page) : Result HeapError HeapPage.Header := do
  let header ← HeapPage.header page
  if header.owner ≠ table.head then
    Result.fail (.corrupt "page belongs to another heap")
  else if header.next ≠ table.pages[index + 1]? then
    Result.fail (.corrupt "page chain changed outside this heap handle")
  else
    pure header

/-- A callback that changes a page behind its header check. -/
def checked (table : HeapTable) (index : Nat) (f : Exec HeapError Page α) : Exec HeapError Page α := do
  let page ← Exec.get
  let _ ← Exec.lift (checkedHeader table index page)
  f

/-- `state.indices.get(&ctid.page_id).ok_or(HeapError::InvalidCtid(ctid))`. -/
def indexOf (table : HeapTable) (ctid : Ctid) : Result HeapError Nat :=
  match table.indices.lookup ctid.pageId with
  | some index => .ok index
  | none => Result.fail (.invalidCtid ctid)

/-! ## Insertion -/

def validateTuple (bytes : Bytes) : Result HeapError Unit := HeapPage.checkTuple bytes

/-- The page behind a full tail gets the head as its owner, and the record. -/
def startPage (table : HeapTable) (bytes : Bytes) : Exec HeapError Page SlotId := do
  let page ← Exec.lift (HeapPage.initPage table.head)
  Exec.set page
  match ← HeapPage.insert bytes with
  | some slotId => pure slotId
  | none => Exec.fail (.corrupt "valid tuple cannot fit on a new page")

/-- `state.pages.push(new_page)` and its index. -/
def publish (page : PageId) (heap : Heap σ) : Heap σ :=
  { heap with table := { heap.table with
      pages := heap.table.pages ++ [page]
      indices := heap.table.indices.insert page heap.table.pages.length } }

/-- Link a new page behind the full tail. -/
def extend (table : HeapTable) (index : Nat) (tail : PageId) (bytes : Bytes) : HeapM σ Ctid := do
  let (newPage, slotId) ← onPool (createPage service fun _ => startPage table bytes)
  onPool (writePage service tail (checked table index (HeapPage.setNext (some newPage))))
  Exec.modify (publish newPage)
  pure ⟨newPage, slotId⟩

/-- Append into the tail page or link a new one. -/
def insert (bytes : Bytes) : HeapM σ Ctid := do
  Exec.lift (validateTuple bytes)
  locked fun table => do
    let index ← Exec.lift (Result.sub table.pages.length 1)
    let tail ← Exec.lift (Result.index table.pages index)
    match ← onPool (writePage service tail (checked table index (HeapPage.insert bytes))) with
    | some slotId => pure ⟨tail, slotId⟩
    | none => extend service table index tail bytes

/-! ## Access by CTID -/

def get (ctid : Ctid) : HeapM σ (Option Bytes) := locked fun table => do
  let index ← Exec.lift (indexOf table ctid)
  onPool (readPage service ctid.pageId fun page => do
    let _ ← checkedHeader table index page
    HeapPage.get page ctid.slotId)

def delete (ctid : Ctid) : HeapM σ Bool := locked fun table => do
  let index ← Exec.lift (indexOf table ctid)
  onPool (writePage service ctid.pageId (checked table index (HeapPage.delete ctid.slotId)))

/-- The callback of `replace` behind the header check. -/
def replaceLive (slotId : SlotId) (bytes : Bytes) : Exec HeapError Page Bool := do
  let page ← Exec.get
  match ← Exec.lift (HeapPage.get page slotId) with
  | none => pure false
  | some _ =>
    if ← HeapPage.replace slotId bytes then pure true else Exec.fail .noSpace

/-- Replace at the same CTID. -/
def replace (ctid : Ctid) (bytes : Bytes) : HeapM σ Bool := do
  Exec.lift (validateTuple bytes)
  locked fun table => do
    let index ← Exec.lift (indexOf table ctid)
    onPool (writePage service ctid.pageId (checked table index (replaceLive ctid.slotId bytes)))

end HeapTable

/-! ## Scans -/

/-- The iterator: the captured pages with their slot counts, the next one to read, and the rows read
but not returned. -/
structure HeapScan where
  pages : List (PageId × Nat)
  index : Nat
  rows : List (Ctid × Bytes)
  failed : Bool

/-- An iterator and the heap it borrows. -/
structure Scanning (σ : Type) where
  heap : Heap σ
  scan : HeapScan

namespace HeapTable

variable {σ : Type} (service : PageService σ)

/-- The loop of `scan` from page number `index` on. -/
def captureFrom (table : HeapTable) (index : Nat) :
    List PageId → Exec HeapError σ (List (PageId × Nat))
  | [] => pure []
  | id :: ids => do
    let header ← readPage service id (checkedHeader table index)
    let rest ← captureFrom table (index + 1) ids
    pure ((id, header.slots) :: rest)

/-- Capture the slot count of every page. -/
def scan : HeapM σ HeapScan := locked fun table => do
  let pages ← onPool (captureFrom service table 0 table.pages)
  pure ⟨pages, 0, [], false⟩

/-- The callback of `read_scan_page`. -/
def scanRows (table : HeapTable) (index : Nat) (id : PageId) (slots : Nat) (page : Page) :
    Result HeapError (List (Ctid × Bytes)) := do
  let header ← checkedHeader table index page
  if header.slots < slots then
    Result.fail (.corrupt "slot directory shrank")
  else
    let records ← HeapPage.records page slots
    pure (records.map fun record => (⟨id, record.1⟩, record.2))

def readScanPage (id : PageId) (slots : Nat) : HeapM σ (List (Ctid × Bytes)) :=
  locked fun table =>
    match table.indices.lookup id with
    | none => Exec.fail (.corrupt "scan page disappeared")
    | some index => onPool (readPage service id (scanRows table index id slots))

end HeapTable

/-- What `next` returns. -/
abbrev ScanItem := Option (Except HeapError (Ctid × Bytes))

namespace HeapScan

variable {σ : Type} (service : PageService σ)

def onHeap {ε α : Type} (m : Exec ε (Heap σ) α) : Exec ε (Scanning σ) α :=
  Exec.zoom Scanning.heap (fun heap s => { s with heap := heap }) m

def modifyScan (f : HeapScan → HeapScan) : Exec Empty (Scanning σ) Unit :=
  Exec.modify fun s => { s with scan := f s.scan }

/-- `self.rows.pop_front()`. -/
def popFront : Exec Empty (Scanning σ) (Option (Ctid × Bytes)) := do
  let s ← Exec.get
  modifyScan fun scan => { scan with rows := scan.rows.tail }
  pure s.scan.rows.head?

/-- The loop of `next`; the list is `pages` from the current index on. -/
def nextFrom : List (PageId × Nat) → Exec Empty (Scanning σ) ScanItem
  | [] => do
    match ← popFront with
    | some row => pure (some (.ok row))
    | none => pure none
  | (id, slots) :: rest => do
    match ← popFront with
    | some row => pure (some (.ok row))
    | none =>
      modifyScan fun scan => { scan with index := scan.index + 1 }
      match ← onHeap (HeapTable.readScanPage service id slots).attempt with
      | .ok rows => do
        modifyScan fun scan => { scan with rows := rows }
        nextFrom rest
      | .error error => do
        modifyScan fun scan => { scan with failed := true }
        pure (some (.error error))

/-- `Iterator::next`. -/
def next : Exec Empty (Scanning σ) ScanItem := do
  let s ← Exec.get
  if s.scan.failed then
    pure none
  else
    nextFrom service (s.scan.pages.drop s.scan.index)

end HeapScan

end ChiliDB
